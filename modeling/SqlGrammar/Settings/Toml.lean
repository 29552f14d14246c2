import SqlGrammar.Schema.Mismatch
import SqlGrammar.Settings
import SqlGrammar.Toml.Document

/-!
Settings read from a TOML document. They stand in the table `firebird`; a document without it, and a
table without a setting, gives the defaults. Other tables and keys mean nothing here. The settings
may also be given as an array, in their order.
-/

namespace SqlGrammar

inductive Settings.Fault
  /-- The text is not TOML. -/
  | malformed
  /-- A value of another type. -/
  | type (found : Schema.Found) (expected : String)
  deriving DecidableEq

namespace Settings

def found : Toml → Schema.Found
  | .string s => .string s
  | .integer n => .integer n
  | .float d => .float d
  | .boolean b => .bool b
  | .array _ | .tables _ => .sequence
  | .moment | .table .. => .map

def mistyped {α : Type} (expected : String) (v : Toml) : Except Fault α :=
  .error (.type (found v) expected)

def text : Toml → Except Fault String
  | .string s => .ok s
  | v => mistyped "a string" v

def truth : Toml → Except Fault Bool
  | .boolean b => .ok b
  | v => mistyped "a boolean" v

/-- Settings from the entries of a table, read in their order. -/
def ofEntries (s : Settings) : Toml.Entries → Except Fault Settings
  | [] => .ok s
  | (k, v) :: r =>
    if k = "table_prefix" then do
      let tablePrefix ← text v
      ofEntries { s with tablePrefix := tablePrefix } r
    else if k = "quote_identifiers" then do
      let quoteIdentifiers ← truth v
      ofEntries { s with quoteIdentifiers := quoteIdentifiers } r
    else ofEntries s r

/-- Settings from the items of an array; those after the second one mean nothing. -/
def ofItems : List Toml → Except Fault Settings
  | [] => .ok {}
  | [p] => do
    let tablePrefix ← text p
    return { tablePrefix := tablePrefix }
  | p :: q :: _ => do
    let tablePrefix ← text p
    let quoteIdentifiers ← truth q
    return { tablePrefix := tablePrefix, quoteIdentifiers := quoteIdentifiers }

/-- Settings from the value of `firebird`. A date or a time counts as a table of which no key is
known. -/
def ofToml : Toml → Except Fault Settings
  | .table _ entries => ofEntries {} entries
  | .array items | .tables items => ofItems items
  | .moment => .ok {}
  | v => mistyped "struct GrammarConfig" v

def ofText (s : String) : Except Fault Settings :=
  match Toml.document? s with
  | none => .error .malformed
  | some entries => match entries.lookup "firebird" with
    | none => .ok {}
    | some v => ofToml v

/-- Doubles in messages about settings: never with an exponent, whole ones with `.0`. -/
def floatLayout : Layout :=
  { tie := .up, isPlain := fun _ => true, whole := ".0", infinity := "inf", nan := "NaN" }

/-- What is wrong with a value, in words; nothing for a text that is not TOML. -/
def Fault.message : Fault → String
  | malformed => ""
  | type found expected => "invalid type: " ++ found.text floatLayout ++ ", expected " ++ expected

end Settings

end SqlGrammar
