import SqlGrammar.Record
import SqlGrammar.Text.Letter

/-!
Rows that come back from a database, and the look-up of a column in them. The exact name goes first;
since Firebird reports unquoted names in upper case, a name that differs in letter case only is the
second choice.
-/

namespace SqlGrammar

/-- The place of a column: of the first equal name, else of the first one equal up to letter case.
-/
def columnIndex? (names : List String) (column : String) : Option Nat :=
  match names.findIdx? fun n => n = column with
  | some i => some i
  | none => names.findIdx? fun n => Text.sameLetters n column

/-- A look-up by key in entries that come in no particular order: the entry with this key, else the
first entry to come whose key is equal up to letter case. -/
def entryOf? (entries : List (String × Value)) (column : String) : Option Value :=
  match entries.find? fun e => e.1 = column with
  | some e => some e.2
  | none => (entries.find? fun e => Text.sameLetters e.1 column).map (·.2)

/-- A returned row: columns and values in the order of the select. A column may come twice. -/
structure Row where
  fields : List (String × Value) := []
  deriving DecidableEq

namespace Row

def push (r : Row) (column : String) (value : Value) : Row := ⟨r.fields ++ [(column, value)]⟩

def ofList (pairs : List (String × Value)) : Row := pairs.foldl (fun r p => r.push p.1 p.2) {}

def columns (r : Row) : List String := r.fields.map (·.1)

def values (r : Row) : List Value := r.fields.map (·.2)

def at? (r : Row) (i : Nat) : Option Value := r.values[i]?

def get? (r : Row) (column : String) : Option Value := (columnIndex? r.columns column).bind r.at?

end Row

def Record.get? (r : Record) (column : String) : Option Value :=
  (columnIndex? r.columns column).bind fun i => r.values[i]?

end SqlGrammar
