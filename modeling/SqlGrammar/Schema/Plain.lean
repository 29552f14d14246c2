import SqlGrammar.Schema.Placed

/-!
The plain parts that a description is made of: texts, truth values, lists, and words that name one
of a few variants. Each is read from data, or from the outline of a text. A word may also be written
as a record with the word as its one key and nothing as its value.
-/

namespace SqlGrammar.Schema

open Json

def found : Json → Found
  | .null => .null
  | .bool b => .bool b
  | .number (.integer n) => .integer n
  | .number (.float d) => .float d
  | .string s => .string s
  | .list _ => .sequence
  | .record _ => .map

/-- The fault of data that should be something else. -/
def mistyped {α : Type} (expected : String) (j : Json) : Except ReadError α :=
  .error (.mismatch (.type (found j) expected))

/-- The fault of an outline that should be something else. A value that is itself at fault is
reported for that; lists and records are not looked into. -/
def mistypedText {α : Type} (expected : String) (o : Outline) : Except ReadError α :=
  let type (f : Found) : ReadError := .mismatch (.type f expected)
  .error <| match o with
    | .null => type .null
    | .bool b => type (.bool b)
    | .number (.ok (.integer n)) => type (.integer n)
    | .number (.ok (.float d)) => type (.float d)
    | .string (.ok s) => type (.string s)
    | .list .. => type .sequence
    | .record .. => type .map
    | .number (.error f) | .string (.error f) | .broken f _ => .malformed f

def looked {α : Type} : Except Fault α → Except ReadError α
  | .ok a => .ok a
  | .error f => .error (.malformed f)

/-! ## Texts, truth values and lists -/

def text : Json → Except ReadError String
  | .string s => .ok s
  | j => mistyped "a string" j

def truth : Json → Except ReadError Bool
  | .bool b => .ok b
  | j => mistyped "a boolean" j

def list {α : Type} (read : Json → Except ReadError α) : Json → Except ReadError (List α)
  | .list items => readAll read items
  | j => mistyped "a sequence" j

def textOf : Outline → Except ReadError String
  | .string (.ok s) => .ok s
  | o => mistypedText "a string" o

def truthOf : Outline → Except ReadError Bool
  | .bool b => .ok b
  | o => mistypedText "a boolean" o

/-- A list, with `room` levels of nesting left; the items are read with one level less. -/
def listOf {α : Type} (read : Nat → Outline → Except ReadError α) (room : Nat) :
    Outline → Except ReadError (List α)
  | .list items stop =>
    match room with
    | 0 => .error (.malformed .tooDeep)
    | room + 1 => do
      let values ← readAll (read room) items
      looked stop.strict
      return values
  | o => mistypedText "a sequence" o

/-- Something that may be `null` instead. -/
def optionOf {α : Type} (read : Outline → Except ReadError α) :
    Outline → Except ReadError (Option α)
  | .null => .ok none
  | o => (read o).map some

/-! ## Words -/

def variant {α : Type} (words : List (String × α)) (word : String) : Except ReadError α :=
  match words.lookup word with
  | some a => .ok a
  | none => .error (.mismatch (.unknownVariant word (words.map (·.1))))

/-- What stands for nothing: `null`, and where `lenient` also a record without members. -/
def nothing (lenient : Bool) : Json → Except ReadError Unit
  | .null => .ok ()
  | .record [] => if lenient then .ok () else mistyped "unit" (.record [])
  | j => mistyped "unit" j

def word {α : Type} (lenient : Bool) (words : List (String × α)) : Json → Except ReadError α
  | .string s => variant words s
  | .record [(k, v)] => do
    let a ← variant words k
    nothing lenient v
    return a
  | .record _ => .error (.mismatch .severalKeys)
  | j => mistyped "string or map" j

/-- A word that names a variant, in a text. Anything but a string or a record with one key is no
value here at all. -/
def wordOf {α : Type} (words : List (String × α)) (room : Nat) : Outline → Except ReadError α
  | .string (.ok s) => variant words s
  | .string (.error f) => .error (.malformed f)
  | .record members stop =>
    match room, members, stop with
    | 0, _, _ => .error (.malformed .tooDeep)
    | _, [], .closed => .error (.malformed .expectedValue)
    | _, [], .broken f _ => .error (.malformed f)
    | _, (k, v) :: more, stop => do
      let a ← variant words (← looked k)
      match v with
      | .null => pure ()
      | v => mistypedText "unit" v
      match more, stop with
      | [], .closed => return a
      | [], .broken .endInObject .endInObject => .error (.malformed .endInObject)
      | _, _ => .error (.malformed .expectedValue)
  | .broken f _ =>
    match f with
    | .endInWord | .endInNumeral | .badNumber | .expectedWord => .error (.malformed .expectedValue)
    | f => .error (.malformed f)
  | _ => .error (.malformed .expectedValue)

/-! ## Records of fixed members -/

/-- The members of a record up to the first one without a proper key, and the fault of that key. -/
def namedMembers : List (Key × Outline) → List (String × Outline) × Except Fault Unit
  | [] => ([], .ok ())
  | (k, v) :: r =>
    match k with
    | .error f => ([], .error f)
    | .ok s =>
      let (members, fault) := namedMembers r
      ((s, v) :: members, fault)

/-- Gets past the members that are none of the known ones. -/
def skipStrangers (known : List String) (place : Nat) : List (String × Outline) → Placed Unit
  | [] => .ok ()
  | (k, v) :: r =>
    if k ∈ known then skipStrangers known (place + 1) r
    else match v.skip with
      | .ok () => skipStrangers known (place + 1) r
      | .error f => .fault place (.malformed f)

def recordEnd (members : List (String × Outline)) (keys : Except Fault Unit) (stop : RecordStop) :
    Placed Unit :=
  Placed.look members.length (do keys; stop.strict)

/-- The end of a list in a text that stands for a record of `count` members. -/
def listEnd (count : Nat) (items : List Outline) (stop : ListStop) : Placed Unit :=
  if items.length < count then Placed.look items.length stop.strict
  else if items.length = count then Placed.look count stop.final
  else .fault count (.malformed .trailingText)

def elements (count : Nat) : String := Text.natural count ++ " elements"

/-- A record of fixed members in a text, or a list of them in their order. -/
def formOf {α : Type} (name : String) (members : List String)
    (read : Nat → Source Outline → Placed α) (room : Nat) : Outline → Except ReadError α
  | .record given stop =>
    match room with
    | 0 => .error (.malformed .tooDeep)
    | room + 1 =>
      let (given, keys) := namedMembers given
      (read room (.named given) <* skipStrangers members 0 given <*
        recordEnd given keys stop).result
  | .list items stop =>
    match room with
    | 0 => .error (.malformed .tooDeep)
    | room + 1 =>
      let form := name ++ " with " ++ elements members.length
      (read room (.listed items form) <* listEnd members.length items stop).result
  | o => mistypedText name o

end SqlGrammar.Schema
