import SqlGrammar.Json.Fault
import SqlGrammar.Json.Tree

/-!
The outline of a JSON text: its shape, taken down also where the text is faulty. A fault is kept at
the place where it stands, so that whoever reads the outline meets the faults in the order of the
text, and meets only those of the parts that are looked at. There are two ways to look. A strict
look (`strict`) wants JSON data, with nesting up to a limit. A lax look (`skip`) only wants to get
past a part that means nothing: it takes numbers beyond the doubles and lone surrogates as they
come, and nesting of any depth. Where a text breaks off, the two may call the fault by different
names.
-/

namespace SqlGrammar.Json

inductive ListStop
  | closed
  /-- The text ends after the bracket or after an item. -/
  | endOfText
  /-- Neither a comma nor the closing bracket follows an item. -/
  | noSeparator
  /-- The closing bracket follows a comma. -/
  | trailingComma
  deriving DecidableEq

/-- How a record ends: closed, or with a fault as a strict and as a lax look call it. -/
inductive RecordStop
  | closed
  | broken (strict lax : Fault)
  deriving DecidableEq

/-- A key: its text, or a fault of the string that a lax look passes by. -/
abbrev Key := Except Fault String

/-- The shape of a JSON text. -/
inductive Outline
  | null
  | bool (b : Bool)
  | number (n : Except Fault Number)
  | string (s : Except Fault String)
  | list (items : List Outline) (stop : ListStop)
  | record (members : List (Key × Outline)) (stop : RecordStop)
  /-- The text breaks off in this value. -/
  | broken (strict lax : Fault)

namespace ListStop

/-- Past the end of a list, for a strict look. -/
def strict : ListStop → Except Fault Unit
  | closed => .ok ()
  | endOfText => .error .endInList
  | noSeparator => .error .expectedListEnd
  | trailingComma => .error .trailingComma

/-- Past the end of a list, for a lax look. -/
def skip : ListStop → Except Fault Unit
  | closed => .ok ()
  | endOfText => .error .endInList
  | noSeparator => .error .expectedListEnd
  | trailingComma => .error .expectedValue

/-- Past the end of a list that should hold no more items. -/
def final : ListStop → Except Fault Unit
  | closed => .ok ()
  | endOfText => .error .endInList
  | noSeparator => .error .trailingText
  | trailingComma => .error .trailingComma

end ListStop

namespace RecordStop

def strict : RecordStop → Except Fault Unit
  | closed => .ok ()
  | broken f _ => .error f

def skip : RecordStop → Except Fault Unit
  | closed => .ok ()
  | broken _ f => .error f

end RecordStop

namespace Outline

mutual

/-- The data of an outline, with `room` levels of nesting left. -/
def strict (room : Nat) : Outline → Except Fault Json
  | null => .ok .null
  | bool b => .ok (.bool b)
  | number n => n.map .number
  | string s => s.map .string
  | list items stop =>
    match room with
    | 0 => .error .tooDeep
    | room + 1 => do
      let items ← strictItems room items
      stop.strict
      return .list items
  | record members stop =>
    match room with
    | 0 => .error .tooDeep
    | room + 1 => do
      let members ← strictMembers room members
      stop.strict
      return .record members
  | broken f _ => .error f

def strictItems (room : Nat) : List Outline → Except Fault (List Json)
  | [] => .ok []
  | o :: os => do
    let j ← strict room o
    let js ← strictItems room os
    return j :: js

def strictMembers (room : Nat) : List (Key × Outline) → Except Fault (List (String × Json))
  | [] => .ok []
  | (k, o) :: ms => do
    let k ← k
    let j ← strict room o
    let ms ← strictMembers room ms
    return (k, j) :: ms

end

mutual

/-- Gets past an outline that means nothing. -/
def skip : Outline → Except Fault Unit
  | null | bool _ | number _ | string _ => .ok ()
  | list items stop => do
    skipItems items
    stop.skip
  | record members stop => do
    skipMembers members
    stop.skip
  | broken _ f => .error f

def skipItems : List Outline → Except Fault Unit
  | [] => .ok ()
  | o :: os => do
    skip o
    skipItems os

def skipMembers : List (Key × Outline) → Except Fault Unit
  | [] => .ok ()
  | (_, o) :: ms => do
    skip o
    skipMembers ms

end

/-- The levels of nesting that a strict look goes along with. -/
def maxDepth : Nat := 127

end Outline

end SqlGrammar.Json
