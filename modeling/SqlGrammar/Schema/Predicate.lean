import SqlGrammar.Predicate
import SqlGrammar.Schema.Value

/-!
Predicates as JSON. The member `type` says which test or group it is, wherever it stands; the others
are the parts of that test. The connective is `and` and a test is not negated unless it says so.
-/

namespace SqlGrammar

namespace Test

/-- The members of a test as JSON, after the tag. -/
def members : Test → List (String × Json)
  | compare column operator value =>
    [("column", .string column), ("operator", .string operator), ("value", value.toJson)]
  | columns first operator second =>
    [("first", .string first), ("operator", .string operator), ("second", .string second)]
  | oneOf column values negated =>
    [("column", .string column), ("values", .list (values.map Value.toJson)),
      ("negated", .bool negated)]
  | isNull column negated => [("column", .string column), ("negated", .bool negated)]
  | between column low high negated =>
    [("column", .string column), ("low", low.toJson), ("high", high.toJson),
      ("negated", .bool negated)]
  | raw sql bindings =>
    [("sql", .string sql), ("bindings", .list (bindings.map Value.toJson))]

def tag : Test → String
  | compare .. => "basic"
  | columns .. => "column"
  | oneOf .. => "in"
  | isNull .. => "null"
  | between .. => "between"
  | raw .. => "raw"

end Test

namespace Predicate

mutual

def toJson : Predicate → Json
  | test c t =>
    .record (("type", .string t.tag) :: t.members ++ [("boolean", .string c.word)])
  | group c ps =>
    .record [("type", .string "nested"), ("wheres", .list (listJson ps)),
      ("boolean", .string c.word)]

def listJson : List Predicate → List Json
  | [] => []
  | p :: ps => p.toJson :: listJson ps

end

end Predicate

namespace Schema

open Json

inductive Kind
  | compare
  | columns
  | oneOf
  | isNull
  | between
  | group
  | raw
  deriving DecidableEq

def kinds : List (String × Kind) :=
  [("basic", .compare), ("column", .columns), ("in", .oneOf), ("null", .isNull),
    ("between", .between), ("nested", .group), ("raw", .raw)]

def connectives : List (String × Connective) := [("and", .and), ("or", .or)]

/-- The connective of a predicate, the field with the given number. -/
def connective (number : Nat) (s : Source Json) : Placed Connective :=
  field number "boolean" (word true connectives) (some .and) s

def negation (number : Nat) (s : Source Json) : Placed Bool :=
  field number "negated" truth (some false) s

/-- The name and the number of the parts of a predicate. -/
def Kind.form : Kind → String × Nat
  | compare => ("Basic", 4)
  | columns => ("Column", 4)
  | oneOf => ("In", 4)
  | isNull => ("Null", 3)
  | between => ("Between", 5)
  | group => ("Nested", 2)
  | raw => ("Raw", 3)

/-- The parts of a predicate; the members of a group are read by `member`. -/
def parts (member : Json → Except ReadError Predicate) (s : Source Json) : Kind → Placed Predicate
  | .compare =>
    (fun column operator v c => .test c (.compare column operator v))
      <$> field 0 "column" text none s <*> field 1 "operator" text none s
      <*> field 2 "value" value none s <*> connective 3 s
  | .columns =>
    (fun first operator second c => .test c (.columns first operator second))
      <$> field 0 "first" text none s <*> field 1 "operator" text none s
      <*> field 2 "second" text none s <*> connective 3 s
  | .oneOf =>
    (fun column values negated c => .test c (.oneOf column values negated))
      <$> field 0 "column" text none s <*> field 1 "values" (list value) none s
      <*> negation 2 s <*> connective 3 s
  | .isNull =>
    (fun column negated c => .test c (.isNull column negated))
      <$> field 0 "column" text none s <*> negation 1 s <*> connective 2 s
  | .between =>
    (fun column low high negated c => .test c (.between column low high negated))
      <$> field 0 "column" text none s <*> field 1 "low" value none s
      <*> field 2 "high" value none s <*> negation 3 s <*> connective 4 s
  | .group =>
    (fun members c => .group c members)
      <$> field 0 "wheres" (list member) none s <*> connective 1 s
  | .raw =>
    (fun sql bindings c => .test c (.raw sql bindings))
      <$> field 0 "sql" text none s <*> field 1 "bindings" (list value) (some []) s
      <*> connective 2 s

def ofParts (member : Json → Except ReadError Predicate) (kind : Kind) :
    Source Json → Except ReadError Predicate
  | .named members => (parts member (.named members) kind).result
  | .listed items _ =>
    let (name, count) := kind.form
    let form := "struct variant Where::" ++ name ++ " with " ++ elements count
    let rest : Placed Unit :=
      if count < items.length then
        .fault count (.mismatch (.length items.length (elements count ++ " in sequence")))
      else .ok ()
    (parts member (.listed items form) kind <* rest).result

/-- What stands for a predicate that has the wrong type. -/
def predicateForm : String := "internally tagged enum Where"

/-- The fault of a predicate without its tag. -/
def untagged {α : Type} : Except ReadError α := .error (.mismatch (.missing "type"))

/-- The tag of a predicate: a word, or its number among the words. -/
def kindOf : Json → Except ReadError Kind
  | .string s => variant kinds s
  | .number (.integer (.ofNat n)) =>
    match kinds[n]? with
    | some k => .ok k.2
    | none => .error (.mismatch (.variantIndex n kinds.length))
  | j => mistyped "variant identifier" j

def predicate : Nat → Json → Except ReadError Predicate
  | 0, _ => .error (.malformed .tooDeep)
  | depth + 1, .record members => do
    let kind ← (field 0 "type" kindOf none (.named members)).result
    ofParts (predicate depth) kind (.named (members.filter fun m => m.1 ≠ "type"))
  | _ + 1, .list [] => untagged
  | depth + 1, .list (tag :: items) => do
    let kind ← kindOf tag
    ofParts (predicate depth) kind (.listed items "")
  | _ + 1, j => mistyped predicateForm j

/-- The tag of a predicate in a text: a word. -/
def kindOfText : Outline → Except ReadError Kind
  | .string (.ok s) => variant kinds s
  | o => mistypedText "variant identifier" o

/-- The data of the members other than the tag. -/
def untaggedMembers (room place : Nat) : List (String × Outline) → Placed (List (String × Json))
  | [] => .ok []
  | (k, o) :: ms =>
    if k = "type" then untaggedMembers room (place + 1) ms
    else (fun j js => (k, j) :: js) <$> Placed.look place (o.strict room)
      <*> untaggedMembers room (place + 1) ms

/-- A predicate in a text. Its tag is read where it stands, its parts once all of it has been read.
-/
def predicateOf (room : Nat) : Outline → Except ReadError Predicate
  | .record given stop =>
    match room with
    | 0 => .error (.malformed .tooDeep)
    | room + 1 => do
      let (given, keys) := namedMembers given
      let (kind, members) ← ((fun k ms => (k, ms)) <$> field 0 "type" kindOfText none (.named given)
        <*> untaggedMembers room 0 given <* recordEnd given keys stop).result
      ofParts (predicate Outline.maxDepth) kind (.named members)
  | .list items stop =>
    match room, items with
    | 0, _ => .error (.malformed .tooDeep)
    | _ + 1, [] => do
      looked stop.strict
      untagged
    | room + 1, tag :: items => do
      let kind ← kindOfText tag
      let items ← looked (Outline.strictItems room items)
      looked stop.strict
      ofParts (predicate Outline.maxDepth) kind (.listed items "")
  | o => mistypedText predicateForm o

end Schema

end SqlGrammar
