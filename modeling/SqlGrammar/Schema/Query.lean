import SqlGrammar.Json.Scan
import SqlGrammar.Query
import SqlGrammar.Schema.Predicate
import SqlGrammar.Sql.Statement
import SqlGrammar.Row

/-!
Queries and inserts as JSON, and statements and rows as they are written out. Every member of a
query may be missing; a limit or an offset may be a number or a text.
-/

namespace SqlGrammar

def Join.toJson (j : Join) : Json :=
  .record [("kind", .string j.kind.word), ("table", .string j.table),
    ("on", .list (j.conditions.map Predicate.toJson))]

def Order.toJson : Order → Json
  | column name direction =>
    .record [("column", .string name), ("direction", .string direction.word)]
  | raw sql => .record [("raw", .string sql)]

def Aggregate.toJson (a : Aggregate) : Json :=
  .record [("function", .string a.name), ("columns", .strings a.columns)]

def countJson (n : Option UInt64) : Json := .optional (n.map fun n => .integer n.toNat)

/-- A query as JSON, all members written out. -/
def Query.toJson (q : Query) : Json :=
  .record
    [("table", .string q.table), ("columns", .strings q.columns),
      ("aggregate", .optional (q.aggregate.map Aggregate.toJson)), ("distinct", .bool q.distinct),
      ("limit", countJson q.limit), ("offset", countJson q.offset),
      ("joins", .list (q.joins.map Join.toJson)),
      ("wheres", .list (q.filters.map Predicate.toJson)),
      ("groups", .strings q.groups), ("havings", .list (q.havings.map Predicate.toJson)),
      ("orders", .list (q.orders.map Order.toJson))]

def Statement.toJson (s : Statement) : Json :=
  .record [("sql", .string s.sql), ("bindings", .list (s.bindings.map Value.toJson))]

def Row.toJson (r : Row) : Json :=
  .record [("columns", .strings r.columns), ("values", .list (r.values.map Value.toJson))]

structure Insert where
  table : String
  values : InsertValues := .none
  deriving DecidableEq

namespace Schema

open Json

def joinKinds : List (String × JoinKind) :=
  [("inner", .inner), ("left", .left), ("right", .right), ("cross", .cross)]

def directions : List (String × Direction) := [("asc", .asc), ("desc", .desc)]

/-- A sort key: a column with a direction, else SQL as it stands. It must be a record. -/
def order (j : Json) : Except ReadError Order :=
  let none : Except ReadError Order := .error (.mismatch (.noShape "Order"))
  match j with
  | .record members =>
    let s : Source Json := .named members
    match Order.column <$> field 0 "column" text .none s
        <*> field 1 "direction" (word false directions) (some .asc) s with
    | .ok o => .ok o
    | .fault .. => match Order.raw <$> field 0 "raw" text .none s with
      | .ok o => .ok o
      | .fault .. => none
  | _ => none

/-- A row count: a number, or a text that holds one. -/
def count (clause : PagingClause) : Json → Except ReadError UInt64
  | .number (.integer (.ofNat n)) =>
    if n < UInt64.size then .ok (.ofNat n) else .error (.mismatch (.noShape "RowCount"))
  | .string s =>
    match rowCount? s with
    | some n => .ok n
    | none => .error (.mismatch (.rowCount clause s))
  | _ => .error (.mismatch (.noShape "RowCount"))

/-- Data read from a text as a whole before it is looked at. -/
def whole {α : Type} (read : Json → Except ReadError α) (room : Nat) (o : Outline) :
    Except ReadError α := do
  let j ← looked (o.strict room)
  read j

def aggregateOf : Nat → Outline → Except ReadError Aggregate :=
  formOf "struct Aggregate" ["function", "columns"] fun room s =>
    Aggregate.mk <$> field 0 "function" textOf none s
      <*> field 1 "columns" (listOf (fun _ => textOf) room) none s

def joinOf : Nat → Outline → Except ReadError Join :=
  formOf "struct Join" ["kind", "table", "on"] fun room s =>
    Join.mk <$> field 0 "kind" (wordOf joinKinds room) (some .inner) s
      <*> field 1 "table" textOf none s
      <*> field 2 "on" (listOf predicateOf room) (some []) s

def queryMembers : List String :=
  ["table", "columns", "aggregate", "distinct", "limit", "offset", "joins", "wheres", "groups",
    "havings", "orders"]

def queryOf : Nat → Outline → Except ReadError Query :=
  formOf "struct Query" queryMembers fun room s =>
    let texts := listOf (fun _ => textOf) room
    let predicates := listOf predicateOf room
    let counted (clause : PagingClause) := optionOf (whole (count clause) room)
    Query.mk <$> field 0 "table" textOf (some "") s
      <*> field 1 "columns" texts (some []) s
      <*> field 2 "aggregate" (optionOf (aggregateOf room)) (some none) s
      <*> field 3 "distinct" truthOf (some false) s
      <*> field 4 "limit" (counted .limit) (some none) s
      <*> field 5 "offset" (counted .offset) (some none) s
      <*> field 6 "joins" (listOf joinOf room) (some []) s
      <*> field 7 "wheres" predicates (some []) s
      <*> field 8 "groups" texts (some []) s
      <*> field 9 "havings" predicates (some []) s
      <*> field 10 "orders" (listOf (whole order) room) (some []) s

def insertOf : Nat → Outline → Except ReadError Insert :=
  formOf "struct InsertInput" ["table", "values"] fun room s =>
    Insert.mk <$> field 0 "table" textOf none s
      <*> field 1 "values" (whole insertValues room) (some .none) s

/-- Reads a whole text. -/
def readText {α : Type} (read : Nat → Outline → Except ReadError α) (s : String) :
    Except ReadError α :=
  let (o, rest) := Json.outline s.toList
  match read Outline.maxDepth o with
  | .error e => .error e
  | .ok a => if Json.skipSpace rest = [] then .ok a else .error (.malformed .trailingText)

end Schema

def Query.ofText (s : String) : Except Schema.ReadError Query := Schema.readText Schema.queryOf s

def Predicate.ofText (s : String) : Except Schema.ReadError Predicate :=
  Schema.readText Schema.predicateOf s

def Value.ofText (s : String) : Except Schema.ReadError Value :=
  Schema.readText (Schema.whole Schema.value) s

def InsertValues.ofText (s : String) : Except Schema.ReadError InsertValues :=
  Schema.readText (Schema.whole Schema.insertValues) s

def Insert.ofText (s : String) : Except Schema.ReadError Insert := Schema.readText Schema.insertOf s

end SqlGrammar
