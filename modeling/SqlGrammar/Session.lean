import SqlGrammar.Identifier
import SqlGrammar.Row
import SqlGrammar.Sql.Statement

/-!
Running statements. An executor answers calls; a journal keeps what it was told: every call, and how
often it was told that records have been modified. Each operation asks at most one call, and asks no
call a second time.
-/

namespace SqlGrammar

inductive Connection
  | read
  | write
  deriving DecidableEq

/-- One call of an executor, with the number of modifications it knew of. -/
structure Call where
  connection : Connection
  sql : String
  bindings : List Value
  modified : Nat
  deriving DecidableEq

/-- What an executor was told so far, the calls in order. -/
structure Journal where
  calls : List Call := []
  modified : Nat := 0
  deriving DecidableEq

/-- How an executor answers a call: with rows or with an error. -/
abbrev Executor := Call → Except Error (List Row)

namespace Journal

def modify (j : Journal) : Journal := { j with modified := j.modified + 1 }

def callOf (j : Journal) (connection : Connection) (s : Statement) : Call :=
  ⟨connection, s.sql, s.bindings, j.modified⟩

def note (j : Journal) (c : Call) : Journal := { j with calls := j.calls ++ [c] }

end Journal

/-- The identifier in the answer to an insert: the value of the returned column in the first row. -/
def identifierOf (column : String) : List Row → Except Error Value
  | [] => .error .emptyResult
  | row :: _ => match row.get? column with
    | none => .error (.missingColumn column)
    | some v => .ok (normalizeIdentifier v)

/-- Whether the answer to an existence check says yes: its first row holds a positive number or a
true value, under `exists` or else under `aggregate`. -/
def saysYes : List Row → Bool
  | [] => false
  | row :: _ =>
    let reported := match row.get? "exists" with
      | some v => some v
      | none => row.get? "aggregate"
    match reported.map normalizeIdentifier with
    | some (.int n) => 0 < n
    | some (.bool b) => b
    | _ => false

/-- Inserts and gives the value of the returned column, which must be named: without a name nothing
reaches the executor. The modification is flagged before the call. -/
def insertGetId (d : Dialect) (executor : Executor) (q : Query) (values : InsertValues)
    (returned : Option String) (j : Journal) : Except Error Value × Journal :=
  match returned with
  | none => (.error .missingReturningColumn, j)
  | some column =>
    match d.insertReturningStatement q values (some column) with
    | .error e => (.error e, j)
    | .ok statement =>
      let j := j.modify
      let call := j.callOf .write statement
      (executor call >>= identifierOf column, j.note call)

def rowExists (d : Dialect) (executor : Executor) (q : Query) (j : Journal) :
    Except Error Bool × Journal :=
  let call := j.callOf .read (d.existsStatement q)
  ((executor call).map saysYes, j.note call)

/-- An operation that a program may ask for. -/
inductive Request
  | selectSql (query : Query)
  | insertGetId (query : Query) (values : InsertValues) (returned : Option String)
  | exists (query : Query)

inductive Response
  | sql (text : String)
  | identifier (result : Except Error Value)
  | existence (result : Except Error Bool)

def serve (d : Dialect) (executor : Executor) (j : Journal) : Request → Response × Journal
  | .selectSql q => (.sql (d.select q), j)
  | .insertGetId q values returned =>
    let (r, j) := insertGetId d executor q values returned j
    (.identifier r, j)
  | .exists q =>
    let (r, j) := rowExists d executor q j
    (.existence r, j)

/-- Serves requests one after the other, each with the executor as it answers at that time. -/
def serveAll (d : Dialect) : List (Executor × Request) → Journal → List Response × Journal
  | [], j => ([], j)
  | (executor, request) :: rest, j =>
    let (r, j) := serve d executor j request
    let (rs, j) := serveAll d rest j
    (r :: rs, j)

end SqlGrammar
