import SqlGrammar.Predicate

/-!
Queries: what to select, from where and in which order, said without regard to a dialect.
-/

namespace SqlGrammar

inductive JoinKind
  | inner
  | left
  | right
  | cross
  deriving DecidableEq, Inhabited

def JoinKind.word : JoinKind → String
  | .inner => "inner"
  | .left => "left"
  | .right => "right"
  | .cross => "cross"

structure Join where
  kind : JoinKind := .inner
  table : String
  conditions : List Predicate := []
  deriving DecidableEq

/-- The join with one more condition, on two columns. -/
def Join.on (j : Join) (first operator second : String) : Join :=
  { j with conditions := j.conditions ++ [.test .and (.columns first operator second)] }

inductive Direction
  | asc
  | desc
  deriving DecidableEq, Inhabited

def Direction.word : Direction → String
  | .asc => "asc"
  | .desc => "desc"

/-- A sort key: a column with a direction, or SQL as it stands. -/
inductive Order
  | column (column : String) (direction : Direction)
  | raw (sql : String)
  deriving DecidableEq

/-- A function over all rows: `name(columns)`. -/
structure Aggregate where
  name : String
  columns : List String
  deriving DecidableEq

def Aggregate.count : Aggregate := ⟨"count", ["*"]⟩

/-- A select. No columns stand for all of them. -/
structure Query where
  table : String := ""
  columns : List String := []
  aggregate : Option Aggregate := none
  distinct : Bool := false
  limit : Option UInt64 := none
  offset : Option UInt64 := none
  joins : List Join := []
  filters : List Predicate := []
  groups : List String := []
  havings : List Predicate := []
  orders : List Order := []
  deriving DecidableEq

namespace Query

/-- The columns to select: `*` when none were given. -/
def selected (q : Query) : List String :=
  if q.columns.isEmpty then ["*"] else q.columns

/-- All predicates in the order in which a statement holds them: joins, filters, havings. -/
def predicates (q : Query) : List Predicate :=
  q.joins.flatMap Join.conditions ++ q.filters ++ q.havings

/-- The bound values, in the order of their placeholders. -/
def bindings (q : Query) : List Value := cleanBindings (q.predicates.flatMap Predicate.bindings)

end Query

end SqlGrammar
