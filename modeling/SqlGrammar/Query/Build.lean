import SqlGrammar.Query

/-!
Queries built in steps. A step adds to one clause of the query or replaces it; `Query.build` takes a
list of steps in order.
-/

namespace SqlGrammar

inductive Query.Step
  | columns (columns : List String)
  | distinct
  | limit (n : UInt64)
  | offset (n : UInt64)
  | aggregate (aggregate : Aggregate)
  | join (join : Join)
  | filter (predicate : Predicate)
  | groupBy (column : String)
  | having (predicate : Predicate)
  | orderBy (order : Order)
  deriving DecidableEq

namespace Query

/-- The query after one more step. Joins, filters, groups, havings and orders are added at the end
of their clause; the other steps replace what their clause held. -/
def step (q : Query) : Step → Query
  | .columns cs => { q with columns := cs }
  | .distinct => { q with distinct := true }
  | .limit n => { q with limit := some n }
  | .offset n => { q with offset := some n }
  | .aggregate a => { q with aggregate := some a }
  | .join j => { q with joins := q.joins ++ [j] }
  | .filter p => { q with filters := q.filters ++ [p] }
  | .groupBy c => { q with groups := q.groups ++ [c] }
  | .having p => { q with havings := q.havings ++ [p] }
  | .orderBy o => { q with orders := q.orders ++ [o] }

def build (q : Query) (steps : List Step) : Query := steps.foldl step q

end Query

end SqlGrammar
