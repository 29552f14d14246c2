import SqlGrammar.Dialect

/-!
The clauses that all dialects share: table, joins, predicates, groups and orders.
-/

namespace SqlGrammar.Dialect

def negation (negated : Bool) : String := if negated then "not " else ""

/-- The text of a test. Nothing is in an empty list, so such a test is a constant. -/
def test (d : Dialect) : Test → String
  | .compare column operator value => d.column column ++ " " ++ operator ++ " " ++ d.parameter value
  | .columns first operator second => d.column first ++ " " ++ operator ++ " " ++ d.column second
  | .oneOf _ [] negated => if negated then "1 = 1" else "0 = 1"
  | .oneOf column values negated =>
    d.column column ++ " " ++ negation negated ++ "in (" ++ d.parameters values ++ ")"
  | .isNull column negated => d.column column ++ " is " ++ negation negated ++ "null"
  | .between column low high negated =>
    d.column column ++ " " ++ negation negated ++ "between " ++ d.parameter low ++ " and " ++
      d.parameter high
  | .raw sql _ => sql

/-- A text with one more predicate after it; the first predicate of a text has no connective. -/
def joinPredicate (sql : String) (connective : Connective) (text : String) : String :=
  if sql = "" then text else sql ++ " " ++ connective.word ++ " " ++ text

mutual

/-- The text of a predicate; none for a group in which nothing is said. -/
def predicate? (d : Dialect) : Predicate → Option String
  | .test _ t => some (d.test t)
  | .group _ members =>
    let inner := d.predicatesAfter "" members
    if inner = "" then none else some ("(" ++ inner ++ ")")

/-- The text of predicates after a text that stands already. -/
def predicatesAfter (d : Dialect) (sql : String) : List Predicate → String
  | [] => sql
  | p :: ps =>
    match d.predicate? p with
    | none => d.predicatesAfter sql ps
    | some text => d.predicatesAfter (joinPredicate sql p.connective text) ps

end

/-- Predicates with their connectives; that of the first one is left out. -/
def predicates (d : Dialect) (ps : List Predicate) : String := d.predicatesAfter "" ps

/-- A clause of predicates after its word; nothing where nothing is said. -/
def predicateClause (d : Dialect) (word : String) (ps : List Predicate) : String :=
  let text := d.predicates ps
  if text = "" then "" else word ++ " " ++ text

def tableClause (d : Dialect) (q : Query) : String :=
  if q.table = "" then "" else "from " ++ d.table q.table

/-- One join. A cross join has no conditions. -/
def joinClause (d : Dialect) (j : Join) : String :=
  let conditions := if j.kind = .cross then "" else d.predicates j.conditions
  let joined := j.kind.word ++ " join " ++ d.table j.table
  if conditions = "" then joined else joined ++ " on " ++ conditions

def joinClauses (d : Dialect) (q : Query) : String :=
  String.intercalate " " (q.joins.map d.joinClause)

def groupClause (d : Dialect) (q : Query) : String :=
  if q.groups.isEmpty then "" else "group by " ++ d.columnList q.groups

def sortKey (d : Dialect) : Order → String
  | .column column direction => d.column column ++ " " ++ direction.word
  | .raw sql => sql

def orderClause (d : Dialect) (q : Query) : String :=
  if q.orders.isEmpty then "" else "order by " ++ commaList (q.orders.map d.sortKey)

end SqlGrammar.Dialect
