import SqlGrammar.Sql.Clause
import SqlGrammar.Text.Blank

/-!
Statements: SQL text with the values for its placeholders. A select is the fragments of its dialect
in the dialect's order, the empty ones left out, with single spaces between them.
-/

namespace SqlGrammar

/-- SQL with the values for its placeholders, in order. -/
structure Statement where
  sql : String
  bindings : List Value
  deriving DecidableEq

namespace Dialect

/-- One fragment of a select; empty where the query says nothing. -/
def fragment (d : Dialect) (q : Query) : Component → String
  | .aggregate => (q.aggregate.map (d.aggregate q)).getD ""
  | .limit => (q.limit.map (d.limit q)).getD ""
  | .offset => (q.offset.map (d.offset q)).getD ""
  | .columns => d.columns q
  | .table => d.tableClause q
  | .joins => d.joinClauses q
  | .filters => d.predicateClause "where" q.filters
  | .groups => d.groupClause q
  | .havings => d.predicateClause "having" q.havings
  | .orders => d.orderClause q

def select (d : Dialect) (q : Query) : String :=
  Text.trim (String.intercalate " " ((d.components.map (d.fragment q)).filter fun s => s ≠ ""))

def exists? (d : Dialect) (q : Query) : String := d.existence d.select q

def selectStatement (d : Dialect) (q : Query) : Statement := ⟨d.select q, q.bindings⟩

def existsStatement (d : Dialect) (q : Query) : Statement := ⟨d.exists? q, q.bindings⟩

def insertStatement (d : Dialect) (q : Query) (values : InsertValues) : Statement :=
  ⟨d.insert q values, cleanBindings values.flatten⟩

def insertReturningStatement (d : Dialect) (q : Query) (values : InsertValues)
    (returned : Option String) : Except Error Statement :=
  (d.insertReturning q values returned).map fun sql => ⟨sql, cleanBindings values.flatten⟩

end Dialect

end SqlGrammar
