import SqlGrammar.Dialect

/-!
The Firebird dialect. It has no `limit` and `offset`: paging is written right after `select`, as in
`select first 10 skip 20 distinct "name" from "users"`. So the paging fragments come before the
columns, and of limit, offset and columns the one that comes first owns the word `select`. An
aggregate owns the whole select clause. A row that was inserted is not known by its key, so the
column to return must be named.
-/

namespace SqlGrammar.Dialect

/-- The order of fragments of Firebird: paging comes before the columns. -/
def firebirdComponents : List Component :=
  [.aggregate, .limit, .offset, .columns, .table, .joins, .filters, .groups, .havings, .orders]

def firebird (settings : Settings) : Dialect :=
  let base := generic settings
  { base with
    components := firebirdComponents
    columns := fun q =>
      if q.aggregate.isSome then ""
      else
        (if q.limit.isSome || q.offset.isSome then "" else "select ") ++
          (if q.distinct then "distinct " else "") ++ base.columnList q.selected
    limit := fun q n =>
      if q.aggregate.isSome then "" else "select first " ++ Text.natural n.toNat
    offset := fun q n =>
      if q.aggregate.isSome then ""
      else (if q.limit.isSome then "skip " else "select skip ") ++ Text.natural n.toNat
    existence := fun select q => select { q with aggregate := some .count }
    insertReturning := fun q values returned =>
      match returned with
      | none => .error .missingReturningColumn
      | some column => .ok (base.insert q values ++ " returning " ++ column) }

end SqlGrammar.Dialect
