import SqlGrammar.Error
import SqlGrammar.Query
import SqlGrammar.Record
import SqlGrammar.Settings
import SqlGrammar.Sql.Name

/-!
Dialects. A dialect is a record of hooks, one for each part of a statement that dialects write
differently. Each hook has a mainstream default, made of the hooks before it; a dialect gives its
settings and its way to quote, and whatever else it writes in its own way.
-/

namespace SqlGrammar

/-- The fragments of a select. -/
inductive Component
  | aggregate
  | limit
  | offset
  | columns
  | table
  | joins
  | filters
  | groups
  | havings
  | orders
  deriving DecidableEq

/-- The mainstream order of fragments: paging goes last. -/
def Component.standard : List Component :=
  [aggregate, columns, table, joins, filters, groups, havings, orders, limit, offset]

def commaList (texts : List String) : String := String.intercalate ", " texts

/-- `insert into t (columns) values (...), (...)`, one tuple for each record. The columns are those
of the first record. Without any column the row takes its default values. -/
def insertText (table : String → String) (columnList : List String → String)
    (parameters : List Value → String) (q : Query) (values : InsertValues) : String :=
  match values.isEmpty, values.records with
  | false, first :: rest =>
    let tuple (r : Record) := "(" ++ parameters r.values ++ ")"
    "insert into " ++ table q.table ++ " (" ++ columnList first.columns ++ ") values " ++
      commaList ((first :: rest).map tuple)
  | _, _ => "insert into " ++ table q.table ++ " default values"

structure Dialect where
  /-- The settings the dialect was made with. -/
  settings : Settings
  /-- Quotes one segment of a name. -/
  quote : String → String
  /-- What stands for a bound value. -/
  placeholder : String := "?"
  /-- The order of the fragments of a select. -/
  components : List Component := Component.standard
  /-- Writes one segment of a name. -/
  segment : String → String := Name.segment quote
  /-- Writes a column reference. -/
  column : String → String := Name.column segment
  /-- Writes a table reference. -/
  table : String → String := Name.table column segment settings.tablePrefix
  /-- Writes a list of columns. -/
  columnList : List String → String := fun columns => commaList (columns.map column)
  /-- Writes a value: a placeholder, or a raw expression itself. -/
  parameter : Value → String := fun
    | .raw sql => sql
    | _ => placeholder
  /-- Writes a list of values. -/
  parameters : List Value → String := fun values => commaList (values.map parameter)
  /-- Writes the aggregate of a query. -/
  aggregate : Query → Aggregate → String := fun q a =>
    let columns := columnList a.columns
    let columns := if q.distinct && columns ≠ "*" then "distinct " ++ columns else columns
    "select " ++ a.name ++ "(" ++ columns ++ ") as aggregate"
  /-- Writes the columns of a query; an aggregate takes their place. -/
  columns : Query → String := fun q =>
    if q.aggregate.isSome then ""
    else (if q.distinct then "select distinct " else "select ") ++ columnList q.selected
  /-- Writes the limit of a query. -/
  limit : Query → UInt64 → String := fun _ n => "limit " ++ Text.natural n.toNat
  /-- Writes the offset of a query. -/
  offset : Query → UInt64 → String := fun _ n => "offset " ++ Text.natural n.toNat
  /-- Writes the check whether a query has any row, given how selects are written. -/
  existence : (Query → String) → Query → String := fun select q =>
    "select exists(" ++ select q ++ ") as " ++ column "exists"
  /-- Writes an insert into the table of a query. -/
  insert : Query → InsertValues → String := insertText table columnList parameters
  /-- Writes an insert that returns a column, `id` unless another is named. A dialect may refuse. -/
  insertReturning : Query → InsertValues → Option String → Except Error String :=
    fun q values returned =>
      .ok (insert q values ++ " returning " ++ column (returned.getD "id"))

namespace Dialect

/-- The quoting of a grammar: double quotes, unless its settings turn quoting off. -/
def quoteBy (settings : Settings) (name : String) : String :=
  if settings.quoteIdentifiers then Name.doubleQuoted name else name

/-- The mainstream dialect: `limit` and `offset` at the end, `returning` defaults to `id`. -/
def generic (settings : Settings) : Dialect :=
  { settings := settings, quote := quoteBy settings }

end Dialect

end SqlGrammar
