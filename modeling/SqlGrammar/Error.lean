import SqlGrammar.Settings.Toml

/-!
Errors of compilation and execution. Each cause is a constructor; the wording stands in `message`
alone.
-/

namespace SqlGrammar

/-- Why a statement could not be compiled or run. -/
inductive Error
  /-- An insert that returns an identifier was given no column to return. -/
  | missingReturningColumn
  | invalidRowCount (clause : PagingClause) (raw : String)
  /-- A failure of the executor, in its words. -/
  | execution (text : String)
  | emptyResult
  | missingColumn (column : String)
  | configuration (text : String)
  | json (error : Schema.ReadError)
  | toml (fault : Settings.Fault)
  | io (text : String)
  deriving DecidableEq

def Error.message : Error → String
  | missingReturningColumn => "Firebird needs a column when using insert_get_id"
  | invalidRowCount clause raw => Schema.rowCountMessage clause raw
  | execution text => "Execution error: " ++ text
  | emptyResult => "Statement returned no rows"
  | missingColumn column => "Column '" ++ column ++ "' not found in returned row"
  | configuration text => "Configuration error: " ++ text
  | json error => "JSON error: " ++ error.message
  | toml fault => "TOML error: TOML parse error: " ++ fault.message
  | io text => "IO error: " ++ text

def readRowCount (clause : PagingClause) (raw : String) : Except Error UInt64 :=
  match rowCount? raw with
  | some n => .ok n
  | none => .error (.invalidRowCount clause raw)

end SqlGrammar
