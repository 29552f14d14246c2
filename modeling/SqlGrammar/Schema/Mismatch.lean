import SqlGrammar.Json.Number
import SqlGrammar.RowCount
import SqlGrammar.Text.Shown

/-!
Why a JSON text is not read as what it should describe: it is no JSON text, or what it holds does
not fit. Each cause is a constructor; the wording stands in `message` alone.
-/

namespace SqlGrammar.Schema

/-- What stands where something else was expected. -/
inductive Found
  | null
  | bool (b : Bool)
  | integer (n : Int)
  | float (d : Double)
  | string (s : String)
  | sequence
  | map
  deriving DecidableEq

def Found.text (l : Layout) : Found → String
  | null => "null"
  | bool b => "boolean `" ++ (if b then "true" else "false") ++ "`"
  | integer n => "integer `" ++ Text.integer n ++ "`"
  | float d => "floating point `" ++ d.text l ++ "`"
  | string s => "string " ++ Text.shown s
  | sequence => "sequence"
  | map => "map"

/-- A way in which a JSON value does not fit. -/
inductive Mismatch
  /-- A value of another type. -/
  | type (found : Found) (expected : String)
  /-- The number of a variant beyond the last one. -/
  | variantIndex (n : Nat) (count : Nat)
  /-- A record with several members where the name of a variant is its one key. -/
  | severalKeys
  /-- A list that is too short, or too long. -/
  | length (n : Nat) (expected : String)
  | missing (member : String)
  | duplicate (member : String)
  | unknownVariant (name : String) (variants : List String)
  /-- None of the shapes of a type fits. -/
  | noShape (name : String)
  | rowCount (clause : PagingClause) (raw : String)
  | unbindableList
  | unbindableRecord
  deriving DecidableEq

def rowCountMessage (clause : PagingClause) (raw : String) : String :=
  "Invalid " ++ clause.name ++ " value: '" ++ raw ++ "'. Expected a non-negative integer"

def alternatives (names : List String) : String :=
  match names.map fun n => "`" ++ n ++ "`" with
  | [a] => a
  | [a, b] => a ++ " or " ++ b
  | ns => "one of " ++ String.intercalate ", " ns

def Mismatch.message : Mismatch → String
  | type found expected =>
    "invalid type: " ++ found.text Json.floatLayout ++ ", expected " ++ expected
  | variantIndex n count =>
    "invalid value: integer `" ++ Text.natural n ++ "`, expected variant index 0 <= i < " ++
      Text.natural count
  | severalKeys => "invalid value: map, expected map with a single key"
  | length n expected => "invalid length " ++ Text.natural n ++ ", expected " ++ expected
  | missing member => "missing field `" ++ member ++ "`"
  | duplicate member => "duplicate field `" ++ member ++ "`"
  | unknownVariant name variants =>
    "unknown variant `" ++ name ++ "`, expected " ++ alternatives variants
  | noShape name => "data did not match any variant of untagged enum " ++ name
  | rowCount clause raw => rowCountMessage clause raw
  | unbindableList => "arrays are not bindable values"
  | unbindableRecord =>
    "objects are not bindable values (use \x7b\"$raw\": \"...\"\x7d for expressions)"

inductive ReadError
  | malformed (fault : Json.Fault)
  | mismatch (mismatch : Mismatch)
  deriving DecidableEq

def ReadError.message : ReadError → String
  | malformed f => f.message
  | mismatch m => m.message

end SqlGrammar.Schema
