import SqlGrammar.Calendar
import SqlGrammar.Double.Layout

/-!
Values of a statement: bound to a placeholder, or a raw expression written into the SQL itself.
-/

namespace SqlGrammar

/-- A value of a statement. All but `raw` are bound; `raw` is SQL that stands in the statement. -/
inductive Value
  | null
  | bool (b : Bool)
  | int (n : Int64)
  | float (d : Double)
  | string (s : String)
  | date (d : Date)
  | timestamp (t : Timestamp)
  | raw (sql : String)
  deriving DecidableEq

namespace Value

def isRaw : Value → Bool
  | raw _ => true
  | _ => false

/-- Doubles shown to a reader: never with an exponent, whole numbers without a point. -/
def floatLayout : Layout :=
  { tie := .up, isPlain := fun _ => true, whole := "", infinity := "inf", nan := "NaN" }

/-- A text between quotes, each quote inside written twice. -/
def quoted (s : String) : String :=
  String.ofList
    ('\'' :: s.toList.flatMap (fun c => if c = '\'' then ['\'', '\''] else [c]) ++ ['\''])

/-- A value as SQL text, for a reader to see what is bound. -/
def display : Value → String
  | null => "NULL"
  | bool b => if b then "true" else "false"
  | int n => Text.integer n.toInt
  | float d => d.text floatLayout
  | string s => quoted s
  | date d => "'" ++ d.text ++ "'"
  | timestamp t => "'" ++ t.text ++ "'"
  | raw sql => sql

end Value

/-- The values that are bound, in their order: all but the raw ones. -/
def cleanBindings (values : List Value) : List Value := values.filter fun v => !v.isRaw

theorem cleanBindings_append (a b : List Value) :
    cleanBindings (a ++ b) = cleanBindings a ++ cleanBindings b := by simp [cleanBindings]

end SqlGrammar
