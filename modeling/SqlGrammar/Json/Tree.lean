import SqlGrammar.Double.Basic

/-!
JSON data. Records keep the order of their members, and a key may come twice. A number is an integer
or a double: the two are different data, also where they are equal numbers.
-/

namespace SqlGrammar

inductive Json.Number
  | integer (n : Int)
  | float (d : Double)
  deriving DecidableEq

inductive Json
  | null
  | bool (b : Bool)
  | number (n : Json.Number)
  | string (s : String)
  | list (items : List Json)
  | record (members : List (String × Json))

namespace Json

def strings (texts : List String) : Json := list (texts.map string)

/-- Data that may be missing. -/
def optional (j : Option Json) : Json := j.getD null

def integer (n : Int) : Json := number (.integer n)

end Json

end SqlGrammar
