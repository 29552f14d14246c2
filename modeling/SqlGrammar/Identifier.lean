import SqlGrammar.Double.Numeral
import SqlGrammar.Text.Blank
import SqlGrammar.Value

/-!
Identifiers of rows, as databases report them: as integers, as doubles, or as text. Every number
with a 64-bit whole part becomes that integer; anything else, such as a GUID, stays as it is.
-/

namespace SqlGrammar

def int64? (n : Int) : Option Int64 :=
  if -0x8000000000000000 ≤ n ∧ n < 0x8000000000000000 then some (.ofInt n) else none

/-- The whole part of a double, if it fits into 64 bits. -/
def Double.toInt64? (d : Double) : Option Int64 := d.truncate?.bind int64?

/-- The integer in a text: an integer numeral itself, or the whole part of another number. -/
def integerInText? (s : String) : Option Int64 :=
  let t := Text.trimList s.toList
  match (Text.integer? t).bind int64? with
  | some n => some n
  | none => (Double.ofText? t).bind Double.toInt64?

/-- An identifier as an integer, where it is one. -/
def normalizeIdentifier : Value → Value
  | .float d => match d.toInt64? with
    | some n => .int n
    | none => .float d
  | .string s => match integerInText? s with
    | some n => .int n
    | none => .string s
  | v => v

end SqlGrammar
