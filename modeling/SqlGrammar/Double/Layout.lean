import SqlGrammar.Double.Shortest
import SqlGrammar.Text.Digits

/-!
How a double is laid out as text: its shortest digits written plainly or with an exponent. What a
format decides is one record, a `Layout`; `Double.text` follows it.
-/

namespace SqlGrammar

/-- The decisions of a format on doubles. -/
structure Layout where
  /-- Choice between two equally near shortest decimals. -/
  tie : Tie
  /-- Whether a number is written without exponent, by the place of its point: `p` for numbers from
  `10 ^ (p - 1)` up to `10 ^ p`. -/
  isPlain : Int → Bool
  /-- What follows a whole number that is written plainly. -/
  whole : String
  infinity : String
  nan : String

namespace Layout

/-- Digits without exponent, the point at place `p`. -/
def plain (whole : String) (digits : List Char) (p : Int) : String :=
  if p ≤ 0 then "0." ++ String.ofList (List.replicate (-p).toNat '0' ++ digits)
  else if digits.length ≤ p.toNat then
    String.ofList (digits ++ List.replicate (p.toNat - digits.length) '0') ++ whole
  else String.ofList (digits.take p.toNat ++ '.' :: digits.drop p.toNat)

/-- One digit before the point, the others after it, and the exponent with its sign. -/
def scientific (digits : List Char) (p : Int) : String :=
  let mantissa := match digits with
    | c :: d :: r => c :: '.' :: d :: r
    | s => s
  String.ofList mantissa ++ "e" ++ (if p ≤ 0 then "-" else "+") ++ Text.natural (p - 1).natAbs

/-- The text of a decimal; its last digit is not zero. -/
def decimal (l : Layout) (d : Decimal) : String :=
  let digits := (Text.natural d.digits).toList
  let p := d.power + digits.length
  if l.isPlain p then plain l.whole digits p else scientific digits p

end Layout

def Double.text (l : Layout) (d : Double) : String :=
  if d.isNaN then l.nan
  else
    let magnitude :=
      if ! d.isFinite then l.infinity
      else if d.mantissa = 0 then "0" ++ l.whole
      else l.decimal (d.shortest l.tie)
    if d.negative then "-" ++ magnitude else magnitude

end SqlGrammar
