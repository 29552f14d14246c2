import SqlGrammar.Double.Basic

/-!
Rounding of fractions. `roundDiv` takes a quotient to the nearest integer, a half to the even one;
`nearest` takes a fraction to the nearest double by the same rule.
-/

namespace SqlGrammar

/-- The integer nearest to `num / den`; a half goes to the even neighbour. -/
def roundDiv (num den : Nat) : Nat :=
  let low := num / den
  let rest := 2 * (num % den)
  if rest < den then low
  else if den < rest then low + 1
  else low + low % 2

namespace Double

/-- The binary order of magnitude of a positive fraction: the `e` with `2 ^ e ≤ num / den < 2 ^ (e +
1)`. -/
def magnitude (num den : Nat) : Int :=
  let e : Int := (Nat.log2 num : Int) - Nat.log2 den
  if num * Nat.pow 2 (-e).toNat < den * Nat.pow 2 e.toNat then e - 1 else e

/-- The double nearest to the fraction `num / den`, of two equally near ones the one with the even
mantissa; from half a unit beyond the largest double on it is the infinity. Doubles lie `2 ^ e`
apart around the fraction, and counting these steps from zero gives the bits: a mantissa that rounds
up to twice the hidden bit moves on to the next exponent field by itself. -/
def nearest (num den : Nat) : Double :=
  if num = 0 then zero
  else
    let e := max (magnitude num den - 52) (-1074)
    let steps := roundDiv (num * Nat.pow 2 (-e).toNat) (den * Nat.pow 2 e.toNat)
    ⟨.ofNat (min ((e + 1074).toNat * hiddenBit + steps) infinity.bits.toNat)⟩

def ofDecimal (digits : Nat) (power : Int) : Double :=
  nearest (digits * Nat.pow 10 power.toNat) (Nat.pow 10 (-power).toNat)

/-- The product of two doubles that are finite and not negative, rounded. -/
def timesPositive (a b : Double) : Double :=
  nearest (a.numerator * b.numerator) (a.denominator * b.denominator)

/-- The quotient of two doubles that are finite and not negative, the second not zero, rounded. -/
def overPositive (a b : Double) : Double :=
  nearest (a.numerator * b.denominator) (a.denominator * b.numerator)

end Double

end SqlGrammar
