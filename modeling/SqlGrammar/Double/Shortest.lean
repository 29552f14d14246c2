import SqlGrammar.Double.Rounding

/-!
The shortest decimal of a double. The reals that round to a double form an interval around it; of
all decimals in the interval `Double.shortest` takes one on the coarsest grid `10 ^ k`, and on that
grid the one nearest to the double. Each grid has at most two candidates, the neighbours of the
double itself: if any point of the grid lies in the interval, one of these does. The choice between
two equally near candidates is the format's, a `Tie`.
-/

namespace SqlGrammar

/-- A positive decimal, `digits * 10 ^ power`. -/
structure Decimal where
  digits : Nat
  power : Int
  deriving DecidableEq

/-- Which of two equally near decimals is taken. -/
inductive Tie
  | toEven
  | up
  deriving DecidableEq

namespace Double

/-- The interval of a finite positive double in units of `1 / (4 * denominator)`: its lower end, the
double itself, its upper end. Below a power of two the doubles lie half as far apart. -/
def interval (d : Double) : Nat × Nat × Nat :=
  let unit := Nat.pow 2 d.exponent.toNat
  let below := if d.fraction = 0 && 1 < d.field then 1 else 2
  ((4 * d.mantissa - below) * unit, 4 * d.mantissa * unit, (4 * d.mantissa + 2) * unit)

/-- Whether a fraction in the units of `interval` rounds to the double: the ends do so exactly when
the mantissa is even. -/
def covers (d : Double) (num den : Nat) : Bool :=
  let (low, _, high) := d.interval
  if d.mantissa % 2 = 0 then low * den ≤ num && num ≤ high * den
  else low * den < num && num < high * den

/-- The candidate on the grid `10 ^ k`, if one of the two neighbours rounds to the double. -/
def onGrid? (tie : Tie) (d : Double) (k : Int) : Option Nat :=
  let den := Nat.pow 10 (-k).toNat
  let step := 4 * d.denominator * Nat.pow 10 k.toNat
  let point := d.interval.2.1 * den
  let low := point / step
  let lowFits := low ≠ 0 && d.covers (low * step) den
  let highFits := d.covers ((low + 1) * step) den
  let toLow := point - low * step
  let toHigh := (low + 1) * step - point
  if lowFits && highFits then
    if toLow < toHigh then some low
    else if toHigh < toLow then some (low + 1)
    else match tie with
      | .up => some (low + 1)
      | .toEven => some (low + low % 2)
  else if lowFits then some low
  else if highFits then some (low + 1)
  else none

/-- Tries the grids from `10 ^ k` downward. -/
def search (tie : Tie) (d : Double) : Nat → Int → Decimal
  | 0, k => ⟨0, k⟩
  | n + 1, k =>
    match d.onGrid? tie k with
    | some digits => ⟨digits, k⟩
    | none => search tie d n (k - 1)

/-- The shortest decimal that rounds to a finite positive double. The search starts at a power of
ten above the double (`30103 / 100000` is just above the logarithm of two) and needs at most 17
digits, which three more grids make safe. -/
def shortest (tie : Tie) (d : Double) : Decimal :=
  let order := (d.mantissa.log2 : Int) + d.exponent
  search tie d 21 (order * 30103 / 100000 + 1)

end Double

end SqlGrammar
