import SqlGrammar.Double.Layout
import SqlGrammar.Json.Fault
import SqlGrammar.Json.Tree

/-!
Numbers of JSON and their numerals: how a number is written, and which number a numeral denotes. An
integer numeral below `2 ^ 64`, or from `-2 ^ 63` up when negative, is that integer, but `-0` is the
negative zero. Every other numeral is a double, formed in two steps: the digits that fit into 64
bits as a whole number, then one multiplication or division by a power of ten. Each step rounds, so
the last bit may be off from the nearest double.
-/

namespace SqlGrammar.Json

/-- Doubles in JSON: plain from `0.00001` up to `10 ^ 16`, whole ones with `.0`, else with an
exponent. JSON has no spelling for infinities and NaN. -/
def floatLayout : Layout :=
  { tie := .toEven, isPlain := fun p => -5 < p && p ≤ 16, whole := ".0"
    infinity := "null", nan := "null" }

def Number.text : Number → String
  | .integer n => Text.integer n
  | .float d => d.text floatLayout

/-- A JSON numeral in its parts. The digits before the point are never empty; those after it and the
power of ten may be missing. -/
structure Numeral where
  negative : Bool
  whole : List Char
  places : List Char
  power : Option (Bool × List Char)
  deriving DecidableEq

namespace Numeral

def digit (c : Char) : Nat := c.toNat - '0'.toNat

/-- Takes up digits as long as the number fits into 64 bits; the digits that are left over. -/
def absorb : Nat → List Char → Nat × List Char
  | n, [] => (n, [])
  | n, c :: r => if 10 * n + digit c < UInt64.size then absorb (10 * n + digit c) r else (n, c :: r)

/-- The power of ten as a number, and whether it is a power up. None beyond 31 bits. -/
def exponent? (digits : List Char) : Option Nat :=
  let n := Nat.ofDigitChars 10 digits 0
  if n < 0x80000000 then some n else none

def powerOfTen (k : Nat) : Double := Double.ofDecimal 1 k

/-- A double divided by `10 ^ k`, in steps of at most `10 ^ 308`. Nothing is left of a number below
`2 ^ 64` after the third step. -/
def divide : Nat → Double → Nat → Double
  | 0, _, _ => .zero
  | n + 1, d, k =>
    if k ≤ 308 then d.overPositive (powerOfTen k)
    else divide n (d.overPositive (powerOfTen 308)) (k - 308)

/-- The whole number times a power of ten, if that is a double. -/
def scale (significand : Nat) (power : Int) : Except Fault Double :=
  let d := Double.nearest significand 1
  if significand = 0 then .ok .zero
  else if power < 0 then .ok (divide 3 d power.natAbs)
  else if 308 < power then .error .numberRange
  else
    let product := d.timesPositive (powerOfTen power.natAbs)
    if product.isFinite then .ok product else .error .numberRange

/-- The magnitude of a numeral that is not an integer. -/
def magnitude (n : Numeral) : Except Fault Double :=
  let (whole, left) := absorb 0 n.whole
  let (significand, unread) := absorb whole n.places
  let shift := (left.length : Int) - (n.places.length - unread.length)
  match n.power with
  | none => scale significand shift
  | some (up, digits) =>
    match exponent? digits with
    | some e => scale significand (if up then shift + e else shift - e)
    | none => if significand ≠ 0 ∧ up then .error .numberRange else .ok .zero

/-- The integer of a numeral without point and power, if it fits. -/
def integer? (n : Numeral) : Option Int :=
  let whole := Nat.ofDigitChars 10 n.whole 0
  if n.places ≠ [] ∨ n.power.isSome then none
  else if n.negative then
    if 0 < whole ∧ whole ≤ 0x8000000000000000 then some (-whole) else none
  else if whole < UInt64.size then some whole
  else none

def number (n : Numeral) : Except Fault Number :=
  match n.integer? with
  | some i => .ok (.integer i)
  | none => n.magnitude.map fun d => .float (if n.negative then d.neg else d)

end Numeral

end SqlGrammar.Json
