/-!
Double-precision numbers as their 64 bits: a sign, eleven bits of exponent, 52 bits of fraction.
Everything is read off the bits in exact integers, so that two doubles are equal exactly when their
bits are. A finite double is `mantissa * 2 ^ exponent` up to its sign.
-/

namespace SqlGrammar

/-- A double-precision number, given by its bits. -/
structure Double where
  bits : UInt64
  deriving DecidableEq, Inhabited

namespace Double

/-- The bit in front of the fraction, which normal doubles have and no double stores. -/
def hiddenBit : Nat := 0x10000000000000

/-- The sign bit: true also for the negative zero. -/
def negative (d : Double) : Bool := 0x8000000000000000 ≤ d.bits.toNat

/-- The exponent field, 0 to 2047. -/
def field (d : Double) : Nat := d.bits.toNat / hiddenBit % 2048

def fraction (d : Double) : Nat := d.bits.toNat % hiddenBit

/-- Neither an infinity nor a NaN. -/
def isFinite (d : Double) : Bool := d.field ≠ 2047

/-- Not a number: the highest exponent field with a fraction. -/
def isNaN (d : Double) : Bool := d.field = 2047 && d.fraction ≠ 0

/-- The integer part of the scaled form; below twice the hidden bit. -/
def mantissa (d : Double) : Nat :=
  if d.field = 0 then d.fraction else hiddenBit + d.fraction

/-- The power of two of the scaled form; subnormal numbers share that of the least normal ones. -/
def exponent (d : Double) : Int :=
  if d.field = 0 then -1074 else d.field - 1075

/-- Numerator of the magnitude of a finite double. -/
def numerator (d : Double) : Nat := d.mantissa * Nat.pow 2 d.exponent.toNat

/-- Denominator of the magnitude of a finite double. -/
def denominator (d : Double) : Nat := Nat.pow 2 (-d.exponent).toNat

/-- The whole part, cut toward zero; none for infinities and NaN. -/
def truncate? (d : Double) : Option Int :=
  if d.isFinite then
    let whole : Int := d.numerator / d.denominator
    some (if d.negative then -whole else whole)
  else none

/-- The same magnitude with the other sign. -/
def neg (d : Double) : Double := ⟨d.bits ^^^ 0x8000000000000000⟩

def zero : Double := ⟨0⟩

def infinity : Double := ⟨0x7FF0000000000000⟩

/-- The quiet NaN without sign. -/
def nan : Double := ⟨0x7FF8000000000000⟩

theorem field_lt (d : Double) : d.field < 2048 := Nat.mod_lt _ (by decide)

theorem fraction_lt (d : Double) : d.fraction < hiddenBit := Nat.mod_lt _ (by decide)

theorem mantissa_lt (d : Double) : d.mantissa < 2 * hiddenBit := by
  have := d.fraction_lt
  unfold mantissa
  split <;> omega

end Double

end SqlGrammar
