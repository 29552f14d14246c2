import Mathlib.Tactic.Ring
import SqlGrammar.Double.Rounding

/-!
What rounding does to whole numbers. A rounded quotient is at most a whole number exactly if the quotient
is not beyond the half after it (`roundDiv_le_iff`). The bits of a double count the steps from zero to it,
so the whole part of the double nearest to a number is read off the number of its steps
(`truncate?_ofSteps`, `truncate?_nearest`). Around `2 ^ 63` a step is 1024 below and 2048 above: the
numbers from there up to `2 ^ 63 + 1024` are rounded to it, and no greater one is (`truncate?_nearest_cases`).
-/

namespace SqlGrammar

/-! ## Quotients -/

section Quotients

variable {num den k : Nat}

/-- The whole quotient up to the half, the next number after it; at the half the even one of them. -/
theorem roundDiv_cases (num den : Nat) :
    roundDiv num den = num / den ∧
        (2 * (num % den) < den ∨ 2 * (num % den) = den ∧ num / den % 2 = 0) ∨
      roundDiv num den = num / den + 1 ∧
        (den < 2 * (num % den) ∨ 2 * (num % den) = den ∧ num / den % 2 = 1) := by
  unfold roundDiv
  dsimp only
  split
  · omega
  · split <;> omega

/-- **A rounded quotient passes a whole number when the quotient passes the half after it.** At the half
itself it is an odd number that is passed. -/
theorem roundDiv_le_iff (pos : 0 < den) : roundDiv num den ≤ k ↔
    2 * num < (2 * k + 1) * den ∨ 2 * num = (2 * k + 1) * den ∧ k % 2 = 0 := by
  have whole : den * (num / den) + num % den = num := Nat.div_add_mod num den
  have rest : num % den < den := Nat.mod_lt num pos
  have half : (2 * k + 1) * den = 2 * (den * k) + den := by ring
  have rounded := roundDiv_cases num den
  rw [half]
  rcases Nat.lt_trichotomy k (num / den) with below | same | above
  · have passed : den * k + den ≤ den * (num / den) := by
      calc den * k + den = den * (k + 1) := by ring
        _ ≤ den * (num / den) := Nat.mul_le_mul_left den below
    omega
  · -- the only number that the rest decides on
    rw [← same] at whole rounded
    omega
  · have short : den * (num / den) + den ≤ den * k := by
      calc den * (num / den) + den = den * (num / den + 1) := by ring
        _ ≤ den * k := Nat.mul_le_mul_left den above
    omega

theorem le_roundDiv (pos : 0 < den) (h : k * den ≤ num) : k ≤ roundDiv num den := by
  have low : k ≤ num / den := (Nat.le_div_iff_mul_le pos).2 h
  have rounded := roundDiv_cases num den
  omega

theorem roundDiv_le (pos : 0 < den) (h : num ≤ k * den) : roundDiv num den ≤ k := by
  apply (roundDiv_le_iff pos).2
  have half : (2 * k + 1) * den = 2 * (k * den) + den := by ring
  omega

end Quotients

namespace Double

/-! ## Whole parts -/

def finest : Nat := 1074

theorem numerator_div_denominator (d : Double) :
    d.numerator / d.denominator = d.mantissa * 2 ^ (d.field - 1) / 2 ^ finest := by
  have unit : finest = 1074 := rfl
  unfold numerator denominator exponent
  rw [Nat.pow_eq, Nat.pow_eq]
  by_cases subnormal : d.field = 0
  · have up : (-1074 : Int).toNat = d.field - 1 := by omega
    have down : (-(-1074 : Int)).toNat = finest := rfl
    rw [if_pos subnormal, up, down]
  · rw [if_neg subnormal]
    by_cases large : finest < d.field
    · have up : ((d.field : Int) - 1075).toNat = d.field - 1 - finest := by omega
      have down : (-((d.field : Int) - 1075)).toNat = 0 := by omega
      have split : d.field - 1 = d.field - 1 - finest + finest := by omega
      conv_rhs => rw [split, Nat.pow_add, ← Nat.mul_assoc]
      rw [up, down, Nat.mul_div_cancel _ (Nat.two_pow_pos finest), Nat.pow_zero, Nat.div_one]
    · have up : ((d.field : Int) - 1075).toNat = 0 := by omega
      have down : (-((d.field : Int) - 1075)).toNat = finest - (d.field - 1) := by omega
      have split : finest = finest - (d.field - 1) + (d.field - 1) := by omega
      conv_rhs => rw [split, Nat.pow_add]
      rw [up, down, Nat.pow_zero, Nat.mul_one, Nat.mul_div_mul_right _ _ (Nat.two_pow_pos _)]

/-- The double `steps * 2 ^ (k - 1074)`. -/
def ofSteps (k steps : Nat) : Double := ⟨.ofNat (k * hiddenBit + steps)⟩

section Steps

variable {k steps : Nat}

theorem toNat_ofSteps (finite : k * hiddenBit + steps < infinity.bits.toNat) :
    (ofSteps k steps).bits.toNat = k * hiddenBit + steps := by
  have bound : infinity.bits.toNat < 2 ^ 64 := by decide
  rw [ofSteps, UInt64.toNat_ofNat']
  exact Nat.mod_eq_of_lt (by omega)

/-- Twice the hidden bit moves on to the next field. -/
theorem field_ofSteps (finite : k * hiddenBit + steps < infinity.bits.toNat) :
    (ofSteps k steps).field = k + steps / hiddenBit := by
  have top : infinity.bits.toNat = 2047 * hiddenBit := by decide
  rw [field, toNat_ofSteps finite]
  unfold hiddenBit at *
  omega

theorem fraction_ofSteps (finite : k * hiddenBit + steps < infinity.bits.toNat) :
    (ofSteps k steps).fraction = steps % hiddenBit := by
  rw [fraction, toNat_ofSteps finite, Nat.mul_comm, Nat.mul_add_mod]

theorem mantissa_ofSteps (low : k = 0 ∨ hiddenBit ≤ steps) (high : steps ≤ 2 * hiddenBit)
    (finite : k * hiddenBit + steps < infinity.bits.toNat) :
    (ofSteps k steps).mantissa * 2 ^ ((ofSteps k steps).field - 1) = steps * 2 ^ k := by
  have pos : 0 < hiddenBit := by decide
  unfold mantissa
  rw [field_ofSteps finite, fraction_ofSteps finite]
  rcases Nat.lt_or_ge steps hiddenBit with subnormal | normal
  · have least : k = 0 := low.resolve_right (by omega)
    rw [Nat.div_eq_of_lt subnormal, Nat.mod_eq_of_lt subnormal, Nat.add_zero, if_pos least, least]
  · rcases Nat.lt_or_eq_of_le high with below | twice
    · have one : steps / hiddenBit = 1 := Nat.div_eq_of_lt_le (by omega) (by omega)
      have same : hiddenBit + steps % hiddenBit = steps := by
        have parts := Nat.div_add_mod steps hiddenBit
        rwa [one, Nat.mul_one] at parts
      rw [one, if_neg k.succ_ne_zero, same, Nat.add_sub_cancel]
    · have two : steps / hiddenBit = 2 := by rw [twice, Nat.mul_div_cancel _ pos]
      rw [two, if_neg (by omega), twice, Nat.mul_mod_left, Nat.add_zero]
      show hiddenBit * 2 ^ (k + 1) = _
      ring

theorem isFinite_ofSteps (finite : k * hiddenBit + steps < infinity.bits.toNat) :
    (ofSteps k steps).isFinite = true := by
  have top : infinity.bits.toNat = 2047 * hiddenBit := by decide
  have field : (ofSteps k steps).field < 2047 := by
    rw [field_ofSteps finite]
    unfold hiddenBit at *
    omega
  exact decide_eq_true (by omega)

theorem negative_ofSteps (finite : k * hiddenBit + steps < infinity.bits.toNat) :
    (ofSteps k steps).negative = false := by
  apply decide_eq_false
  rw [toNat_ofSteps finite]
  have : infinity.bits.toNat < 2 ^ 63 := by decide
  omega

/-- **The whole part of a number of steps.** -/
theorem truncate?_ofSteps (low : k = 0 ∨ hiddenBit ≤ steps) (high : steps ≤ 2 * hiddenBit)
    (finite : k * hiddenBit + steps < infinity.bits.toNat) :
    (ofSteps k steps).truncate? = some (steps * 2 ^ k / 2 ^ finest : Nat) := by
  have whole := numerator_div_denominator (ofSteps k steps)
  rw [mantissa_ofSteps low high finite] at whole
  rw [truncate?, if_pos (isFinite_ofSteps finite), negative_ofSteps finite]
  exact congrArg (fun w : Nat => some (w : Int)) whole

end Steps

/-! ## Signs -/

theorem toNat_neg (d : Double) : d.neg.bits.toNat = d.bits.toNat ^^^ 2 ^ 63 := UInt64.toNat_xor _ _

theorem field_neg (d : Double) : d.neg.field = d.field := by
  have size : hiddenBit = 2 ^ 52 := rfl
  have fields : 2048 = 2 ^ 11 := rfl
  rw [field, field, toNat_neg, size, fields, Nat.xor_div_two_pow, Nat.xor_mod_two_pow]
  exact Nat.xor_zero _

theorem fraction_neg (d : Double) : d.neg.fraction = d.fraction := by
  have size : hiddenBit = 2 ^ 52 := rfl
  rw [fraction, fraction, toNat_neg, size, Nat.xor_mod_two_pow]
  exact Nat.xor_zero _

theorem negative_neg (d : Double) : d.neg.negative = !d.negative := by
  have top (n : Nat) : 2 ^ 63 ≤ n ↔ n / 2 ^ 63 ≠ 0 := by omega
  have sign : d.bits.toNat / 2 ^ 63 = 0 ∨ d.bits.toNat / 2 ^ 63 = 1 := by
    have bound := d.bits.toNat_lt
    omega
  have flipped : d.neg.bits.toNat / 2 ^ 63 = d.bits.toNat / 2 ^ 63 ^^^ 1 := by
    rw [toNat_neg, Nat.xor_div_two_pow]
    rfl
  unfold negative
  rw [← decide_not]
  apply decide_eq_decide.2
  show 2 ^ 63 ≤ _ ↔ ¬ 2 ^ 63 ≤ _
  rw [top, top, flipped]
  rcases sign with plus | minus
  · rw [plus]; decide
  · rw [minus]; decide

theorem truncate?_neg (d : Double) : d.neg.truncate? = d.truncate?.map fun z => -z := by
  unfold truncate? isFinite numerator denominator mantissa exponent
  rw [field_neg, fraction_neg, negative_neg]
  split
  · cases d.negative <;> simp
  · rfl

/-! ## Whole numbers -/

theorem magnitude_one {m : Nat} (hm : m ≠ 0) : magnitude m 1 = m.log2 := by
  have log : Nat.log2 1 = 0 := by decide
  have down : (-((m.log2 : Int) - (0 : Nat))).toNat = 0 := by omega
  have up : ((m.log2 : Int) - (0 : Nat)).toNat = m.log2 := by omega
  have least := Nat.log2_self_le hm
  unfold magnitude
  dsimp only
  rw [log, down, up, if_neg]
  · omega
  · simp only [Nat.pow_eq]
    omega

section Whole

variable {m : Nat}

/-- The places of a whole number that are too low for a mantissa. -/
def lowPlaces (m : Nat) : Nat := m.log2 - 52

/-- The mantissa to which a whole number is rounded. -/
def wholeSteps (m : Nat) : Nat := roundDiv m (2 ^ lowPlaces m)

theorem le_wholeSteps (h : 2 ^ 52 ≤ m) : 2 ^ 52 ≤ wholeSteps m := by
  have nonzero : m ≠ 0 := by omega
  have places : 52 ≤ m.log2 := (Nat.le_log2 nonzero).2 h
  apply le_roundDiv (Nat.two_pow_pos _)
  calc 2 ^ 52 * 2 ^ lowPlaces m = 2 ^ m.log2 := by rw [← Nat.pow_add, lowPlaces, Nat.add_sub_of_le places]
    _ ≤ m := Nat.log2_self_le nonzero

theorem wholeSteps_le (h : 2 ^ 52 ≤ m) : wholeSteps m ≤ 2 ^ 53 := by
  have nonzero : m ≠ 0 := by omega
  have places : 52 ≤ m.log2 := (Nat.le_log2 nonzero).2 h
  have split : m.log2 + 1 = 53 + lowPlaces m := by unfold lowPlaces; omega
  apply roundDiv_le (Nat.two_pow_pos _)
  calc m ≤ 2 ^ (m.log2 + 1) := Nat.le_of_lt Nat.lt_log2_self
    _ = 2 ^ 53 * 2 ^ lowPlaces m := by rw [← Nat.pow_add, split]

/-- A whole number with a mantissa or more of places is rounded to steps of a power of two. -/
theorem nearest_one (h : 2 ^ 52 ≤ m) :
    nearest m 1 = ⟨.ofNat (min ((lowPlaces m + 1074) * hiddenBit + wholeSteps m) infinity.bits.toNat)⟩ := by
  have nonzero : m ≠ 0 := by omega
  have places : 52 ≤ m.log2 := (Nat.le_log2 nonzero).2 h
  have order : max (magnitude m 1 - 52) (-1074) = (lowPlaces m : Int) := by
    rw [magnitude_one nonzero, lowPlaces]
    omega
  have down : (-(lowPlaces m : Int)).toNat = 0 := by omega
  have up : ((lowPlaces m : Int) + 1074).toNat = lowPlaces m + 1074 := by omega
  unfold nearest
  rw [if_neg nonzero]
  dsimp only
  rw [order, down, up, Int.toNat_natCast]
  simp only [Nat.pow_eq, Nat.pow_zero, Nat.mul_one, Nat.one_mul]
  rfl

/-- **The whole part of the double nearest to a whole number.** -/
theorem truncate?_nearest (h : 2 ^ 52 ≤ m) : (nearest m 1).truncate? =
    if (lowPlaces m + 1074) * hiddenBit + wholeSteps m < infinity.bits.toNat then
      some (wholeSteps m * 2 ^ lowPlaces m : Nat)
    else none := by
  rw [nearest_one h]
  split
  · next finite =>
    have scaled :
        wholeSteps m * 2 ^ (lowPlaces m + finest) / 2 ^ finest = wholeSteps m * 2 ^ lowPlaces m := by
      rw [Nat.pow_add, ← Nat.mul_assoc, Nat.mul_div_cancel _ (Nat.two_pow_pos _)]
    rw [Nat.min_eq_left (Nat.le_of_lt finite), ← scaled]
    exact truncate?_ofSteps (Or.inr (le_wholeSteps h)) (wholeSteps_le h) finite
  · next infinite =>
    rw [Nat.min_eq_right (Nat.le_of_not_lt infinite)]
    decide

/-- **The whole numbers around `2 ^ 63`.** From there to 1024 above it they are rounded to it, and the others
to greater numbers or to the infinity. -/
theorem truncate?_nearest_cases (h : 2 ^ 63 ≤ m) :
    (m ≤ 2 ^ 63 + 1024 → (nearest m 1).truncate? = some (2 ^ 63)) ∧
    (2 ^ 63 + 1024 < m → ∀ z, (nearest m 1).truncate? = some z → 2 ^ 63 < z) := by
  have nonzero : m ≠ 0 := by omega
  have low := le_wholeSteps (m := m) (by omega)
  have near : m < 2 ^ 64 → lowPlaces m = 11 ∧ (wholeSteps m = 2 ^ 52 ↔ m ≤ 2 ^ 63 + 1024) := by
    intro below
    have places : lowPlaces m = 11 := by rw [lowPlaces, (Nat.log2_eq_iff nonzero).2 ⟨h, below⟩]
    have half := @roundDiv_le_iff m (2 ^ 11) (2 ^ 52) (by decide)
    have steps : wholeSteps m = roundDiv m (2 ^ 11) := by rw [wholeSteps, places]
    exact ⟨places, by omega⟩
  rw [truncate?_nearest (by omega)]
  constructor
  · intro hm
    obtain ⟨places, least⟩ := near (by omega)
    rw [places, least.2 hm]
    decide
  · intro hm z hz
    split at hz
    · obtain rfl := Option.some.inj hz
      rcases Nat.lt_or_ge m (2 ^ 64) with below | above
      · obtain ⟨places, least⟩ := near below
        rw [places]
        omega
      · have places : 12 ≤ lowPlaces m := by
          have := (Nat.le_log2 nonzero).2 above
          unfold lowPlaces
          omega
        have far : 2 ^ 52 * 2 ^ 12 ≤ wholeSteps m * 2 ^ lowPlaces m :=
          Nat.mul_le_mul low (Nat.pow_le_pow_right (by decide) places)
        omega
    · cases hz

end Whole

end Double

end SqlGrammar
