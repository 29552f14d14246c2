import Mathlib.Algebra.Order.Field.Power
import Mathlib.Tactic.Linarith
import Mathlib.Tactic.LinearCombination
import SqlGrammar.Proofs.ExactValue

/-!
Rounding is correct. `IsNearest` says which double a number is rounded to: none is nearer, of two equally
near ones it is the one with the even fraction, and numbers beyond the largest double by half a step or more
go to the infinity. `Steps` is how rounding gets there, by counting steps of one power of two: among all
whole numbers of steps the count is the nearest one (`Steps.le_of_int`), a double between them is too small
to matter (`value_cases`), and the count turns into bits (`Steps.isNearest`). So the double nearest to a
fraction is the nearest double (`isNearest_nearest`).
-/

namespace SqlGrammar

/-- A rounded quotient is less than a half away, or a half and even. -/
theorem abs_sub_roundDiv {num den : ℕ} (pos : 0 < den) :
    |(num / den : ℚ) - roundDiv num den| < 1 / 2 ∨
      |(num / den : ℚ) - roundDiv num den| = 1 / 2 ∧ roundDiv num den % 2 = 0 := by
  have positive : (0 : ℚ) < den := by exact_mod_cast pos
  have parts : (num : ℚ) = den * (num / den : ℕ) + (num % den : ℕ) := by
    exact_mod_cast (Nat.div_add_mod num den).symm
  have quotient : (num / den : ℚ) = (num / den : ℕ) + (num % den : ℕ) / den := by
    rw [div_eq_iff positive.ne', add_mul, div_mul_cancel₀ _ positive.ne', mul_comm _ (den : ℚ)]
    exact parts
  have rest : (0 : ℚ) ≤ (num % den : ℕ) / den := by positivity
  have half : ((num % den : ℕ) / den : ℚ) < 1 / 2 ↔ 2 * (num % den) < den := by
    rw [div_lt_iff₀ positive, ← Nat.cast_lt (α := ℚ), Nat.cast_mul, Nat.cast_two]
    constructor <;> intro h <;> linarith
  have tie : ((num % den : ℕ) / den : ℚ) = 1 / 2 ↔ 2 * (num % den) = den := by
    rw [div_eq_iff positive.ne', ← Nat.cast_inj (R := ℚ), Nat.cast_mul, Nat.cast_two]
    constructor <;> intro h <;> linarith
  have small : ((num % den : ℕ) / den : ℚ) < 1 := by
    rw [div_lt_one positive]
    exact_mod_cast Nat.mod_lt num pos
  rw [quotient]
  rcases roundDiv_cases num den with ⟨down, below | ⟨same, even⟩⟩ | ⟨up, above | ⟨same, odd⟩⟩
  · left
    rw [down, add_sub_cancel_left, abs_of_nonneg rest]
    exact half.2 below
  · right
    rw [down, add_sub_cancel_left, abs_of_nonneg rest]
    exact ⟨tie.2 same, even⟩
  · left
    have more : (1 / 2 : ℚ) < (num % den : ℕ) / den := by
      apply lt_of_le_of_ne
      · exact not_lt.1 fun h => by have := half.1 h; omega
      · exact fun h => by have := tie.1 h.symm; omega
    rw [up, Nat.cast_succ, add_sub_add_left_eq_sub, abs_of_neg (by linarith)]
    linarith
  · right
    have equal := tie.2 same
    rw [up, Nat.cast_succ, add_sub_add_left_eq_sub, abs_of_neg (by linarith)]
    exact ⟨by linarith, by omega⟩

namespace Double

/-! ## The nearest double -/

/-- From here on a number is rounded to the infinity: half a step beyond the largest double. -/
def overflow : ℚ := 2 ^ 1024 - 2 ^ 970

/-- The double that a number is rounded to. -/
inductive IsNearest (x : ℚ) (d : Double) : Prop
  | finite {y : ℚ} (value : d.value? = some y) (within : |x| < overflow)
      (near : ∀ e z, value? e = some z → |x - y| ≤ |x - z|)
      (even : ∀ e z, value? e = some z → |x - z| = |x - y| →
        z = y ∨ d.fraction % 2 = 0 ∧ e.fraction % 2 = 1)
  | above (infinite : d = infinity) (beyond : overflow ≤ x)
  | below (infinite : d = infinity.neg) (beyond : x ≤ -overflow)

/-! ## Doubles between steps -/

section Values

variable {d : Double} {x y : ℚ}

/-- In steps of a power of two a double is a whole number, or it is small. An odd number of steps is an odd
fraction. -/
theorem units_cases (d : Double) (k : ℕ) :
    (∃ m : ℕ, d.units = m * 2 ^ k ∧ (m % 2 = 1 → d.fraction % 2 = 1)) ∨
      0 < k ∧ d.units < 2 ^ 52 * 2 ^ k := by
  rcases Nat.lt_or_ge (d.field - 1) k with fine | coarse
  · right
    have size : hiddenBit = 2 ^ 52 := rfl
    have mantissa : d.mantissa < 2 ^ 53 := by
      have := d.mantissa_lt
      omega
    have steps : 2 ^ 52 * 2 ^ (d.field - 1 + 1) ≤ 2 ^ 52 * 2 ^ k :=
      Nat.mul_le_mul_left _ (Nat.pow_le_pow_right (by decide) fine)
    have small : d.units < 2 ^ 53 * 2 ^ (d.field - 1) :=
      Nat.mul_lt_mul_of_pos_right mantissa (Nat.two_pow_pos _)
    rw [Nat.pow_succ] at steps
    exact ⟨by omega, by omega⟩
  · left
    have split : d.field - 1 = d.field - 1 - k + k := by omega
    refine ⟨d.mantissa * 2 ^ (d.field - 1 - k), ?_, fun odd => ?_⟩
    · rw [units]
      conv_lhs => rw [split, Nat.pow_add, ← Nat.mul_assoc]
    · -- an odd number is no multiple of two, so the steps are those of the double itself
      have own : d.field - 1 - k = 0 := by
        by_contra further
        obtain ⟨j, hj⟩ := Nat.exists_eq_succ_of_ne_zero further
        rw [hj, Nat.pow_succ, ← Nat.mul_assoc] at odd
        omega
      rw [own, Nat.pow_zero, Nat.mul_one, mantissa] at odd
      split at odd
      · exact odd
      · unfold hiddenBit at odd
        omega

theorem value_cases (h : d.value? = some y) (k : ℕ) :
    (∃ j : ℤ, y * 2 ^ finest = j * 2 ^ k ∧ (j % 2 = 1 → d.fraction % 2 = 1)) ∨
      0 < k ∧ |y| * 2 ^ finest < 2 ^ 52 * 2 ^ k := by
  have scaled : |y| * 2 ^ finest = d.units := by
    rw [abs_of_value? h, size_eq, div_mul_cancel₀ _ (by positivity)]
  rcases units_cases d k with ⟨m, hm, odd⟩ | ⟨pos, small⟩
  · left
    have whole : |y| * 2 ^ finest = m * 2 ^ k := by
      rw [scaled, hm]
      push_cast
      rfl
    rcases abs_cases y with ⟨same, -⟩ | ⟨other, -⟩
    · refine ⟨m, ?_, fun h => odd (by omega)⟩
      rw [← same, whole]
      push_cast
      rfl
    · refine ⟨-m, ?_, fun h => odd (by omega)⟩
      rw [other] at whole
      push_cast
      linarith
  · right
    refine ⟨pos, ?_⟩
    rw [scaled]
    exact_mod_cast small

theorem overflow_mul : overflow * 2 ^ finest = (2 ^ 54 - 1) * 2 ^ (970 + finest) := by
  have split : (2 : ℚ) ^ 1024 = 2 ^ 54 * 2 ^ 970 := by rw [← pow_add]
  rw [overflow, split, pow_add]
  generalize (2 : ℚ) ^ 970 = c
  ring

theorem abs_lt_overflow (h : d.value? = some y) : |y| < overflow := by
  have field : d.field - 1 ≤ 970 + finest + 1 := by
    have bound := d.field_lt
    have finite : d.field ≠ 2047 := by
      intro infinite
      rw [value?, if_neg (by simp [isFinite, infinite])] at h
      cases h
    have : finest = 1074 := rfl
    omega
  have mantissa : d.mantissa ≤ 2 ^ 53 - 1 := by
    have := d.mantissa_lt
    unfold hiddenBit at this
    omega
  have mantissa' : (d.mantissa : ℚ) ≤ 2 ^ 53 - 1 := by
    calc (d.mantissa : ℚ) ≤ ((2 ^ 53 - 1 : ℕ) : ℚ) := by exact_mod_cast mantissa
      _ = 2 ^ 53 - 1 := by norm_num
  have unit : (0 : ℚ) < 2 ^ (970 + finest) := by positivity
  have units : (d.units : ℚ) ≤ (2 ^ 53 - 1) * (2 ^ (970 + finest) * 2) := by
    rw [Double.units, Nat.cast_mul, Nat.cast_pow, Nat.cast_two, ← pow_succ]
    exact mul_le_mul mantissa' (pow_le_pow_right₀ one_le_two field) (by positivity) (by norm_num)
  rw [abs_of_value? h, size_eq, div_lt_iff₀ (by positivity), overflow_mul]
  generalize (2 : ℚ) ^ (970 + finest) = c at unit units ⊢
  linarith

theorem IsNearest.eq_of_value (h : d.IsNearest x) {e : Double} (he : e.value? = some x) : d.value? = some x := by
  have within := abs_lt_overflow he
  cases h with
  | @finite y value _ near _ =>
    have none : |x - y| ≤ |x - x| := near e x he
    rw [sub_self, abs_zero] at none
    have same : x - y = 0 := abs_eq_zero.1 (le_antisymm none (abs_nonneg _))
    rw [value, sub_eq_zero.1 same]
  | above _ beyond => exact absurd (le_abs_self x) (by linarith)
  | below _ beyond => exact absurd (neg_le_abs x) (by linarith)

theorem IsNearest.neg (h : d.IsNearest x) : d.neg.IsNearest (-x) := by
  have opposite {e : Double} {z : ℚ} (he : e.value? = some z) : e.neg.value? = some (-z) := by
    rw [value?_neg, he, Option.map_some]
  have away (a b : ℚ) : |-a - b| = |a - -b| := by
    rw [← abs_neg]
    congr 1
    ring
  have there (a b : ℚ) : |-a - -b| = |a - b| := by rw [away, neg_neg]
  cases h with
  | @finite y value within near even =>
    refine .finite (opposite value) (by rwa [abs_neg]) (fun e z he => ?_) (fun e z he tie => ?_)
    · rw [there, away]
      exact near _ _ (opposite he)
    · rw [there, away] at tie
      rcases even _ _ (opposite he) tie with same | parity
      · exact Or.inl (by rw [← same, neg_neg])
      · rw [fraction_neg] at parity
        rw [fraction_neg]
        exact Or.inr parity
  | above infinite beyond => exact .below (by rw [infinite]) (by linarith)
  | below infinite beyond =>
    refine .above ?_ (by linarith)
    rw [infinite]
    decide

end Values

/-! ## Counting steps -/

/-- A size, in units, is rounded to a number of steps of `2 ^ k` units. The steps are as fine as a mantissa
allows. -/
structure Steps (u : ℚ) (k steps : ℕ) : Prop where
  below : u < 2 ^ 53 * 2 ^ k
  above : k = 0 ∨ 2 ^ 52 * 2 ^ k ≤ u
  near : |u / 2 ^ k - steps| < 1 / 2 ∨ |u / 2 ^ k - steps| = 1 / 2 ∧ steps % 2 = 0

namespace Steps

variable {u x : ℚ} {k steps : ℕ}

theorem within_half (h : Steps u k steps) : |u / 2 ^ k - steps| ≤ 1 / 2 := by
  rcases h.near with near | ⟨tie, -⟩
  · exact near.le
  · exact tie.le

/-- No whole number of steps is nearer, and at a tie the other one is odd. -/
theorem le_of_int (h : Steps u k steps) (j : ℤ) :
    |u - steps * 2 ^ k| ≤ |u - j * 2 ^ k| ∧
      (|u - j * 2 ^ k| = |u - steps * 2 ^ k| → j = steps ∨ steps % 2 = 0 ∧ j % 2 = 1) := by
  have unit : (0 : ℚ) < 2 ^ k := by positivity
  have scale (a : ℚ) : |u - a * 2 ^ k| = |u / 2 ^ k - a| * 2 ^ k := by
    rw [← abs_of_pos unit, ← abs_mul, abs_of_pos unit, sub_mul, div_mul_cancel₀ _ unit.ne']
  rw [scale, scale]
  rcases eq_or_ne j steps with rfl | other
  · simp
  · have apart : 1 ≤ |(j : ℚ) - steps| := by
      have : (1 : ℤ) ≤ |j - steps| := Int.one_le_abs (sub_ne_zero.2 other)
      exact_mod_cast this
    have triangle : |(j : ℚ) - steps| ≤ |u / 2 ^ k - j| + |u / 2 ^ k - steps| := by
      rw [← abs_sub_comm (j : ℚ)]
      calc |(j : ℚ) - steps| = |(j - u / 2 ^ k) + (u / 2 ^ k - steps)| := by congr 1; ring
        _ ≤ _ := abs_add_le _ _
    have half := h.within_half
    refine ⟨mul_le_mul_of_nonneg_right (by linarith) unit.le, fun tie => Or.inr ?_⟩
    have equal := mul_right_cancel₀ unit.ne' tie
    rcases h.near with near | ⟨exactly, even⟩
    · linarith
    · have close : |(j : ℚ) - steps| ≤ 1 := by linarith
      have close' : |j - steps| ≤ 1 := by exact_mod_cast close
      have := abs_le.1 close'
      exact ⟨even, by omega⟩

theorem le_of_value (h : Steps u k steps) {e : Double} {z : ℚ} (hz : e.value? = some z) :
    |u - steps * 2 ^ k| ≤ |u - z * 2 ^ finest| ∧
      (|u - z * 2 ^ finest| = |u - steps * 2 ^ k| →
        z * 2 ^ finest = steps * 2 ^ k ∨ steps % 2 = 0 ∧ e.fraction % 2 = 1) := by
  rcases value_cases hz k with ⟨j, hj, odd⟩ | ⟨pos, small⟩
  · obtain ⟨near, tie⟩ := h.le_of_int j
    rw [hj]
    refine ⟨near, fun equal => ?_⟩
    rcases tie equal with rfl | ⟨even, other⟩
    · exact Or.inl (by push_cast; rfl)
    · exact Or.inr ⟨even, odd other⟩
  · -- the double is below the least mantissa, which is nearer
    have reached := h.above.resolve_left (by omega)
    have least := (h.le_of_int (2 ^ 52)).1
    have value : z * 2 ^ finest ≤ |z| * 2 ^ finest :=
      mul_le_mul_of_nonneg_right (le_abs_self z) (by positivity)
    have nearer : |u - ((2 ^ 52 : ℤ) : ℚ) * 2 ^ k| < |u - z * 2 ^ finest| := by
      push_cast
      rw [abs_of_nonneg (by linarith), abs_of_pos (by linarith)]
      linarith
    exact ⟨by linarith, fun equal => by linarith⟩

theorem le_twice (h : Steps u k steps) : steps ≤ 2 * hiddenBit := by
  have unit : (0 : ℚ) < 2 ^ k := by positivity
  have less : u / 2 ^ k < 2 ^ 53 := (div_lt_iff₀ unit).2 h.below
  have half := (abs_le.1 h.within_half).1
  have bound : (steps : ℚ) < 2 ^ 53 + 1 := by linarith
  have bound' : steps < 2 ^ 53 + 1 := by exact_mod_cast bound
  unfold hiddenBit
  omega

theorem hiddenBit_le (h : Steps u k steps) : k = 0 ∨ hiddenBit ≤ steps := by
  rcases h.above with finest | reached
  · exact Or.inl finest
  · right
    have unit : (0 : ℚ) < 2 ^ k := by positivity
    have least : 2 ^ 52 ≤ u / 2 ^ k := (le_div_iff₀ unit).2 reached
    have half := (abs_le.1 h.within_half).2
    have bound : (2 ^ 52 : ℚ) < steps + 1 := by linarith
    have bound' : 2 ^ 52 < steps + 1 := by exact_mod_cast bound
    unfold hiddenBit
    omega

/-- A full mantissa is odd, so half a step beyond it is rounded up. -/
theorem lt_full_iff (h : Steps u k steps) : steps < 2 ^ 53 ↔ u / 2 ^ k < 2 ^ 53 - 1 / 2 := by
  have half := abs_le.1 h.within_half
  constructor
  · intro less
    have full : (steps : ℚ) ≤ 2 ^ 53 - 1 := by
      calc (steps : ℚ) ≤ ((2 ^ 53 - 1 : ℕ) : ℚ) := by exact_mod_cast Nat.le_pred_of_lt less
        _ = 2 ^ 53 - 1 := by norm_num
    rcases h.near with near | ⟨-, even⟩
    · have := (abs_lt.1 near).2
      linarith
    · have other : steps ≠ 2 ^ 53 - 1 := by
        rintro rfl
        cases even
      have fewer : (steps : ℚ) ≤ 2 ^ 53 - 2 := by
        calc (steps : ℚ) ≤ ((2 ^ 53 - 2 : ℕ) : ℚ) := by exact_mod_cast (by omega : steps ≤ 2 ^ 53 - 2)
          _ = 2 ^ 53 - 2 := by norm_num
      linarith [half.2]
  · intro within
    have less : (steps : ℚ) < 2 ^ 53 := by linarith [half.1]
    exact_mod_cast less

/-- The bits reach the infinity where the size reaches the end of the range. At the last power of two this is
the carry of a full mantissa. -/
theorem finite_iff (h : Steps u k steps) :
    k * hiddenBit + steps < infinity.bits.toNat ↔ u < overflow * 2 ^ finest := by
  have top : infinity.bits.toNat = 2047 * hiddenBit := by decide
  have most := h.le_twice
  have least := h.hiddenBit_le
  have unit : (0 : ℚ) < 2 ^ (970 + finest) := by positivity
  rw [overflow_mul, top]
  unfold hiddenBit at *
  rcases Nat.lt_trichotomy k (970 + finest + 1) with fine | last | coarse
  · have smaller : (2 : ℚ) ^ k ≤ 2 ^ (970 + finest) := pow_le_pow_right₀ one_le_two (by omega)
    have below := h.below
    have : finest = 1074 := rfl
    generalize (2 : ℚ) ^ (970 + finest) = c at unit smaller ⊢
    exact iff_of_true (by omega) (by linarith)
  · have count : k = 2045 := last
    have twice : (2 : ℚ) ^ k = 2 ^ (970 + finest) * 2 := by rw [last, pow_succ]
    have pos : (0 : ℚ) < 2 ^ k := by positivity
    have scale : u < (2 ^ 54 - 1) * 2 ^ (970 + finest) ↔ u / 2 ^ k < 2 ^ 53 - 1 / 2 := by
      rw [div_lt_iff₀ pos, twice]
      generalize (2 : ℚ) ^ (970 + finest) = c
      constructor <;> intro h <;> linarith
    rw [scale, ← h.lt_full_iff]
    omega
  · have larger : (2 : ℚ) ^ (970 + finest + 2) ≤ 2 ^ k := pow_le_pow_right₀ one_le_two coarse
    have reached := h.above.resolve_left (by omega)
    have count : 2046 ≤ k := coarse
    rw [pow_add] at larger
    generalize (2 : ℚ) ^ (970 + finest) = c at unit larger ⊢
    exact iff_of_false (by omega) (by linarith)

end Steps

section Rounded

variable {x : ℚ} {k steps : ℕ}

theorem value?_ofSteps (low : k = 0 ∨ hiddenBit ≤ steps) (high : steps ≤ 2 * hiddenBit)
    (finite : k * hiddenBit + steps < infinity.bits.toNat) :
    (ofSteps k steps).value? = some (steps * 2 ^ k / 2 ^ finest : ℚ) := by
  rw [value?, if_pos (isFinite_ofSteps finite), negative_ofSteps finite, size_eq, units,
    mantissa_ofSteps low high finite]
  push_cast
  rfl

/-- **The double with a number of steps is the nearest one.** -/
theorem Steps.isNearest (h : Steps (x * 2 ^ finest) k steps) (nonneg : 0 ≤ x) :
    (⟨.ofNat (min (k * hiddenBit + steps) infinity.bits.toNat)⟩ : Double).IsNearest x := by
  have unit : (0 : ℚ) < 2 ^ finest := by positivity
  have size : |x| = x := abs_of_nonneg nonneg
  rcases Nat.lt_or_ge (k * hiddenBit + steps) infinity.bits.toNat with finite | infinite
  · rw [Nat.min_eq_left finite.le]
    have value := value?_ofSteps h.hiddenBit_le h.le_twice finite
    have fraction : (ofSteps k steps).fraction % 2 = steps % 2 := by
      have even : 2 ∣ hiddenBit := by decide
      rw [fraction_ofSteps finite, Nat.mod_mod_of_dvd _ even]
    have scale (z : ℚ) : |x * 2 ^ finest - z * 2 ^ finest| = |x - z| * 2 ^ finest := by
      rw [← sub_mul, abs_mul, abs_of_pos unit]
    have own : (steps * 2 ^ k / 2 ^ finest : ℚ) * 2 ^ finest = steps * 2 ^ k :=
      div_mul_cancel₀ _ unit.ne'
    refine .finite value ?_ (fun e z hz => ?_) (fun e z hz tie => ?_)
    · rw [size]
      exact lt_of_mul_lt_mul_right (h.finite_iff.1 finite) unit.le
    · have near := (h.le_of_value hz).1
      rw [← own, scale, scale] at near
      exact le_of_mul_le_mul_right near unit
    · have other := (h.le_of_value hz).2
      rw [← own, scale, scale, tie] at other
      rcases other rfl with same | parity
      · exact Or.inl (mul_right_cancel₀ unit.ne' same)
      · exact Or.inr (by rwa [← fraction] at parity)
  · rw [Nat.min_eq_right infinite, UInt64.ofNat_toNat]
    refine .above rfl ?_
    by_contra within
    have := h.finite_iff.2 (mul_lt_mul_of_pos_right (not_le.1 within) unit)
    omega

theorem isNearest_zero (nonneg : 0 ≤ x) (small : x * 2 ^ finest < 1 / 2) : zero.IsNearest x := by
  have unit : (0 : ℚ) < 2 ^ finest := by positivity
  have counted : Steps (x * 2 ^ finest) 0 0 := by
    refine ⟨by rw [pow_zero]; linarith, Or.inl rfl, Or.inl ?_⟩
    rw [pow_zero, div_one, Nat.cast_zero, sub_zero, abs_of_nonneg (by positivity)]
    exact small
  have bits : zero = ⟨.ofNat (min (0 * hiddenBit + 0) infinity.bits.toNat)⟩ := by decide
  rw [bits]
  exact counted.isNearest nonneg

end Rounded

/-! ## Fractions -/

section Fractions

variable {num den : ℕ}

theorem zpow_eq_div {b : ℚ} (hb : b ≠ 0) (e : ℤ) : b ^ e = b ^ e.toNat / b ^ (-e).toNat := by
  rw [eq_div_iff (pow_ne_zero _ hb), ← zpow_natCast, ← zpow_natCast, ← zpow_add₀ hb]
  congr 1
  omega

theorem mul_pow_lt_iff (pos : 0 < den) (e : ℤ) :
    num * Nat.pow 2 (-e).toNat < den * Nat.pow 2 e.toNat ↔ (num / den : ℚ) < 2 ^ e := by
  have positive : (0 : ℚ) < den := by exact_mod_cast pos
  rw [Nat.pow_eq, Nat.pow_eq, zpow_eq_div two_ne_zero, div_lt_div_iff₀ positive (by positivity),
    mul_comm (2 ^ e.toNat : ℚ)]
  norm_cast

theorem magnitude_bounds (hn : 0 < num) (hd : 0 < den) :
    (2 : ℚ) ^ magnitude num den ≤ num / den ∧ (num / den : ℚ) < 2 ^ (magnitude num den + 1) := by
  have positive : (0 : ℚ) < den := by exact_mod_cast hd
  have lower (n : ℕ) (hn : 0 < n) : (2 : ℚ) ^ (n.log2 : ℤ) ≤ n := by
    rw [zpow_natCast]
    exact_mod_cast Nat.log2_self_le hn.ne'
  have upper (n : ℕ) : (n : ℚ) < 2 ^ ((n.log2 : ℤ) + 1) := by
    have less : n < 2 ^ (n.log2 + 1) := Nat.lt_log2_self
    rw [← Nat.cast_succ, zpow_natCast]
    exact_mod_cast less
  have low : (2 : ℚ) ^ ((num.log2 : ℤ) - den.log2 - 1) ≤ num / den := by
    rw [le_div_iff₀ positive]
    calc (2 : ℚ) ^ ((num.log2 : ℤ) - den.log2 - 1) * den
        ≤ 2 ^ ((num.log2 : ℤ) - den.log2 - 1) * 2 ^ ((den.log2 : ℤ) + 1) :=
          mul_le_mul_of_nonneg_left (upper den).le (by positivity)
      _ = 2 ^ (num.log2 : ℤ) := by rw [← zpow_add₀ two_ne_zero]; congr 1; ring
      _ ≤ num := lower num hn
  have high : (num / den : ℚ) < 2 ^ ((num.log2 : ℤ) - den.log2 + 1) := by
    rw [div_lt_iff₀ positive]
    calc (num : ℚ) < 2 ^ ((num.log2 : ℤ) + 1) := upper num
      _ = 2 ^ ((num.log2 : ℤ) - den.log2 + 1) * 2 ^ (den.log2 : ℤ) := by
          rw [← zpow_add₀ two_ne_zero]; congr 1; ring
      _ ≤ 2 ^ ((num.log2 : ℤ) - den.log2 + 1) * den :=
          mul_le_mul_of_nonneg_left (lower den hd) (by positivity)
  unfold magnitude
  dsimp only
  split
  · next less =>
    rw [sub_add_cancel]
    exact ⟨low, (mul_pow_lt_iff hd _).1 less⟩
  · next reached => exact ⟨not_lt.1 fun less => reached ((mul_pow_lt_iff hd _).2 less), high⟩

theorem exists_steps (hn : 0 < num) (hd : 0 < den) :
    ∃ k steps, Steps (num / den * 2 ^ finest) k steps ∧
      nearest num den = ⟨.ofNat (min (k * hiddenBit + steps) infinity.bits.toNat)⟩ := by
  obtain ⟨low, high⟩ := magnitude_bounds hn hd
  obtain ⟨e, he⟩ : ∃ e, e = max (magnitude num den - 52) (-1074) := ⟨_, rfl⟩
  have unit : finest = 1074 := rfl
  have positive : (0 : ℚ) < den := by exact_mod_cast hd
  have scaled : ((num * Nat.pow 2 (-e).toNat : ℕ) / (den * Nat.pow 2 e.toNat : ℕ) : ℚ) =
      num / den * 2 ^ finest / 2 ^ (e + 1074).toNat := by
    have powers : (2 : ℚ) ^ (-e).toNat * 2 ^ (e + 1074).toNat = 2 ^ finest * 2 ^ e.toNat := by
      rw [← pow_add, ← pow_add]
      congr 1
      omega
    rw [Nat.pow_eq, Nat.pow_eq, div_mul_eq_mul_div, div_div, div_eq_div_iff (by positivity) (by positivity)]
    push_cast
    linear_combination (num * den : ℚ) * powers
  obtain ⟨k, hk⟩ : ∃ k, k = (e + 1074).toNat := ⟨_, rfl⟩
  have power (n : ℕ) : (2 : ℚ) ^ (((n + k : ℕ) : ℤ) - finest) = 2 ^ n * 2 ^ k / 2 ^ finest := by
    rw [two_zpow (sub_add_cancel _ _), pow_add]
  refine ⟨k, roundDiv (num * Nat.pow 2 (-e).toNat) (den * Nat.pow 2 e.toNat), ⟨?_, ?_, ?_⟩, ?_⟩
  · have top : (2 : ℚ) ^ (magnitude num den + 1) ≤ 2 ^ (((53 + k : ℕ) : ℤ) - finest) :=
      zpow_le_zpow_right₀ one_le_two (by omega)
    rw [power] at top
    exact (lt_div_iff₀ (by positivity)).1 (high.trans_le top)
  · rcases Nat.eq_zero_or_pos k with finest | coarse
    · exact Or.inl finest
    · right
      have bottom : (2 : ℚ) ^ (((52 + k : ℕ) : ℤ) - finest) ≤ 2 ^ magnitude num den :=
        zpow_le_zpow_right₀ one_le_two (by omega)
      rw [power] at bottom
      exact (div_le_iff₀ (by positivity)).1 (bottom.trans low)
  · rw [hk, ← scaled]
    exact abs_sub_roundDiv (Nat.mul_pos hd (Nat.two_pow_pos _))
  · rw [nearest, if_neg hn.ne', hk, he]

/-- **Rounding is correct.** -/
theorem isNearest_nearest (num : ℕ) (hd : 0 < den) : (nearest num den).IsNearest (num / den) := by
  rcases Nat.eq_zero_or_pos num with rfl | hn
  · rw [Nat.cast_zero, zero_div]
    exact isNearest_zero le_rfl (by norm_num)
  · obtain ⟨k, steps, counted, bits⟩ := exists_steps hn hd
    rw [bits]
    exact counted.isNearest (by positivity)

end Fractions

/-! ## Where a power of two is reached -/

section Powers

variable {d : Double} {x y : ℚ} {k : ℕ}

/-- A step of `2 ^ k` units, as a number. -/
def step (k : ℕ) : ℚ := 2 ^ k / 2 ^ finest

theorem step_pos (k : ℕ) : 0 < step k := by
  unfold step
  positivity

theorem value?_power (hk : k ≤ 2044) : (ofSteps (k + 1) (2 ^ 52)).value? = some (2 ^ 53 * step k) := by
  have size : infinity.bits.toNat = 2047 * hiddenBit := by decide
  have hidden : hiddenBit = 2 ^ 52 := rfl
  rw [value?_ofSteps (by omega) (by omega) (by rw [size]; unfold hiddenBit; omega), step, pow_succ]
  exact congrArg some (by push_cast; ring)

theorem value?_last (hk : k ≤ 2044) : (ofSteps k (2 ^ 53 - 1)).value? = some ((2 ^ 53 - 1) * step k) := by
  have size : infinity.bits.toNat = 2047 * hiddenBit := by decide
  have hidden : hiddenBit = 2 ^ 52 := rfl
  have most : ((2 ^ 53 - 1 : ℕ) : ℚ) = 2 ^ 53 - 1 := by norm_num
  rw [value?_ofSteps (by omega) (by omega) (by rw [size]; unfold hiddenBit; omega), step, most, mul_div_assoc]

theorem le_last (h : d.value? = some y) (less : y < 2 ^ 53 * step k) : y ≤ (2 ^ 53 - 1) * step k := by
  have scale : (0 : ℚ) < 2 ^ finest := by positivity
  have unit : step k * 2 ^ finest = 2 ^ k := div_mul_cancel₀ _ scale.ne'
  apply le_of_mul_le_mul_right _ scale
  have less' := mul_lt_mul_of_pos_right less scale
  rw [mul_assoc, unit] at less' ⊢
  have pos : (0 : ℚ) < 2 ^ k := by positivity
  rcases value_cases h k with ⟨j, hj, -⟩ | ⟨-, small⟩
  · rw [hj] at less' ⊢
    have below : (j : ℚ) < 2 ^ 53 := lt_of_mul_lt_mul_right less' pos.le
    have below' : j < 2 ^ 53 := by exact_mod_cast below
    have most : (j : ℚ) ≤ 2 ^ 53 - 1 := by exact_mod_cast (by omega : j ≤ 2 ^ 53 - 1)
    exact mul_le_mul_of_nonneg_right most pos.le
  · have bound := mul_le_mul_of_nonneg_right (le_abs_self y) scale.le
    linarith

/-- **A number is rounded up to a power of two from the middle of the last step below it.** At the middle it
is the power that has the even fraction. -/
theorem IsNearest.power_le_iff (h : d.IsNearest x) (hy : d.value? = some y) (hk : k ≤ 2044) :
    2 ^ 53 * step k ≤ y ↔ (2 ^ 53 - 1 / 2) * step k ≤ x := by
  have pos := step_pos k
  have size : infinity.bits.toNat = 2047 * hiddenBit := by decide
  have power := value?_power hk
  have even : (ofSteps (k + 1) (2 ^ 52)).fraction = 0 := by
    rw [fraction_ofSteps (by rw [size]; unfold hiddenBit; omega)]
    decide
  cases h with
  | @finite y' value within near tie =>
    obtain rfl := Option.some.inj (value.symm.trans hy)
    constructor
    · intro reached
      by_contra short
      have nearer := near _ _ (value?_last hk)
      rw [abs_of_neg (by linarith)] at nearer
      rcases abs_cases (x - (2 ^ 53 - 1) * step k) with ⟨same, -⟩ | ⟨other, -⟩ <;> linarith
    · intro middle
      by_contra short
      have last := le_last hy (not_le.1 short)
      have nearer := near _ _ power
      have equal : |x - 2 ^ 53 * step k| = |x - y'| := by
        apply le_antisymm _ nearer
        rw [abs_of_nonneg (by linarith : 0 ≤ x - y')]
        rcases abs_cases (x - 2 ^ 53 * step k) with ⟨same, -⟩ | ⟨other, -⟩ <;> linarith
      rcases tie _ _ power equal with same | ⟨-, odd⟩
      · linarith
      · rw [even] at odd
        cases odd
  | above infinite =>
    rw [infinite] at hy
    cases hy
  | below infinite =>
    rw [infinite] at hy
    cases hy

end Powers

end Double

end SqlGrammar
