import Mathlib.Data.Rat.Floor
import Mathlib.Tactic.FieldSimp
import Mathlib.Tactic.Positivity
import SqlGrammar.Identifier
import SqlGrammar.Proofs.Rounding

/-!
The exact value of a double, as a rational number. A finite double is a whole number of least doubles, its
units (`size_eq`), and cutting it gives the whole part of its value (`truncate?_eq_map`). So it becomes an
integer of 64 bits exactly if its whole part is one (`toInt64?_eq_some_iff`), and nothing saturates at either
end of the range. What has become an integer stays one, and what has not is not changed by a second look
(`normalizeIdentifier_float`).
-/

namespace SqlGrammar

/-! ## Whole parts -/

/-- The whole part of a number, cut toward zero. -/
def wholePart (x : ℚ) : ℤ := if x < 0 then ⌈x⌉ else ⌊x⌋

theorem wholePart_of_nonneg {x : ℚ} (h : 0 ≤ x) : wholePart x = ⌊x⌋ := if_neg (not_lt.2 h)

@[simp]
theorem wholePart_intCast (z : ℤ) : wholePart z = z := by
  unfold wholePart
  split
  · exact Int.ceil_intCast z
  · exact Int.floor_intCast z

theorem wholePart_neg (x : ℚ) : wholePart (-x) = -wholePart x := by
  rcases lt_trichotomy x 0 with negative | rfl | positive
  · rw [wholePart_of_nonneg (by linarith), wholePart, if_pos negative, Int.floor_neg]
  · rfl
  · rw [wholePart, if_pos (by linarith), wholePart_of_nonneg positive.le, Int.ceil_neg]

theorem le_wholePart_iff {x : ℚ} {n : ℤ} (hn : 0 < n) : n ≤ wholePart x ↔ (n : ℚ) ≤ x := by
  have positive : (0 : ℚ) < n := by exact_mod_cast hn
  rcases lt_or_ge x 0 with negative | nonneg
  · have below : ⌈x⌉ ≤ 0 := Int.ceil_le.2 (by simpa using negative.le)
    rw [wholePart, if_pos negative]
    constructor
    · intro reached
      omega
    · intro reached
      linarith
  · rw [wholePart_of_nonneg nonneg, Int.le_floor]

namespace Double

variable {d : Double} {x : ℚ}

/-! ## Values -/

/-- The size of a finite double: one and a fraction times the power of two that its field stands for, or a
fraction of the least of these powers. -/
def size (d : Double) : ℚ :=
  if d.field = 0 then d.fraction / 2 ^ 52 * 2 ^ (-1022 : ℤ)
  else (1 + d.fraction / 2 ^ 52) * 2 ^ ((d.field : ℤ) - 1023)

/-- The value of a finite double; infinities and NaN have none. -/
def value? (d : Double) : Option ℚ :=
  if d.isFinite then some (if d.negative then -d.size else d.size) else none

/-- How many least doubles a finite double amounts to. -/
def units (d : Double) : ℕ := d.mantissa * 2 ^ (d.field - 1)

theorem two_zpow {k : ℤ} {n : ℕ} (h : k + finest = n) : (2 : ℚ) ^ k = 2 ^ n / 2 ^ finest := by
  rw [eq_div_iff (by positivity), ← zpow_natCast, ← zpow_natCast, ← zpow_add₀ two_ne_zero, h]

theorem size_eq (d : Double) : d.size = d.units / 2 ^ finest := by
  have unit : finest = 1074 := rfl
  have hidden : (hiddenBit : ℚ) = 2 ^ 52 := by norm_num [hiddenBit]
  unfold size units mantissa
  by_cases subnormal : d.field = 0
  · have least : (2 : ℚ) ^ (-1022 : ℤ) = 2 ^ 52 / 2 ^ finest := two_zpow (by omega)
    rw [if_pos subnormal, if_pos subnormal, least, subnormal]
    field_simp
    simp
  · have power : (2 : ℚ) ^ ((d.field : ℤ) - 1023) = 2 ^ (52 + (d.field - 1)) / 2 ^ finest :=
      two_zpow (by omega)
    rw [if_neg subnormal, if_neg subnormal, power, pow_add]
    push_cast
    rw [hidden]
    field_simp

theorem size_nonneg (d : Double) : 0 ≤ d.size := by
  rw [size_eq]
  positivity

theorem abs_of_value? (h : d.value? = some x) : |x| = d.size := by
  unfold value? at h
  split at h
  · obtain rfl := Option.some.inj h
    split
    · rw [abs_neg, abs_of_nonneg d.size_nonneg]
    · rw [abs_of_nonneg d.size_nonneg]
  · cases h

theorem value?_neg (d : Double) : d.neg.value? = d.value?.map fun x => -x := by
  unfold value? isFinite size
  rw [field_neg, fraction_neg, negative_neg]
  split
  · cases d.negative <;> simp
  · rfl

/-! ## Cutting -/

/-- **Cutting a double gives the whole part of its value.** -/
theorem truncate?_eq_map (d : Double) : d.truncate? = d.value?.map wholePart := by
  have whole : ((d.numerator : ℤ) / d.denominator) = wholePart d.size := by
    have scale : d.size = ((d.units : ℤ) : ℚ) / ((2 ^ finest : ℕ) : ℚ) := by
      rw [size_eq]
      push_cast
      rfl
    rw [wholePart_of_nonneg d.size_nonneg, scale, Rat.floor_intCast_div_natCast]
    exact congrArg Nat.cast d.numerator_div_denominator
  unfold truncate? value?
  split
  · rw [Option.map_some]
    dsimp only
    rw [whole]
    split
    · rw [wholePart_neg]
    · rfl
  · rfl

end Double

theorem int64?_eq_some_iff {z : ℤ} {n : Int64} : int64? z = some n ↔ n.toInt = z := by
  unfold int64?
  constructor
  · intro h
    obtain ⟨⟨low, high⟩, same⟩ := Option.ite_none_right_eq_some.1 h
    rw [← Option.some.inj same]
    exact Int64.toInt_ofInt_of_le low high
  · rintro rfl
    rw [if_pos ⟨n.le_toInt, n.toInt_lt⟩, Int64.ofInt_toInt]

theorem Double.toInt64?_eq_some_iff {d : Double} {n : Int64} :
    d.toInt64? = some n ↔ ∃ x, d.value? = some x ∧ n.toInt = wholePart x := by
  rw [toInt64?, truncate?_eq_map, Option.bind_map]
  simp only [Option.bind_eq_some_iff, Function.comp, int64?_eq_some_iff]

theorem Double.exists_toInt64? {d : Double} {x : ℚ} (hx : d.value? = some x) (low : -2 ^ 63 ≤ wholePart x)
    (high : wholePart x < 2 ^ 63) : ∃ n : Int64, n.toInt = wholePart x ∧ d.toInt64? = some n := by
  have whole : (Int64.ofInt (wholePart x)).toInt = wholePart x := Int64.toInt_ofInt_of_le low high
  exact ⟨_, whole, toInt64?_eq_some_iff.2 ⟨x, hx, whole⟩⟩

theorem Double.toInt64?_eq_none {d : Double}
    (out : ∀ x, d.value? = some x → wholePart x < -2 ^ 63 ∨ 2 ^ 63 ≤ wholePart x) : d.toInt64? = none := by
  cases found : d.toInt64? with
  | none => rfl
  | some n =>
    -- an integer of 64 bits has not left the range
    obtain ⟨x, hx, hn⟩ := toInt64?_eq_some_iff.1 found
    have low := n.le_toInt
    have high := n.toInt_lt
    have := out x hx
    omega

/-! ## Identifiers -/

/-- An identifier that has become an integer stays it, and so does one that could not. -/
theorem normalizeIdentifier_normalizeIdentifier (v : Value) :
    normalizeIdentifier (normalizeIdentifier v) = normalizeIdentifier v := by
  cases v with
  | float d =>
    cases h : d.toInt64? with
    | some n => simp only [normalizeIdentifier, h]
    | none => simp only [normalizeIdentifier, h]
  | string s =>
    cases h : integerInText? s with
    | some n => simp only [normalizeIdentifier, h]
    | none => simp only [normalizeIdentifier, h]
  | _ => rfl

/-- **Doubles are cut exactly over the whole range of 64 bits.** A double whose value has a whole part of 64
bits becomes that integer. Every other double, infinities and NaN among them, stays as it is. A second time
changes nothing. -/
theorem normalizeIdentifier_float (d : Double) :
    (∀ x, d.value? = some x → -2 ^ 63 ≤ wholePart x → wholePart x < 2 ^ 63 →
      ∃ n : Int64, n.toInt = wholePart x ∧ normalizeIdentifier (.float d) = .int n) ∧
    ((∀ x, d.value? = some x → wholePart x < -2 ^ 63 ∨ 2 ^ 63 ≤ wholePart x) →
      normalizeIdentifier (.float d) = .float d) ∧
    ∀ v, normalizeIdentifier (normalizeIdentifier v) = normalizeIdentifier v := by
  refine ⟨fun x hx low high => ?_, fun out => ?_, normalizeIdentifier_normalizeIdentifier⟩
  · obtain ⟨n, hn, found⟩ := Double.exists_toInt64? hx low high
    exact ⟨n, hn, by rw [normalizeIdentifier, found]⟩
  · rw [normalizeIdentifier, Double.toInt64?_eq_none out]

/-- The least integer of 64 bits, the greatest double below the upper end, that end itself, and NaN. -/
theorem normalizeIdentifier_float_ends :
    (∃ n : Int64, n.toInt = -2 ^ 63 ∧ normalizeIdentifier (.float ⟨0xC3E0000000000000⟩) = .int n) ∧
    (∃ n : Int64, n.toInt = 2 ^ 63 - 1024 ∧ normalizeIdentifier (.float ⟨0x43DFFFFFFFFFFFFF⟩) = .int n) ∧
    normalizeIdentifier (.float ⟨0x43E0000000000000⟩) = .float ⟨0x43E0000000000000⟩ ∧
    normalizeIdentifier (.float Double.nan) = .float Double.nan := by
  have value (d : Double) (field fraction : ℕ) (hf : d.field = field) (hr : d.fraction = fraction)
      (normal : field ≠ 0) (finite : d.isFinite = true) : d.value? = some
        (if d.negative then -((1 + fraction / 2 ^ 52 : ℚ) * 2 ^ ((field : ℤ) - 1023))
          else (1 + fraction / 2 ^ 52) * 2 ^ ((field : ℤ) - 1023)) := by
    rw [Double.value?, if_pos finite, Double.size, hf, hr, if_neg normal]
  have least : (⟨0xC3E0000000000000⟩ : Double).value? = some ((-2 ^ 63 : ℤ) : ℚ) := by
    rw [value _ 1086 0 (by decide) (by decide) (by decide) (by decide), if_pos (by decide)]
    norm_num
  have below : (⟨0x43DFFFFFFFFFFFFF⟩ : Double).value? = some ((2 ^ 63 - 1024 : ℤ) : ℚ) := by
    rw [value _ 1085 (2 ^ 52 - 1) (by decide) (by decide) (by decide) (by decide), if_neg (by decide)]
    norm_num
  have above : (⟨0x43E0000000000000⟩ : Double).value? = some ((2 ^ 63 : ℤ) : ℚ) := by
    rw [value _ 1086 0 (by decide) (by decide) (by decide) (by decide), if_neg (by decide)]
    norm_num
  have none : Double.nan.value? = none := if_neg (by decide)
  refine ⟨?_, ?_, (normalizeIdentifier_float _).2.1 ?_, (normalizeIdentifier_float _).2.1 ?_⟩
  · obtain ⟨n, hn, found⟩ :=
      (normalizeIdentifier_float _).1 _ least (by rw [wholePart_intCast]) (by rw [wholePart_intCast]; decide)
    exact ⟨n, hn.trans (wholePart_intCast _), found⟩
  · obtain ⟨n, hn, found⟩ :=
      (normalizeIdentifier_float _).1 _ below (by rw [wholePart_intCast]; decide) (by rw [wholePart_intCast]; decide)
    exact ⟨n, hn.trans (wholePart_intCast _), found⟩
  · intro x hx
    obtain rfl := Option.some.inj (above.symm.trans hx)
    rw [wholePart_intCast]
    exact Or.inr le_rfl
  · intro x hx
    cases none.symm.trans hx

end SqlGrammar
