import Mathlib.Data.List.TakeWhile
import SqlGrammar.Identifier
import SqlGrammar.Proofs.Rounding

/-!
Whole-number identifiers. A numeral (`Text.Denotes`) of an integer of 64 bits is read as that integer. Any
other numeral is read a second time as a double, where only the rounding decides what becomes of it
(`Double.truncate?_numeral`). Above the range it stays a text. Below it the numbers down to
`-2 ^ 63 - 1024` are rounded up to `-2 ^ 63`, which is in the range again, so they are clamped; the others
stay texts (`normalizeIdentifier_of_denotes`).
-/

namespace SqlGrammar

/-! ## Numerals -/

namespace Text

def IsDigits (ds : List Char) : Prop := ds ≠ [] ∧ ∀ c ∈ ds, c.isDigit

/-- A numeral of an integer: an optional sign and digits. -/
inductive Denotes : List Char → Int → Prop
  | digits {ds : List Char} (h : IsDigits ds) : Denotes ds (Nat.ofDigitChars 10 ds 0)
  | plus {ds : List Char} (h : IsDigits ds) : Denotes ('+' :: ds) (Nat.ofDigitChars 10 ds 0)
  | minus {ds : List Char} (h : IsDigits ds) : Denotes ('-' :: ds) (-Nat.ofDigitChars 10 ds 0)

section Digits

variable {ds : List Char}

theorem IsDigits.ne_of_mem (h : IsDigits ds) {c x : Char} (hc : c ∈ ds) (hx : x.isDigit = false) :
    c ≠ x := by
  rintro rfl
  rw [h.2 c hc] at hx
  cases hx

theorem IsDigits.exists_cons (h : IsDigits ds) : ∃ c r, ds = c :: r ∧ c ≠ '+' ∧ c ≠ '-' := by
  obtain ⟨c, r, rfl⟩ := List.exists_cons_of_ne_nil h.1
  exact ⟨c, r, rfl, h.ne_of_mem List.mem_cons_self (by decide), h.ne_of_mem List.mem_cons_self (by decide)⟩

theorem natural?_eq_some_iff {n : Nat} :
    natural? ds = some n ↔ IsDigits ds ∧ Nat.ofDigitChars 10 ds 0 = n := by
  rw [natural?, Option.ite_none_right_eq_some, List.all_eq_true, Option.some_inj]
  rfl

theorem denotes_iff {s : List Char} {z : Int} : Denotes s z ↔ integer? s = some z := by
  constructor
  · intro h
    cases h with
    | digits h =>
      obtain ⟨c, r, rfl, plus, minus⟩ := h.exists_cons
      simp [integer?, plus, minus, natural?_eq_some_iff.2 ⟨h, rfl⟩]
    | plus h => simp [integer?, natural?_eq_some_iff.2 ⟨h, rfl⟩]
    | minus h => simp [integer?, natural?_eq_some_iff.2 ⟨h, rfl⟩]
  · intro h
    unfold integer? at h
    split at h
    all_goals
      obtain ⟨n, hn, rfl⟩ := Option.map_eq_some_iff.1 h
      obtain ⟨digits, rfl⟩ := natural?_eq_some_iff.1 hn
    · exact .plus digits
    · exact .minus digits
    · exact .digits digits

instance (s : List Char) (z : Int) : Decidable (Denotes s z) := decidable_of_iff _ denotes_iff.symm

theorem ofDigitChars_dropWhile (ds : List Char) :
    Nat.ofDigitChars 10 (ds.dropWhile (· = '0')) 0 = Nat.ofDigitChars 10 ds 0 := by
  induction ds with
  | nil => rfl
  | cons c r ih =>
    by_cases hc : c = '0'
    · rw [List.dropWhile_cons_of_pos (by simpa using hc), ih, hc, Nat.ofDigitChars_cons]
      rfl
    · rw [List.dropWhile_cons_of_neg (by simpa using hc)]

/-- Digits without a zero in front are a number of as many places. -/
theorem pow_le_ofDigitChars {c : Char} {r : List Char} (hd : c.isDigit) (hc : c ≠ '0') :
    10 ^ r.length ≤ Nat.ofDigitChars 10 (c :: r) 0 := by
  have digit : '0'.toNat < c.toNat :=
    Nat.lt_of_le_of_ne (Char.isDigit_iff_toNat.1 hd).1 fun e => hc (Char.toNat_inj.1 e).symm
  rw [Nat.ofDigitChars_cons, Nat.ofDigitChars_eq_ofDigitChars_zero]
  calc 10 ^ r.length = 10 ^ r.length * 1 := (Nat.mul_one _).symm
    _ ≤ 10 ^ r.length * (10 * 0 + (c.toNat - '0'.toNat)) := Nat.mul_le_mul_left _ (by omega)
    _ ≤ _ := Nat.le_add_right _ _

end Digits

end Text

/-! ## Numerals as doubles -/

namespace Double

variable {ds : List Char}

theorem map_toLower_of_digits (h : ∀ c ∈ ds, c.isDigit) : ds.map Char.toLower = ds := by
  have digit (c : Char) (hc : c ∈ ds) : c.toLower = c := by
    have upper : c.toNat ≤ 57 := (Char.isDigit_iff_toNat.1 (h c hc)).2
    apply dif_neg
    rintro ⟨letter, -⟩
    have : 65 ≤ c.toNat := UInt32.le_iff_toNat_le.1 letter
    omega
  conv_rhs => rw [← List.map_id ds]
  exact List.map_congr_left digit

theorem unsigned?_of_digits (h : Text.IsDigits ds) : unsigned? ds = some (ofDecimalText ds 0) := by
  have name {c : Char} {r : List Char} (hc : c.isDigit = false) : ds.map Char.toLower ≠ c :: r := by
    rw [map_toLower_of_digits h.2]
    rintro rfl
    exact h.ne_of_mem List.mem_cons_self hc rfl
  have whole : ds.takeWhile Char.isDigit = ds := List.takeWhile_eq_self_iff.2 h.2
  have rest : ds.dropWhile Char.isDigit = [] := List.dropWhile_eq_nil_iff.2 h.2
  rw [unsigned?, if_neg (by rintro (e | e) <;> exact name (by decide) e), if_neg (name (by decide)),
    unsignedNumeral?, whole, rest]
  simp [splitPlaces, lastPower?, h.1]

theorem ofText?_of_digits (h : Text.IsDigits ds) : ofText? ds = unsigned? ds := by
  obtain ⟨c, r, rfl, plus, minus⟩ := h.exists_cons
  simp [ofText?, plus, minus]

/-- A number of at most 400 places is rounded, and a longer one is the infinity. -/
theorem ofDecimalText_of_digits (h : Text.IsDigits ds) (hm : Nat.ofDigitChars 10 ds 0 ≠ 0) :
    ofDecimalText ds 0 = nearest (Nat.ofDigitChars 10 ds 0) 1 ∨
      ofDecimalText ds 0 = infinity ∧ 10 ^ 20 ≤ Nat.ofDigitChars 10 ds 0 := by
  rw [← Text.ofDigitChars_dropWhile] at hm ⊢
  unfold ofDecimalText
  dsimp only
  cases hs : ds.dropWhile (· = '0') with
  | nil => rw [hs] at hm; exact absurd rfl hm
  | cons c r =>
    have nonzero : c ≠ '0' := by
      simpa [hs] using List.head?_dropWhile_not (· = '0') ds
    have digit : c.isDigit := by
      apply h.2
      apply (List.dropWhile_sublist (· = '0')).subset
      rw [hs]
      exact List.mem_cons_self
    have places := Text.pow_le_ofDigitChars digit nonzero (r := r)
    rw [if_neg (by simp; omega)]
    split
    · next long =>
      refine Or.inr ⟨rfl, Nat.le_trans (Nat.pow_le_pow_right (by decide) ?_) places⟩
      rw [List.length_cons] at long
      omega
    · left
      rw [ofDecimal]
      simp

/-- **A numeral from `2 ^ 63` on as a double.** -/
theorem truncate?_numeral (h : Text.IsDigits ds) (hm : 2 ^ 63 ≤ Nat.ofDigitChars 10 ds 0) :
    (Nat.ofDigitChars 10 ds 0 ≤ 2 ^ 63 + 1024 → (ofDecimalText ds 0).truncate? = some (2 ^ 63)) ∧
    (2 ^ 63 + 1024 < Nat.ofDigitChars 10 ds 0 →
      ∀ z, (ofDecimalText ds 0).truncate? = some z → 2 ^ 63 < z) := by
  rcases ofDecimalText_of_digits h (by omega) with rounded | ⟨infinite, long⟩
  · rw [rounded]
    exact truncate?_nearest_cases hm
  · rw [infinite]
    refine ⟨fun _ => by omega, fun _ z hz => ?_⟩
    cases hz

end Double

/-! ## Identifiers -/

theorem int64?_of_fits {z : Int} (low : -2 ^ 63 ≤ z) (high : z < 2 ^ 63) : int64? z = some (.ofInt z) :=
  if_pos ⟨low, high⟩

theorem int64?_of_not_fits {z : Int} (h : z < -2 ^ 63 ∨ 2 ^ 63 ≤ z) : int64? z = none := by
  apply if_neg
  rintro ⟨low, high⟩
  omega

namespace Double

variable {ds : List Char}

/-- Above the range a numeral is no integer of 64 bits, whatever it is rounded to. -/
theorem toInt64?_numeral (h : Text.IsDigits ds) (hm : 2 ^ 63 ≤ Nat.ofDigitChars 10 ds 0) :
    (ofDecimalText ds 0).toInt64? = none := by
  obtain ⟨near, far⟩ := truncate?_numeral h hm
  unfold toInt64?
  cases hz : (ofDecimalText ds 0).truncate? with
  | none => rfl
  | some z =>
    apply int64?_of_not_fits
    right
    rcases Nat.lt_or_ge (2 ^ 63 + 1024) (Nat.ofDigitChars 10 ds 0) with beyond | within
    · exact Int.le_of_lt (far beyond z hz)
    · rw [near within] at hz
      exact Int.le_of_eq (Option.some.inj hz)

/-- Below the range it is the least one, if it is rounded to it. -/
theorem toInt64?_neg_numeral (h : Text.IsDigits ds) (hm : 2 ^ 63 ≤ Nat.ofDigitChars 10 ds 0) :
    (ofDecimalText ds 0).neg.toInt64? =
      if Nat.ofDigitChars 10 ds 0 ≤ 2 ^ 63 + 1024 then some Int64.minValue else none := by
  obtain ⟨near, far⟩ := truncate?_numeral h hm
  unfold toInt64?
  rw [truncate?_neg]
  split
  · next within =>
    rw [near within]
    decide
  · next beyond =>
    cases hz : (ofDecimalText ds 0).truncate? with
    | none => rfl
    | some z =>
      have large := far (by omega) z hz
      show int64? (-z) = none
      exact int64?_of_not_fits (Or.inl (by omega))

theorem ofText?_of_denotes {s : List Char} {z : Int} (h : Text.Denotes s z)
    (out : z < -2 ^ 63 ∨ 2 ^ 63 ≤ z) : (ofText? s).bind toInt64? =
      if -2 ^ 63 - 1024 ≤ z ∧ z < 2 ^ 63 then some Int64.minValue else none := by
  cases h with
  | digits h =>
    rw [ofText?_of_digits h, unsigned?_of_digits h, if_neg (by omega)]
    exact toInt64?_numeral h (by omega)
  | plus h =>
    rw [ofText?, unsigned?_of_digits h, if_neg (by omega)]
    exact toInt64?_numeral h (by omega)
  | @minus ds h =>
    have range : Nat.ofDigitChars 10 ds 0 ≤ 2 ^ 63 + 1024 ↔
        -2 ^ 63 - 1024 ≤ -(Nat.ofDigitChars 10 ds 0 : Int) ∧
          -(Nat.ofDigitChars 10 ds 0 : Int) < 2 ^ 63 := by omega
    rw [ofText?, unsigned?_of_digits h, ← if_congr range rfl rfl]
    exact toInt64?_neg_numeral h (by omega)

end Double

/-- **Whole-number identifiers are exact or untouched, but for 1024 of them.** A numeral of 64 bits becomes the
integer it denotes. Of the others, those that the second reading rounds up to the least integer of 64 bits
become that one, and the rest stays as it is. -/
theorem normalizeIdentifier_of_denotes {s : String} {z : Int}
    (h : Text.Denotes (Text.trimList s.toList) z) :
    (-2 ^ 63 ≤ z → z < 2 ^ 63 →
      ∃ n : Int64, n.toInt = z ∧ normalizeIdentifier (.string s) = .int n) ∧
    (-2 ^ 63 - 1024 ≤ z → z < -2 ^ 63 → normalizeIdentifier (.string s) = .int Int64.minValue) ∧
    (z < -2 ^ 63 - 1024 ∨ 2 ^ 63 ≤ z → normalizeIdentifier (.string s) = .string s) := by
  have first : Text.integer? (Text.trimList s.toList) = some z := Text.denotes_iff.1 h
  have second (out : z < -2 ^ 63 ∨ 2 ^ 63 ≤ z) : integerInText? s =
      if -2 ^ 63 - 1024 ≤ z ∧ z < 2 ^ 63 then some Int64.minValue else none := by
    rw [← Double.ofText?_of_denotes h out]
    simp only [integerInText?, first, Option.bind_some, int64?_of_not_fits out]
  refine ⟨fun low high => ?_, fun low high => ?_, fun out => ?_⟩
  · have found : integerInText? s = some (.ofInt z) := by
      simp only [integerInText?, first, Option.bind_some, int64?_of_fits low high]
    refine ⟨.ofInt z, Int64.toInt_ofInt_of_le low high, ?_⟩
    rw [normalizeIdentifier, found]
  · have found := second (Or.inl high)
    rw [if_pos ⟨low, by omega⟩] at found
    rw [normalizeIdentifier, found]
  · have found := second (by omega)
    rw [if_neg (by omega)] at found
    rw [normalizeIdentifier, found]

/-- One numeral of each kind, with blanks, signs and zeros in front. -/
theorem normalizeIdentifier_of_denotes_each :
    (∃ n : Int64, n.toInt = 7 ∧ normalizeIdentifier (.string " +007 ") = .int n) ∧
    normalizeIdentifier (.string "-9223372036854776832") = .int Int64.minValue ∧
    normalizeIdentifier (.string "-9223372036854776833") = .string "-9223372036854776833" ∧
    normalizeIdentifier (.string "9223372036854775808") = .string "9223372036854775808" := by
  have inside : Text.Denotes (Text.trimList " +007 ".toList) 7 := by decide
  have clamped : Text.Denotes (Text.trimList "-9223372036854776832".toList) (-9223372036854776832) := by decide
  have below : Text.Denotes (Text.trimList "-9223372036854776833".toList) (-9223372036854776833) := by decide
  have above : Text.Denotes (Text.trimList "9223372036854775808".toList) 9223372036854775808 := by decide
  exact ⟨(normalizeIdentifier_of_denotes inside).1 (by decide) (by decide),
    (normalizeIdentifier_of_denotes clamped).2.1 (by decide) (by decide),
    (normalizeIdentifier_of_denotes below).2.2 (by decide),
    (normalizeIdentifier_of_denotes above).2.2 (by decide)⟩

/-- The first number below the range becomes the least one in it. -/
theorem normalizeIdentifier_clamps :
    ¬ ∀ (s : String) (z : Int), Text.Denotes (Text.trimList s.toList) z → z < -2 ^ 63 ∨ 2 ^ 63 ≤ z →
      normalizeIdentifier (.string s) = .string s := by
  intro h
  have text := h "-9223372036854775809" (-9223372036854775809) (by decide) (by decide)
  have number : normalizeIdentifier (.string "-9223372036854775809") = .int Int64.minValue := by decide
  rw [number] at text
  cases text

end SqlGrammar
