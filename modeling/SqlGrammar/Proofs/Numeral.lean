import SqlGrammar.Proofs.Nearest
import SqlGrammar.Proofs.WholeNumber

/-!
Decimal numerals with a point or an exponent, and the doubles that they are read as. A `Numeral` is the parts
of such a text, and its `value` the number that they denote. Reading takes a text apart into just these parts
(`ofText?_text`), and no other text is read as a finite double (`exists_ofNumeral`). The double is the one
nearest to the value (`isNearest_value`): the powers of ten that are not written out lie beyond the doubles on
either side (`isNearest_ofDecimalText`).
Of an exponent from 655360 on only the first digits are read. That changes the number that is read, its
`capped` value, but nothing about the nearest double unless there are more than 65000 digits to make up for it.
-/

namespace SqlGrammar

/-! ## Numerals -/

namespace Text

instance (ds : List Char) : Decidable (IsDigits ds) :=
  decidable_of_iff (ds ≠ [] ∧ ds.all Char.isDigit) (and_congr_right fun _ => List.all_eq_true)

inductive Sign
  | bare
  | plus
  | minus

namespace Sign

def text : Sign → List Char
  | bare => []
  | plus => ['+']
  | minus => ['-']

def apply {α : Type} [Neg α] : Sign → α → α
  | minus, x => -x
  | _, x => x

end Sign

/-- The number that the digits of an exponent are read as: after 65536 further digits count for nothing. -/
def capped (ds : List Char) : ℕ :=
  ds.foldl (fun n c => if n < 65536 then 10 * n + (c.toNat - '0'.toNat) else n) 0

structure Power where
  letter : Char
  sign : Sign
  digits : List Char
  isLetter : letter = 'e' ∨ letter = 'E'
  isDigits : IsDigits digits

namespace Power

def text (w : Power) : List Char := w.letter :: (w.sign.text ++ w.digits)

def exponent (w : Power) : ℤ := w.sign.apply (Nat.ofDigitChars 10 w.digits 0 : ℤ)

/-- The exponent as it is read. -/
def cappedExponent (w : Power) : ℤ := w.sign.apply (capped w.digits : ℤ)

end Power

/-- A decimal numeral: an optional sign, digits with an optional point before, among or after them, and an
optional exponent. -/
structure Numeral where
  sign : Sign
  whole : List Char
  places : Option (List Char)
  power : Option Power
  isDigits : IsDigits (whole ++ places.getD [])

namespace Numeral

def body (n : Numeral) : List Char :=
  n.whole ++ ((n.places.elim [] ('.' :: ·)) ++ n.power.elim [] Power.text)

def text (n : Numeral) : List Char := n.sign.text ++ n.body

def digits (n : Numeral) : List Char := n.whole ++ n.places.getD []

def exponent (n : Numeral) : ℤ := n.power.elim 0 Power.exponent

def cappedExponent (n : Numeral) : ℤ := n.power.elim 0 Power.cappedExponent

/-- The digits, taken for a whole number, times a power of ten. -/
def scaled (n : Numeral) (e : ℤ) : ℚ :=
  Nat.ofDigitChars 10 n.digits 0 * 10 ^ (e - (n.places.getD []).length)

def value (n : Numeral) : ℚ := n.sign.apply (n.scaled n.exponent)

theorem value_eq {n : Numeral} {m : ℕ} {e : ℤ} (digits : Nat.ofDigitChars 10 n.digits 0 = m)
    (exponent : n.exponent - (n.places.getD []).length = e) : n.value = n.sign.apply (m * 10 ^ e : ℚ) := by
  rw [value, scaled, digits, exponent]

/-- The number that a numeral is read as. -/
def capped (n : Numeral) : ℚ := n.sign.apply (n.scaled n.cappedExponent)

/-- There is a point or an exponent. -/
def IsMarked (n : Numeral) : Prop := n.places.isSome ∨ n.power.isSome

/-- The whole exponent is read, or too few digits stand beside it to make up for what is not. -/
def InReach (n : Numeral) : Prop := n.exponent.natAbs < 655360 ∨ n.digits.length ≤ 65000

end Numeral

/-! ## Exponents -/

section Capped

variable {ds : List Char}

theorem capped_concat (ds : List Char) (c : Char) : capped (ds ++ [c]) =
    if capped ds < 65536 then 10 * capped ds + (c.toNat - '0'.toNat) else capped ds := by
  rw [capped, List.foldl_append]
  rfl

theorem ofDigitChars_concat (ds : List Char) (c : Char) : Nat.ofDigitChars 10 (ds ++ [c]) 0 =
    10 * Nat.ofDigitChars 10 ds 0 + (c.toNat - '0'.toNat) := by
  rw [Nat.ofDigitChars_append, Nat.ofDigitChars_cons, Nat.ofDigitChars_nil]

theorem capped_le (ds : List Char) : capped ds ≤ Nat.ofDigitChars 10 ds 0 := by
  induction ds using List.reverseRecOn with
  | nil => exact Nat.le_refl _
  | append_singleton ds c ih =>
    rw [capped_concat, ofDigitChars_concat]
    split <;> omega

theorem capped_eq_of_lt (h : capped ds < 65536) : capped ds = Nat.ofDigitChars 10 ds 0 := by
  induction ds using List.reverseRecOn with
  | nil => rfl
  | append_singleton ds c ih =>
    rw [capped_concat] at h ⊢
    rw [ofDigitChars_concat]
    split at h
    · next before => rw [if_pos before, ih before]
    · omega

theorem capped_eq (h : Nat.ofDigitChars 10 ds 0 < 655360) : capped ds = Nat.ofDigitChars 10 ds 0 := by
  rcases ds.eq_nil_or_concat' with rfl | ⟨before, c, rfl⟩
  · rfl
  · rw [ofDigitChars_concat] at h
    have less : capped before < 65536 := Nat.lt_of_le_of_lt (capped_le before) (by omega)
    rw [capped_concat, ofDigitChars_concat, if_pos less, capped_eq_of_lt less]

end Capped

namespace Numeral

variable {n : Numeral}

theorem cappedExponent_eq (h : n.exponent.natAbs < 655360) : n.cappedExponent = n.exponent := by
  unfold exponent cappedExponent at *
  cases hw : n.power with
  | none => rfl
  | some w =>
    rw [hw] at h
    dsimp only [Option.elim, Power.exponent, Power.cappedExponent] at h ⊢
    have all : Nat.ofDigitChars 10 w.digits 0 < 655360 := by
      cases hs : w.sign <;> simp only [hs, Sign.apply] at h <;> omega
    rw [capped_eq all]

/-- An exponent that is not read to its end is large in either reading, with the same sign. -/
theorem cappedExponent_far (h : 655360 ≤ n.exponent.natAbs) :
    65536 ≤ n.exponent ∧ 65536 ≤ n.cappedExponent ∨ n.exponent ≤ -65536 ∧ n.cappedExponent ≤ -65536 := by
  unfold exponent cappedExponent at *
  cases hw : n.power with
  | none =>
    rw [hw] at h
    cases h
  | some w =>
    rw [hw] at h
    dsimp only [Option.elim, Power.exponent, Power.cappedExponent] at h ⊢
    have large : 65536 ≤ Text.capped w.digits := by
      by_contra small
      have same := capped_eq_of_lt (not_le.1 small)
      cases hs : w.sign <;> simp only [hs, Sign.apply] at h <;> omega
    have most := capped_le w.digits
    cases hs : w.sign <;> simp only [Sign.apply] <;> omega

end Numeral

end Text

/-! ## Reading -/

namespace Double

open Text

section Texts

variable {s ds tail : List Char}

theorem toLower_eq_e_iff {c : Char} : c.toLower = 'e' ↔ c = 'e' ∨ c = 'E' := by
  constructor
  · intro h
    unfold Char.toLower at h
    split at h
    · right
      have code : (c.val.toNat + 32) % 2 ^ 32 = 101 := congrArg (UInt32.toNat ∘ Char.val) h
      have bound := c.val.toNat_lt
      have same : c.val.toNat = 69 := by omega
      exact Char.toNat_inj.1 same
    · exact Or.inl h
  · rintro (rfl | rfl) <;> rfl

theorem split_digits (h : ∀ c ∈ ds, c.isDigit) (stop : ∀ c, tail.head? = some c → c.isDigit = false) :
    (ds ++ tail).takeWhile Char.isDigit = ds ∧ (ds ++ tail).dropWhile Char.isDigit = tail := by
  rw [List.takeWhile_append_of_pos h, List.dropWhile_append_of_pos h]
  cases tail with
  | nil => simp
  | cons c r =>
    have := stop c rfl
    simp [this]

/-- **An exponent is read up to its cap.** -/
theorem power?_eq_some_iff {p : ℤ} : power? s = some p ↔
    ∃ (sign : Sign) (ds : List Char), IsDigits ds ∧ s = sign.text ++ ds ∧ p = sign.apply (capped ds : ℤ) := by
  have magnitude (ds : List Char) (n : ℕ) : (if ds ≠ [] ∧ ds.all Char.isDigit then
      some (ds.foldl (fun n c => if n < 65536 then 10 * n + (c.toNat - '0'.toNat) else n) 0) else none) = some n ↔
      IsDigits ds ∧ capped ds = n := by
    rw [Option.ite_none_right_eq_some, List.all_eq_true, Option.some_inj]
    rfl
  unfold power?
  dsimp only
  constructor
  · intro h
    split at h
    all_goals
      obtain ⟨n, hn, rfl⟩ := Option.map_eq_some_iff.1 h
      obtain ⟨digits, rfl⟩ := (magnitude _ _).1 hn
    · exact ⟨.plus, _, digits, rfl, rfl⟩
    · exact ⟨.minus, _, digits, rfl, rfl⟩
    · exact ⟨.bare, _, digits, rfl, rfl⟩
  · rintro ⟨sign, ds, digits, rfl, rfl⟩
    have read := (magnitude ds _).2 ⟨digits, rfl⟩
    cases sign with
    | bare =>
      obtain ⟨c, r, rfl, plus, minus⟩ := digits.exists_cons
      simp only [Sign.text, List.nil_append]
      split
      · next h => exact absurd (List.cons.inj h).1 plus
      · next h => exact absurd (List.cons.inj h).1 minus
      · rw [read]; rfl
    | plus => simp only [Sign.text, List.cons_append, List.nil_append, read]; rfl
    | minus => simp only [Sign.text, List.cons_append, List.nil_append, read]; rfl

theorem power?_text (w : Power) : power? (w.sign.text ++ w.digits) = some w.cappedExponent :=
  power?_eq_some_iff.2 ⟨w.sign, w.digits, w.isDigits, rfl, rfl⟩

/-- The double that a numeral is read as, but for its sign. -/
def magnitudeOf (n : Numeral) : Double :=
  ofDecimalText n.digits (n.cappedExponent - (n.places.getD []).length)

theorem head?_power {power : Option Power} {c : Char} (h : (power.elim [] Power.text).head? = some c) :
    c.isDigit = false ∧ c ≠ '.' := by
  cases power with
  | none => cases h
  | some w =>
    obtain rfl : w.letter = c := Option.some.inj h
    rcases w.isLetter with e | e <;> rw [e] <;> decide

theorem lastPower?_text (power : Option Power) :
    lastPower? (power.elim [] Power.text) = some (power.elim 0 Power.cappedExponent) := by
  cases power with
  | none => rfl
  | some w =>
    rw [Option.elim_some, Power.text, lastPower?, if_pos (toLower_eq_e_iff.2 w.isLetter), power?_text,
      Option.elim_some]

theorem splitPlaces_text {places : Option (List Char)} (power : Option Power)
    (h : ∀ c ∈ places.getD [], c.isDigit) :
    splitPlaces (places.elim [] ('.' :: ·) ++ power.elim [] Power.text) =
      (places.getD [], power.elim [] Power.text) := by
  cases places with
  | some ps =>
    obtain ⟨taken, left⟩ := split_digits h fun c hc => (head?_power hc).1
    rw [Option.elim_some, List.cons_append, splitPlaces]
    exact congrArg₂ Prod.mk taken left
  | none =>
    rw [Option.elim_none, List.nil_append, splitPlaces, Option.getD_none]
    intro r e
    exact (head?_power (c := '.') (by rw [e]; rfl)).2 rfl

theorem unsignedNumeral?_body (n : Numeral) : unsignedNumeral? n.body = some (magnitudeOf n) := by
  have before : ∀ c ∈ n.whole, c.isDigit := fun c hc => n.isDigits.2 c (List.mem_append_left _ hc)
  have after : ∀ c ∈ n.places.getD [], c.isDigit := fun c hc => n.isDigits.2 c (List.mem_append_right _ hc)
  have stop : ∀ c, (n.places.elim [] ('.' :: ·) ++ n.power.elim [] Power.text).head? = some c →
      c.isDigit = false := by
    intro c hc
    cases hp : n.places with
    | none =>
      rw [hp] at hc
      exact (head?_power hc).1
    | some ps =>
      rw [hp] at hc
      obtain rfl := Option.some.inj hc
      rfl
  obtain ⟨taken, left⟩ := split_digits before stop
  rw [unsignedNumeral?, Numeral.body, taken, left, splitPlaces_text _ after]
  dsimp only
  rw [if_neg n.isDigits.1, lastPower?_text]
  rfl

theorem exists_power {p : ℤ} (h : lastPower? s = some p) :
    ∃ power : Option Power, power.elim [] Power.text = s ∧ power.elim 0 Power.cappedExponent = p := by
  cases s with
  | nil => exact ⟨none, rfl, Option.some.inj h⟩
  | cons c r =>
    obtain ⟨letter, read⟩ := Option.ite_none_right_eq_some.1 h
    obtain ⟨sign, ds, digits, rfl, rfl⟩ := power?_eq_some_iff.1 read
    exact ⟨some ⟨c, sign, ds, toLower_eq_e_iff.1 letter, digits⟩, rfl, rfl⟩

theorem exists_places (s : List Char) : ∃ places : Option (List Char),
    places.getD [] = (splitPlaces s).1 ∧ places.elim [] ('.' :: ·) ++ (splitPlaces s).2 = s ∧
      ∀ c ∈ (splitPlaces s).1, c.isDigit := by
  unfold splitPlaces
  split
  · next r =>
    refine ⟨some (r.takeWhile Char.isDigit), rfl, ?_, fun c hc => List.all_eq_true.1 List.all_takeWhile c hc⟩
    rw [Option.elim_some, List.cons_append, List.takeWhile_append_dropWhile]
  · exact ⟨none, rfl, rfl, by simp⟩

/-- **A text without sign is read exactly if it is a numeral.** -/
theorem exists_numeral {d : Double} (sign : Sign) (h : unsignedNumeral? s = some d) :
    ∃ n : Numeral, n.sign = sign ∧ n.body = s ∧ magnitudeOf n = d := by
  unfold unsignedNumeral? at h
  dsimp only at h
  split at h
  · cases h
  · next nonempty =>
    obtain ⟨p, read, rfl⟩ := Option.map_eq_some_iff.1 h
    obtain ⟨power, text, rfl⟩ := exists_power read
    obtain ⟨places, same, split, digits⟩ := exists_places (s.dropWhile Char.isDigit)
    have all : IsDigits (s.takeWhile Char.isDigit ++ places.getD []) := by
      rw [same]
      refine ⟨nonempty, fun c hc => ?_⟩
      rcases List.mem_append.1 hc with before | after
      · exact List.all_eq_true.1 List.all_takeWhile c before
      · exact digits c after
    refine ⟨⟨sign, s.takeWhile Char.isDigit, places, power, all⟩, rfl, ?_, ?_⟩
    · rw [Numeral.body]
      dsimp only
      rw [text, split, List.takeWhile_append_dropWhile]
    · rw [magnitudeOf, Numeral.digits, Numeral.cappedExponent]
      dsimp only
      rw [same]

theorem exists_body (n : Numeral) : ∃ c r, n.body = c :: r ∧ c ≠ '+' ∧ c ≠ '-' ∧ c.toLower ≠ 'i' ∧
    c.toLower ≠ 'n' := by
  have digit {c : Char} (h : c.isDigit) : c ≠ '+' ∧ c ≠ '-' ∧ c.toLower ≠ 'i' ∧ c.toLower ≠ 'n' := by
    have same : [c].map Char.toLower = [c] := map_toLower_of_digits (by simpa using h)
    rw [List.map_singleton, List.singleton_inj] at same
    rw [same]
    refine ⟨?_, ?_, ?_, ?_⟩ <;> rintro rfl <;> cases h
  cases hw : n.whole with
  | cons c r =>
    have := n.isDigits.2 c (by rw [hw]; simp)
    exact ⟨c, _, by rw [Numeral.body, hw, List.cons_append], digit this⟩
  | nil =>
    cases hp : n.places with
    | none => exact absurd (by rw [hw, hp]; rfl) n.isDigits.1
    | some ps =>
      refine ⟨'.', _, by rw [Numeral.body, hw, hp, List.nil_append, Option.elim_some, List.cons_append], ?_⟩
      decide

end Texts

def ofNumeral (n : Numeral) : Double :=
  match n.sign with
  | .minus => (magnitudeOf n).neg
  | _ => magnitudeOf n

/-- **A numeral is read as its double.** -/
theorem ofText?_text (n : Numeral) : ofText? n.text = some (ofNumeral n) := by
  obtain ⟨c, r, body, plus, minus, inf, nan⟩ := exists_body n
  have read : unsigned? n.body = some (magnitudeOf n) := by
    have name {x : Char} {y : List Char} (h : c.toLower ≠ x) : n.body.map Char.toLower ≠ x :: y := by
      rw [body, List.map_cons]
      exact fun e => h (List.cons.inj e).1
    rw [unsigned?, if_neg (by rintro (e | e) <;> exact name inf e), if_neg (name nan), unsignedNumeral?_body]
  unfold Numeral.text ofNumeral
  cases n.sign with
  | bare =>
    rw [Sign.text, List.nil_append, ← read, body]
    simp [ofText?, plus, minus]
  | plus => rw [Sign.text, List.singleton_append, ofText?, read]
  | minus => rw [Sign.text, List.singleton_append, ofText?, read, Option.map_some]

/-- **A text that is read as a finite double is a numeral.** -/
theorem exists_ofNumeral {s : List Char} {d : Double} (h : ofText? s = some d) (finite : d.isFinite = true) :
    ∃ n : Numeral, n.text = s ∧ ofNumeral n = d := by
  -- a name is no finite number
  have numeral {r : List Char} {e : Double} (h : unsigned? r = some e) (finite : e.isFinite = true) :
      unsignedNumeral? r = some e := by
    unfold unsigned? at h
    dsimp only at h
    split at h
    · rw [← Option.some.inj h] at finite
      cases finite
    · split at h
      · rw [← Option.some.inj h] at finite
        cases finite
      · exact h
  unfold ofText? at h
  split at h
  · next r =>
    obtain ⟨n, sign, body, rfl⟩ := exists_numeral .plus (numeral h finite)
    exact ⟨n, by rw [Numeral.text, sign, body]; rfl, by rw [ofNumeral, sign]⟩
  · next r =>
    obtain ⟨e, read, rfl⟩ := Option.map_eq_some_iff.1 h
    have finite' : e.isFinite = true := by rwa [isFinite, field_neg] at finite
    obtain ⟨n, sign, body, rfl⟩ := exists_numeral .minus (numeral read finite')
    exact ⟨n, by rw [Numeral.text, sign, body]; rfl, by rw [ofNumeral, sign]⟩
  · obtain ⟨n, sign, body, rfl⟩ := exists_numeral .bare (numeral h finite)
    exact ⟨n, by rw [Numeral.text, sign, body]; rfl, by rw [ofNumeral, sign]⟩

/-! ## The nearest double -/

section Nearest

variable {ds : List Char}

theorem ofDigitChars_lt (h : ∀ c ∈ ds, c.isDigit) : Nat.ofDigitChars 10 ds 0 < 10 ^ ds.length := by
  induction ds with
  | nil => decide
  | cons c r ih =>
    have digit : c.toNat ≤ 57 := (Char.isDigit_iff_toNat.1 (h c List.mem_cons_self)).2
    have zero : '0'.toNat = 48 := rfl
    have rest := ih fun x hx => h x (List.mem_cons_of_mem _ hx)
    have first : 10 ^ r.length * (c.toNat - '0'.toNat) ≤ 10 ^ r.length * 9 :=
      Nat.mul_le_mul_left _ (by omega)
    rw [Nat.ofDigitChars_cons, Nat.ofDigitChars_eq_ofDigitChars_zero, List.length_cons, Nat.pow_succ,
      Nat.mul_zero, Nat.zero_add]
    omega

/-- The doubles end below this power of ten, and its inverse is less than half of the least one. -/
theorem two_pow_le_ten_pow : (2 : ℚ) ^ 1200 ≤ 10 ^ 400 := by
  have split : (2 : ℚ) ^ 1200 = (2 ^ 3) ^ 400 := by rw [← pow_mul]
  rw [split]
  exact pow_le_pow_left₀ (by norm_num) (by norm_num) 400

theorem overflow_le_ten_pow : overflow ≤ 10 ^ 400 := by
  have top : overflow ≤ 2 ^ 1024 := sub_le_self _ (by positivity)
  exact (top.trans (pow_le_pow_right₀ one_le_two (by decide))).trans two_pow_le_ten_pow

theorem mul_lt_half {x : ℚ} (nonneg : 0 ≤ x) (small : x < 10 ^ (-400 : ℤ)) : x * 2 ^ finest < 1 / 2 := by
  have split : (2 : ℚ) ^ 1200 = 2 ^ finest * 2 ^ 126 := by rw [← pow_add]; rfl
  rw [zpow_neg, zpow_ofNat, ← one_div, lt_div_iff₀ (by positivity)] at small
  have less := (mul_le_mul_of_nonneg_left two_pow_le_ten_pow nonneg).trans_lt small
  rw [split, ← mul_assoc] at less
  generalize x * 2 ^ finest = y at less
  linarith

theorem isNearest_zero_of_place {p : ℤ} (h : ∀ c ∈ ds, c.isDigit) (small : ds.length + p < -400) :
    zero.IsNearest (Nat.ofDigitChars 10 ds 0 * 10 ^ p) := by
  have size : (Nat.ofDigitChars 10 ds 0 : ℚ) * 10 ^ p < 10 ^ (-400 : ℤ) := by
    calc (Nat.ofDigitChars 10 ds 0 : ℚ) * 10 ^ p < 10 ^ (ds.length : ℤ) * 10 ^ p := by
          rw [zpow_natCast]
          exact mul_lt_mul_of_pos_right (by exact_mod_cast ofDigitChars_lt h) (by positivity)
      _ = 10 ^ ((ds.length : ℤ) + p) := (zpow_add₀ (OfNat.ofNat_ne_zero 10) _ _).symm
      _ ≤ 10 ^ (-400 : ℤ) := zpow_le_zpow_right₀ (by norm_num) (by omega)
  exact isNearest_zero (by positivity) (mul_lt_half (by positivity) size)

theorem isNearest_infinity_of_place {c : Char} {r : List Char} {p : ℤ} (digit : c.isDigit) (nonzero : c ≠ '0')
    (far : 400 < (c :: r).length + p) : infinity.IsNearest (Nat.ofDigitChars 10 (c :: r) 0 * 10 ^ p) := by
  refine .above rfl ?_
  have least := pow_le_ofDigitChars digit nonzero (r := r)
  calc overflow ≤ 10 ^ 400 := overflow_le_ten_pow
    _ ≤ 10 ^ ((r.length : ℤ) + p) := by
        rw [← zpow_natCast]
        exact zpow_le_zpow_right₀ (by norm_num) (by rw [List.length_cons] at far; omega)
    _ = 10 ^ (r.length : ℤ) * 10 ^ p := zpow_add₀ (OfNat.ofNat_ne_zero 10) _ _
    _ ≤ Nat.ofDigitChars 10 (c :: r) 0 * 10 ^ p := by
        rw [zpow_natCast]
        exact mul_le_mul_of_nonneg_right (by exact_mod_cast least) (by positivity)

theorem isNearest_ofDecimal (n : ℕ) (p : ℤ) : (ofDecimal n p).IsNearest (n * 10 ^ p) := by
  have fraction : (n * 10 ^ p : ℚ) = (n * Nat.pow 10 p.toNat : ℕ) / (Nat.pow 10 (-p).toNat : ℕ) := by
    rw [zpow_eq_div (OfNat.ofNat_ne_zero 10), Nat.pow_eq, Nat.pow_eq]
    push_cast
    ring
  rw [fraction]
  exact isNearest_nearest _ (Nat.pow_pos (by decide))

/-- **Digits and a power of ten are read as the nearest double.** -/
theorem isNearest_ofDecimalText (h : ∀ c ∈ ds, c.isDigit) (p : ℤ) :
    (ofDecimalText ds p).IsNearest (Nat.ofDigitChars 10 ds 0 * 10 ^ p) := by
  rw [← ofDigitChars_dropWhile]
  unfold ofDecimalText
  dsimp only
  have digits : ∀ c ∈ ds.dropWhile (· = '0'), c.isDigit :=
    fun c hc => h c ((List.dropWhile_sublist _).subset hc)
  have lead : ∀ c, (ds.dropWhile (· = '0')).head? = some c → c ≠ '0' := by
    intro c hc
    have := List.head?_dropWhile_not (· = '0') ds
    rw [hc] at this
    simpa using this
  generalize ds.dropWhile (· = '0') = sig at digits lead
  cases sig with
  | nil =>
    rw [if_pos (Or.inl rfl), Nat.ofDigitChars_nil, Nat.cast_zero, zero_mul]
    exact isNearest_zero le_rfl (by norm_num)
  | cons c r =>
    split
    · next small => exact isNearest_zero_of_place digits (small.resolve_left (List.cons_ne_nil c r))
    · split
      · next far => exact isNearest_infinity_of_place (digits c List.mem_cons_self) (lead c rfl) far
      · exact isNearest_ofDecimal _ p

theorem ofDecimalText_congr {p q : ℤ}
    (far : 400 < p ∧ 400 < q ∨ p + ds.length < -400 ∧ q + ds.length < -400) :
    ofDecimalText ds p = ofDecimalText ds q := by
  have fewer : (ds.dropWhile (· = '0')).length ≤ ds.length := (List.dropWhile_sublist _).length_le
  unfold ofDecimalText
  dsimp only
  by_cases none : ds.dropWhile (· = '0') = []
  · rw [if_pos (Or.inl none), if_pos (Or.inl none)]
  · rcases far with ⟨hp, hq⟩ | ⟨hp, hq⟩
    · rw [if_neg (by rintro (e | e); exacts [none e, by omega]), if_pos (by omega),
        if_neg (by rintro (e | e); exacts [none e, by omega]), if_pos (by omega)]
    · rw [if_pos (by omega), if_pos (by omega)]

variable {n : Numeral}

theorem isNearest_apply {x : ℚ} (h : (magnitudeOf n).IsNearest x) :
    (ofNumeral n).IsNearest (n.sign.apply x) := by
  unfold ofNumeral
  cases n.sign with
  | minus => exact h.neg
  | bare => exact h
  | plus => exact h

/-- **A numeral is read as the double nearest to its capped value.** -/
theorem isNearest_capped (n : Numeral) : (ofNumeral n).IsNearest n.capped :=
  isNearest_apply (isNearest_ofDecimalText n.isDigits.2 _)

/-- **In reach that is the double nearest to what it denotes.** -/
theorem isNearest_value (h : n.InReach) : (ofNumeral n).IsNearest n.value := by
  have same : magnitudeOf n = ofDecimalText n.digits (n.exponent - (n.places.getD []).length) := by
    rcases Nat.lt_or_ge n.exponent.natAbs 655360 with all | some'
    · rw [magnitudeOf, Numeral.cappedExponent_eq all]
    · have few : n.digits.length ≤ 65000 := h.resolve_left (by omega)
      have fewer : (n.places.getD []).length ≤ n.digits.length := by
        rw [Numeral.digits, List.length_append]
        exact Nat.le_add_left _ _
      apply ofDecimalText_congr
      rcases Numeral.cappedExponent_far some' with above | below <;> omega
  apply isNearest_apply
  rw [same]
  exact isNearest_ofDecimalText n.isDigits.2 _

end Nearest

end Double

end SqlGrammar
