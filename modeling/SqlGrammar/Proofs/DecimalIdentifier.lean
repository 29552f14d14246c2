import SqlGrammar.Proofs.Numeral

/-!
Identifiers in decimal texts. A numeral with a point or an exponent is no integer numeral
(`integer?_of_marked`), so it is always read as a double, the one nearest to what it denotes, and then cut.
Rounding comes before cutting: the integer is the whole part of the double (`normalizeIdentifier_of_numeral`).
It is that of the numeral wherever doubles can tell the two apart, which they no longer can beyond `2 ^ 53`
(`normalizeIdentifier_rounds`).
-/

namespace SqlGrammar

namespace Text

variable {n : Numeral}

theorem exists_mark (h : n.IsMarked) : ∃ c ∈ n.body, c.isDigit = false := by
  unfold Numeral.body
  rcases h with point | power
  · obtain ⟨ps, hp⟩ := Option.isSome_iff_exists.1 point
    exact ⟨'.', by simp [hp], rfl⟩
  · obtain ⟨w, hw⟩ := Option.isSome_iff_exists.1 power
    refine ⟨w.letter, by simp [hw, Power.text], ?_⟩
    rcases w.isLetter with e | e <;> rw [e] <;> rfl

theorem integer?_text (n : Numeral) :
    integer? n.text = (natural? n.body).map fun (m : ℕ) => n.sign.apply (m : ℤ) := by
  obtain ⟨c, r, body, plus, minus, -⟩ := Double.exists_body n
  unfold Numeral.text
  cases n.sign with
  | bare =>
    rw [Sign.text, List.nil_append, body]
    simp [integer?, plus, minus]
    rfl
  | plus => rfl
  | minus => rfl

theorem integer?_of_marked (h : n.IsMarked) : integer? n.text = none := by
  obtain ⟨c, mem, other⟩ := exists_mark h
  have none : natural? n.body = none := by
    cases read : natural? n.body with
    | none => rfl
    | some m =>
      have digits := (natural?_eq_some_iff.1 read).1
      rw [digits.2 c mem] at other
      cases other
  rw [integer?_text, none, Option.map_none]

theorem integer?_of_not_marked (h : ¬ n.IsMarked) : ∃ z : ℤ, integer? n.text = some z ∧ n.value = z := by
  obtain ⟨sign, whole, places, power, digits⟩ := n
  have noPoint : places = none := by
    rw [← Option.not_isSome_iff_eq_none]
    exact fun point => h (Or.inl point)
  have noPower : power = none := by
    rw [← Option.not_isSome_iff_eq_none]
    exact fun power => h (Or.inr power)
  subst noPoint noPower
  have only : IsDigits whole := by simpa using digits
  refine ⟨sign.apply (Nat.ofDigitChars 10 whole 0 : ℤ), ?_, ?_⟩
  · have body : natural? whole = some (Nat.ofDigitChars 10 whole 0) := natural?_eq_some_iff.2 ⟨only, rfl⟩
    rw [integer?_text]
    simp [Numeral.body, body]
  · cases sign <;> simp [Numeral.value, Numeral.scaled, Numeral.digits, Numeral.exponent, Sign.apply]

end Text

variable {s : String} {n : Text.Numeral}

theorem integerInText?_of_marked (h : Text.trimList s.toList = n.text) (marked : n.IsMarked) :
    integerInText? s = (Double.ofNumeral n).toInt64? := by
  simp only [integerInText?, h, Text.integer?_of_marked marked, Double.ofText?_text, Option.bind_none,
    Option.bind_some]

/-- **A decimal text becomes the whole part of the nearest double.** It stays as it is if that is no integer
of 64 bits. Nearest means to the number that the text denotes, where its exponent is read to the end, and a
number that is a double itself is its own nearest double. -/
theorem normalizeIdentifier_of_numeral (h : Text.trimList s.toList = n.text) (marked : n.IsMarked) :
    ∃ d : Double, d.IsNearest n.capped ∧ (n.InReach → d.IsNearest n.value) ∧
      (n.InReach → ∀ e : Double, e.value? = some n.value → d.value? = some n.value) ∧
      (∀ y, d.value? = some y → -2 ^ 63 ≤ wholePart y → wholePart y < 2 ^ 63 →
        ∃ k : Int64, k.toInt = wholePart y ∧ normalizeIdentifier (.string s) = .int k) ∧
      ((∀ y, d.value? = some y → wholePart y < -2 ^ 63 ∨ 2 ^ 63 ≤ wholePart y) →
        normalizeIdentifier (.string s) = .string s) := by
  have read := integerInText?_of_marked h marked
  refine ⟨Double.ofNumeral n, Double.isNearest_capped n, Double.isNearest_value, ?_, ?_, ?_⟩
  · intro reach e he
    exact (Double.isNearest_value reach).eq_of_value he
  · intro y hy low high
    obtain ⟨k, hk, found⟩ := Double.exists_toInt64? hy low high
    exact ⟨k, hk, by rw [normalizeIdentifier, read, found]⟩
  · intro out
    rw [normalizeIdentifier, read, Double.toInt64?_eq_none out]

/-- A numeral with a sign, a point and an exponent, between blanks. -/
theorem normalizeIdentifier_of_numeral_exact :
    ∃ k : Int64, k.toInt = -425 ∧ normalizeIdentifier (.string " -42.5e1 ") = .int k := by
  let w : Text.Power := ⟨'e', .bare, ['1'], Or.inl rfl, by decide⟩
  let n : Text.Numeral := ⟨.minus, ['4', '2'], some ['5'], some w, by decide⟩
  have text : Text.trimList " -42.5e1 ".toList = n.text := by decide
  have marked : n.IsMarked := Or.inl rfl
  have reach : n.InReach := Or.inl (by decide)
  have value : n.value = ((-425 : ℤ) : ℚ) := by
    rw [Text.Numeral.value_eq (m := 425) (e := 0) (by decide) (by decide)]
    norm_num [n, Text.Sign.apply]
  have double : (⟨0xC07A900000000000⟩ : Double).value? = some n.value := by
    have field : (⟨0xC07A900000000000⟩ : Double).field = 1031 := by decide
    have fraction : (⟨0xC07A900000000000⟩ : Double).fraction = 2973079441506304 := by decide
    rw [Double.value?, if_pos (by decide), if_pos (by decide), Double.size, field, fraction, value]
    norm_num
  have whole : wholePart n.value = -425 := by rw [value, wholePart_intCast]
  obtain ⟨d, -, -, exact, inside, -⟩ := normalizeIdentifier_of_numeral text marked
  obtain ⟨k, hk, found⟩ := inside _ (exact reach _ double) (by rw [whole]; decide) (by rw [whole]; decide)
  exact ⟨k, hk.trans whole, found⟩

/-- A numeral that doubles cannot tell from its neighbours becomes one of those, also one beyond the least
integer of 64 bits. -/
theorem normalizeIdentifier_rounds :
    (¬ ∀ (s : String) (n : Text.Numeral), Text.trimList s.toList = n.text → n.IsMarked →
      -2 ^ 63 ≤ wholePart n.value → wholePart n.value < 2 ^ 63 →
      ∃ k : Int64, k.toInt = wholePart n.value ∧ normalizeIdentifier (.string s) = .int k) ∧
    ¬ ∀ (s : String) (n : Text.Numeral), Text.trimList s.toList = n.text → n.IsMarked →
      wholePart n.value < -2 ^ 63 ∨ 2 ^ 63 ≤ wholePart n.value →
      normalizeIdentifier (.string s) = .string s := by
  constructor
  · intro h
    let n : Text.Numeral := ⟨.bare, "9007199254740993".toList, some ['0', '0'], none, by decide⟩
    have value : n.value = ((9007199254740993 : ℤ) : ℚ) := by
      rw [Text.Numeral.value_eq (m := 900719925474099300) (e := -2) (by decide) (by decide)]
      norm_num [n, Text.Sign.apply]
    have whole : wholePart n.value = 9007199254740993 := by rw [value, wholePart_intCast]
    obtain ⟨k, hk, found⟩ :=
      h "9007199254740993.00" n (by decide) (Or.inl rfl) (by rw [whole]; decide) (by rw [whole]; decide)
    have rounded : normalizeIdentifier (.string "9007199254740993.00") = .int 9007199254740992 := by decide
    obtain rfl := Value.int.inj (rounded.symm.trans found)
    rw [whole] at hk
    revert hk
    decide
  · intro h
    let n : Text.Numeral := ⟨.minus, "9223372036854775809".toList, some ['0'], none, by decide⟩
    have value : n.value = ((-9223372036854775809 : ℤ) : ℚ) := by
      rw [Text.Numeral.value_eq (m := 92233720368547758090) (e := -1) (by decide) (by decide)]
      norm_num [n, Text.Sign.apply]
    have whole : wholePart n.value = -9223372036854775809 := by rw [value, wholePart_intCast]
    have text := h "-9223372036854775809.0" n (by decide) (Or.inl rfl) (Or.inl (by rw [whole]; decide))
    have clamped : normalizeIdentifier (.string "-9223372036854775809.0") = .int Int64.minValue := by decide
    rw [clamped] at text
    cases text

end SqlGrammar
