import SqlGrammar.Proofs.DecimalIdentifier
import SqlGrammar.Proofs.Lookup
import SqlGrammar.Session

/-!
Existence checks. A check says yes if its first row reports a value that does, by itself or as the identifier
it is taken for (`Value.saysYes_iff`, `saysYes_iff`). An identifier is an integer of 64 bits, so a check sees
less than a number: below one it is cut to zero, and from `2 ^ 63` on it is no integer any more. What is left
of a double is `Double.Counts`, and of a numeral what is rounded to such a double
(`Double.IsNearest.counts_iff`). Between these ends a check tells whether the number is positive, and beyond
them it always says no (`rowExists_iff`).
-/

namespace SqlGrammar

/-! ## Doubles that count -/

namespace Double

variable {d : Double} {x : ℚ}

/-- A double from one up to the end of the integers of 64 bits. -/
def Counts (d : Double) : Prop := ∃ x, d.value? = some x ∧ 1 ≤ x ∧ x < 2 ^ 63

theorem Counts.value (h : d.Counts) (hx : d.value? = some x) : 1 ≤ x ∧ x < 2 ^ 63 := by
  obtain ⟨y, hy, range⟩ := h
  obtain rfl := Option.some.inj (hx.symm.trans hy)
  exact range

theorem exists_toInt64?_pos_iff : (∃ k, d.toInt64? = some k ∧ 0 < k) ↔ d.Counts := by
  constructor
  · rintro ⟨k, found, positive⟩
    obtain ⟨x, hx, whole⟩ := toInt64?_eq_some_iff.1 found
    have low : 1 ≤ wholePart x := by
      rw [← whole]
      exact Int64.lt_iff_toInt_lt.1 positive
    have high : ¬ 2 ^ 63 ≤ wholePart x := by
      rw [← whole]
      exact not_le.2 k.toInt_lt
    rw [le_wholePart_iff one_pos] at low
    rw [le_wholePart_iff (by decide)] at high
    exact ⟨x, hx, by exact_mod_cast low, by exact_mod_cast not_le.1 high⟩
  · rintro ⟨x, hx, low, high⟩
    have low' : 1 ≤ wholePart x := (le_wholePart_iff one_pos).2 (by exact_mod_cast low)
    have high' : ¬ 2 ^ 63 ≤ wholePart x := by
      rw [le_wholePart_iff (by decide)]
      exact not_le.2 (by exact_mod_cast high)
    obtain ⟨k, whole, found⟩ := exists_toInt64? hx (by omega) (by omega)
    refine ⟨k, found, Int64.lt_iff_toInt_lt.2 ?_⟩
    rw [whole]
    exact low'

theorem two_pow_le_overflow : 2 ^ 63 ≤ overflow := by
  have split : (2 : ℚ) ^ 1024 = 2 ^ 970 * 2 ^ 54 := by rw [← pow_add]
  have large : (2 : ℚ) ^ 63 ≤ 2 ^ 970 := pow_le_pow_right₀ one_le_two (by decide)
  rw [overflow, split]
  generalize (2 : ℚ) ^ 970 = c at large ⊢
  linarith

/-- **A number is rounded to such a double from half a step below either end.** -/
theorem IsNearest.counts_iff (h : d.IsNearest x) : d.Counts ↔ 1 - 1 / 2 ^ 54 ≤ x ∧ x < 2 ^ 63 - 512 := by
  have one : step 1021 = 1 / 2 ^ 53 := by
    have split : (2 : ℚ) ^ finest = 2 ^ 1021 * 2 ^ 53 := by rw [← pow_add]; rfl
    rw [step, split, div_mul_cancel_left₀ (by positivity), one_div]
  have last : step 1084 = 2 ^ 10 := by
    have split : (2 : ℚ) ^ 1084 = 2 ^ 10 * 2 ^ finest := by rw [← pow_add]; rfl
    rw [step, split, mul_div_cancel_right₀ _ (by positivity)]
  have ends {y : ℚ} (hy : d.value? = some y) :
      (1 ≤ y ↔ 1 - 1 / 2 ^ 54 ≤ x) ∧ (y < 2 ^ 63 ↔ x < 2 ^ 63 - 512) := by
    have low := h.power_le_iff hy (k := 1021) (by decide)
    have high := h.power_le_iff hy (k := 1084) (by decide)
    rw [one] at low
    rw [last] at high
    norm_num at low high ⊢
    exact ⟨low, by rw [← not_le, high, not_le]⟩
  constructor
  · rintro ⟨y, hy, range⟩
    exact ⟨(ends hy).1.1 range.1, (ends hy).2.1 range.2⟩
  · intro range
    cases h with
    | @finite y value => exact ⟨y, value, (ends value).1.2 range.1, (ends value).2.2 range.2⟩
    | above _ beyond => linarith [two_pow_le_overflow]
    | below _ beyond => linarith [two_pow_le_overflow]

end Double

/-! ## Texts that count -/

section Texts

variable {s : String}

theorem exists_integerInText?_of_denotes {z : ℤ} (h : Text.Denotes (Text.trimList s.toList) z) :
    (∃ k, integerInText? s = some k ∧ 0 < k) ↔ 0 < z ∧ z < 2 ^ 63 := by
  have first : Text.integer? (Text.trimList s.toList) = some z := Text.denotes_iff.1 h
  by_cases fits : -2 ^ 63 ≤ z ∧ z < 2 ^ 63
  · have found : integerInText? s = some (.ofInt z) := by
      simp only [integerInText?, first, Option.bind_some, int64?_of_fits fits.1 fits.2]
    have positive : 0 < Int64.ofInt z ↔ 0 < z := by
      rw [Int64.lt_iff_toInt_lt, Int64.toInt_ofInt_of_le fits.1 fits.2]
      rfl
    simp only [found, Option.some_inj, exists_eq_left', positive, fits.2, and_true]
  · have out : z < -2 ^ 63 ∨ 2 ^ 63 ≤ z := by omega
    have second : integerInText? s =
        if -2 ^ 63 - 1024 ≤ z ∧ z < 2 ^ 63 then some Int64.minValue else none := by
      rw [← Double.ofText?_of_denotes h out]
      simp only [integerInText?, first, Option.bind_some, int64?_of_not_fits out]
    apply iff_of_false
    · rintro ⟨k, found, positive⟩
      rw [second] at found
      obtain ⟨-, least⟩ := Option.ite_none_right_eq_some.1 found
      obtain rfl := Option.some.inj least
      revert positive
      decide
    · omega

theorem exists_integerInText?_of_marked {n : Text.Numeral} (h : Text.trimList s.toList = n.text)
    (marked : n.IsMarked) :
    (∃ k, integerInText? s = some k ∧ 0 < k) ↔ 1 - 1 / 2 ^ 54 ≤ n.capped ∧ n.capped < 2 ^ 63 - 512 := by
  rw [integerInText?_of_marked h marked, Double.exists_toInt64?_pos_iff, (Double.isNearest_capped n).counts_iff]

theorem exists_numeral_of_integerInText? {k : Int64} (h : integerInText? s = some k) :
    (∃ z, Text.Denotes (Text.trimList s.toList) z) ∨
      ∃ n : Text.Numeral, Text.trimList s.toList = n.text ∧ n.IsMarked := by
  cases first : Text.integer? (Text.trimList s.toList) with
  | some z => exact Or.inl ⟨z, Text.denotes_iff.2 first⟩
  | none =>
    right
    simp only [integerInText?, first, Option.bind_none] at h
    obtain ⟨d, read, found⟩ := Option.bind_eq_some_iff.1 h
    obtain ⟨x, hx, -⟩ := Double.toInt64?_eq_some_iff.1 found
    have finite : d.isFinite = true := (Option.ite_none_right_eq_some.1 hx).1
    obtain ⟨n, text, -⟩ := Double.exists_ofNumeral read finite
    refine ⟨n, text.symm, ?_⟩
    by_contra plain
    obtain ⟨z, denotes, -⟩ := Text.integer?_of_not_marked plain
    rw [text, first] at denotes
    cases denotes

end Texts

/-! ## Values that say yes -/

namespace Value

/-- The number that a value stands for: that of an integer, of a finite double, or of a numeral between
blanks. -/
inductive IsNumber : Value → ℚ → Prop
  | int (n : Int64) : IsNumber (.int n) n.toInt
  | float {d : Double} {x : ℚ} (value : d.value? = some x) : IsNumber (.float d) x
  | whole {s : String} {z : ℤ} (denotes : Text.Denotes (Text.trimList s.toList) z) : IsNumber (.string s) z
  | decimal {s : String} {n : Text.Numeral} (text : Text.trimList s.toList = n.text) (marked : n.IsMarked) :
      IsNumber (.string s) n.value

/-- The same of a number that an existence check does not mistake: one that is not positive, or one from one
up to the end of the integers of 64 bits. That end is lower for what is rounded. -/
inductive Tells : Value → ℚ → Prop
  | int (n : Int64) : Tells (.int n) n.toInt
  | float {d : Double} {x : ℚ} (value : d.value? = some x) (range : x ≤ 0 ∨ 1 ≤ x ∧ x < 2 ^ 63) :
      Tells (.float d) x
  | whole {s : String} {z : ℤ} (denotes : Text.Denotes (Text.trimList s.toList) z) (range : z < 2 ^ 63) :
      Tells (.string s) z
  | decimal {s : String} {n : Text.Numeral} (text : Text.trimList s.toList = n.text) (marked : n.IsMarked)
      (reach : n.InReach) (range : n.value ≤ 0 ∨ 1 ≤ n.value ∧ n.value < 2 ^ 63 - 512) :
      Tells (.string s) n.value

/-- What an existence check takes for a yes. -/
inductive SaysYes : Value → Prop
  | bool : SaysYes (.bool true)
  | int {n : Int64} (positive : 0 < n) : SaysYes (.int n)
  | float {d : Double} (counts : d.Counts) : SaysYes (.float d)
  | whole {s : String} {z : ℤ} (denotes : Text.Denotes (Text.trimList s.toList) z) (positive : 0 < z)
      (fits : z < 2 ^ 63) : SaysYes (.string s)
  | decimal {s : String} {n : Text.Numeral} (text : Text.trimList s.toList = n.text) (marked : n.IsMarked)
      (reached : 1 - 1 / 2 ^ 54 ≤ n.capped) (fits : n.capped < 2 ^ 63 - 512) : SaysYes (.string s)

variable {v : Value} {x : ℚ}

@[simp]
theorem bool_saysYes_iff {b : Bool} : SaysYes (.bool b) ↔ b = true := by
  constructor
  · intro h
    cases h
    rfl
  · rintro rfl
    exact .bool

@[simp]
theorem int_saysYes_iff {n : Int64} : SaysYes (.int n) ↔ 0 < n := by
  constructor
  · intro h
    cases h with
    | int positive => exact positive
  · exact .int

@[simp]
theorem float_saysYes_iff {d : Double} : SaysYes (.float d) ↔ d.Counts := by
  constructor
  · intro h
    cases h with
    | float counts => exact counts
  · exact .float

theorem string_saysYes_iff {s : String} : SaysYes (.string s) ↔ ∃ k, integerInText? s = some k ∧ 0 < k := by
  constructor
  · intro h
    cases h with
    | whole denotes positive fits => exact (exists_integerInText?_of_denotes denotes).2 ⟨positive, fits⟩
    | decimal text marked reached fits => exact (exists_integerInText?_of_marked text marked).2 ⟨reached, fits⟩
  · rintro ⟨k, found, positive⟩
    rcases exists_numeral_of_integerInText? found with ⟨z, denotes⟩ | ⟨n, text, marked⟩
    · obtain ⟨positive, fits⟩ := (exists_integerInText?_of_denotes denotes).1 ⟨k, found, positive⟩
      exact .whole denotes positive fits
    · obtain ⟨reached, fits⟩ := (exists_integerInText?_of_marked text marked).1 ⟨k, found, positive⟩
      exact .decimal text marked reached fits

theorem saysYes_iff : v.SaysYes ↔
    normalizeIdentifier v = .bool true ∨ ∃ k, normalizeIdentifier v = .int k ∧ 0 < k := by
  cases v with
  | bool b => simp [normalizeIdentifier]
  | int n => simp [normalizeIdentifier]
  | float d =>
    rw [float_saysYes_iff, ← Double.exists_toInt64?_pos_iff, normalizeIdentifier]
    cases d.toInt64? <;> simp
  | string s =>
    rw [string_saysYes_iff, normalizeIdentifier]
    cases integerInText? s <;> simp
  | _ =>
    apply iff_of_false
    · rintro ⟨⟩
    · simp [normalizeIdentifier]

/-- **Between the ends a value says yes exactly if its number is positive.** -/
theorem Tells.saysYes_iff (h : v.Tells x) : v.SaysYes ↔ 0 < x := by
  cases h with
  | int n =>
    rw [int_saysYes_iff, Int64.lt_iff_toInt_lt]
    exact_mod_cast Iff.rfl
  | float value range =>
    rw [float_saysYes_iff]
    constructor
    · intro counts
      linarith [(counts.value value).1]
    · intro positive
      have ends := range.resolve_left (not_le.2 positive)
      exact ⟨x, value, ends⟩
  | whole denotes range =>
    rw [string_saysYes_iff, exists_integerInText?_of_denotes denotes, and_iff_left range]
    exact_mod_cast Iff.rfl
  | decimal text marked reach range =>
    rw [string_saysYes_iff, integerInText?_of_marked text marked, Double.exists_toInt64?_pos_iff,
      (Double.isNearest_value reach).counts_iff]
    constructor
    · intro counts
      linarith [counts.1]
    · intro positive
      have ends := range.resolve_left (not_le.2 positive)
      exact ⟨by linarith, ends.2⟩

end Value

/-! ## Rows -/

/-- What an existence check reads off a row: the value of `exists` or, failing that, of `aggregate`. -/
def Row.Reports (row : Row) (v : Value) : Prop :=
  Answers row.fields "exists" (some v) ∨
    Answers row.fields "exists" none ∧ Answers row.fields "aggregate" (some v)

theorem Row.reports_iff {row : Row} {v : Value} :
    row.Reports v ↔ (row.get? "exists").or (row.get? "aggregate") = some v := by
  rw [Reports, answers_iff, answers_iff, answers_iff, ← row.get?_eq_entryOf?, ← row.get?_eq_entryOf?]
  cases row.get? "exists" <;> simp

theorem saysYes_cons (row : Row) (rest : List Row) : saysYes (row :: rest) =
    match ((row.get? "exists").or (row.get? "aggregate")).map normalizeIdentifier with
    | some (.int n) => decide (0 < n)
    | some (.bool b) => b
    | _ => false := by
  rw [saysYes]
  cases row.get? "exists" <;> rfl

theorem saysYes_iff {rows : List Row} :
    saysYes rows = true ↔ ∃ row v, rows.head? = some row ∧ row.Reports v ∧ v.SaysYes := by
  cases rows with
  | nil => simp [saysYes]
  | cons row rest =>
    simp only [List.head?_cons, Option.some_inj, Row.reports_iff, exists_and_left, exists_eq_left', saysYes_cons]
    cases (row.get? "exists").or (row.get? "aggregate") with
    | none => simp
    | some v =>
      simp only [Option.map_some, Option.some_inj, exists_eq_left', Value.saysYes_iff]
      cases normalizeIdentifier v <;> simp

section Checks

variable {d : Dialect} {executor : Executor} {q : Query} {j : Journal} {rows : List Row}

/-- **An existence check tells whether the number that is reported is positive, between one and the end of
the integers of 64 bits.** It says yes exactly if the first row reports a value that does. -/
theorem rowExists_iff (h : executor (j.callOf .read (d.existsStatement q)) = .ok rows) :
    ∃ b, (rowExists d executor q j).1 = .ok b ∧
      (b = true ↔ ∃ row v, rows.head? = some row ∧ row.Reports v ∧ v.SaysYes) ∧
      ∀ row v x, rows.head? = some row → row.Reports v → v.Tells x → (b = true ↔ 0 < x) := by
  refine ⟨saysYes rows, by rw [rowExists, h]; rfl, saysYes_iff, fun row v x first reports tells => ?_⟩
  rw [← tells.saysYes_iff, saysYes_iff]
  constructor
  · rintro ⟨row', v', first', reports', yes⟩
    obtain rfl := Option.some.inj (first.symm.trans first')
    obtain rfl := Option.some.inj ((Row.reports_iff.1 reports).symm.trans (Row.reports_iff.1 reports'))
    exact yes
  · exact fun yes => ⟨row, v, first, reports, yes⟩

end Checks

/-- A count under a name in upper case, and a zero under `exists`, which goes before the count. -/
theorem rowExists_iff_of_counts :
    (rowExists (.generic {}) (fun _ => .ok [⟨[("AGGREGATE", .string " 3 ")]⟩]) {} {}).1 = .ok true ∧
    (rowExists (.generic {}) (fun _ => .ok [⟨[("aggregate", .int 3), ("exists", .int 0)]⟩]) {} {}).1 =
      .ok false := by
  constructor
  · let executor : Executor := fun _ => .ok [⟨[("AGGREGATE", .string " 3 ")]⟩]
    have answered : executor (Journal.callOf {} .read (Dialect.existsStatement (.generic {}) {})) =
        .ok [⟨[("AGGREGATE", .string " 3 ")]⟩] := rfl
    have three : (Value.string " 3 ").Tells (3 : ℤ) := .whole (by decide) (by decide)
    obtain ⟨b, answer, -, counts⟩ := rowExists_iff answered
    rw [answer, (counts _ _ _ rfl (Row.reports_iff.2 (by decide)) three).2 (by norm_num)]
  · let executor : Executor := fun _ => .ok [⟨[("aggregate", .int 3), ("exists", .int 0)]⟩]
    have answered : executor (Journal.callOf {} .read (Dialect.existsStatement (.generic {}) {})) =
        .ok [⟨[("aggregate", .int 3), ("exists", .int 0)]⟩] := rfl
    have zero : ((0 : Int64).toInt : ℚ) = 0 := by simp
    obtain ⟨b, answer, -, counts⟩ := rowExists_iff answered
    have no := counts _ _ _ rfl (Row.reports_iff.2 (by decide)) (.int 0)
    have said : b = false := by simpa [zero] using no
    rw [answer, said]

/-- A count beyond the integers of 64 bits is no yes. -/
theorem rowExists_misses :
    ¬ ∀ (d : Dialect) (executor : Executor) (q : Query) (j : Journal) (rows : List Row),
      executor (j.callOf .read (d.existsStatement q)) = .ok rows →
      ((rowExists d executor q j).1 = .ok true ↔ ∃ row v, rows.head? = some row ∧ row.Reports v ∧
        (v = .bool true ∨ ∃ x, v.IsNumber x ∧ 0 < x)) := by
  intro h
  let row : Row := ⟨[("aggregate", .string "99999999999999999999")]⟩
  have number : (Value.string "99999999999999999999").IsNumber (99999999999999999999 : ℤ) := .whole (by decide)
  have yes := (h (.generic {}) (fun _ => .ok [row]) {} {} [row] rfl).2
    ⟨row, _, rfl, Row.reports_iff.2 (by decide), Or.inr ⟨_, number, by norm_num⟩⟩
  have no : saysYes [row] = false := by decide
  have answer : (rowExists (.generic {}) (fun _ => .ok [row]) {} {}).1 = .ok (saysYes [row]) := rfl
  rw [answer, no] at yes
  cases yes

end SqlGrammar
