import SqlGrammar.Text.Blank

/-!
Trimming, told by what it cuts off: a text is its trimmed form between two runs of blanks
(`exists_trimList`), and of all texts between two runs of blanks only the trimmed form has no blank at
its own ends (`trimList_eq`). What holds of a text and is not changed by blanks at its ends holds of its
trimmed form.
-/

namespace SqlGrammar.Text

theorem isBlank_of_isDigit {c : Char} (h : c.isDigit) : isBlank c = false := by
  obtain ⟨lower, upper⟩ : 48 ≤ c.toNat ∧ c.toNat ≤ 57 := Char.isDigit_iff_toNat.1 h
  simp [isBlank, blankRanges]
  omega

/-- The first and the last character, if any, are no blanks. -/
def Trimmed (s : List Char) : Prop :=
  (∀ c, s.head? = some c → isBlank c = false) ∧ ∀ c, s.getLast? = some c → isBlank c = false

theorem trimmed_of_all {s : List Char} (h : (s.all fun c => !isBlank c) = true) : Trimmed s := by
  have none : ∀ c ∈ s, isBlank c = false := by simpa using h
  exact ⟨fun c hc => none c (List.mem_of_mem_head? hc), fun c hc => none c (List.mem_of_mem_getLast? hc)⟩

theorem exists_trimEndList (s : List Char) :
    ∃ b, s = trimEndList s ++ b ∧ ∀ c ∈ b, isBlank c = true := by
  induction s with
  | nil => exact ⟨[], rfl, by simp⟩
  | cons c r ih =>
    obtain ⟨b, hb, blank⟩ := ih
    rw [trimEndList]
    split
    · next he =>
      rw [he, List.nil_append] at hb
      split
      · next hc =>
        refine ⟨c :: b, by rw [← hb]; rfl, ?_⟩
        intro x hx
        rcases List.mem_cons.1 hx with rfl | hx
        · exact hc
        · exact blank x hx
      · exact ⟨b, by rw [← hb]; rfl, blank⟩
    · exact ⟨b, by rw [List.cons_append, ← hb], blank⟩

/-- A text is its trimmed form between two runs of blanks. -/
theorem exists_trimList (s : List Char) : ∃ a b, s = a ++ trimList s ++ b ∧
    (∀ c ∈ a, isBlank c = true) ∧ ∀ c ∈ b, isBlank c = true := by
  obtain ⟨b, hb, blank⟩ := exists_trimEndList (s.dropWhile isBlank)
  refine ⟨s.takeWhile isBlank, b, ?_, fun c hc => ?_, blank⟩
  · rw [List.append_assoc, trimList, ← hb, List.takeWhile_append_dropWhile]
  · exact List.all_eq_true.1 List.all_takeWhile c hc

theorem getLast?_trimEndList {s : List Char} {c : Char} (h : (trimEndList s).getLast? = some c) :
    isBlank c = false := by
  induction s with
  | nil => simp [trimEndList] at h
  | cons x r ih =>
    rw [trimEndList] at h
    split at h
    · split at h
      · simp at h
      · next hx =>
        have : x = c := by simpa using h
        rw [← this]
        simpa using hx
    · next hne =>
      rw [List.getLast?_cons] at h
      apply ih
      cases ht : (trimEndList r).getLast? with
      | none => exact absurd (List.getLast?_eq_none_iff.1 ht) (fun e => hne e)
      | some y =>
        rw [ht] at h
        simpa using h

theorem trimmed_trimList (s : List Char) : Trimmed (trimList s) := by
  refine ⟨fun c hc => ?_, fun c hc => getLast?_trimEndList hc⟩
  obtain ⟨b, hb, -⟩ := exists_trimEndList (s.dropWhile isBlank)
  have head : (s.dropWhile isBlank).head? = some c := by
    rw [hb, List.head?_append, show (trimEndList (s.dropWhile isBlank)).head? = some c from hc]
    rfl
  simpa [head] using List.head?_dropWhile_not isBlank s

theorem trimEndList_append_blanks {s b : List Char} (hb : ∀ c ∈ b, isBlank c = true) :
    trimEndList (s ++ b) = trimEndList s := by
  induction s with
  | nil =>
    -- nothing before the blanks: they are cut off one by one, the last one first
    induction b with
    | nil => rfl
    | cons c b ih =>
      have rest := ih fun x hx => hb x (List.mem_cons_of_mem _ hx)
      simp only [List.nil_append] at rest ⊢
      simp [trimEndList, rest, hb c List.mem_cons_self]
  | cons c s ih => rw [List.cons_append, trimEndList, trimEndList, ih]

theorem trimEndList_of_getLast {s : List Char} (h : ∀ c, s.getLast? = some c → isBlank c = false) :
    trimEndList s = s := by
  induction s with
  | nil => rfl
  | cons x r ih =>
    cases r with
    | nil => simp [trimEndList, h x rfl]
    | cons y r =>
      rw [trimEndList, ih fun c hc => h c (by rw [List.getLast?_cons_cons]; exact hc)]

/-- A text without blanks at its ends is what is left of it between two runs of blanks. -/
theorem trimList_eq {a m b : List Char} (ha : ∀ c ∈ a, isBlank c = true)
    (hb : ∀ c ∈ b, isBlank c = true) (hm : Trimmed m) : trimList (a ++ m ++ b) = m := by
  unfold trimList
  rw [List.append_assoc, List.dropWhile_append_of_pos ha]
  cases m with
  | nil =>
    -- nothing in between: the cut at the front takes the blanks of both runs
    have none : b.dropWhile isBlank = [] := by
      have : (b ++ []).dropWhile isBlank = [].dropWhile isBlank := List.dropWhile_append_of_pos hb
      simpa using this
    rw [List.nil_append, none]
    rfl
  | cons c r =>
    have first : ((c :: r) ++ b).dropWhile isBlank = (c :: r) ++ b := by
      simp [hm.1 c rfl]
    rw [first, trimEndList_append_blanks hb, trimEndList_of_getLast hm.2]

theorem trimList_subset (s : List Char) : trimList s ⊆ s := by
  obtain ⟨a, b, hs, -, -⟩ := exists_trimList s
  intro c hc
  rw [hs]
  simp [hc]

theorem count_trimList {c : Char} (hc : isBlank c = false) (s : List Char) :
    (trimList s).count c = s.count c := by
  have absent {b : List Char} (hb : ∀ x ∈ b, isBlank x = true) : b.count c = 0 := by
    rw [List.count_eq_zero]
    intro hm
    rw [hb c hm] at hc
    cases hc
  obtain ⟨a, b, hs, ha, hb⟩ := exists_trimList s
  calc (trimList s).count c = a.count c + (trimList s).count c + b.count c := by
        rw [absent ha, absent hb]; omega
    _ = (a ++ trimList s ++ b).count c := by rw [List.count_append, List.count_append]
    _ = s.count c := by rw [← hs]

end SqlGrammar.Text
