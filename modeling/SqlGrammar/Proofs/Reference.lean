import SqlGrammar.Proofs.Spelling
import SqlGrammar.Proofs.Trim

/-!
The references in texts. A text in front of a name that holds no space cannot make an alias of its own,
so it belongs to the first segment (`splitAlias?_append`), and a table is written as the column reference
of the text with the prefix before it (`table_eq_column`). A reference whose segments hold neither a point
nor a space, and whose alias has no blank at its ends, is read back from its text (`ofText_render`).
Quoting puts quotes around a segment and doubles those inside (`toList_doubleQuoted`).
-/

namespace SqlGrammar

namespace Name

/-! ## Aliases -/

theorem afterAs?_cons_of_ne {c : Char} (hc : c ≠ ' ') (r : List Char) : afterAs? (c :: r) = none := by
  unfold afterAs?
  split
  · next h => exact absurd (List.cons.inj h).1 hc
  · rfl

theorem afterAs?_eq_some_iff {s label : List Char} : afterAs? s = some label ↔
    ∃ a b, s = ' ' :: a :: b :: ' ' :: label ∧ a.toLower = 'a' ∧ b.toLower = 's' := by
  constructor
  · intro h
    unfold afterAs? at h
    split at h
    · next a b r =>
      split at h
      · next hab => exact ⟨a, b, by rw [Option.some.inj h], hab⟩
      · cases h
    · cases h
  · rintro ⟨a, b, rfl, hab⟩
    exact if_pos hab

theorem splitAlias?_cons_eq_none_iff {c : Char} {s : List Char} :
    splitAlias? (c :: s) = none ↔ afterAs? (c :: s) = none ∧ splitAlias? s = none := by
  rw [splitAlias?]
  cases afterAs? (c :: s) <;> simp

/-- What is read at the start of a text is read there whatever comes later. -/
theorem afterAs?_append {s label : List Char} (h : afterAs? s = some label) (t : List Char) :
    afterAs? (s ++ t) = some (label ++ t) := by
  unfold afterAs? at h
  split at h
  · next a b r =>
    split at h
    · next hab =>
      cases h
      simp [afterAs?, hab]
    · cases h
  · cases h

/-- A text without spaces in front belongs to the name. -/
theorem splitAlias?_append {p : List Char} (hp : ' ' ∉ p) (s : List Char) :
    splitAlias? (p ++ s) = (splitAlias? s).map fun cut => (p ++ cut.1, cut.2) := by
  induction p with
  | nil => simp
  | cons c p ih =>
    have hc : c ≠ ' ' := fun he => hp (he ▸ List.mem_cons_self)
    have rest := ih fun hm => hp (List.mem_cons_of_mem _ hm)
    rw [List.cons_append, splitAlias?, afterAs?_cons_of_ne hc, rest]
    cases splitAlias? s <;> rfl

theorem splitAlias?_of_not_mem {s : List Char} (h : ' ' ∉ s) : splitAlias? s = none := by
  have := splitAlias?_append h []
  simpa [splitAlias?] using this

theorem splitAlias?_fst {s name label : List Char} (h : splitAlias? s = some (name, label)) :
    splitAlias? name = none := by
  induction s generalizing name with
  | nil => simp [splitAlias?] at h
  | cons c r ih =>
    rw [splitAlias?] at h
    split at h
    · cases h
      rfl
    · next hfirst =>
      obtain ⟨⟨rest, x⟩, hrest, he⟩ := Option.map_eq_some_iff.1 h
      cases he
      obtain ⟨a, b, hr, -⟩ := splitAlias?_eq_some hrest
      have first : afterAs? (c :: rest) = none := by
        cases ha : afterAs? (c :: rest) with
        | none => rfl
        | some l =>
          have := afterAs?_append ha (' ' :: a :: b :: ' ' :: label)
          rw [List.cons_append, ← hr, hfirst] at this
          cases this
      rw [splitAlias?, first, ih hrest]
      rfl

theorem splitAlias?_as {name : List Char} (h : ' ' ∉ name) (label : List Char) :
    splitAlias? (name ++ " as ".toList ++ label) = some (name, label) := by
  rw [List.append_assoc, splitAlias?_append h]
  have : splitAlias? (" as ".toList ++ label) = some ([], label) := by
    show splitAlias? (' ' :: 'a' :: 's' :: ' ' :: label) = _
    have head : afterAs? (' ' :: 'a' :: 's' :: ' ' :: label) = some label := by
      show (if 'a'.toLower = 'a' ∧ 's'.toLower = 's' then some label else none) = some label
      exact if_pos (by decide)
    rw [splitAlias?, head]
  rw [this]
  simp

/-! ## Segments -/

/-- What stands in a segment stands in the text, and is no point. -/
theorem mem_of_mem_splitOn {s seg : List Char} (h : seg ∈ s.splitOn '.') {x : Char} (hx : x ∈ seg) :
    x ∈ s ∧ x ≠ '.' := by
  induction s generalizing seg with
  | nil => simp_all
  | cons c r ih =>
    have later {seg : List Char} (h : seg ∈ r.splitOn '.') (hx : x ∈ seg) : x ∈ c :: r ∧ x ≠ '.' :=
      ⟨List.mem_cons_of_mem _ (ih h hx).1, (ih h hx).2⟩
    obtain ⟨first, rest, cut⟩ := List.exists_cons_of_ne_nil (List.splitOn_ne_nil '.' r)
    rw [cut] at later
    rw [List.splitOn_cons_eq_if_modifyHead, cut] at h
    split at h
    · rcases List.mem_cons.1 h with rfl | h
      · cases hx
      · exact later h hx
    · next point =>
      rcases List.mem_cons.1 h with rfl | h
      · rcases List.mem_cons.1 hx with rfl | hx
        · exact ⟨List.mem_cons_self, fun e => point (beq_iff_eq.2 e)⟩
        · exact later List.mem_cons_self hx
      · exact later (List.mem_cons_of_mem _ h) hx

theorem intercalate_ofList_splitOn (s : List Char) :
    String.intercalate "." ((s.splitOn '.').map String.ofList) = String.ofList s := by
  have segments : ((s.splitOn '.').map String.ofList).map String.toList = s.splitOn '.' := by simp
  rw [← String.toList_inj, String.toList_intercalate, segments]
  exact (List.intercalate_splitOn '.').trans String.toList_ofList.symm

theorem not_mem_intercalate {c x : Char} (hx : c ≠ x) {segs : List (List Char)}
    (h : ∀ s ∈ segs, c ∉ s) : c ∉ [x].intercalate segs := by
  induction segs with
  | nil => simp
  | cons s rest ih =>
    have first := h s List.mem_cons_self
    cases rest with
    | nil => simpa using first
    | cons t rest =>
      have later := ih fun u hu => h u (List.mem_cons_of_mem _ hu)
      rw [List.intercalate_cons_cons]
      simp [first, hx, later]

/-! ## Quoted names -/

def escaped (s : List Char) : List Char := s.flatMap fun c => if c = '"' then ['"', '"'] else [c]

@[simp] theorem escaped_nil : escaped [] = [] := rfl

theorem escaped_cons_quote (s : List Char) : escaped ('"' :: s) = '"' :: '"' :: escaped s := rfl

theorem escaped_cons {c : Char} (hc : c ≠ '"') (s : List Char) : escaped (c :: s) = c :: escaped s := by
  rw [escaped, List.flatMap_cons, if_neg hc]
  rfl

theorem toList_doubleQuoted (name : String) :
    (doubleQuoted name).toList = '"' :: escaped name.toList ++ ['"'] := by
  rw [doubleQuoted, String.toList_ofList]
  rfl

theorem quote_mem_doubleQuoted (name : String) : '"' ∈ (doubleQuoted name).toList := by
  rw [toList_doubleQuoted]
  exact List.mem_cons_self

theorem mem_doubleQuoted {c : Char} {name : String} (h : c ∈ (doubleQuoted name).toList) :
    c = '"' ∨ c ∈ name.toList := by
  rw [toList_doubleQuoted, List.cons_append, List.mem_cons, List.mem_append] at h
  rcases h with h | h | h
  · exact Or.inl h
  · obtain ⟨x, hx, h⟩ := List.mem_flatMap.1 h
    by_cases hq : x = '"'
    · exact Or.inl (by simpa [hq] using h)
    · rw [if_neg hq, List.mem_singleton] at h
      exact Or.inr (h ▸ hx)
  · exact Or.inl (List.mem_singleton.1 h)

/-! ## References -/

namespace Reference

theorem segments_ofText_ne_nil (s : String) : (ofText s).segments ≠ [] := by
  unfold ofText
  split <;> simp [List.splitOn_ne_nil]

theorem ofText_of_none {s : String} (h : splitAlias? s.toList = none) :
    ofText s = ⟨(s.toList.splitOn '.').map String.ofList, none⟩ := by
  rw [ofText, h]

theorem ofText_of_some {s : String} {name label : List Char}
    (h : splitAlias? s.toList = some (name, label)) : ofText s =
      ⟨(name.splitOn '.').map String.ofList, some (String.ofList (Text.trimList label))⟩ := by
  rw [ofText, h]

theorem ofText_append {tablePrefix : String} (hp : ' ' ∉ tablePrefix.toList) (s : String) :
    ofText (tablePrefix ++ s) = match splitAlias? s.toList with
      | none => ⟨((tablePrefix ++ s).toList.splitOn '.').map String.ofList, none⟩
      | some (name, label) => ⟨((tablePrefix.toList ++ name).splitOn '.').map String.ofList,
          some (String.ofList (Text.trimList label))⟩ := by
  rw [ofText, String.toList_append, splitAlias?_append hp]
  cases splitAlias? s.toList <;> rfl

theorem ofText_name {tablePrefix : String} (hp : ' ' ∉ tablePrefix.toList) {s name label : List Char}
    (h : splitAlias? s = some (name, label)) :
    ofText (tablePrefix ++ String.ofList name) =
      ⟨((tablePrefix.toList ++ name).splitOn '.').map String.ofList, none⟩ := by
  rw [ofText_append hp, String.toList_append, String.toList_ofList, splitAlias?_fst h]

/-- **A reference is read back from its text.** -/
theorem ofText_render {r : Reference} (hne : r.segments ≠ [])
    (hs : ∀ s ∈ r.segments, '.' ∉ s.toList ∧ ' ' ∉ s.toList)
    (ha : ∀ a, r.aliasName = some a → Text.Trimmed a.toList) : ofText (r.render id) = r := by
  obtain ⟨segs, label⟩ := r
  have segments : ((['.'].intercalate (segs.map String.toList)).splitOn '.').map String.ofList = segs := by
    rw [List.splitOn_intercalate '.' (fun s hs' => ?_) (by simpa using hne)]
    · simp
    · obtain ⟨t, ht, rfl⟩ := List.mem_map.1 hs'
      exact (hs t ht).1
  have spaces : ' ' ∉ ['.'].intercalate (segs.map String.toList) := by
    refine not_mem_intercalate (by decide) fun s hs' => ?_
    obtain ⟨t, ht, rfl⟩ := List.mem_map.1 hs'
    exact (hs t ht).2
  have name : (String.intercalate "." (segs.map id)).toList = ['.'].intercalate (segs.map String.toList) := by
    rw [String.toList_intercalate, List.map_id]
    rfl
  cases label with
  | none =>
    have text : ((⟨segs, none⟩ : Reference).render id).toList =
        ['.'].intercalate (segs.map String.toList) := name
    rw [ofText_of_none (by rw [text]; exact splitAlias?_of_not_mem spaces), text, segments]
  | some a =>
    have text : ((⟨segs, some a⟩ : Reference).render id).toList =
        ['.'].intercalate (segs.map String.toList) ++ " as ".toList ++ a.toList := by
      rw [← name, ← String.toList_append, ← String.toList_append]
      rfl
    have trimmed : Text.trimList a.toList = a.toList := by
      have := Text.trimList_eq (a := []) (b := []) (by simp) (by simp) (ha a rfl)
      simpa using this
    rw [ofText_of_some (by rw [text]; exact splitAlias?_as spaces a.toList), segments, trimmed,
      String.ofList_toList]

end Reference

/-- A table is written as the column reference of its text with the prefix before it. -/
theorem table_eq_column {tablePrefix : String} (hp : ' ' ∉ tablePrefix.toList)
    (segment : String → String) (s : String) :
    table (column segment) segment tablePrefix s = column segment (tablePrefix ++ s) := by
  unfold table
  cases hcut : splitAlias? s.toList with
  | none => rfl
  | some cut =>
    obtain ⟨name, label⟩ := cut
    simp only [column, Reference.ofText_name hp hcut, Reference.ofText_append hp, hcut]
    rfl

end Name

theorem tablePieces_eq_columnPieces {tablePrefix : String} (hp : ' ' ∉ tablePrefix.toList) (s : String) :
    tablePieces tablePrefix s = columnPieces (tablePrefix ++ s) := by
  unfold tablePieces
  cases hcut : Name.splitAlias? s.toList with
  | none => rfl
  | some cut =>
    obtain ⟨name, label⟩ := cut
    simp only [columnPieces, Name.Reference.ofText_name hp hcut, Name.Reference.ofText_append hp, hcut]
    simp [Name.Reference.pieces]

end SqlGrammar
