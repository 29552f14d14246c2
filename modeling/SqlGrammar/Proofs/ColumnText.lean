import SqlGrammar.Proofs.Reference

/-!
The text of a column can be told from what follows it. Two texts that start with columns and go on in
ways no column does (`ColumnEnd`) are equal only if the columns are written alike and the rests are
equal (`quotedColumn_append_inj`). It is proved inside out: for the body of a quoted name, where two quotes
stand for one; for a segment; for segments with points between them; and for a reference with or
without its alias.
-/

namespace SqlGrammar

namespace Name

/-- The quote that closes a name is the first one that no quote follows. -/
theorem escaped_append_inj {s t u v : List Char} (hu : u.head? ≠ some '"') (hv : v.head? ≠ some '"')
    (h : escaped s ++ '"' :: u = escaped t ++ '"' :: v) : s = t ∧ u = v := by
  -- an end against a quote inside: the second of the two quotes would follow the end
  have closed {r w x : List Char} (hx : x.head? ≠ some '"') :
      '"' :: x ≠ escaped ('"' :: r) ++ '"' :: w := by
    intro he
    rw [escaped_cons_quote] at he
    have : x = '"' :: (escaped r ++ '"' :: w) := (List.cons.inj he).2
    exact hx (by rw [this]; rfl)
  have apart {c : Char} {r w x : List Char} (hc : c ≠ '"') : '"' :: x ≠ escaped (c :: r) ++ '"' :: w := by
    intro he
    rw [escaped_cons hc] at he
    exact hc (List.cons.inj he).1.symm
  induction s generalizing t with
  | nil =>
    cases t with
    | nil => exact ⟨rfl, (List.cons.inj h).2⟩
    | cons d t =>
      by_cases hd : d = '"'
      · subst hd
        exact absurd h (closed hu)
      · exact absurd h (apart hd)
  | cons c s ih =>
    cases t with
    | nil =>
      by_cases hc : c = '"'
      · subst hc
        exact absurd h.symm (closed hv)
      · exact absurd h.symm (apart hc)
    | cons d t =>
      have tails : c = d ∧ escaped s ++ '"' :: u = escaped t ++ '"' :: v := by
        by_cases hc : c = '"' <;> by_cases hd : d = '"'
        · subst hc hd
          simpa [escaped_cons_quote] using h
        · subst hc
          rw [escaped_cons_quote, escaped_cons hd] at h
          exact absurd (List.cons.inj h).1.symm hd
        · subst hd
          rw [escaped_cons_quote, escaped_cons hc] at h
          exact absurd (List.cons.inj h).1 hc
        · simpa [escaped_cons hc, escaped_cons hd] using h
      obtain ⟨hst, huv⟩ := ih tails.2
      exact ⟨by rw [tails.1, hst], huv⟩

def segmentText (s : String) : List Char := (segment doubleQuoted s).toList

theorem segmentText_star : segmentText "*" = ['*'] := by decide

theorem segmentText_of_ne {s : String} (hs : s ≠ "*") :
    segmentText s = '"' :: escaped s.toList ++ ['"'] := by
  rw [segmentText, segment, if_neg hs, toList_doubleQuoted]

theorem head?_segmentText (s : String) :
    (segmentText s).head? = some '"' ∨ (segmentText s).head? = some '*' := by
  by_cases hs : s = "*"
  · rw [hs]
    exact Or.inr (by decide)
  · rw [segmentText_of_ne hs]
    exact Or.inl rfl

theorem segmentText_append_inj {s t : String} {u v : List Char} (hu : u.head? ≠ some '"')
    (hv : v.head? ≠ some '"') (h : segmentText s ++ u = segmentText t ++ v) :
    segmentText s = segmentText t ∧ u = v := by
  by_cases hs : s = "*" <;> by_cases ht : t = "*"
  · subst hs ht
    exact ⟨rfl, List.append_cancel_left h⟩
  · rw [hs, segmentText_star, segmentText_of_ne ht] at h
    cases (List.cons.inj h).1
  · rw [ht, segmentText_star, segmentText_of_ne hs] at h
    cases (List.cons.inj h).1
  · rw [segmentText_of_ne hs, segmentText_of_ne ht] at h ⊢
    have bodies : escaped s.toList ++ '"' :: u = escaped t.toList ++ '"' :: v := by simpa using h
    obtain ⟨hst, huv⟩ := escaped_append_inj hu hv bodies
    exact ⟨by rw [hst], huv⟩

def dottedText (segs : List String) : List Char := ['.'].intercalate (segs.map segmentText)

theorem dottedText_singleton (s : String) : dottedText [s] = segmentText s := by simp [dottedText]

theorem dottedText_cons_cons (s t : String) (segs : List String) :
    dottedText (s :: t :: segs) = segmentText s ++ '.' :: dottedText (t :: segs) := by
  rw [dottedText, List.map_cons, List.map_cons, List.intercalate_cons_cons, List.append_assoc]
  rfl

theorem head?_dottedText {segs : List String} (hne : segs ≠ []) :
    (dottedText segs).head? = some '"' ∨ (dottedText segs).head? = some '*' := by
  cases segs with
  | nil => exact absurd rfl hne
  | cons s rest =>
    have first := head?_segmentText s
    cases rest with
    | nil => rwa [dottedText_singleton]
    | cons t rest =>
      rw [dottedText_cons_cons, List.head?_append]
      rcases first with hs | hs
      · exact Or.inl (by rw [hs]; rfl)
      · exact Or.inr (by rw [hs]; rfl)

/-- A dotted name ends before what is neither a quote nor a point. -/
theorem dottedText_append_inj {ss ts : List String} (hs : ss ≠ []) (ht : ts ≠ []) {u v : List Char}
    (hu : u.head? ≠ some '"') (hv : v.head? ≠ some '"') (hu' : u.head? ≠ some '.')
    (hv' : v.head? ≠ some '.') (h : dottedText ss ++ u = dottedText ts ++ v) :
    dottedText ss = dottedText ts ∧ u = v := by
  induction ss generalizing ts with
  | nil => exact absurd rfl hs
  | cons s ss ih =>
    cases ts with
    | nil => exact absurd rfl ht
    | cons t ts =>
      have point {r : List Char} : ('.' :: r).head? ≠ some '"' := by simp
      cases ss with
      | nil =>
        cases ts with
        | nil =>
          rw [dottedText_singleton, dottedText_singleton] at h ⊢
          exact segmentText_append_inj hu hv h
        | cons t' ts =>
          rw [dottedText_singleton, dottedText_cons_cons, List.append_assoc] at h
          have rests := (segmentText_append_inj hu point h).2
          exact absurd (by rw [rests]; rfl) hu'
      | cons s' ss =>
        cases ts with
        | nil =>
          rw [dottedText_singleton, dottedText_cons_cons, List.append_assoc] at h
          have rests := (segmentText_append_inj point hv h).2
          exact absurd (by rw [← rests]; rfl) hv'
        | cons t' ts =>
          rw [dottedText_cons_cons, dottedText_cons_cons, List.append_assoc, List.append_assoc] at h
          obtain ⟨first, rests⟩ := segmentText_append_inj point point h
          obtain ⟨later, huv⟩ := ih (by simp) (by simp) (List.cons.inj rests).2
          rw [dottedText_cons_cons, dottedText_cons_cons, first, later]
          exact ⟨rfl, huv⟩

/-! ## Columns -/

/-- The text of a column with quoting on. -/
def quotedColumn : String → String := column (segment doubleQuoted)

def aliasText : Option String → List Char
  | none => []
  | some a => ' ' :: 'a' :: 's' :: ' ' :: segmentText a

theorem head?_aliasText {a : Option String} {c : Char} {w : List Char} (hw : w.head? ≠ some c)
    (hc : c ≠ ' ') : (aliasText a ++ w).head? ≠ some c := by
  cases a with
  | none => exact hw
  | some x => simpa [aliasText] using Ne.symm hc

theorem toList_quotedColumn (s : String) : (quotedColumn s).toList =
    dottedText (Reference.ofText s).segments ++ aliasText (Reference.ofText s).aliasName := by
  have name (segs : List String) :
      (String.intercalate "." (segs.map (segment doubleQuoted))).toList = dottedText segs := by
    rw [String.toList_intercalate, List.map_map]
    rfl
  unfold quotedColumn column Reference.render
  cases (Reference.ofText s).aliasName with
  | none => simp [name, aliasText]
  | some a =>
    simp only [String.toList_append, name, List.append_assoc]
    rfl

/-- What can follow a column: no quote, no point and no alias. -/
structure ColumnEnd (u : List Char) : Prop where
  quote : u.head? ≠ some '"'
  point : u.head? ≠ some '.'
  aliasFree : ∀ r, u ≠ ' ' :: 'a' :: 's' :: ' ' :: r

theorem exists_toList_quotedColumn (s : String) :
    ∃ c r, (quotedColumn s).toList = c :: r ∧ (c = '"' ∨ c = '*') := by
  have first := head?_dottedText (Reference.segments_ofText_ne_nil s)
  rw [toList_quotedColumn]
  cases hd : dottedText (Reference.ofText s).segments with
  | nil => simp [hd] at first
  | cons c r => exact ⟨c, _, rfl, by simpa [hd] using first⟩

/-- **Where a column ends, another one that starts the same text ends too.** -/
theorem quotedColumn_append_inj {s t : String} {u v : List Char} (hu : ColumnEnd u) (hv : ColumnEnd v)
    (h : (quotedColumn s).toList ++ u = (quotedColumn t).toList ++ v) :
    quotedColumn s = quotedColumn t ∧ u = v := by
  rw [← String.toList_inj, toList_quotedColumn, toList_quotedColumn] at *
  rw [List.append_assoc, List.append_assoc] at h
  -- after the dotted name comes the alias or what follows the column, in either case no quote or point
  obtain ⟨names, rests⟩ := dottedText_append_inj (Reference.segments_ofText_ne_nil s)
    (Reference.segments_ofText_ne_nil t) (head?_aliasText hu.quote (by decide))
    (head?_aliasText hv.quote (by decide)) (head?_aliasText hu.point (by decide))
    (head?_aliasText hv.point (by decide)) h
  rw [names]
  cases ha : (Reference.ofText s).aliasName with
  | none =>
    cases hb : (Reference.ofText t).aliasName with
    | none =>
      rw [ha, hb] at rests
      exact ⟨rfl, rests⟩
    | some b =>
      rw [ha, hb] at rests
      exact absurd rests (hu.aliasFree _)
  | some a =>
    cases hb : (Reference.ofText t).aliasName with
    | none =>
      rw [ha, hb] at rests
      exact absurd rests.symm (hv.aliasFree _)
    | some b =>
      rw [ha, hb] at rests
      have labels : segmentText a ++ u = segmentText b ++ v := by simpa [aliasText] using rests
      obtain ⟨hab, huv⟩ := segmentText_append_inj hu.quote hv.quote labels
      exact ⟨by rw [aliasText, aliasText, hab], huv⟩

end Name

theorem column_of_quoting {n : CommandLine.DialectName} {s : Settings} (hq : s.quoteIdentifiers = true) :
    (n.dialect s).column = Name.quotedColumn := by
  have follows := n.follows_dialect s
  rw [follows.column, follows.segment, CommandLine.DialectName.quote_dialect, Dialect.quoteBy_of_true hq]
  rfl

end SqlGrammar
