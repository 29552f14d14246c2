import Mathlib.Data.List.Infix
import SqlGrammar.Proofs.Identifiers
import SqlGrammar.Proofs.Paging

/-!
The word `select` stands in a statement once, at its start. `occurrences` counts a word in a text at all
places. A character that the word does not hold parts a text: the word occurs in the text as often as
before the character and after it (`occurrences_append_cons`). Every name, and every text that the query
gives verbatim, stands between such characters, so the word cannot arise where pieces meet; and of the
words of the grammar only those that open a select hold it (`Silent`). In a row of fragments exactly one
opens the select (`keywords_selectPieces`).
-/

namespace SqlGrammar

open CommandLine (DialectName)

/-! ## Counting a word -/

/-- How often a word occurs in a text, at any place. -/
def occurrences (w s : List Char) : Nat := s.tails.countP fun t => w.isPrefixOf t

theorem occurrences_cons (w : List Char) (c : Char) (s : List Char) :
    occurrences w (c :: s) = occurrences w s + if w.isPrefixOf (c :: s) then 1 else 0 := by
  rw [occurrences, List.tails_cons, List.countP_cons]
  rfl

theorem occurrences_eq_zero_iff {w s : List Char} : occurrences w s = 0 ↔ ¬w <:+: s := by
  rw [occurrences, List.countP_eq_zero]
  constructor
  · rintro h ⟨a, b, hs⟩
    refine h (w ++ b) ?_ ?_
    · rw [List.mem_tails]
      exact ⟨a, by rw [← hs, List.append_assoc]⟩
    · exact List.isPrefixOf_iff_prefix.2 ⟨b, rfl⟩
  · intro h t ht hp
    obtain ⟨a, hs⟩ := (List.mem_tails ..).1 ht
    obtain ⟨b, hb⟩ := List.isPrefixOf_iff_prefix.1 hp
    exact h ⟨a, b, by rw [← hs, ← hb, List.append_assoc]⟩

section Parting

variable {w : List Char} {c : Char}

theorem isPrefixOf_append_cons (hc : c ∉ w) (a b : List Char) :
    w.isPrefixOf (a ++ c :: b) = w.isPrefixOf a := by
  induction w generalizing a with
  | nil => simp
  | cons x w ih =>
    have hx : x ≠ c := fun he => hc (he ▸ List.mem_cons_self)
    have rest := ih fun hm => hc (List.mem_cons_of_mem _ hm)
    cases a with
    | nil => simp [List.isPrefixOf, hx]
    | cons y a => simp [List.isPrefixOf, rest]

/-- **A character that the word does not hold parts a text.** -/
theorem occurrences_append_cons (hw : w ≠ []) (hc : c ∉ w) (a b : List Char) :
    occurrences w (a ++ c :: b) = occurrences w a + occurrences w b := by
  induction a with
  | nil =>
    have first : w.isPrefixOf (c :: b) = w.isPrefixOf [] := isPrefixOf_append_cons hc [] b
    have none : w.isPrefixOf [] = false := by
      cases w with
      | nil => exact absurd rfl hw
      | cons x w => rfl
    rw [List.nil_append, occurrences_cons, first, none]
    simp [occurrences, none]
  | cons x a ih =>
    have first := isPrefixOf_append_cons hc (x :: a) b
    rw [List.cons_append] at first
    rw [List.cons_append, occurrences_cons, occurrences_cons, ih, first]
    omega

theorem occurrences_nil (hw : w ≠ []) : occurrences w [] = 0 := by
  cases w with
  | nil => exact absurd rfl hw
  | cons x w => rfl

theorem occurrences_append_of_apart (hw : w ≠ []) (a : List Char) {b : List Char} (hb : ∀ x ∈ b, x ∉ w) :
    occurrences w (a ++ b) = occurrences w a := by
  induction b generalizing a with
  | nil => rw [List.append_nil]
  | cons x b ih =>
    have rest := ih [] fun y hy => hb y (List.mem_cons_of_mem _ hy)
    rw [List.nil_append, occurrences_nil hw] at rest
    rw [occurrences_append_cons hw (hb x List.mem_cons_self), rest, Nat.add_zero]

theorem occurrences_apart_append (hw : w ≠ []) {a : List Char} (ha : ∀ x ∈ a, x ∉ w) (b : List Char) :
    occurrences w (a ++ b) = occurrences w b := by
  induction a with
  | nil => rfl
  | cons x a ih =>
    have parted := occurrences_append_cons hw (ha x List.mem_cons_self) [] (a ++ b)
    rw [List.nil_append, occurrences_nil hw, Nat.zero_add] at parted
    rw [List.cons_append, parted, ih fun y hy => ha y (List.mem_cons_of_mem _ hy)]

end Parting

/-! ## Pieces without the word -/

/-- The word that opens a select. -/
def keyword : List Char := "select".toList

theorem not_mem_keyword (p : Char → Bool) (h : (keyword.all fun x => !p x) = true) {c : Char}
    (hc : p c = true) : c ∉ keyword := by
  intro hm
  have other := List.all_eq_true.1 h c hm
  rw [hc] at other
  cases other

def Quiet (t : String) : Prop := occurrences keyword t.toList = 0

instance (t : String) : Decidable (Quiet t) := inferInstanceAs (Decidable (_ = _))

def opens (t : String) : Bool := t.toList.head?.any fun c => !keyword.contains c

def closes (t : String) : Bool := t.toList.getLast?.any fun c => !keyword.contains c

/-- The text parts what stands before it from what follows, and does not hold the word. -/
def Separates (t : String) : Prop := opens t = true ∧ closes t = true ∧ Quiet t

instance (t : String) : Decidable (Separates t) := inferInstanceAs (Decidable (_ ∧ _ ∧ _))

/-- What is left of a piece when a mark stands for its name. -/
def Piece.marked (mark : Char) : Piece → List Char
  | name _ => [mark]
  | bound _ => ['?']
  | word t => t.toList
  | verbatim t => t.toList
  | sql t _ => t.toList

def marked (mark : Char) (ps : List Piece) : List Char := ps.flatMap (Piece.marked mark)

def keywords (mark : Char) (ps : List Piece) : Nat := occurrences keyword (marked mark ps)

/-- The pieces do not hold the word, names apart. -/
def Silent (mark : Char) (ps : List Piece) : Prop := keywords mark ps = 0

/-- How often parts hold the word, all of them together. -/
def total (mark : Char) : List (List Piece) → Nat
  | [] => 0
  | ps :: rest => keywords mark ps + total mark rest

/-- Nothing follows, or a word of the grammar that parts it from what stands before. -/
def PartedBefore : List Piece → Prop
  | [] => True
  | .word w :: _ => opens w = true
  | _ => False

section Silent

variable {mark : Char} {ps qs : List Piece} {w : String}

theorem silent_nil : Silent mark [] := rfl

/-- Pieces that are parted hold the word as often as each part. -/
theorem keywords_append (hq : PartedBefore qs) :
    keywords mark (ps ++ qs) = keywords mark ps + keywords mark qs := by
  unfold keywords marked
  rw [List.flatMap_append]
  cases qs with
  | nil => simp [occurrences_nil (w := keyword) (by decide)]
  | cons q qs =>
    cases q with
    | word w =>
      have first : opens w = true := hq
      rw [List.flatMap_cons, Piece.marked]
      cases hw : w.toList with
      | nil => simp [opens, hw] at first
      | cons c r =>
        have hc : c ∉ keyword := by simpa [opens, hw] using first
        have alone := occurrences_append_cons (by decide) hc [] (r ++ qs.flatMap (Piece.marked mark))
        rw [occurrences_nil (by decide), List.nil_append, Nat.zero_add] at alone
        rw [List.cons_append, occurrences_append_cons (by decide) hc, alone]
    | _ => exact hq.elim

theorem keywords_cons (hw : closes w = true) :
    keywords mark (.word w :: qs) = occurrences keyword w.toList + keywords mark qs := by
  unfold keywords marked
  rw [List.flatMap_cons, Piece.marked]
  rcases List.eq_nil_or_concat w.toList with he | ⟨r, c, he⟩
  · simp [closes, he] at hw
  · rw [List.concat_eq_append] at he
    have hc : c ∉ keyword := by simpa [closes, he] using hw
    have alone := occurrences_append_cons (by decide) hc r []
    rw [occurrences_nil (by decide), Nat.add_zero] at alone
    rw [he, List.append_assoc, List.singleton_append, occurrences_append_cons (by decide) hc, alone]

theorem keywords_separated (hw : Separates w) :
    keywords mark (ps ++ .word w :: qs) = keywords mark ps + keywords mark qs := by
  obtain ⟨first, last, quiet⟩ := hw
  have none : occurrences keyword w.toList = 0 := quiet
  rw [keywords_append (show PartedBefore (.word w :: qs) from first), keywords_cons last, none, Nat.zero_add]

theorem Silent.append (hp : Silent mark ps) (hq : Silent mark qs) (hb : PartedBefore qs) :
    Silent mark (ps ++ qs) := by
  unfold Silent at *
  rw [keywords_append hb, hp, hq]

theorem Silent.cons (hq : Silent mark qs) (hw : closes w = true) (ht : Quiet w) :
    Silent mark (.word w :: qs) := by
  unfold Silent Quiet at *
  rw [keywords_cons hw, ht, hq]

theorem Silent.separated (hp : Silent mark ps) (hw : Separates w) (hq : Silent mark qs) :
    Silent mark (ps ++ .word w :: qs) := by
  unfold Silent at *
  rw [keywords_separated hw, hp, hq]

theorem silent_word (ht : Quiet w) : Silent mark [.word w] := by
  rw [Silent, keywords, marked, List.flatMap_singleton]
  exact ht

theorem silent_verbatim {t : String} (ht : Quiet t) : Silent mark [.verbatim t] := by
  rw [Silent, keywords, marked, List.flatMap_singleton]
  exact ht

theorem keywords_glue {separator : String} (hs : Separates separator) (parts : List (List Piece)) :
    keywords mark (glue separator parts) = total mark parts := by
  induction parts with
  | nil => rfl
  | cons ps rest ih =>
    cases rest with
    | nil => simp [total]
    | cons qs rest =>
      rw [glue_cons_cons, keywords_separated hs, ih]
      rfl

theorem total_of_silent {parts : List (List Piece)} (h : ∀ ps ∈ parts, Silent mark ps) :
    total mark parts = 0 := by
  induction parts with
  | nil => rfl
  | cons ps rest ih =>
    have first : keywords mark ps = 0 := h ps List.mem_cons_self
    rw [total, first, ih fun qs hq => h qs (List.mem_cons_of_mem _ hq)]

theorem total_append (parts more : List (List Piece)) :
    total mark (parts ++ more) = total mark parts + total mark more := by
  induction parts with
  | nil => exact (Nat.zero_add _).symm
  | cons ps parts ih => rw [List.cons_append, total, ih, total, Nat.add_assoc]

theorem silent_glue {separator : String} (hs : Separates separator) {parts : List (List Piece)}
    (h : ∀ ps ∈ parts, Silent mark ps) : Silent mark (glue separator parts) := by
  rw [Silent, keywords_glue hs, total_of_silent h]

theorem silent_segmentPiece (t : String) : Silent mark [segmentPiece t] := by
  unfold segmentPiece
  split
  · exact silent_word (by decide)
  · -- a mark alone is shorter than the word
    refine occurrences_eq_zero_iff.2 fun h => ?_
    have short : 6 ≤ 1 := h.length_le
    omega

end Silent

/-! ## The clauses of a statement -/

section Clauses

variable {mark : Char}

theorem silent_columnPieces (t : String) : Silent mark (columnPieces t) := by
  have name : Silent mark (glue "." ((Name.Reference.ofText t).segments.map fun s => [segmentPiece s])) := by
    refine silent_glue (by decide) fun ps hps => ?_
    obtain ⟨part, -, rfl⟩ := List.mem_map.1 hps
    exact silent_segmentPiece part
  unfold columnPieces Name.Reference.pieces
  cases (Name.Reference.ofText t).aliasName with
  | none => simpa using name
  | some a => exact name.separated (by decide) (silent_segmentPiece a)

theorem silent_tablePieces (tablePrefix t : String) : Silent mark (tablePieces tablePrefix t) := by
  unfold tablePieces
  cases Name.splitAlias? t.toList with
  | none => exact silent_columnPieces _
  | some cut => exact (silent_columnPieces _).separated (by decide) (silent_segmentPiece _)

theorem silent_columnListPieces (columns : List String) : Silent mark (columnListPieces columns) := by
  refine silent_glue (by decide) fun ps hps => ?_
  obtain ⟨c, -, rfl⟩ := List.mem_map.1 hps
  exact silent_columnPieces c

theorem silent_valuePiece {v : Value} (h : ∀ t ∈ v.rawTexts, Quiet t) : Silent mark [valuePiece v] := by
  cases v with
  | raw sql => exact silent_verbatim (h sql (List.mem_singleton_self sql))
  | _ => exact (by decide : occurrences keyword ['?'] = 0)

theorem silent_testPieces {t : Test} (h : ∀ u ∈ t.verbatims ++ t.sqls, Quiet u) :
    Silent mark (testPieces t) := by
  cases t with
  | compare c operator v =>
    have value : Silent mark [valuePiece v] :=
      silent_valuePiece fun u hu => h u (by simp [Test.verbatims, hu])
    have middle : Silent mark [.verbatim operator] := silent_verbatim (h operator (by simp [Test.verbatims]))
    have right : Silent mark ([.verbatim operator] ++ .word " " :: [valuePiece v]) :=
      middle.separated (by decide) value
    exact (silent_columnPieces c).separated (by decide) right
  | columns first operator second =>
    have middle : Silent mark [.verbatim operator] := silent_verbatim (h operator (by simp [Test.verbatims]))
    have right : Silent mark ([.verbatim operator] ++ .word " " :: columnPieces second) :=
      middle.separated (by decide) (silent_columnPieces second)
    rw [testPieces, List.append_assoc]
    exact (silent_columnPieces first).separated (by decide) right
  | oneOf c vs negated =>
    cases vs with
    | nil => cases negated <;> exact silent_word (by decide)
    | cons v vs =>
      have values : Silent mark (commaPieces ((v :: vs).map fun v => [valuePiece v])) := by
        refine silent_glue (by decide) fun ps hps => ?_
        obtain ⟨w, hw, rfl⟩ := List.mem_map.1 hps
        refine silent_valuePiece fun u hu => h u ?_
        exact List.mem_append_left _ (List.mem_flatMap.2 ⟨w, hw, hu⟩)
      have right := values.separated (w := ")") (by decide) silent_nil
      have opened : Separates (" " ++ Dialect.negation negated ++ "in (") := by cases negated <;> decide
      rw [testPieces, List.append_assoc]
      · exact (silent_columnPieces c).separated opened right
      · simp
  | isNull c negated =>
    have parted : opens (" is " ++ Dialect.negation negated ++ "null") = true := by
      cases negated <;> decide
    refine (silent_columnPieces c).append (silent_word ?_) parted
    cases negated <;> decide
  | between c low high negated =>
    have upper : Silent mark [valuePiece high] :=
      silent_valuePiece fun u hu => h u (by simp [Test.verbatims, hu])
    have lower : Silent mark [valuePiece low] :=
      silent_valuePiece fun u hu => h u (by simp [Test.verbatims, hu])
    have right : Silent mark ([valuePiece low] ++ .word " and " :: [valuePiece high]) :=
      lower.separated (by decide) upper
    have word : Separates (" " ++ Dialect.negation negated ++ "between ") := by cases negated <;> decide
    exact (silent_columnPieces c).separated word right
  | raw sql vs =>
    rw [testPieces]
    split
    · exact silent_nil
    · have quiet : Quiet sql := h sql (by simp [Test.sqls])
      exact silent_verbatim quiet

theorem partedBefore_tailPieces (ps : List Predicate) : PartedBefore (tailPieces ps) := by
  induction ps with
  | nil => trivial
  | cons p ps ih =>
    rw [tailPieces]
    cases p.pieces? with
    | none => exact ih
    | some inner =>
      show opens _ = true
      cases p.connective <;> decide

mutual

theorem silent_pieces? : ∀ (p : Predicate) {inner : List Piece},
    (∀ t ∈ p.tests, ∀ u ∈ t.verbatims ++ t.sqls, Quiet u) → p.pieces? = some inner → Silent mark inner
  | .test c t, inner, ht, h => by
    cases h
    exact silent_testPieces (ht t (List.mem_singleton_self t))
  | .group c ps, inner, ht, h => by
    have members := silent_listPieces ps ht
    rw [Predicate.pieces?] at h
    split at h
    · cases h
    · cases h
      have opened : Silent mark (.word "(" :: listPieces ps) := members.cons (by decide) (by decide)
      exact opened.separated (by decide) silent_nil

theorem silent_listPieces : ∀ ps : List Predicate,
    (∀ t ∈ Predicate.listTests ps, ∀ u ∈ t.verbatims ++ t.sqls, Quiet u) → Silent mark (listPieces ps)
  | [], _ => silent_nil
  | p :: ps, ht => by
    have rest : ∀ t ∈ Predicate.listTests ps, ∀ u ∈ t.verbatims ++ t.sqls, Quiet u :=
      fun t hm => ht t (List.mem_append_right _ hm)
    rw [listPieces]
    split
    · exact silent_listPieces ps rest
    · exact silent_listPieces ps rest
    · next inner _ hp =>
      have first := silent_pieces? p (fun t hm => ht t (List.mem_append_left _ hm)) hp
      exact first.append (silent_tailPieces ps rest) (partedBefore_tailPieces ps)

theorem silent_tailPieces : ∀ ps : List Predicate,
    (∀ t ∈ Predicate.listTests ps, ∀ u ∈ t.verbatims ++ t.sqls, Quiet u) → Silent mark (tailPieces ps)
  | [], _ => silent_nil
  | p :: ps, ht => by
    have rest : ∀ t ∈ Predicate.listTests ps, ∀ u ∈ t.verbatims ++ t.sqls, Quiet u :=
      fun t hm => ht t (List.mem_append_right _ hm)
    rw [tailPieces]
    split
    · exact silent_tailPieces ps rest
    · next inner hp =>
      have first := silent_pieces? p (fun t hm => ht t (List.mem_append_left _ hm)) hp
      have joined : Silent mark (connectivePiece p.connective :: inner) := by
        refine first.cons ?_ ?_
        all_goals cases p.connective <;> decide
      exact joined.append (silent_tailPieces ps rest) (partedBefore_tailPieces ps)

end

theorem silent_clausePieces {word : String} (hw : closes (word ++ " ") = true) (ht : Quiet (word ++ " "))
    {ps : List Predicate} (h : ∀ t ∈ Predicate.listTests ps, ∀ u ∈ t.verbatims ++ t.sqls, Quiet u) :
    Silent mark (clausePieces word ps) := by
  have inner : Silent mark (listPieces ps) := silent_listPieces ps h
  unfold clausePieces
  split
  · exact silent_nil
  · exact inner.cons hw ht

theorem silent_joinPieces (tablePrefix : String) {j : Join}
    (h : ∀ t ∈ Predicate.listTests j.printed, ∀ u ∈ t.verbatims ++ t.sqls, Quiet u) :
    Silent mark (joinPieces tablePrefix j) := by
  have table : Silent mark (.word (j.kind.word ++ " join ") :: tablePieces tablePrefix j.table) := by
    refine (silent_tablePieces tablePrefix j.table).cons ?_ ?_
    all_goals cases j.kind <;> decide
  have conditions : Silent mark (listPieces j.printed) := silent_listPieces j.printed h
  unfold joinPieces
  split
  · rw [List.append_nil]
    exact table
  · exact table.separated (by decide) conditions

theorem silent_orderPieces {o : Order} (h : ∀ u ∈ o.verbatims, Quiet u) : Silent mark (orderPieces o) := by
  cases o with
  | column c direction =>
    have parted : opens (" " ++ direction.word) = true := by cases direction <;> decide
    refine (silent_columnPieces c).append (silent_word ?_) parted
    cases direction <;> decide
  | raw sql => exact silent_verbatim (h sql (List.mem_singleton_self sql))

end Clauses

/-! ## A whole select -/

/-- No text of the query that is written as it stands holds the word `select`. -/
def Query.KeywordFree (q : Query) : Prop :=
  ∀ t ∈ q.verbatims ++ q.tests.flatMap Test.sqls, ¬keyword <:+: t.toList

instance (q : Query) : Decidable q.KeywordFree := inferInstanceAs (Decidable (∀ t ∈ _, _))

section Select

variable {mark : Char} {d : Dialect} {n : DialectName} {s : Settings} {q : Query}

theorem Query.KeywordFree.quiet (h : q.KeywordFree) {t : String} (ht : t ∈ q.verbatims) : Quiet t :=
  occurrences_eq_zero_iff.2 (h t (List.mem_append_left _ ht))

theorem Query.KeywordFree.quiet_test (h : q.KeywordFree) {ps : List Predicate} (hps : ps ⊆ q.predicates) :
    ∀ t ∈ Predicate.listTests ps, ∀ u ∈ t.verbatims ++ t.sqls, Quiet u := by
  intro t ht u hu
  have test : t ∈ q.tests := Predicate.listTests_subset hps ht
  rcases List.mem_append.1 hu with hu | hu
  · refine h.quiet (List.mem_append_left _ (List.mem_append_right _ ?_))
    exact List.mem_flatMap.2 ⟨t, test, hu⟩
  · exact occurrences_eq_zero_iff.2 (h u (List.mem_append_right _ (List.mem_flatMap.2 ⟨t, test, hu⟩)))

/-- From the main table on the word is not written. -/
theorem silent_fragmentPieces (h : q.KeywordFree) {c : Component} (hc : c ∈ Component.clauses) :
    Silent mark (fragmentPieces d n q c) := by
  cases c with
  | aggregate | limit | offset | columns => simp [Component.clauses] at hc
  | table =>
    rw [fragmentPieces]
    split
    · exact silent_nil
    · exact (silent_tablePieces _ _).cons (by decide) (by decide)
  | joins =>
    refine silent_glue (by decide) fun ps hps => ?_
    obtain ⟨j, hj, rfl⟩ := List.mem_map.1 hps
    exact silent_joinPieces _ (h.quiet_test (Query.printed_subset_predicates hj))
  | filters =>
    exact silent_clausePieces (by decide) (by decide) (h.quiet_test q.filters_subset_predicates)
  | groups =>
    rw [fragmentPieces]
    split
    · exact silent_nil
    · exact (silent_columnListPieces _).cons (by decide) (by decide)
  | havings =>
    exact silent_clausePieces (by decide) (by decide) (h.quiet_test q.havings_subset_predicates)
  | orders =>
    have keys : Silent mark (commaPieces (q.orders.map orderPieces)) := by
      refine silent_glue (by decide) fun ps hps => ?_
      obtain ⟨o, ho, rfl⟩ := List.mem_map.1 hps
      refine silent_orderPieces fun u hu => h.quiet ?_
      exact List.mem_append_right _ (List.mem_flatMap.2 ⟨o, ho, hu⟩)
    rw [fragmentPieces]
    split
    · exact silent_nil
    · exact keys.cons (by decide) (by decide)

theorem occurrences_append_natural (w : String) (k : Nat) :
    occurrences keyword (w ++ Text.natural k).toList = occurrences keyword w.toList := by
  rw [String.toList_append]
  refine occurrences_append_of_apart (by decide) _ fun c hc => ?_
  rw [Text.toList_natural] at hc
  exact not_mem_keyword Char.isDigit (by decide) (Nat.isDigit_of_mem_toDigits (by decide) (by decide) hc)

theorem keywords_wordIf (b : Bool) (w : String) :
    keywords mark (wordIf b w) = if b then occurrences keyword w.toList else 0 := by
  cases b
  · rfl
  · simp [wordIf, keywords, marked, Piece.marked]

theorem keywords_wordIf_append {w : String} (hw : closes w = true) (b : Bool) (ps : List Piece) :
    keywords mark (wordIf b w ++ ps) =
      (if b then occurrences keyword w.toList else 0) + keywords mark ps := by
  cases b
  · exact (Nat.zero_add _).symm
  · exact keywords_cons hw

theorem keywords_aggregatePieces (d : Dialect) (q : Query) {a : Aggregate} (ha : Quiet a.name) :
    keywords mark (aggregatePieces d q a) = 1 := by
  let distinct := wordIf (q.distinct && written d (columnListPieces a.columns) ≠ ['*']) "distinct "
  -- the word that closes the parentheses ends with a letter of `select`, but nothing follows it
  have columns : Silent mark (columnListPieces a.columns ++ [.word ") as aggregate"]) :=
    (silent_columnListPieces a.columns).append (silent_word (by decide))
      (by decide : opens ") as aggregate" = true)
  have body : Silent mark (distinct ++ (columnListPieces a.columns ++ [.word ") as aggregate"])) := by
    rw [Silent, keywords_wordIf_append (by decide), columns, show occurrences _ _ = 0 by decide, ite_self]
  have call : Silent mark ([.verbatim a.name] ++ .word "(" ::
      (distinct ++ (columnListPieces a.columns ++ [.word ") as aggregate"]))) :=
    (silent_verbatim ha).separated (by decide) body
  have pieces : aggregatePieces d q a = .word "select " :: ([.verbatim a.name] ++ .word "(" ::
      (distinct ++ (columnListPieces a.columns ++ [.word ") as aggregate"]))) := by
    simp only [aggregatePieces, distinct, List.append_assoc, List.cons_append, List.nil_append]
  rw [pieces, keywords_cons (by decide), call]
  decide

theorem keywords_aggregate (mark : Char) (d : Dialect) (n : DialectName) (h : q.KeywordFree) :
    keywords mark (fragmentPieces d n q .aggregate) = if q.aggregate.isSome then 1 else 0 := by
  rw [fragmentPieces]
  cases ha : q.aggregate with
  | none => rfl
  | some a => exact keywords_aggregatePieces d q (h.quiet (by simp [Query.verbatims, ha]))

/-- Without an aggregate it is in the columns, unless it is left to the paging. -/
theorem keywords_columns (mark : Char) (d : Dialect) (n : DialectName) (q : Query) :
    keywords mark (fragmentPieces d n q .columns) =
      if q.aggregate.isSome || n.leadsWithPaging q then 0 else 1 := by
  have list : keywords mark (columnListPieces q.selected) = 0 := silent_columnListPieces _
  rw [fragmentPieces]
  cases q.aggregate.isSome
  · rw [if_neg (by decide), List.append_assoc, keywords_wordIf_append (by decide),
      keywords_wordIf_append (by decide), list, show occurrences keyword "distinct ".toList = 0 by decide]
    cases n.leadsWithPaging q <;> cases q.distinct <;> rfl
  · rfl

theorem keywords_limit (mark : Char) (d : Dialect) (n : DialectName) (q : Query) :
    keywords mark (fragmentPieces d n q .limit) =
      if n = .firebird && !q.aggregate.isSome && q.limit.isSome then 1 else 0 := by
  rw [fragmentPieces]
  cases q.limit with
  | none =>
    rw [Option.isSome_none, Bool.and_false]
    rfl
  | some k =>
    rw [Option.map_some, Option.getD_some]
    cases n with
    | firebird =>
      rw [limitPieces, keywords_wordIf, occurrences_append_natural]
      cases q.aggregate <;> rfl
    | generic => exact (keywords_wordIf true _).trans (occurrences_append_natural _ _)

theorem keywords_offset (mark : Char) (d : Dialect) (n : DialectName) (q : Query) :
    keywords mark (fragmentPieces d n q .offset) =
      if n = .firebird && !q.aggregate.isSome && !q.limit.isSome && q.offset.isSome then 1 else 0 := by
  rw [fragmentPieces]
  cases q.offset with
  | none =>
    rw [Option.isSome_none, Bool.and_false]
    rfl
  | some k =>
    rw [Option.map_some, Option.getD_some]
    cases n with
    | firebird =>
      rw [offsetPieces, keywords_wordIf, occurrences_append_natural]
      cases q.aggregate <;> cases q.limit.isSome <;> rfl
    | generic => exact (keywords_wordIf true _).trans (occurrences_append_natural _ _)

/-- **Of all fragments exactly one holds the word**, and holds it once. -/
theorem total_fragmentPieces (d : Dialect) (n : DialectName) (h : q.KeywordFree) :
    total mark (n.components.map (fragmentPieces d n q)) = 1 := by
  have clauses : total mark (Component.clauses.map (fragmentPieces d n q)) = 0 := by
    refine total_of_silent fun ps hps => ?_
    obtain ⟨c, hc, rfl⟩ := List.mem_map.1 hps
    exact silent_fragmentPieces h hc
  have aggregate := keywords_aggregate mark d n h
  have columns := keywords_columns mark d n q
  have limit := keywords_limit mark d n q
  have offset := keywords_offset mark d n q
  cases n with
  | firebird =>
    have row : DialectName.firebird.components =
        [.aggregate, .limit, .offset, .columns] ++ Component.clauses := rfl
    rw [row, List.map_append, total_append, clauses]
    simp only [List.map_cons, List.map_nil, total, aggregate, limit, offset, columns,
      DialectName.leadsWithPaging]
    cases q.aggregate.isSome <;> cases q.limit.isSome <;> cases q.offset.isSome <;> rfl
  | generic =>
    have row : DialectName.generic.components =
        [.aggregate, .columns] ++ (Component.clauses ++ [.limit, .offset]) := rfl
    rw [row, List.map_append, List.map_append, total_append, total_append, clauses]
    simp only [List.map_cons, List.map_nil, total, aggregate, limit, offset, columns,
      DialectName.leadsWithPaging]
    cases q.aggregate.isSome <;> rfl

theorem marked_of_written_eq_nil (hq : s.quoteIdentifiers = true) {ps : List Piece}
    (h : written (n.dialect s) ps = []) : marked mark ps = [] := by
  refine List.flatMap_eq_nil_iff.2 fun p hp => ?_
  have text : p.text (n.dialect s) = [] := List.flatMap_eq_nil_iff.1 h p hp
  cases p with
  | name t =>
    rw [Piece.text, quote_of_quoting hq] at text
    exact absurd text (List.ne_nil_of_mem (Name.quote_mem_doubleQuoted t))
  | bound v =>
    rw [Piece.text, DialectName.placeholder_dialect] at text
    cases text
  | _ => exact text

/-- So the fragments that are left out do not hold the word. -/
theorem total_selectParts (hq : s.quoteIdentifiers = true) :
    total mark (selectParts (n.dialect s) n q) =
      total mark (n.components.map (fragmentPieces (n.dialect s) n q)) := by
  unfold selectParts
  induction n.components.map (fragmentPieces (n.dialect s) n q) with
  | nil => rfl
  | cons ps rest ih =>
    by_cases he : written (n.dialect s) ps = []
    · have nothing : keywords mark ps = 0 := by rw [keywords, marked_of_written_eq_nil hq he]; rfl
      rw [List.filter_cons_of_neg (by simp [he]), ih, total, nothing, Nat.zero_add]
    · rw [List.filter_cons_of_pos (by simp [he]), total, ih, total]

theorem keywords_selectPieces (hq : s.quoteIdentifiers = true) (h : q.KeywordFree) :
    keywords mark (selectPieces (n.dialect s) n q) = 1 := by
  rw [selectPieces, keywords_glue (by decide), total_selectParts hq,
    total_fragmentPieces _ n h]

def Token.marked (mark : Char) : Token → Char
  | plain c => c
  | name _ => mark

theorem marked_tokens (n : DialectName) (s : Settings) (ps : List Piece) :
    (ps.flatMap (Piece.tokens (n.dialect s))).map (Token.marked mark) = marked mark ps := by
  have plain (cs : List Char) : (cs.map Token.plain).map (Token.marked mark) = cs := by
    rw [List.map_map]
    exact List.map_id cs
  rw [List.map_flatMap, marked]
  refine List.flatMap_congr fun p _ => ?_
  cases p with
  | name t => rfl
  | bound v =>
    have text : (Piece.bound v).text (n.dialect s) = ['?'] := by
      rw [Piece.text, DialectName.placeholder_dialect]
      rfl
    exact (plain _).trans text
  | _ => exact plain _

theorem occurrences_trimTokens (ts : List Token) :
    occurrences keyword ((trimTokens ts).map (Token.marked mark)) =
      occurrences keyword (ts.map (Token.marked mark)) := by
  have apart {us : List Token} (h : ∀ t ∈ us, t.isBlank = true) :
      ∀ c ∈ us.map (Token.marked mark), c ∉ keyword := by
    intro c hc
    obtain ⟨t, ht, rfl⟩ := List.mem_map.1 hc
    have blank := h t ht
    cases t with
    | plain x => exact not_mem_keyword Text.isBlank (by decide) blank
    | name t => cases blank
  obtain ⟨a, b, hs, ha, hb⟩ := exists_trimTokens ts
  conv_rhs => rw [hs]
  rw [List.map_append, List.map_append, occurrences_append_of_apart (by decide) _ (apart hb),
    occurrences_apart_append (by decide) (apart ha)]

theorem exists_toList_select (n : DialectName) (hq : s.quoteIdentifiers = true) (q : Query) :
    ∃ rest, ((n.dialect s).select q).toList = "select ".toList ++ rest := by
  have body := visible_selectBody s q hq
  cases n with
  | firebird =>
    have text := toList_firebird_select (q := q) hq
    rw [trimList_select ((body.append_right _).append_left _)] at text
    exact ⟨_, text⟩
  | generic =>
    have text := toList_generic_select s q
    rw [trimList_select ((body.append_right _).append_right _)] at text
    exact ⟨_, text⟩

end Select

/-- **A select holds the word `select` once, at its start**, whatever its identifiers are. -/
theorem occurrences_select (n : DialectName) (s : Settings) (hq : s.quoteIdentifiers = true) (q : Query)
    (h : q.QuoteFree) (hk : q.KeywordFree) :
    ∃ ts, lex ((n.dialect s).select q) = some ts ∧
      ∀ mark : Char, occurrences "select".toList (ts.map (Token.marked mark)) = 1 ∧
        "select ".toList <+: ts.map (Token.marked mark) := by
  refine ⟨_, lex_select hq h, fun mark => ⟨?_, ?_⟩⟩
  · show occurrences keyword _ = 1
    rw [occurrences_trimTokens, marked_tokens]
    exact keywords_selectPieces hq hk
  · -- the text starts so, and no name can start within these characters
    obtain ⟨rest, text⟩ := exists_toList_select n hq q
    have read := lex_select (n := n) hq h
    rw [lex, text, lexFrom_plain (by decide)] at read
    obtain ⟨us, -, tokens⟩ := Option.map_eq_some_iff.1 read
    rw [← tokens, List.map_append, List.map_map]
    exact List.prefix_append _ _

/-- A page of a table and a column with the word and quotes in their names. -/
theorem occurrences_select_of_page :
    let q : Query := { table := "select", columns := ["a\"select b"], limit := some 10, offset := some 5,
                       filters := [.test .and (.compare "select" "=" (.string "select"))] }
    q.QuoteFree ∧ q.KeywordFree ∧
    (DialectName.firebird.dialect {}).select q =
      "select first 10 skip 5 \"a\"\"select b\" from \"select\" where \"select\" = ?" ∧
    ∃ ts, lex ((DialectName.firebird.dialect {}).select q) = some ts ∧
      ∀ mark : Char, occurrences "select".toList (ts.map (Token.marked mark)) = 1 ∧
        "select ".toList <+: ts.map (Token.marked mark) := by
  intro q
  have quotes : q.QuoteFree := ⟨by decide, by decide⟩
  have words : q.KeywordFree := by decide
  exact ⟨quotes, words, by decide, occurrences_select .firebird {} rfl q quotes words⟩

end SqlGrammar
