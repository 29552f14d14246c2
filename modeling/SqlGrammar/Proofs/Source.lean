import SqlGrammar.Proofs.Reference

/-!
Where the pieces of a statement come from. The texts of a query are of three kinds: names of tables and
columns, texts that stand verbatim (operators, functions, raw expressions, raw sort keys), and the SQL
of raw predicates. `Piece.From` says that a piece has its text from these, or else is a word of the
grammar; `fromQuery_of_mem_selectPieces` says so of every piece of a select. A property of the characters of
a statement then needs to be checked on the texts of the query and on `isGrammarChar` alone.
-/

namespace SqlGrammar

open CommandLine (DialectName)

/-! ## The texts of a query -/

def Value.rawTexts : Value → List String
  | raw sql => [sql]
  | _ => []

namespace Test

def names : Test → List String
  | compare column _ _ => [column]
  | columns first _ second => [first, second]
  | oneOf column _ _ => [column]
  | isNull column _ => [column]
  | between column _ _ _ => [column]
  | raw .. => []

/-- The texts that a test writes verbatim, the SQL of raw predicates apart. -/
def verbatims : Test → List String
  | compare _ operator value => operator :: value.rawTexts
  | columns _ operator _ => [operator]
  | oneOf _ values _ => values.flatMap Value.rawTexts
  | isNull .. => []
  | between _ low high _ => low.rawTexts ++ high.rawTexts
  | raw .. => []

end Test

namespace Predicate

mutual

/-- The tests of a predicate, those in groups included. -/
def tests : Predicate → List Test
  | test _ t => [t]
  | group _ ps => listTests ps

def listTests : List Predicate → List Test
  | [] => []
  | p :: ps => p.tests ++ listTests ps

end

theorem listTests_eq_flatMap (ps : List Predicate) : listTests ps = ps.flatMap tests := by
  induction ps with
  | nil => rfl
  | cons p ps ih => rw [listTests, List.flatMap_cons, ih]

theorem listTests_append (ps qs : List Predicate) :
    listTests (ps ++ qs) = listTests ps ++ listTests qs := by
  simp only [listTests_eq_flatMap, List.flatMap_append]

end Predicate

namespace Order

def names : Order → List String
  | column c _ => [c]
  | raw _ => []

def verbatims : Order → List String
  | column .. => []
  | raw sql => [sql]

end Order

namespace Query

/-- All tests of a query: those of joins, filters and havings. -/
def tests (q : Query) : List Test := Predicate.listTests q.predicates

def names (q : Query) : List String :=
  q.table :: q.columns ++ (q.aggregate.map Aggregate.columns).getD [] ++ q.joins.map Join.table ++
    q.tests.flatMap Test.names ++ q.groups ++ q.orders.flatMap Order.names

/-- All texts that are written verbatim: functions, operators, raw expressions, raw sort keys. -/
def verbatims (q : Query) : List String :=
  (q.aggregate.map Aggregate.name).toList ++ q.tests.flatMap Test.verbatims ++
    q.orders.flatMap Order.verbatims

end Query

/-! ## The words of the grammar -/

def isGrammarChar (c : Char) : Bool :=
  c.isLower || c.isDigit || [' ', '.', ',', '(', ')', '=', '*'].contains c

/-- A text of the grammar: not empty, and of its characters only. -/
def IsGrammarText (t : String) : Prop := t ≠ "" ∧ t.toList.all isGrammarChar

instance (t : String) : Decidable (IsGrammarText t) := inferInstanceAs (Decidable (_ ∧ _))

theorem IsGrammarText.append {s t : String} (hs : IsGrammarText s) (ht : IsGrammarText t) :
    IsGrammarText (s ++ t) := by
  refine ⟨fun he => hs.1 ?_, ?_⟩
  · rw [← String.toList_inj, String.toList_append] at he
    exact String.toList_inj.1 (List.append_eq_nil_iff.1 he).1
  · rw [String.toList_append, List.all_append, hs.2, ht.2]
    rfl

theorem isGrammarText_natural (k : Nat) : IsGrammarText (Text.natural k) := by
  refine ⟨fun he => ?_, ?_⟩
  · rw [← String.toList_inj, Text.toList_natural] at he
    exact Nat.toDigits_ne_nil he
  · rw [Text.toList_natural, List.all_eq_true]
    intro c hc
    have digit := Nat.isDigit_of_mem_toDigits (by decide) (by decide) hc
    simp [isGrammarChar, digit]

/-- The character at hand is not one of the grammar, so no word of the grammar holds it. -/
theorem IsGrammarText.not_mem {t : String} (ht : IsGrammarText t) {c : Char}
    (hc : isGrammarChar c = false) : c ∉ t.toList := by
  intro hm
  have := List.all_eq_true.1 ht.2 c hm
  rw [hc] at this
  cases this

/-! ## The source of a piece -/

/-- The piece is a word of the grammar, or has its text from the given names, verbatim texts or
tests. -/
def Piece.From (names verbatims : List String) (tests : List Test) : Piece → Prop
  | word t => IsGrammarText t
  | name s => ∀ c ∈ s.toList, ∃ t ∈ names, c ∈ t.toList
  | verbatim t => t ∈ verbatims
  | bound v => v.isRaw = false
  | sql t vs => t ≠ "" ∧ Test.raw t vs ∈ tests

theorem from_word {w : String} {names verbatims : List String} {tests : List Test}
    (hw : IsGrammarText w) : (Piece.word w).From names verbatims tests := hw

theorem Piece.From.mono {names names' verbatims verbatims' : List String} {tests tests' : List Test}
    {p : Piece} (hp : p.From names verbatims tests) (hn : names ⊆ names')
    (hv : verbatims ⊆ verbatims') (ht : tests ⊆ tests') : p.From names' verbatims' tests' := by
  cases p with
  | word t => exact hp
  | name s =>
    intro c hc
    obtain ⟨t, htn, hct⟩ := hp c hc
    exact ⟨t, hn htn, hct⟩
  | verbatim t => exact hv hp
  | bound v => exact hp
  | sql t vs => exact ⟨hp.1, ht hp.2⟩

theorem mem_glue {separator : String} {parts : List (List Piece)} {p : Piece}
    (hp : p ∈ glue separator parts) : p = .word separator ∨ ∃ ps ∈ parts, p ∈ ps := by
  induction parts with
  | nil => simp at hp
  | cons ps rest ih =>
    cases rest with
    | nil => exact Or.inr ⟨ps, by simp, by simpa using hp⟩
    | cons qs rest =>
      rw [glue_cons_cons, List.mem_append, List.mem_cons] at hp
      rcases hp with hp | hp | hp
      · exact Or.inr ⟨ps, by simp, hp⟩
      · exact Or.inl hp
      · rcases ih hp with hw | ⟨rs, hrs, hp⟩
        · exact Or.inl hw
        · exact Or.inr ⟨rs, List.mem_cons_of_mem _ hrs, hp⟩

/-! ### Names -/

theorem Name.subset_of_splitAlias? {s name label : List Char}
    (h : splitAlias? s = some (name, label)) : name ⊆ s ∧ label ⊆ s := by
  obtain ⟨a, b, rfl, -⟩ := splitAlias?_eq_some h
  constructor
  · exact List.subset_append_left _ _
  · intro c hc
    simp [hc]

theorem from_segmentPiece {s : String} {names verbatims : List String} {tests : List Test}
    (h : ∀ c ∈ s.toList, ∃ t ∈ names, c ∈ t.toList) :
    (segmentPiece s).From names verbatims tests := by
  unfold segmentPiece
  split
  · exact from_word (by decide)
  · exact h

theorem from_of_mem_referencePieces {r : Name.Reference} {p : Piece} {names verbatims : List String}
    {tests : List Test} (hp : p ∈ r.pieces)
    (hs : ∀ s ∈ r.segments, ∀ c ∈ s.toList, ∃ t ∈ names, c ∈ t.toList)
    (ha : ∀ a, r.aliasName = some a → ∀ c ∈ a.toList, ∃ t ∈ names, c ∈ t.toList) :
    p.From names verbatims tests := by
  unfold Name.Reference.pieces at hp
  rcases List.mem_append.1 hp with hp | hp
  · rcases mem_glue hp with rfl | ⟨ps, hps, hp⟩
    · exact from_word (by decide)
    · obtain ⟨s, hsm, rfl⟩ := List.mem_map.1 hps
      rw [List.mem_singleton.1 hp]
      exact from_segmentPiece (hs s hsm)
  · cases hl : r.aliasName with
    | none => simp [hl] at hp
    | some a =>
      simp only [hl, List.mem_cons, List.not_mem_nil, or_false] at hp
      rcases hp with rfl | rfl
      · exact from_word (by decide)
      · exact from_segmentPiece (ha a hl)

theorem from_of_mem_columnPieces {s : String} {p : Piece} {names verbatims : List String}
    {tests : List Test} (hp : p ∈ columnPieces s) (h : ∀ c ∈ s.toList, ∃ t ∈ names, c ∈ t.toList) :
    p.From names verbatims tests := by
  refine from_of_mem_referencePieces hp ?_ ?_
  · -- the segments are parts of what stands before the alias, the alias of what stands after
    intro seg hseg c hc
    unfold Name.Reference.ofText at hseg
    split at hseg
    · obtain ⟨l, hl, rfl⟩ := List.mem_map.1 hseg
      exact h c (Name.mem_of_mem_splitOn hl (by simpa using hc)).1
    · next name label hcut =>
      obtain ⟨l, hl, rfl⟩ := List.mem_map.1 hseg
      exact h c ((Name.subset_of_splitAlias? hcut).1 (Name.mem_of_mem_splitOn hl (by simpa using hc)).1)
  · intro a ha c hc
    unfold Name.Reference.ofText at ha
    split at ha
    · cases ha
    · next name label hcut =>
      cases ha
      exact h c ((Name.subset_of_splitAlias? hcut).2 (Text.trimList_subset _ (by simpa using hc)))

theorem from_of_mem_tablePieces {tablePrefix s : String} {p : Piece} {names verbatims : List String}
    {tests : List Test} (hp : p ∈ tablePieces tablePrefix s) (hpre : tablePrefix ∈ names)
    (hs : s ∈ names) : p.From names verbatims tests := by
  unfold tablePieces at hp
  split at hp
  · refine from_of_mem_columnPieces hp fun c hc => ?_
    rw [String.toList_append, List.mem_append] at hc
    exact hc.elim (fun hc => ⟨_, hpre, hc⟩) (fun hc => ⟨_, hs, hc⟩)
  · next name label hcut =>
    have parts := Name.subset_of_splitAlias? hcut
    rcases List.mem_append.1 hp with hp | hp
    · refine from_of_mem_columnPieces hp fun c hc => ?_
      rw [String.toList_append, List.mem_append, String.toList_ofList] at hc
      exact hc.elim (fun hc => ⟨_, hpre, hc⟩) (fun hc => ⟨_, hs, parts.1 hc⟩)
    · simp only [List.mem_cons, List.not_mem_nil, or_false] at hp
      rcases hp with rfl | rfl
      · exact from_word (by decide)
      · refine from_segmentPiece fun c hc => ⟨s, hs, parts.2 (Text.trimList_subset _ ?_)⟩
        simpa using hc

/-! ### Predicates -/

theorem from_valuePiece {v : Value} {names verbatims : List String} {tests : List Test}
    (h : v.rawTexts ⊆ verbatims) : (valuePiece v).From names verbatims tests := by
  cases v with
  | raw sql => exact h (List.mem_singleton_self sql)
  | _ => rfl

theorem from_of_mem_testPieces {t : Test} {p : Piece} (hp : p ∈ testPieces t) :
    p.From t.names t.verbatims [t] := by
  have column {s : String} (hs : s ∈ t.names) (hp : p ∈ columnPieces s) :
      p.From t.names t.verbatims [t] := from_of_mem_columnPieces hp fun c hc => ⟨s, hs, hc⟩
  cases t with
  | compare c operator value =>
    rcases List.mem_append.1 hp with hp | hp
    · exact column (by simp [Test.names]) hp
    · simp only [List.mem_cons, List.not_mem_nil, or_false] at hp
      rcases hp with rfl | rfl | rfl | rfl
      · exact from_word (by decide)
      · exact List.mem_cons_self
      · exact from_word (by decide)
      · exact from_valuePiece (List.subset_cons_self _ _)
  | columns first operator second =>
    simp only [testPieces, List.mem_append, List.mem_cons, List.not_mem_nil, or_false] at hp
    rcases hp with (hp | rfl | rfl | rfl) | hp
    · exact column (by simp [Test.names]) hp
    · exact from_word (by decide)
    · exact List.mem_cons_self
    · exact from_word (by decide)
    · exact column (by simp [Test.names]) hp
  | oneOf c values negated =>
    cases values with
    | nil =>
      rw [List.mem_singleton.1 hp]
      exact from_word (by cases negated <;> decide)
    | cons v vs =>
      simp only [testPieces, List.append_assoc, List.cons_append, List.mem_append, List.mem_cons,
        List.not_mem_nil, or_false] at hp
      rcases hp with hp | rfl | hp | rfl
      · exact column (by simp [Test.names]) hp
      · exact from_word (by cases negated <;> decide)
      · rcases mem_glue hp with rfl | ⟨ps, hps, hp⟩
        · exact from_word (by decide)
        · obtain ⟨w, hw, rfl⟩ := List.mem_map.1 hps
          rw [List.mem_singleton.1 hp]
          exact from_valuePiece fun x hx => List.mem_flatMap.2 ⟨w, hw, hx⟩
      · exact from_word (by decide)
  | isNull c negated =>
    rcases List.mem_append.1 hp with hp | hp
    · exact column (by simp [Test.names]) hp
    · rw [List.mem_singleton.1 hp]
      exact from_word (by cases negated <;> decide)
  | between c low high negated =>
    rcases List.mem_append.1 hp with hp | hp
    · exact column (by simp [Test.names]) hp
    · simp only [List.mem_cons, List.not_mem_nil, or_false] at hp
      rcases hp with rfl | rfl | rfl | rfl
      · exact from_word (by cases negated <;> decide)
      · exact from_valuePiece (List.subset_append_left _ _)
      · exact from_word (by decide)
      · exact from_valuePiece (List.subset_append_right _ _)
  | raw sql values =>
    simp only [testPieces] at hp
    split at hp
    · cases hp
    · next hs =>
      rw [List.mem_singleton.1 hp]
      exact ⟨hs, List.mem_singleton_self _⟩

/-- The piece is a word of the grammar or a piece of one of the tests. -/
def Piece.OfTests (tests : List Test) (p : Piece) : Prop :=
  (∃ w, p = .word w ∧ IsGrammarText w) ∨ ∃ t ∈ tests, p ∈ testPieces t

theorem Piece.OfTests.mono {tests tests' : List Test} {p : Piece} (hp : p.OfTests tests)
    (h : tests ⊆ tests') : p.OfTests tests' := by
  rcases hp with hw | ⟨t, ht, hp⟩
  · exact Or.inl hw
  · exact Or.inr ⟨t, h ht, hp⟩

theorem Piece.OfTests.from {tests tests' : List Test} {names verbatims : List String} {p : Piece}
    (hp : p.OfTests tests) (hn : tests.flatMap Test.names ⊆ names)
    (hv : tests.flatMap Test.verbatims ⊆ verbatims) (ht : tests ⊆ tests') :
    p.From names verbatims tests' := by
  rcases hp with ⟨w, rfl, hw⟩ | ⟨t, hm, hp⟩
  · exact hw
  · refine (from_of_mem_testPieces hp).mono (fun s hs => hn ?_) (fun s hs => hv ?_) fun u hu => ht ?_
    · exact List.mem_flatMap.2 ⟨t, hm, hs⟩
    · exact List.mem_flatMap.2 ⟨t, hm, hs⟩
    · rwa [List.mem_singleton.1 hu]

theorem ofTests_connectivePiece (c : Connective) (tests : List Test) :
    (connectivePiece c).OfTests tests := by
  refine Or.inl ⟨_, rfl, ?_⟩
  cases c <;> decide

mutual

theorem ofTests_of_mem_pieces? : ∀ (r : Predicate) {inner : List Piece} {p : Piece},
    r.pieces? = some inner → p ∈ inner → p.OfTests r.tests
  | .test c t, inner, p, hr, hp => by
    cases hr
    exact Or.inr ⟨t, List.mem_singleton_self t, hp⟩
  | .group c ps, inner, p, hr, hp => by
    simp only [Predicate.pieces?] at hr
    split at hr
    · cases hr
    · cases hr
      simp only [List.cons_append, List.mem_cons, List.mem_append, List.not_mem_nil, or_false] at hp
      rcases hp with rfl | hp | rfl
      · exact Or.inl ⟨_, rfl, by decide⟩
      · exact ofTests_of_mem_listPieces ps hp
      · exact Or.inl ⟨_, rfl, by decide⟩

theorem ofTests_of_mem_listPieces : ∀ (rs : List Predicate) {p : Piece},
    p ∈ listPieces rs → p.OfTests (Predicate.listTests rs)
  | [], p, hp => by cases hp
  | r :: rs, p, hp => by
    have rest {p : Piece} (hp : p.OfTests (Predicate.listTests rs)) :
        p.OfTests (Predicate.listTests (r :: rs)) := hp.mono (List.subset_append_right _ _)
    simp only [listPieces] at hp
    split at hp
    · exact rest (ofTests_of_mem_listPieces rs hp)
    · exact rest (ofTests_of_mem_listPieces rs hp)
    · next inner _ hr =>
      rcases List.mem_append.1 hp with hp | hp
      · exact (ofTests_of_mem_pieces? r hr hp).mono (List.subset_append_left _ _)
      · exact rest (ofTests_of_mem_tailPieces rs hp)

theorem ofTests_of_mem_tailPieces : ∀ (rs : List Predicate) {p : Piece},
    p ∈ tailPieces rs → p.OfTests (Predicate.listTests rs)
  | [], p, hp => by cases hp
  | r :: rs, p, hp => by
    have rest {p : Piece} (hp : p.OfTests (Predicate.listTests rs)) :
        p.OfTests (Predicate.listTests (r :: rs)) := hp.mono (List.subset_append_right _ _)
    simp only [tailPieces] at hp
    split at hp
    · exact rest (ofTests_of_mem_tailPieces rs hp)
    · next inner hr =>
      rw [List.cons_append, List.mem_cons, List.mem_append] at hp
      rcases hp with rfl | hp | hp
      · exact ofTests_connectivePiece _ _
      · exact (ofTests_of_mem_pieces? r hr hp).mono (List.subset_append_left _ _)
      · exact rest (ofTests_of_mem_tailPieces rs hp)

end

theorem ofTests_of_mem_clausePieces {word : String} {ps : List Predicate} {p : Piece}
    (hw : IsGrammarText (word ++ " ")) (hp : p ∈ clausePieces word ps) :
    p.OfTests (Predicate.listTests ps) := by
  unfold clausePieces at hp
  split at hp
  · cases hp
  · rcases List.mem_cons.1 hp with rfl | hp
    · exact Or.inl ⟨_, rfl, hw⟩
    · exact ofTests_of_mem_listPieces ps hp

/-! ### Selects -/

theorem Predicate.listTests_subset {ps qs : List Predicate} (h : ps ⊆ qs) :
    listTests ps ⊆ listTests qs := by
  intro t ht
  rw [listTests_eq_flatMap, List.mem_flatMap] at ht ⊢
  obtain ⟨p, hp, ht⟩ := ht
  exact ⟨p, h hp, ht⟩

namespace Query

theorem printed_subset_predicates {q : Query} {j : Join} (hj : j ∈ q.joins) : j.printed ⊆ q.predicates := by
  intro p hp
  have conditions : p ∈ j.conditions := by
    unfold Join.printed at hp
    split at hp
    · cases hp
    · exact hp
  unfold predicates
  rw [List.append_assoc, List.mem_append]
  exact Or.inl (List.mem_flatMap.2 ⟨j, hj, conditions⟩)

theorem filters_subset_predicates (q : Query) : q.filters ⊆ q.predicates := by
  intro p hp
  simp [predicates, hp]

theorem havings_subset_predicates (q : Query) : q.havings ⊆ q.predicates := by
  intro p hp
  simp [predicates, hp]

end Query

section Select

variable {q : Query} {tablePrefix : String} {p : Piece}

/-- The piece has its text from the query or from the text in front of table names. -/
def Piece.FromQuery (tablePrefix : String) (q : Query) (p : Piece) : Prop :=
  p.From (tablePrefix :: q.names) q.verbatims q.tests

theorem Piece.OfTests.fromQuery {tests : List Test} (hp : p.OfTests tests) (h : tests ⊆ q.tests) :
    p.FromQuery tablePrefix q := by
  refine hp.from ?_ ?_ h
  · intro s hs
    obtain ⟨t, ht, hs⟩ := List.mem_flatMap.1 hs
    have : s ∈ q.tests.flatMap Test.names := List.mem_flatMap.2 ⟨t, h ht, hs⟩
    simp [Query.names, this]
  · intro s hs
    obtain ⟨t, ht, hs⟩ := List.mem_flatMap.1 hs
    have : s ∈ q.tests.flatMap Test.verbatims := List.mem_flatMap.2 ⟨t, h ht, hs⟩
    simp [Query.verbatims, this]

theorem fromQuery_word {w : String} (hw : IsGrammarText w) (hp : p = .word w) :
    p.FromQuery tablePrefix q := by
  rw [hp]
  exact hw

theorem fromQuery_of_mem_wordIf {b : Bool} {w : String} (hw : IsGrammarText w) (hp : p ∈ wordIf b w) :
    p.FromQuery tablePrefix q := by
  unfold wordIf at hp
  split at hp
  · exact fromQuery_word hw (List.mem_singleton.1 hp)
  · cases hp

theorem fromQuery_of_mem_columnPieces {s : String} (hs : s ∈ q.names) (hp : p ∈ columnPieces s) :
    p.FromQuery tablePrefix q :=
  from_of_mem_columnPieces hp fun _ hc => ⟨s, List.mem_cons_of_mem _ hs, hc⟩

theorem fromQuery_of_mem_columnListPieces {columns : List String} (hs : columns ⊆ q.names)
    (hp : p ∈ columnListPieces columns) : p.FromQuery tablePrefix q := by
  rcases mem_glue hp with hw | ⟨ps, hps, hp⟩
  · exact fromQuery_word (by decide) hw
  · obtain ⟨s, hsc, rfl⟩ := List.mem_map.1 hps
    exact fromQuery_of_mem_columnPieces (hs hsc) hp

theorem fromQuery_of_mem_tablePieces {s : String} (hs : s ∈ q.names)
    (hp : p ∈ tablePieces tablePrefix s) : p.FromQuery tablePrefix q :=
  from_of_mem_tablePieces hp List.mem_cons_self (List.mem_cons_of_mem _ hs)

theorem fromQuery_of_mem_joinPieces {j : Join} (hj : j ∈ q.joins) (hp : p ∈ joinPieces tablePrefix j) :
    p.FromQuery tablePrefix q := by
  have table : j.table ∈ q.names := by simp [Query.names, List.mem_map_of_mem hj]
  rw [joinPieces, List.cons_append, List.mem_cons, List.mem_append] at hp
  rcases hp with hw | hp | hp
  · refine fromQuery_word ?_ hw
    cases j.kind <;> decide
  · exact fromQuery_of_mem_tablePieces table hp
  · split at hp
    · cases hp
    · rcases List.mem_cons.1 hp with hw | hp
      · exact fromQuery_word (by decide) hw
      · exact (ofTests_of_mem_listPieces j.printed hp).fromQuery
          (Predicate.listTests_subset (Query.printed_subset_predicates hj))

theorem fromQuery_of_mem_orderPieces {o : Order} (ho : o ∈ q.orders) (hp : p ∈ orderPieces o) :
    p.FromQuery tablePrefix q := by
  cases o with
  | column c direction =>
    rcases List.mem_append.1 hp with hp | hp
    · refine fromQuery_of_mem_columnPieces ?_ hp
      have : c ∈ q.orders.flatMap Order.names := List.mem_flatMap.2 ⟨_, ho, by simp [Order.names]⟩
      simp [Query.names, this]
    · refine fromQuery_word ?_ (List.mem_singleton.1 hp)
      cases direction <;> decide
  | raw sql =>
    rw [List.mem_singleton.1 hp]
    have : sql ∈ q.orders.flatMap Order.verbatims :=
      List.mem_flatMap.2 ⟨_, ho, by simp [Order.verbatims]⟩
    show sql ∈ q.verbatims
    simp [Query.verbatims, this]

theorem fromQuery_of_mem_aggregatePieces {d : Dialect} {a : Aggregate} (ha : q.aggregate = some a)
    (hp : p ∈ aggregatePieces d q a) : p.FromQuery tablePrefix q := by
  simp only [aggregatePieces, List.append_assoc, List.mem_append, List.mem_cons, List.not_mem_nil,
    or_false] at hp
  rcases hp with (hw | rfl | hw) | hp | hp | hw
  · exact fromQuery_word (by decide) hw
  · show a.name ∈ q.verbatims
    simp [Query.verbatims, ha]
  · exact fromQuery_word (by decide) hw
  · exact fromQuery_of_mem_wordIf (by decide) hp
  · refine fromQuery_of_mem_columnListPieces ?_ hp
    intro s hs
    simp [Query.names, ha, hs]
  · exact fromQuery_word (by decide) hw

theorem fromQuery_of_mem_limitPieces {n : DialectName} {k : UInt64} (hp : p ∈ limitPieces n q k) :
    p.FromQuery tablePrefix q := by
  cases n with
  | generic =>
    refine fromQuery_word ?_ (List.mem_singleton.1 hp)
    exact IsGrammarText.append (by decide) (isGrammarText_natural _)
  | firebird =>
    exact fromQuery_of_mem_wordIf (IsGrammarText.append (by decide) (isGrammarText_natural _)) hp

theorem fromQuery_of_mem_offsetPieces {n : DialectName} {k : UInt64} (hp : p ∈ offsetPieces n q k) :
    p.FromQuery tablePrefix q := by
  cases n with
  | generic =>
    refine fromQuery_word ?_ (List.mem_singleton.1 hp)
    exact IsGrammarText.append (by decide) (isGrammarText_natural _)
  | firebird =>
    refine fromQuery_of_mem_wordIf (IsGrammarText.append ?_ (isGrammarText_natural _)) hp
    cases q.limit.isSome <;> decide

theorem selected_columns (q : Query) :
    (q.selected ⊆ q.columns) ∨ q.selected = ["*"] := by
  unfold Query.selected
  split
  · exact Or.inr rfl
  · exact Or.inl (List.Subset.refl _)

theorem fromQuery_of_mem_fragmentPieces {d : Dialect} {n : DialectName} {c : Component}
    (hp : p ∈ fragmentPieces d n q c) : p.FromQuery d.settings.tablePrefix q := by
  cases c with
  | aggregate =>
    simp only [fragmentPieces] at hp
    cases ha : q.aggregate with
    | none => simp [ha] at hp
    | some a => exact fromQuery_of_mem_aggregatePieces ha (by simpa [ha] using hp)
  | limit =>
    simp only [fragmentPieces] at hp
    cases hl : q.limit with
    | none => simp [hl] at hp
    | some k => exact fromQuery_of_mem_limitPieces (by simpa [hl] using hp)
  | offset =>
    simp only [fragmentPieces] at hp
    cases ho : q.offset with
    | none => simp [ho] at hp
    | some k => exact fromQuery_of_mem_offsetPieces (by simpa [ho] using hp)
  | columns =>
    simp only [fragmentPieces] at hp
    split at hp
    · cases hp
    · simp only [List.append_assoc, List.mem_append] at hp
      rcases hp with hp | hp | hp
      · exact fromQuery_of_mem_wordIf (by decide) hp
      · exact fromQuery_of_mem_wordIf (by decide) hp
      · -- no columns stand for all of them, and `*` is a word of the grammar
        rcases selected_columns q with hs | hs
        · refine fromQuery_of_mem_columnListPieces (List.Subset.trans hs ?_) hp
          intro s hsc
          simp [Query.names, hsc]
        · rw [hs] at hp
          exact fromQuery_word (w := "*") (by decide) (List.mem_singleton.1 hp)
  | table =>
    simp only [fragmentPieces] at hp
    split at hp
    · cases hp
    · rcases List.mem_cons.1 hp with hw | hp
      · exact fromQuery_word (by decide) hw
      · exact fromQuery_of_mem_tablePieces (by simp [Query.names]) hp
  | joins =>
    rcases mem_glue hp with hw | ⟨ps, hps, hp⟩
    · exact fromQuery_word (by decide) hw
    · obtain ⟨j, hj, rfl⟩ := List.mem_map.1 hps
      exact fromQuery_of_mem_joinPieces hj hp
  | filters =>
    exact (ofTests_of_mem_clausePieces (by decide) hp).fromQuery
      (Predicate.listTests_subset q.filters_subset_predicates)
  | groups =>
    simp only [fragmentPieces] at hp
    split at hp
    · cases hp
    · rcases List.mem_cons.1 hp with hw | hp
      · exact fromQuery_word (by decide) hw
      · refine fromQuery_of_mem_columnListPieces ?_ hp
        intro s hs
        simp [Query.names, hs]
  | havings =>
    exact (ofTests_of_mem_clausePieces (by decide) hp).fromQuery
      (Predicate.listTests_subset q.havings_subset_predicates)
  | orders =>
    simp only [fragmentPieces] at hp
    split at hp
    · cases hp
    · rcases List.mem_cons.1 hp with hw | hp
      · exact fromQuery_word (by decide) hw
      · rcases mem_glue hp with hw | ⟨ps, hps, hp⟩
        · exact fromQuery_word (by decide) hw
        · obtain ⟨o, ho, rfl⟩ := List.mem_map.1 hps
          exact fromQuery_of_mem_orderPieces ho hp

/-- **Every piece of a select has its text from the grammar, from the query or from the text in front
of table names.** -/
theorem fromQuery_of_mem_selectPieces {d : Dialect} {n : DialectName} (hp : p ∈ selectPieces d n q) :
    p.FromQuery d.settings.tablePrefix q := by
  rcases mem_glue hp with hw | ⟨ps, hps, hp⟩
  · exact fromQuery_word (by decide) hw
  · obtain ⟨c, -, rfl⟩ := List.mem_map.1 (List.mem_filter.1 hps).1
    exact fromQuery_of_mem_fragmentPieces hp

theorem fromQuery_of_mem_select {n : DialectName} {s : Settings}
    (hp : p ∈ selectPieces (n.dialect s) n q) : p.FromQuery s.tablePrefix q := by
  have := fromQuery_of_mem_selectPieces hp
  rwa [DialectName.settings_dialect] at this

end Select

end SqlGrammar
