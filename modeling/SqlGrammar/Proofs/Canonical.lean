import SqlGrammar.Proofs.Form
import SqlGrammar.Proofs.Source

/-!
Predicates are written without ambiguity. `listForm` finds the canonical form of a list of predicates: it
drops groups in which nothing is said, and the connective of the first predicate that says something.
The text of plain predicates is that of their form (`toList_predicates_form`), and a form is read from
its text, so with quoting on two lists have the same text exactly when they have the same form.
-/

namespace SqlGrammar

open CommandLine (DialectName)

def Test.form (d : Dialect) : Test → TestForm
  | compare column operator _ => .on (d.column column) (.compare operator)
  | columns first operator second => .on (d.column first) (.columns operator (d.column second))
  | oneOf _ [] negated => .constant negated
  | oneOf column values negated => .on (d.column column) (.oneOf values.length negated)
  | isNull column negated => .on (d.column column) (.isNull negated)
  | between column _ _ negated => .on (d.column column) (.between negated)
  | raw sql _ => .raw sql

mutual

/-- The form of a predicate; none for a group in which nothing is said. -/
def Predicate.form? (d : Dialect) : Predicate → Option Form
  | .test _ t => some (.test (t.form d))
  | .group _ ps => (listForm d ps).map fun form => .group form.1 form.2

/-- The form of a list of predicates: the first that says something, and the rest with connectives. -/
def listForm (d : Dialect) : List Predicate → Option (Form × FormTail)
  | [] => none
  | p :: ps =>
    match p.form? d with
    | none => listForm d ps
    | some form => some (form, tailForm d ps)

def tailForm (d : Dialect) : List Predicate → FormTail
  | [] => .nil
  | p :: ps =>
    match p.form? d with
    | none => tailForm d ps
    | some form => .cons p.connective form (tailForm d ps)

end

/-- The test is no SQL of its own, has an operator of symbols, and binds all its values. -/
def Test.Plain : Test → Prop
  | compare _ operator v => IsOperator operator ∧ v.isRaw = false
  | columns _ operator _ => IsOperator operator
  | oneOf _ vs _ => ∀ v ∈ vs, v.isRaw = false
  | isNull .. => True
  | between _ low high _ => low.isRaw = false ∧ high.isRaw = false
  | raw .. => False

instance : (t : Test) → Decidable t.Plain
  | .compare _ operator v => inferInstanceAs (Decidable (IsOperator operator ∧ v.isRaw = false))
  | .columns _ operator _ => inferInstanceAs (Decidable (IsOperator operator))
  | .oneOf _ vs _ => inferInstanceAs (Decidable (∀ v ∈ vs, v.isRaw = false))
  | .isNull .. => isTrue trivial
  | .between _ low high _ => inferInstanceAs (Decidable (low.isRaw = false ∧ high.isRaw = false))
  | .raw .. => isFalse id

section Predicates

variable {n : DialectName} {s : Settings}

theorem written_form (hq : s.quoteIdentifiers = true) {t : Test} (ht : t.Plain) :
    (t.form (n.dialect s)).Written := by
  have column := column_of_quoting (n := n) hq
  cases t with
  | compare c operator v => exact ⟨⟨c, by rw [column]⟩, ht.1⟩
  | columns first operator second => exact ⟨⟨first, by rw [column]⟩, ht, second, by rw [column]⟩
  | oneOf c vs negated =>
    cases vs with
    | nil => trivial
    | cons v vs => exact ⟨⟨c, by rw [column]⟩, trivial⟩
  | isNull c negated => exact ⟨⟨c, by rw [column]⟩, trivial⟩
  | between c low high negated => exact ⟨⟨c, by rw [column]⟩, trivial⟩
  | raw sql vs => exact ht.elim

mutual

theorem written_form? (hq : s.quoteIdentifiers = true) : ∀ (p : Predicate) {f : Form},
    (∀ t ∈ p.tests, t.Plain) → p.form? (n.dialect s) = some f → f.Written
  | .test c t, f, hp, hf => by
    cases hf
    exact written_form hq (hp t (List.mem_singleton_self t))
  | .group c ps, f, hp, hf => by
    obtain ⟨form, hl, rfl⟩ := Option.map_eq_some_iff.1 hf
    exact written_listForm hq ps hp hl

theorem written_listForm (hq : s.quoteIdentifiers = true) : ∀ (ps : List Predicate)
    {form : Form × FormTail}, (∀ t ∈ Predicate.listTests ps, t.Plain) →
      listForm (n.dialect s) ps = some form → form.1.Written ∧ form.2.Written
  | [], _, _, hf => by cases hf
  | p :: ps, form, hp, hf => by
    have rest : ∀ t ∈ Predicate.listTests ps, t.Plain := fun t hm => hp t (List.mem_append_right _ hm)
    rw [listForm] at hf
    split at hf
    · exact written_listForm hq ps rest hf
    · next first hfirst =>
      cases hf
      exact ⟨written_form? hq p (fun t hm => hp t (List.mem_append_left _ hm)) hfirst,
        written_tailForm hq ps rest⟩

theorem written_tailForm (hq : s.quoteIdentifiers = true) : ∀ ps : List Predicate,
    (∀ t ∈ Predicate.listTests ps, t.Plain) → (tailForm (n.dialect s) ps).Written
  | [], _ => trivial
  | p :: ps, hp => by
    have rest : ∀ t ∈ Predicate.listTests ps, t.Plain := fun t hm => hp t (List.mem_append_right _ hm)
    rw [tailForm]
    split
    · exact written_tailForm hq ps rest
    · next form hform =>
      exact ⟨written_form? hq p (fun t hm => hp t (List.mem_append_left _ hm)) hform,
        written_tailForm hq ps rest⟩

end

theorem text_valuePiece {v : Value} (hv : v.isRaw = false) :
    (valuePiece v).text (n.dialect s) = ['?'] := by
  cases v with
  | raw sql => cases hv
  | _ =>
    show (n.dialect s).placeholder.toList = _
    rw [DialectName.placeholder_dialect]
    rfl

theorem written_valuePieces {vs : List Value} (hv : ∀ v ∈ vs, v.isRaw = false) :
    written (n.dialect s) (commaPieces (vs.map fun v => [valuePiece v])) = placeholders vs.length := by
  have each : (vs.map fun v => [valuePiece v]).map (written (n.dialect s)) =
      List.replicate vs.length ['?'] := by
    rw [List.map_map, ← List.map_const']
    refine List.map_congr_left fun v hm => ?_
    simp [text_valuePiece (hv v hm)]
  rw [commaPieces, written_glue, each]
  rfl

theorem written_testPieces {t : Test} (ht : t.Plain) :
    written (n.dialect s) (testPieces t) = (t.form (n.dialect s)).text := by
  have column (c : String) : written (n.dialect s) (columnPieces c) = ((n.dialect s).column c).toList :=
    (toList_column (n.follows_dialect s) c).symm
  cases t with
  | compare c operator v =>
    have value := text_valuePiece (n := n) (s := s) ht.2
    simp [testPieces, column, value, Test.form, TestForm.text, Condition.text, Condition.word,
      Keyword.text, Condition.rest]
  | columns first operator second =>
    simp [testPieces, column, Test.form, TestForm.text, Condition.text, Condition.word,
      Keyword.text, Condition.rest]
  | oneOf c vs negated =>
    cases vs with
    | nil => cases negated <;> rfl
    | cons v vs =>
      have values := written_valuePieces (n := n) (s := s) ht
      rw [testPieces, List.append_assoc, written_append, List.cons_append, written_cons, written_append, values]
      · cases negated <;> simp [column, Dialect.negation, Test.form, TestForm.text,
          Condition.text, Condition.word, Keyword.text, Condition.rest]
      · simp
  | isNull c negated =>
    cases negated <;> simp [testPieces, column, Dialect.negation, Test.form, TestForm.text,
      Condition.text, Condition.word, Keyword.text, Condition.rest]
  | between c low high negated =>
    have values := text_valuePiece (n := n) (s := s) ht.1
    have values' := text_valuePiece (n := n) (s := s) ht.2
    cases negated <;> simp [testPieces, column, values, values', Dialect.negation, Test.form,
      TestForm.text, Condition.text, Condition.word, Keyword.text, Condition.rest]
  | raw sql vs => exact ht.elim

theorem formText_eq_nil_iff (hq : s.quoteIdentifiers = true) {ps : List Predicate}
    (hp : ∀ t ∈ Predicate.listTests ps, t.Plain) :
    formText (listForm (n.dialect s) ps) = [] ↔ listForm (n.dialect s) ps = none := by
  cases hl : listForm (n.dialect s) ps with
  | none => simp [formText]
  | some form =>
    have first := Form.text_ne_nil (written_listForm hq ps hp hl).1
    simp [formText, first]

mutual

theorem written_pieces?_form (hq : s.quoteIdentifiers = true) : ∀ p : Predicate,
    (∀ t ∈ p.tests, t.Plain) →
      p.pieces?.map (written (n.dialect s)) = (p.form? (n.dialect s)).map Form.text
  | .test c t, hp => by
    have text := written_testPieces (n := n) (s := s) (hp t (List.mem_singleton_self t))
    simp only [Predicate.pieces?, Predicate.form?, Option.map_some, text, Form.text]
  | .group c ps, hp => by
    have members := written_listPieces_form hq ps hp
    have empty := formText_eq_nil_iff (n := n) hq hp
    rw [← members, written_listPieces_eq_nil] at empty
    simp only [Predicate.pieces?, Predicate.form?]
    split
    · next hl => rw [empty.1 hl]; rfl
    · next hl =>
      cases hform : listForm (n.dialect s) ps with
      | none => exact absurd (empty.2 hform) hl
      | some form =>
        rw [hform] at members
        simp [members, formText, Form.text]

theorem written_listPieces_form (hq : s.quoteIdentifiers = true) : ∀ ps : List Predicate,
    (∀ t ∈ Predicate.listTests ps, t.Plain) →
      written (n.dialect s) (listPieces ps) = formText (listForm (n.dialect s) ps)
  | [], _ => rfl
  | p :: ps, hp => by
    have here : ∀ t ∈ p.tests, t.Plain := fun t hm => hp t (List.mem_append_left _ hm)
    have rest : ∀ t ∈ Predicate.listTests ps, t.Plain := fun t hm => hp t (List.mem_append_right _ hm)
    have first := written_pieces?_form hq p here
    rw [listPieces, listForm]
    cases hform : p.form? (n.dialect s) with
    | none =>
      rw [hform] at first
      rw [Option.map_eq_none_iff.1 first]
      exact written_listPieces_form hq ps rest
    | some form =>
      rw [hform] at first
      obtain ⟨inner, hi, hw⟩ := Option.map_eq_some_iff.1 first
      -- a plain predicate that is not none has text
      have said : inner ≠ [] := by
        rintro rfl
        exact Form.text_ne_nil (written_form? hq p here hform) hw.symm
      simp only [hi]
      rw [written_append, hw, written_tailPieces_form hq ps rest]
      rfl

theorem written_tailPieces_form (hq : s.quoteIdentifiers = true) : ∀ ps : List Predicate,
    (∀ t ∈ Predicate.listTests ps, t.Plain) →
      written (n.dialect s) (tailPieces ps) = (tailForm (n.dialect s) ps).text
  | [], _ => rfl
  | p :: ps, hp => by
    have here : ∀ t ∈ p.tests, t.Plain := fun t hm => hp t (List.mem_append_left _ hm)
    have rest : ∀ t ∈ Predicate.listTests ps, t.Plain := fun t hm => hp t (List.mem_append_right _ hm)
    have first := written_pieces?_form hq p here
    have later := written_tailPieces_form hq ps rest
    rw [tailPieces, tailForm]
    cases hform : p.form? (n.dialect s) with
    | none =>
      rw [hform] at first
      rw [Option.map_eq_none_iff.1 first]
      exact later
    | some form =>
      rw [hform] at first
      obtain ⟨inner, hi, hw⟩ := Option.map_eq_some_iff.1 first
      simp [hi, hw, later, connectivePiece, FormTail.text]

end

theorem toList_predicates_form (hq : s.quoteIdentifiers = true) {ps : List Predicate}
    (hp : ∀ t ∈ Predicate.listTests ps, t.Plain) :
    ((n.dialect s).predicates ps).toList = formText (listForm (n.dialect s) ps) := by
  rw [toList_predicates (n.follows_dialect s), written_listPieces_form hq ps hp]

end Predicates

/-- **Predicates are written without ambiguity.** Two lists of plain predicates have the same text exactly
when they have the same canonical form. -/
theorem predicates_eq_iff (n : DialectName) (s : Settings) (hq : s.quoteIdentifiers = true)
    (ps qs : List Predicate) (hp : ∀ t ∈ Predicate.listTests ps, t.Plain)
    (hq' : ∀ t ∈ Predicate.listTests qs, t.Plain) :
    (n.dialect s).predicates ps = (n.dialect s).predicates qs ↔
      listForm (n.dialect s) ps = listForm (n.dialect s) qs := by
  have left := toList_predicates_form (n := n) hq hp
  have right := toList_predicates_form (n := n) hq hq'
  rw [← String.toList_inj, left, right]
  refine ⟨fun h => ?_, fun h => by rw [h]⟩
  cases hps : listForm (n.dialect s) ps with
  | none =>
    rw [hps] at h
    exact ((formText_eq_nil_iff hq hq').1 h.symm).symm
  | some form =>
    cases hqs : listForm (n.dialect s) qs with
    | none =>
      rw [hqs] at h
      rw [← hps]
      exact (formText_eq_nil_iff hq hp).1 h
    | some form' =>
      rw [hps, hqs] at h
      obtain ⟨first, rest⟩ := form
      obtain ⟨first', rest'⟩ := form'
      have written := written_listForm hq ps hp hps
      have written' := written_listForm hq qs hq' hqs
      have ends : Ends [] := Or.inl rfl
      -- both texts are read up to their ends
      have text : first.text ++ (rest.text ++ []) = first'.text ++ (rest'.text ++ []) := by
        simpa [formText] using h
      obtain ⟨firsts, rests⟩ := Form.text_append_inj first first' written.1 written'.1
        (follows_tail rest ends) (follows_tail rest' ends) text
      obtain ⟨tails, -⟩ := FormTail.text_append_inj rest rest' written.2 written'.2 ends ends rests
      rw [firsts, tails]

/-- A group in which nothing is said drops out with its connective; a group around two tests does not. -/
theorem predicates_eq_iff_of_groups :
    let d := DialectName.firebird.dialect {}
    let low : Test := .compare "a" ">=" (.int 1)
    let high : Test := .between "b and c" (.int 2) .null false
    d.predicates [.group .and [], .test .or low, .test .and high] =
        d.predicates [.test .and low, .test .and high] ∧
      d.predicates [.test .and low, .test .and high] ≠
        d.predicates [.group .and [.test .and low, .test .and high]] := by
  intro d low high
  have plain {ps : List Predicate} (h : Predicate.listTests ps = [low, high]) :
      ∀ t ∈ Predicate.listTests ps, t.Plain := by
    rw [h]
    decide
  constructor
  · exact (predicates_eq_iff .firebird {} rfl _ _ (plain rfl) (plain rfl)).2 rfl
  · intro he
    cases (predicates_eq_iff .firebird {} rfl _ _ (plain rfl) (plain rfl)).1 he

end SqlGrammar

