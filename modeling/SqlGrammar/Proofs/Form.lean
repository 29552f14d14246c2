import SqlGrammar.Proofs.ColumnText

/-!
The canonical form of predicates, and that it is read from its text. A form keeps what the text says:
groups, connectives, tests with the text of their columns, and how many values a test binds. It has no
place for a group in which nothing is said or for a connective before the first predicate of a list.

The text of a form is read from its start. Each part ends where what follows it cannot belong to it any
more: a list at its end or at a closing parenthesis (`Ends`), a predicate there or at a connective
(`Follows`), a column at what is no quote, no point and no alias. The first word after a column tells
which kind of test it is: the word `and` of a range is never read as a connective.
-/

namespace SqlGrammar

/-! ## Canonical forms -/

/-- What a test says of its column. -/
inductive Condition
  | compare (operator : String)
  | columns (operator second : String)
  | oneOf (count : Nat) (negated : Bool)
  | isNull (negated : Bool)
  | between (negated : Bool)
  deriving DecidableEq

/-- The form of a test: the text of its column and what is said of it. A list of no values is a
constant. -/
inductive TestForm
  | constant (truth : Bool)
  | on (column : String) (condition : Condition)
  | raw (sql : String)
  deriving DecidableEq

mutual

/-- The form of a predicate; a group has at least one member. -/
inductive Form
  | test (t : TestForm)
  | group (first : Form) (rest : FormTail)

/-- The forms of the further predicates of a list, with their connectives. -/
inductive FormTail
  | nil
  | cons (connective : Connective) (form : Form) (rest : FormTail)

end

def isSymbol (c : Char) : Bool := ['<', '>', '=', '!', '~', '^'].contains c

/-- An operator: not empty, and of its characters only. -/
def IsOperator (s : String) : Prop := s ≠ "" ∧ s.toList.all isSymbol

instance (s : String) : Decidable (IsOperator s) := inferInstanceAs (Decidable (_ ∧ _))

/-! ## The text of a form -/

def placeholders (count : Nat) : List Char := [',', ' '].intercalate (List.replicate count ['?'])

inductive Keyword
  | operator (text : String)
  | isIn
  | is
  | not
  | between
  deriving DecidableEq

def Keyword.text : Keyword → List Char
  | operator text => text.toList
  | isIn => ['i', 'n']
  | is => ['i', 's']
  | not => ['n', 'o', 't']
  | between => ['b', 'e', 't', 'w', 'e', 'e', 'n']

namespace Condition

def word : Condition → Keyword
  | compare operator => .operator operator
  | columns operator _ => .operator operator
  | oneOf _ false => .isIn
  | oneOf _ true => .not
  | isNull _ => .is
  | between false => .between
  | between true => .not

def rest : Condition → List Char
  | compare _ => ['?']
  | columns _ second => second.toList
  | oneOf count false => '(' :: (placeholders count ++ [')'])
  | oneOf count true => 'i' :: 'n' :: ' ' :: '(' :: (placeholders count ++ [')'])
  | isNull false => ['n', 'u', 'l', 'l']
  | isNull true => ['n', 'o', 't', ' ', 'n', 'u', 'l', 'l']
  | between false => ['?', ' ', 'a', 'n', 'd', ' ', '?']
  | between true => ['b', 'e', 't', 'w', 'e', 'e', 'n', ' ', '?', ' ', 'a', 'n', 'd', ' ', '?']

def text (c : Condition) : List Char := c.word.text ++ ' ' :: c.rest

end Condition

def TestForm.text : TestForm → List Char
  | constant truth => (if truth then '1' else '0') :: " = 1".toList
  | on column condition => column.toList ++ ' ' :: condition.text
  | raw sql => sql.toList

mutual

def Form.text : Form → List Char
  | .test t => t.text
  | .group first rest => '(' :: (first.text ++ (rest.text ++ [')']))

def FormTail.text : FormTail → List Char
  | .nil => []
  | .cons c form rest => ' ' :: (c.word.toList ++ ' ' :: (form.text ++ rest.text))

end

def formText : Option (Form × FormTail) → List Char
  | none => []
  | some (first, rest) => first.text ++ rest.text

/-! ## What can follow -/

/-- What can follow a list of predicates. -/
def Ends (u : List Char) : Prop := u = [] ∨ ∃ r, u = ')' :: r

/-- What can follow a predicate. -/
def Follows (u : List Char) : Prop :=
  Ends u ∨ ∃ (c : Connective) (r : List Char), u = ' ' :: (c.word.toList ++ ' ' :: r)

theorem Follows.columnEnd {u : List Char} (h : Follows u) : Name.ColumnEnd u := by
  rcases h with (rfl | ⟨r, rfl⟩) | ⟨c, r, rfl⟩
  · exact ⟨by simp, by simp, by simp⟩
  · exact ⟨by simp, by simp, by simp⟩
  · cases c with
    | and => exact ⟨by simp, by simp, by simp [Connective.word]⟩
    | or => exact ⟨by simp, by simp, by simp [Connective.word]⟩

theorem follows_tail (rest : FormTail) {u : List Char} (hu : Ends u) : Follows (rest.text ++ u) := by
  cases rest with
  | nil => exact Or.inl hu
  | cons c form rest => exact Or.inr ⟨c, form.text ++ rest.text ++ u, by simp [FormTail.text]⟩

theorem word_append_inj {w x u v : List Char} (hw : ' ' ∉ w) (hx : ' ' ∉ x)
    (h : w ++ ' ' :: u = x ++ ' ' :: v) : w = x ∧ u = v := by
  induction w generalizing x with
  | nil =>
    cases x with
    | nil => exact ⟨rfl, (List.cons.inj h).2⟩
    | cons d x => exact absurd ((List.cons.inj h).1 ▸ List.mem_cons_self) hx
  | cons c w ih =>
    cases x with
    | nil => exact absurd ((List.cons.inj h).1 ▸ List.mem_cons_self) hw
    | cons d x =>
      obtain ⟨hcd, rests⟩ := List.cons.inj h
      obtain ⟨hwx, huv⟩ := ih (fun hm => hw (List.mem_cons_of_mem _ hm))
        (fun hm => hx (List.mem_cons_of_mem _ hm)) rests
      exact ⟨by rw [hcd, hwx], huv⟩

theorem placeholders_succ_succ (k : Nat) :
    placeholders (k + 2) = '?' :: ',' :: ' ' :: placeholders (k + 1) := by
  unfold placeholders
  rw [List.replicate_succ, List.replicate_succ, List.intercalate_cons_cons, ← List.replicate_succ]
  rfl

/-- As many placeholders as there are before the parenthesis. -/
theorem placeholders_append_inj {j k : Nat} {u v : List Char}
    (h : placeholders j ++ ')' :: u = placeholders k ++ ')' :: v) : j = k ∧ u = v := by
  induction j generalizing k with
  | zero =>
    match k with
    | 0 => exact ⟨rfl, (List.cons.inj h).2⟩
    | 1 => cases (List.cons.inj h).1
    | k + 2 => rw [placeholders_succ_succ] at h; cases (List.cons.inj h).1
  | succ j ih =>
    match j, k with
    | 0, 0 => cases (List.cons.inj h).1
    | j + 1, 0 => rw [placeholders_succ_succ] at h; cases (List.cons.inj h).1
    -- from here on both have a placeholder, and a comma tells whether there is another one
    | 0, 1 => exact ⟨rfl, (List.cons.inj (List.cons.inj h).2).2⟩
    | 0, k + 2 =>
      rw [placeholders_succ_succ] at h
      cases (List.cons.inj (List.cons.inj h).2).1
    | j + 1, 1 =>
      rw [placeholders_succ_succ] at h
      cases (List.cons.inj (List.cons.inj h).2).1
    | j + 1, k + 2 =>
      rw [placeholders_succ_succ, placeholders_succ_succ] at h
      have later : placeholders (j + 1) ++ ')' :: u = placeholders (k + 1) ++ ')' :: v := by simpa using h
      obtain ⟨hjk, huv⟩ := ih later
      exact ⟨by omega, huv⟩

/-! ## Reading a form from its text -/

theorem IsOperator.not_mem {s : String} (h : IsOperator s) {c : Char} (hc : isSymbol c = false) :
    c ∉ s.toList := by
  intro hm
  have := List.all_eq_true.1 h.2 c hm
  rw [hc] at this
  cases this

namespace Keyword

/-- An operator is one of symbols. -/
def Written : Keyword → Prop
  | operator text => IsOperator text
  | _ => True

theorem not_mem_text {k : Keyword} (h : k.Written) : ' ' ∉ k.text := by
  cases k with
  | operator text => exact IsOperator.not_mem h (by decide)
  | isIn => decide
  | is => decide
  | not => decide
  | between => decide

/-- Operators and the words of the grammar are told apart by their first character. -/
theorem text_inj {k l : Keyword} (hk : k.Written) (hl : l.Written) (h : k.text = l.text) : k = l := by
  have symbol {s : String} (hs : IsOperator s) {c : Char} {r : List Char} (hc : isSymbol c = false) :
      s.toList ≠ c :: r := by
    intro he
    exact hs.not_mem hc (by rw [he]; exact List.mem_cons_self)
  cases k with
  | operator s =>
    cases l with
    | operator t => rw [String.toList_inj.1 h]
    | isIn => exact absurd h (symbol hk (by decide))
    | is => exact absurd h (symbol hk (by decide))
    | not => exact absurd h (symbol hk (by decide))
    | between => exact absurd h (symbol hk (by decide))
  | isIn =>
    cases l with
    | operator t => exact absurd h.symm (symbol hl (by decide))
    | isIn => rfl
    | _ => cases h
  | is =>
    cases l with
    | operator t => exact absurd h.symm (symbol hl (by decide))
    | is => rfl
    | _ => cases h
  | not =>
    cases l with
    | operator t => exact absurd h.symm (symbol hl (by decide))
    | not => rfl
    | _ => cases h
  | between =>
    cases l with
    | operator t => exact absurd h.symm (symbol hl (by decide))
    | between => rfl
    | _ => cases h

end Keyword

namespace Condition

/-- The condition has an operator of symbols, and its second column is the text of a column. -/
def Written : Condition → Prop
  | compare operator => IsOperator operator
  | columns operator second => IsOperator operator ∧ ∃ s, second = Name.quotedColumn s
  | _ => True

theorem Written.word {c : Condition} (h : c.Written) : c.word.Written := by
  cases c with
  | compare operator => exact h
  | columns operator second => exact h.1
  | oneOf count negated => cases negated <;> trivial
  | isNull negated => trivial
  | between negated => cases negated <;> trivial

theorem placeholder_ne_column (s : String) (x y : List Char) :
    '?' :: x ≠ (Name.quotedColumn s).toList ++ y := by
  obtain ⟨c, r, hs, hc⟩ := Name.exists_toList_quotedColumn s
  rw [hs]
  intro he
  rw [← (List.cons.inj he).1] at hc
  revert hc
  decide

theorem text_append (c : Condition) (u : List Char) : c.text ++ u = c.word.text ++ ' ' :: (c.rest ++ u) := by
  simp [text]

/-- **A condition is read from its text**, whatever may follow a predicate. -/
theorem text_append_inj {a b : Condition} (ha : a.Written) (hb : b.Written) {u v : List Char}
    (hu : Follows u) (hv : Follows v) (h : a.text ++ u = b.text ++ v) : a = b ∧ u = v := by
  rw [text_append, text_append] at h
  obtain ⟨texts, rests⟩ :=
    word_append_inj (Keyword.not_mem_text ha.word) (Keyword.not_mem_text hb.word) h
  have words : a.word = b.word := Keyword.text_inj ha.word hb.word texts
  -- the first word leaves one kind of condition, or two that differ in what comes next
  cases a with
  | compare operator =>
    cases b with
    | compare operator' =>
      cases words
      exact ⟨rfl, (List.cons.inj rests).2⟩
    | columns operator' second =>
      obtain ⟨-, s, rfl⟩ := hb
      exact absurd rests (placeholder_ne_column s _ _)
    | oneOf count negated => cases negated <;> cases words
    | isNull negated => cases words
    | between negated => cases negated <;> cases words
  | columns operator second =>
    obtain ⟨-, s, rfl⟩ := ha
    cases b with
    | compare operator' => exact absurd rests.symm (placeholder_ne_column s _ _)
    | columns operator' second' =>
      obtain ⟨-, t, rfl⟩ := hb
      obtain ⟨columns, huv⟩ := Name.quotedColumn_append_inj hu.columnEnd hv.columnEnd rests
      cases words
      exact ⟨by rw [columns], huv⟩
    | oneOf count negated => cases negated <;> cases words
    | isNull negated => cases words
    | between negated => cases negated <;> cases words
  | oneOf count negated =>
    cases b with
    | compare operator' => cases negated <;> cases words
    | columns operator' second => cases negated <;> cases words
    | oneOf count' negated' =>
      have same : negated = negated' := by
        cases negated <;> cases negated' <;> first | rfl | cases words
      have counts : placeholders count ++ ')' :: u = placeholders count' ++ ')' :: v := by
        subst same
        cases negated
        · simpa [rest] using rests
        · simpa [rest] using rests
      obtain ⟨hc, huv⟩ := placeholders_append_inj counts
      exact ⟨by rw [hc, same], huv⟩
    | isNull negated' => cases negated <;> cases words
    | between negated' =>
      cases negated <;> cases negated'
      · cases words
      · cases words
      · cases words
      · cases (List.cons.inj rests).1
  | isNull negated =>
    cases b with
    | isNull negated' =>
      cases negated <;> cases negated'
      · exact ⟨rfl, List.append_cancel_left rests⟩
      · cases (List.cons.inj (List.cons.inj rests).2).1
      · cases (List.cons.inj (List.cons.inj rests).2).1
      · exact ⟨rfl, List.append_cancel_left rests⟩
    | compare operator' => cases words
    | columns operator' second => cases words
    | oneOf count negated' => cases negated' <;> cases words
    | between negated' => cases negated' <;> cases words
  | between negated =>
    cases b with
    | compare operator' => cases negated <;> cases words
    | columns operator' second => cases negated <;> cases words
    | oneOf count negated' =>
      cases negated <;> cases negated'
      · cases words
      · cases words
      · cases words
      · cases (List.cons.inj rests).1
    | isNull negated' => cases negated <;> cases words
    | between negated' =>
      cases negated <;> cases negated'
      · exact ⟨rfl, List.append_cancel_left rests⟩
      · cases words
      · cases words
      · exact ⟨rfl, List.append_cancel_left rests⟩

end Condition

def TestForm.Written : TestForm → Prop
  | constant _ => True
  | on column condition => (∃ s, column = Name.quotedColumn s) ∧ condition.Written
  | raw _ => False

namespace TestForm

theorem columnEnd_condition {c : Condition} (h : c.Written) (u : List Char) :
    Name.ColumnEnd (' ' :: (c.text ++ u)) := by
  refine ⟨by simp, by simp, fun r he => ?_⟩
  rw [c.text_append] at he
  have first := (List.cons.inj he).2
  -- no condition starts with the word `as`
  have word : c.word.text ++ ' ' :: (c.rest ++ u) = "as".toList ++ ' ' :: r := first
  have same := (word_append_inj (Keyword.not_mem_text h.word) (by decide) word).1
  cases hk : c.word with
  | operator s =>
    rw [hk] at same
    have written : IsOperator s := by
      have := h.word
      rwa [hk] at this
    refine written.not_mem (c := 'a') (by decide) ?_
    rw [show s.toList = "as".toList from same]
    decide
  | _ =>
    rw [hk] at same
    cases same

theorem constant_ne_column (truth : Bool) (s : String) (x y : List Char) :
    (constant truth).text ++ x ≠ (Name.quotedColumn s).toList ++ y := by
  obtain ⟨c, r, hs, hc⟩ := Name.exists_toList_quotedColumn s
  rw [hs]
  intro he
  have digit : (if truth then '1' else '0') = c := (List.cons.inj he).1
  rw [← digit] at hc
  revert hc
  cases truth <;> decide

/-- **A test is read from its text**, whatever may follow a predicate. -/
theorem text_append_inj {a b : TestForm} (ha : a.Written) (hb : b.Written) {u v : List Char}
    (hu : Follows u) (hv : Follows v) (h : a.text ++ u = b.text ++ v) : a = b ∧ u = v := by
  have split (column : String) (c : Condition) (w : List Char) :
      (on column c).text ++ w = column.toList ++ ' ' :: (c.text ++ w) := by simp [text]
  cases a with
  | constant truth =>
    cases b with
    | constant truth' =>
      obtain ⟨digits, rests⟩ := List.cons.inj h
      have same : truth = truth' := by
        cases truth <;> cases truth' <;> first | rfl | cases digits
      exact ⟨by rw [same], List.append_cancel_left rests⟩
    | on column c =>
      obtain ⟨⟨s, rfl⟩, -⟩ := hb
      rw [split] at h
      exact absurd h (constant_ne_column truth s u _)
    | raw sql => exact hb.elim
  | on column c =>
    obtain ⟨⟨s, rfl⟩, hc⟩ := ha
    cases b with
    | constant truth =>
      rw [split] at h
      exact absurd h.symm (constant_ne_column truth s v _)
    | on column' c' =>
      obtain ⟨⟨t, rfl⟩, hc'⟩ := hb
      rw [split, split] at h
      obtain ⟨columns, rests⟩ :=
        Name.quotedColumn_append_inj (columnEnd_condition hc u) (columnEnd_condition hc' v) h
      obtain ⟨conditions, huv⟩ := Condition.text_append_inj hc hc' hu hv (List.cons.inj rests).2
      exact ⟨by rw [columns, conditions], huv⟩
    | raw sql => exact hb.elim
  | raw sql => exact ha.elim

theorem exists_text {a : TestForm} (ha : a.Written) : ∃ c r, a.text = c :: r ∧ c ≠ '(' := by
  cases a with
  | constant truth => exact ⟨_, _, rfl, by cases truth <;> decide⟩
  | on column c =>
    obtain ⟨⟨s, rfl⟩, -⟩ := ha
    obtain ⟨x, r, hs, hx⟩ := Name.exists_toList_quotedColumn s
    refine ⟨x, r ++ ' ' :: c.text, by rw [text, hs]; rfl, ?_⟩
    rintro rfl
    revert hx
    decide
  | raw sql => exact ha.elim

end TestForm

mutual

def Form.Written : Form → Prop
  | .test t => t.Written
  | .group first rest => first.Written ∧ rest.Written

def FormTail.Written : FormTail → Prop
  | .nil => True
  | .cons _ form rest => form.Written ∧ rest.Written

end

theorem Connective.not_mem_word (c : Connective) : ' ' ∉ c.word.toList := by
  cases c <;> decide

theorem Connective.word_inj {c d : Connective} (h : c.word.toList = d.word.toList) : c = d := by
  cases c <;> cases d <;> first | rfl | cases h

mutual

/-- **A predicate is read from its text.** What may follow it ends its last column or its group. -/
theorem Form.text_append_inj : ∀ (f g : Form) {u v : List Char}, f.Written → g.Written → Follows u →
    Follows v → f.text ++ u = g.text ++ v → f = g ∧ u = v
  | .test t, .test t', u, v, hf, hg, hu, hv, h => by
    obtain ⟨tests, huv⟩ := TestForm.text_append_inj hf hg hu hv h
    exact ⟨by rw [tests], huv⟩
  | .test t, .group first rest, u, v, hf, _, _, _, h => by
    obtain ⟨c, r, ht, hc⟩ := TestForm.exists_text hf
    rw [Form.text, ht] at h
    exact absurd (List.cons.inj h).1 hc
  | .group first rest, .test t, u, v, _, hg, _, _, h => by
    obtain ⟨c, r, ht, hc⟩ := TestForm.exists_text hg
    rw [Form.text, Form.text, ht] at h
    exact absurd (List.cons.inj h).1.symm hc
  | .group first rest, .group first' rest', u, v, hf, hg, _, _, h => by
    have closed {w : List Char} : Ends (')' :: w) := Or.inr ⟨w, rfl⟩
    have inner : first.text ++ (rest.text ++ ')' :: u) = first'.text ++ (rest'.text ++ ')' :: v) := by
      simpa [Form.text] using h
    -- the first member ends at a connective or at the parenthesis, the others at the parenthesis
    obtain ⟨firsts, rests⟩ := Form.text_append_inj first first' hf.1 hg.1 (follows_tail rest closed)
      (follows_tail rest' closed) inner
    obtain ⟨tails, ends⟩ := FormTail.text_append_inj rest rest' hf.2 hg.2 closed closed rests
    exact ⟨by rw [firsts, tails], (List.cons.inj ends).2⟩

theorem FormTail.text_append_inj : ∀ (f g : FormTail) {u v : List Char}, f.Written → g.Written →
    Ends u → Ends v → f.text ++ u = g.text ++ v → f = g ∧ u = v
  | .nil, .nil, u, v, _, _, _, _, h => ⟨rfl, h⟩
  -- a list that has ended is followed by no space, so by no connective
  | .nil, .cons c form rest, u, v, _, _, hu, _, h => by
    rcases hu with rfl | ⟨r, rfl⟩
    · cases h
    · cases (List.cons.inj h).1
  | .cons c form rest, .nil, u, v, _, _, _, hv, h => by
    rcases hv with rfl | ⟨r, rfl⟩
    · cases h
    · cases (List.cons.inj h).1
  | .cons c form rest, .cons c' form' rest', u, v, hf, hg, hu, hv, h => by
    have words : c.word.toList ++ ' ' :: (form.text ++ (rest.text ++ u)) =
        c'.word.toList ++ ' ' :: (form'.text ++ (rest'.text ++ v)) := by
      simpa [FormTail.text] using h
    obtain ⟨connectives, later⟩ := word_append_inj c.not_mem_word c'.not_mem_word words
    obtain ⟨forms, rests⟩ := Form.text_append_inj form form' hf.1 hg.1 (follows_tail rest hu)
      (follows_tail rest' hv) later
    obtain ⟨tails, huv⟩ := FormTail.text_append_inj rest rest' hf.2 hg.2 hu hv rests
    exact ⟨by rw [Connective.word_inj connectives, forms, tails], huv⟩

end

theorem Form.text_ne_nil {f : Form} (hf : f.Written) : f.text ≠ [] := by
  cases f with
  | test t =>
    obtain ⟨c, r, ht, -⟩ := TestForm.exists_text hf
    rw [Form.text, ht]
    simp
  | group first rest => simp [Form.text]

end SqlGrammar
