import SqlGrammar.Dialect.Firebird
import SqlGrammar.Sql.Clause

/-!
Predicates that say nothing. A predicate is void if it is raw SQL without text, or a group of void
predicates; `prunedList` takes the void ones out at every depth. What is proved of the text of predicates:

1. `predicates_eq_empty_iff`: nothing is written exactly where all predicates are void. So `where`, `having`
   and `on` are written exactly where one of them is not (`predicateClause_eq`, `joinClause_eq`).
2. `predicates_eq_chain`: on every level the text is that of the first predicate that is not void, and of the
   later ones, each behind its connective; only void groups are passed over there.
3. `leaves_predicates`: raw SQL without text that comes after something said is not passed over. It leaves its
   connective behind with nothing to connect, and that is all by which the text differs from the text of the
   pruned predicates.
-/

namespace SqlGrammar

/-! ## Void predicates -/

def Test.isVoid : Test → Bool
  | raw sql _ => sql = ""
  | _ => false

namespace Predicate

mutual

/-- Nothing is said: raw SQL without text, or a group in which nothing is said. -/
def isVoid : Predicate → Bool
  | test _ t => t.isVoid
  | group _ ps => allVoid ps

def allVoid : List Predicate → Bool
  | [] => true
  | p :: ps => p.isVoid && allVoid ps

end

def isVoidGroup : Predicate → Bool
  | test .. => false
  | group _ ps => allVoid ps

mutual

/-- The predicate without the void ones in it. -/
def pruned : Predicate → Predicate
  | test c t => test c t
  | group c ps => group c (prunedList ps)

def prunedList : List Predicate → List Predicate
  | [] => []
  | p :: ps => if p.isVoid then prunedList ps else p.pruned :: prunedList ps

end

mutual

/-- The connectives that the raw SQL without text in a predicate leaves behind. -/
def stray : Predicate → List Connective
  | test .. => []
  | group _ ps => listStray false ps

/-- The connectives that raw SQL without text leaves behind in a list of predicates, given whether something
is said before it. -/
def listStray (said : Bool) : List Predicate → List Connective
  | [] => []
  | p :: ps =>
    (if said && p.isVoid && !p.isVoidGroup then [p.connective] else p.stray) ++
      listStray (said || !p.isVoid) ps

end

/-- The members of a list that are passed over nowhere: all but the void groups. -/
def written (ps : List Predicate) : List Predicate := ps.filter fun p => !p.isVoidGroup

theorem isVoid_of_isVoidGroup {p : Predicate} (h : p.isVoidGroup) : p.isVoid := by
  cases p with
  | test c t => cases h
  | group c ps => exact h

@[simp] theorem connective_pruned (p : Predicate) : p.pruned.connective = p.connective := by
  cases p <;> rfl

mutual

theorem isVoid_pruned : ∀ p : Predicate, p.pruned.isVoid = p.isVoid
  | test .. => rfl
  | group _ ps => allVoid_prunedList ps

theorem allVoid_prunedList : ∀ ps : List Predicate, allVoid (prunedList ps) = allVoid ps
  | [] => rfl
  | p :: ps => by
    rw [prunedList, allVoid]
    split
    · next hp => rw [hp, Bool.true_and, allVoid_prunedList ps]
    · rw [allVoid, isVoid_pruned p, allVoid_prunedList ps]

end

theorem isVoid_of_mem_prunedList {ps : List Predicate} {p : Predicate} (h : p ∈ prunedList ps) :
    p.isVoid = false := by
  induction ps with
  | nil => cases h
  | cons q qs ih =>
    rw [prunedList] at h
    split at h
    · exact ih h
    · next hq =>
      rcases List.mem_cons.1 h with rfl | h
      · rw [isVoid_pruned]
        exact Bool.eq_false_iff.2 hq
      · exact ih h

theorem written_prunedList (ps : List Predicate) : written (prunedList ps) = prunedList ps := by
  rw [written, List.filter_eq_self]
  intro p hp
  have said := isVoid_of_mem_prunedList hp
  cases hg : p.isVoidGroup with
  | false => rfl
  | true => rw [isVoid_of_isVoidGroup hg] at said; cases said

mutual

theorem stray_of_isVoid : ∀ p : Predicate, p.isVoid → p.stray = []
  | test .., _ => rfl
  | group _ ps, h => listStray_of_allVoid ps h

theorem listStray_of_allVoid : ∀ ps : List Predicate, allVoid ps → listStray false ps = []
  | [], _ => rfl
  | p :: ps, h => by
    rw [allVoid, Bool.and_eq_true] at h
    have rest := listStray_of_allVoid ps h.2
    simp [listStray, stray_of_isVoid p h.1, h.1, rest]

end

end Predicate

open Predicate

namespace Dialect

variable (d : Dialect)

/-! ## One level of predicates -/

/-- The text of a predicate, also where it says nothing. -/
def predicateText : Predicate → String
  | .test _ t => d.test t
  | .group _ ps => "(" ++ d.predicates ps ++ ")"

/-- Predicates after something said, each behind its connective. -/
def continued : List Predicate → String
  | [] => ""
  | p :: ps => " " ++ p.connective.word ++ " " ++ d.predicateText p ++ continued ps

def chain : List Predicate → String
  | [] => ""
  | p :: ps => d.predicateText p ++ d.continued ps

theorem test_eq_empty_iff (t : Test) : d.test t = "" ↔ t.isVoid := by
  cases t with
  | oneOf column values negated =>
    cases values with
    | nil => cases negated <;> simp [test, Test.isVoid]
    | cons v vs => simp [test, Test.isVoid]
  | raw sql values => simp [test, Test.isVoid]
  | _ => simp [test, Test.isVoid]

theorem predicatesAfter_ne_empty (ps : List Predicate) {sql : String} (h : sql ≠ "") :
    d.predicatesAfter sql ps ≠ "" := by
  induction ps generalizing sql with
  | nil => exact h
  | cons p ps ih =>
    rw [predicatesAfter]
    split
    · exact ih h
    · next text _ =>
      apply ih
      rw [joinPredicate, if_neg h]
      simp

/-- A predicate is void exactly if it is a void group or has no text. -/
theorem isVoid_iff (p : Predicate) : p.isVoid ↔ p.isVoidGroup ∨ d.predicateText p = "" := by
  cases p with
  | test c t => simp [isVoid, isVoidGroup, predicateText, d.test_eq_empty_iff]
  | group c ps => simp [isVoid, isVoidGroup, predicateText]

mutual

theorem predicate?_eq : ∀ p : Predicate,
    d.predicate? p = if p.isVoidGroup then none else some (d.predicateText p)
  | .test c t => by simp [predicate?, isVoidGroup, predicateText]
  | .group c ps => by
    have empty : d.predicates ps = "" ↔ (Predicate.group c ps).isVoidGroup := predicates_eq_empty_iff ps
    show (if d.predicates ps = "" then none else some (d.predicateText (.group c ps))) =
      if (Predicate.group c ps).isVoidGroup then none else some (d.predicateText (.group c ps))
    by_cases h : d.predicates ps = ""
    · rw [if_pos h, if_pos (empty.1 h)]
    · rw [if_neg h, if_neg (mt empty.2 h)]

/-- **Nothing is written exactly where nothing is said.** -/
theorem predicates_eq_empty_iff : ∀ ps : List Predicate, d.predicates ps = "" ↔ allVoid ps
  | [] => by simp [predicates, predicatesAfter, allVoid]
  | p :: ps => by
    have rest := predicates_eq_empty_iff ps
    have first := predicate?_eq p
    rw [allVoid, Bool.and_eq_true, d.isVoid_iff, ← rest]
    by_cases hg : p.isVoidGroup
    · rw [if_pos hg] at first
      simp [predicates, predicatesAfter, first, hg]
    · rw [if_neg hg] at first
      by_cases ht : d.predicateText p = ""
      · simp [predicates, predicatesAfter, first, joinPredicate, ht]
      · have said := d.predicatesAfter_ne_empty ps ht
        simp [predicates, predicatesAfter, first, joinPredicate, ht, hg, said]

end

/-- After something said, all but the void groups follow, each behind its connective. -/
theorem predicatesAfter_eq (ps : List Predicate) {sql : String} (h : sql ≠ "") :
    d.predicatesAfter sql ps = sql ++ d.continued (written ps) := by
  induction ps generalizing sql with
  | nil => simp [predicatesAfter, written, continued]
  | cons p ps ih =>
    rw [predicatesAfter, predicate?_eq]
    by_cases hg : p.isVoidGroup
    · have skipped : written (p :: ps) = written ps := List.filter_cons_of_neg (by simp [hg])
      rw [if_pos hg, skipped]
      exact ih h
    · have kept : written (p :: ps) = p :: written ps := List.filter_cons_of_pos (by simp [hg])
      have joined : joinPredicate sql p.connective (d.predicateText p) ≠ "" := by
        rw [joinPredicate, if_neg h]
        simp
      rw [if_neg hg, kept]
      show d.predicatesAfter (joinPredicate sql p.connective (d.predicateText p)) ps = _
      rw [ih joined, joinPredicate, if_neg h, continued]
      simp only [String.append_assoc]

theorem predicates_cons_of_isVoid {p : Predicate} (h : p.isVoid) (ps : List Predicate) :
    d.predicates (p :: ps) = d.predicates ps := by
  rw [predicates, predicatesAfter, predicate?_eq]
  by_cases hg : p.isVoidGroup
  · rw [if_pos hg]
    rfl
  · have empty : d.predicateText p = "" := ((d.isVoid_iff p).1 h).resolve_left hg
    rw [if_neg hg, empty]
    rfl

theorem predicates_cons_of_not_isVoid {p : Predicate} (h : p.isVoid = false) (ps : List Predicate) :
    d.predicates (p :: ps) = d.predicateText p ++ d.continued (written ps) := by
  have void := mt (d.isVoid_iff p).2 (by simp [h])
  obtain ⟨hg, ht⟩ := not_or.1 void
  rw [predicates, predicatesAfter, predicate?_eq, if_neg hg]
  exact d.predicatesAfter_eq ps ht

/-- The members that a list writes: the first one that is not void, and all later ones but the void groups. -/
def spoken (ps : List Predicate) : List Predicate := written (ps.dropWhile isVoid)

/-- **On every level the text is that of its members with their connectives between them.** -/
theorem predicates_eq_chain (ps : List Predicate) : d.predicates ps = d.chain (spoken ps) := by
  induction ps with
  | nil => rfl
  | cons p ps ih =>
    by_cases h : p.isVoid
    · have dropped : (p :: ps).dropWhile isVoid = ps.dropWhile isVoid := List.dropWhile_cons_of_pos h
      rw [d.predicates_cons_of_isVoid h, ih, spoken, spoken, dropped]
    · have stays : (p :: ps).dropWhile isVoid = p :: ps := List.dropWhile_cons_of_neg h
      have group : ¬p.isVoidGroup := mt isVoid_of_isVoidGroup h
      have first : written (p :: ps) = p :: written ps := List.filter_cons_of_pos (by simp [group])
      rw [d.predicates_cons_of_not_isVoid (Bool.eq_false_iff.2 h), spoken, stays, first]
      rfl

end Dialect

/-! ## What void predicates leave behind -/

/-- The first text is the second one with some connectives left behind in it, each between two spaces. -/
inductive Leaves : String → String → List Connective → Prop
  | nothing (s : String) : Leaves s s []
  | stray (c : Connective) : Leaves (" " ++ c.word ++ " ") "" [c]
  | append {s s' t t' : String} {cs ds : List Connective} : Leaves s s' cs → Leaves t t' ds →
    Leaves (s ++ t) (s' ++ t') (cs ++ ds)

namespace Leaves

theorem length_le {s s' : String} {cs : List Connective} (h : Leaves s s' cs) :
    s'.length + 2 * cs.length ≤ s.length := by
  induction h with
  | nothing s => simp
  | stray c => cases c <;> decide
  | append _ _ first later =>
    simp only [String.length_append, List.length_append]
    omega

theorem eq_of_nil {s s' : String} {cs : List Connective} (h : Leaves s s' cs) (hc : cs = []) : s = s' := by
  induction h with
  | nothing s => rfl
  | stray c => cases hc
  | append _ _ first later =>
    obtain ⟨hcs, hds⟩ := List.append_eq_nil_iff.1 hc
    rw [first hcs, later hds]

/-- **The texts are the same exactly if no connective is left behind.** -/
theorem eq_iff {s s' : String} {cs : List Connective} (h : Leaves s s' cs) : s = s' ↔ cs = [] := by
  constructor
  · intro hs
    have length := h.length_le
    rw [hs] at length
    apply List.length_eq_zero_iff.1
    omega
  · intro hc
    exact h.eq_of_nil hc

theorem prepend {s s' : String} {cs : List Connective} (h : Leaves s s' cs) (t : String) :
    Leaves (t ++ s) (t ++ s') cs := by
  have both := (nothing t).append h
  rwa [List.nil_append] at both

end Leaves

namespace Dialect

variable (d : Dialect)

mutual

theorem leaves_predicateText : ∀ p : Predicate,
    Leaves (d.predicateText p) (d.predicateText p.pruned) p.stray
  | .test c t => .nothing _
  | .group c ps => by
    have inner := (leaves_predicates ps).prepend "("
    have both := inner.append (.nothing ")")
    rw [List.append_nil] at both
    exact both

/-- **A list of predicates is written as the pruned one, but for the connectives that raw SQL without text
leaves behind.** -/
theorem leaves_predicates : ∀ ps : List Predicate,
    Leaves (d.predicates ps) (d.predicates (prunedList ps)) (listStray false ps)
  | [] => .nothing _
  | p :: ps => by
    by_cases h : p.isVoid
    · have rest := leaves_predicates ps
      rw [d.predicates_cons_of_isVoid h, prunedList, if_pos h, listStray]
      simpa [stray_of_isVoid p h, h] using rest
    · have void := Bool.eq_false_iff.2 h
      have first := leaves_predicateText p
      have later := leaves_continued ps
      have pruned := d.predicates_cons_of_not_isVoid ((isVoid_pruned p).trans void) (prunedList ps)
      rw [d.predicates_cons_of_not_isVoid void, prunedList, if_neg h, pruned, written_prunedList, listStray]
      simpa [void] using first.append later

theorem leaves_continued : ∀ ps : List Predicate,
    Leaves (d.continued (written ps)) (d.continued (prunedList ps)) (listStray true ps)
  | [] => .nothing _
  | p :: ps => by
    have later := leaves_continued ps
    rw [listStray, prunedList]
    by_cases hg : p.isVoidGroup
    · -- a void group is passed over in both
      have h := isVoid_of_isVoidGroup hg
      have skipped : written (p :: ps) = written ps := List.filter_cons_of_neg (by simp [hg])
      rw [skipped, if_pos h]
      simpa [stray_of_isVoid p h, h, hg] using later
    · have kept : written (p :: ps) = p :: written ps := List.filter_cons_of_pos (by simp [hg])
      rw [kept, continued]
      by_cases h : p.isVoid
      · -- raw SQL without text is written as its connective alone
        have empty : d.predicateText p = "" := ((d.isVoid_iff p).1 h).resolve_left hg
        have alone := (Leaves.stray p.connective).append later
        rw [empty, if_pos h]
        simpa [h, hg] using alone
      · have first := (leaves_predicateText p).prepend (" " ++ p.connective.word ++ " ")
        rw [if_neg h, continued, connective_pruned]
        simpa [h] using first.append later

end

/-! ## Clauses -/

theorem predicateClause_eq (word : String) (ps : List Predicate) :
    d.predicateClause word ps = if allVoid ps then "" else word ++ " " ++ d.predicates ps := by
  have empty := d.predicates_eq_empty_iff ps
  unfold predicateClause
  by_cases h : allVoid ps
  · rw [if_pos h]
    exact if_pos (empty.2 h)
  · rw [if_neg h]
    exact if_neg (mt empty.1 h)

theorem joinClause_eq (kind : JoinKind) (table : String) (ps : List Predicate) :
    d.joinClause ⟨kind, table, ps⟩ = kind.word ++ " join " ++ d.table table ++
      if kind = .cross ∨ allVoid ps then "" else " on " ++ d.predicates ps := by
  have empty := d.predicates_eq_empty_iff ps
  unfold joinClause
  by_cases hk : kind = .cross
  · simp [hk]
  · by_cases h : allVoid ps
    · simp [hk, h, empty.2 h]
    · simp [hk, h, mt empty.1 h, String.append_assoc]

end Dialect

/-- **Predicates that say nothing leave no trace, but for raw SQL without text after something said.** Every
dialect writes predicates as the pruned ones exactly if no connective is left behind; otherwise these
connectives are all that is written besides. On every level the text is that of the members with their
connectives between them, the void groups left out, and the words of clauses stand exactly where a predicate is
not void. -/
theorem predicates_eq_pruned_iff (d : Dialect) (ps : List Predicate) :
    (d.predicates ps = d.predicates (prunedList ps) ↔ listStray false ps = []) ∧
    Leaves (d.predicates ps) (d.predicates (prunedList ps)) (listStray false ps) ∧
    d.predicates ps = d.chain (Dialect.spoken ps) ∧
    (∀ word, d.predicateClause word ps = if allVoid ps then "" else word ++ " " ++ d.predicates ps) ∧
    ∀ kind table, d.joinClause ⟨kind, table, ps⟩ = kind.word ++ " join " ++ d.table table ++
      if kind = .cross ∨ allVoid ps then "" else " on " ++ d.predicates ps := by
  have leaves := d.leaves_predicates ps
  exact ⟨leaves.eq_iff, leaves, d.predicates_eq_chain ps, fun word => d.predicateClause_eq word ps,
    fun kind table => d.joinClause_eq kind table ps⟩

/-- Raw SQL without text between two tests leaves a connective with nothing to connect. -/
theorem predicates_ne_pruned :
    let ps : List Predicate :=
      [.test .and (.isNull "a" false), .test .and (.raw "" []), .test .and (.isNull "b" false)]
    (Dialect.firebird {}).predicates ps = "\"a\" is null and  and \"b\" is null" ∧
    (Dialect.firebird {}).predicates (prunedList ps) = "\"a\" is null and \"b\" is null" ∧
    (Dialect.firebird {}).predicates ps ≠ (Dialect.firebird {}).predicates (prunedList ps) := by
  decide

end SqlGrammar
