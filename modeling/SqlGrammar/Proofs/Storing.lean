import SqlGrammar.Proofs.Nesting

/-!
Storing a query that was read from a text, and reading it again.

1. The text of a query is read back exactly if it nests no deeper than a text may (`ofText_text`).
2. A query that was read holds neither dates nor timestamps, so that reading it again changes nothing
   (`Query.FitsIn.mapValues_restored`).
3. So an accepted query can be stored and read again, unless raw SQL stands as deep as a text can nest and was
   said without values to bind: it is written with an empty list of them, one level too deep
   (`ofText_toJson_ofText`, `refused_of_omitted_bindings`).

Of the numbers that a query binds, this is about those in the range of 64 bits that are written without point and
power. They are read as integers, but `-0` as the double that it is.
-/

namespace SqlGrammar

open Json

/-! ## Values that stay as they are -/

theorem Test.mapValues_eq_self {f : Value → Value} {t : Test} (h : ∀ v ∈ t.bindings, f v = v) :
    t.mapValues f = t := by
  have list {vs : List Value} (hv : ∀ v ∈ vs, f v = v) : vs.map f = vs :=
    (List.map_congr_left hv).trans (List.map_id vs)
  cases t with
  | compare column operator v => exact congrArg (compare column operator) (h v (by simp [bindings]))
  | columns first operator second => rfl
  | oneOf column vs negated => exact congrArg (fun vs => oneOf column vs negated) (list h)
  | isNull column negated => rfl
  | between column low high negated =>
    exact congrArg₂ (fun low high => between column low high negated) (h low (by simp [bindings]))
      (h high (by simp [bindings]))
  | raw sql vs => exact congrArg (raw sql) (list h)

namespace Predicate

mutual

theorem mapTests_eq_self {f : Value → Value} : ∀ p : Predicate, (∀ v ∈ p.bindings, f v = v) →
    p.mapTests (Test.mapValues f) = p
  | test c _, h => congrArg (test c) (Test.mapValues_eq_self h)
  | group c ps, h => congrArg (group c) (mapListTests_eq_self ps h)

theorem mapListTests_eq_self {f : Value → Value} : ∀ ps : List Predicate,
    (∀ v ∈ listBindings ps, f v = v) → mapListTests (Test.mapValues f) ps = ps
  | [], _ => rfl
  | p :: ps, h => congrArg₂ List.cons (mapTests_eq_self p fun v hv => h v (List.mem_append_left _ hv))
      (mapListTests_eq_self ps fun v hv => h v (List.mem_append_right _ hv))

end

end Predicate

namespace Query

theorem FitsIn.mapValues_restored {room : Nat} {q : Query} (h : q.FitsIn room) :
    q.mapValues Value.restored = q := by
  have clause {ps : List Predicate} (hp : ∀ p ∈ ps, ∀ v ∈ p.bindings, v.restored = v) :
      Predicate.mapListTests (Test.mapValues Value.restored) ps = ps := by
    refine Predicate.mapListTests_eq_self ps fun v hv => ?_
    rw [Predicate.listBindings_eq_flatMap] at hv
    obtain ⟨p, hm, hv⟩ := List.mem_flatMap.1 hv
    exact hp p hm v hv
  have joins : (q.joins.map fun j =>
      { j with conditions := Predicate.mapListTests (Test.mapValues Value.restored) j.conditions }) = q.joins := by
    refine (List.map_congr_left fun j hj => ?_).trans (List.map_id _)
    have conditions := clause fun p hp => (h.conditions p (List.mem_flatMap.2 ⟨j, hj, hp⟩)).restored
    rw [conditions]
    rfl
  rw [mapValues, joins, clause fun p hp => (h.filters p hp).restored,
    clause fun p hp => (h.havings p hp).restored]

end Query

/-! ## Storing -/

/-- **The text of a query is read back exactly if it nests no deeper than a text may**, and refused as too deep if
it does. -/
theorem ofText_text {q : Query} (hv : ∀ v ∈ q.values, v.isExact) :
    Query.ofText q.toJson.text =
      if q.toJson.depth ≤ Outline.maxDepth then .ok (q.mapValues Value.restored)
      else .error (.malformed .tooDeep) := by
  have scanned := outline_chars (whole_exact_query hv)
  have weighs := Schema.weighs_query hv
  rw [Query.ofText, Schema.readText, Json.text, String.toList_ofList, scanned]
  by_cases hd : q.toJson.depth ≤ Outline.maxDepth
  · have read := weighs.reads Outline.maxDepth (Nat.le_refl _) hd
    rw [if_pos hd]
    simp only [read]
    rfl
  · have refused := weighs.refuses Outline.maxDepth (Nat.le_refl _) (Nat.lt_of_not_le hd)
    rw [if_neg hd]
    simp only [refused]

/-- **An accepted query can be stored and read again, but for one case.** Whatever text a query was read from, its
own text is read as the same query, or refused as too deep, exactly if raw SQL without values to bind stands as
deep as a text can nest. -/
theorem ofText_toJson_ofText {t : String} {q : Query} (h : Query.ofText t = .ok q)
    (hv : ∀ v ∈ q.values, v.isExact) :
    Query.ofText q.toJson.text = if q.bareRawAtLimit then .error (.malformed .tooDeep) else .ok q := by
  have fits := Query.fitsIn_of_ofText h
  have shallow := Query.depth_le_iff fits
  rw [ofText_text hv, fits.mapValues_restored]
  cases bare : q.bareRawAtLimit with
  | true =>
    rw [if_neg (by simp [shallow, bare])]
    rfl
  | false =>
    rw [if_pos (shallow.2 bare)]
    rfl

/-- Unknown members, parts as lists and in any order, a limit as a text, and `-0`. -/
theorem ofText_toJson_ofText_of_spellings :
    let t := "\x7b\"note\":[[1.5]],\"table\":\"t\",\"limit\":\" 7\",\"wheres\":" ++
      "[[\"nested\",[\x7b\"sql\":\"a\",\"type\":\"raw\"\x7d]],[\"basic\",\"b\",\"=\",-0]]\x7d"
    let q : Query :=
      { table := "t", limit := some 7
        filters := [.group .and [.test .and (.raw "a" [])],
          .test .and (.compare "b" "=" (.float Double.zero.neg))] }
    Query.ofText t = .ok q ∧ (∀ v ∈ q.values, v.isExact) ∧ Query.ofText q.toJson.text = .ok q := by
  intro t q
  have read : Query.ofText t = .ok q := by decide +kernel
  have exact : ∀ v ∈ q.values, v.isExact := by decide
  exact ⟨read, exact, ofText_toJson_ofText read exact⟩

/-- Raw SQL within so many groups, as briefly as JSON can say it. -/
def Json.rawWithin : Nat → Json
  | 0 => .record [("type", .string "raw"), ("sql", .string "x")]
  | n + 1 => .record [("type", .string "nested"), ("wheres", .list [rawWithin n])]

def Predicate.rawWithin : Nat → Predicate
  | 0 => .test .and (.raw "x" [])
  | n + 1 => .group .and [rawWithin n]

theorem Json.whole_rawWithin : ∀ n : Nat, (Json.rawWithin n).Whole
  | 0 => ⟨trivial, trivial, trivial⟩
  | n + 1 => ⟨trivial, ⟨whole_rawWithin n, trivial⟩, trivial⟩

/-- Within 62 groups such raw SQL is accepted as a filter, and what is written for it is not. -/
theorem refused_of_omitted_bindings :
    let t := (Json.record [("wheres", .list [Json.rawWithin 62])]).text
    let q : Query := { filters := [Predicate.rawWithin 62] }
    Query.ofText t = .ok q ∧ (∀ v ∈ q.values, v.isExact) ∧
      Query.ofText q.toJson.text = .error (.malformed .tooDeep) := by
  intro t q
  have exact : ∀ v ∈ q.values, v.isExact := by decide +kernel
  have whole : (Json.record [("wheres", .list [Json.rawWithin 62])]).Whole :=
    ⟨⟨Json.whole_rawWithin 62, trivial⟩, trivial⟩
  have scanned : outline t.toList = (toOutline (.record [("wheres", .list [Json.rawWithin 62])]), []) := by
    show outline (String.ofList _).toList = _
    rw [String.toList_ofList]
    exact outline_chars whole
  have read : Schema.queryOf Outline.maxDepth
      (toOutline (.record [("wheres", .list [Json.rawWithin 62])])) = .ok q := by decide +kernel
  refine ⟨?_, exact, ?_⟩
  · rw [Query.ofText, Schema.readText, scanned]
    simp only [read]
    rfl
  · rw [ofText_text exact, if_neg (by decide +kernel)]

end SqlGrammar
