import SqlGrammar.Proofs.Accepting
import SqlGrammar.Proofs.RoundTrip

/-!
How deep the queries nest that are read from a text. A predicate needs some levels of lists and records to be
said in JSON (`Predicate.needed`), and a predicate that was read needs no more of them than were left where it
stood (`predicateOf_eq_ok`); so an accepted query fits into the levels that a text may have
(`Query.fitsIn_of_ofText`).

It is not always written with as few. Raw SQL can be said without the values it binds, and is then written with
an empty list of them. This list is one level more than the text may have had, exactly if the raw SQL stood
in the innermost place of all (`Predicate.depth_le_iff`, `Query.depth_le_iff`).
-/

namespace SqlGrammar

open Json

/-! ## Values -/

/-- The value is neither a date nor a timestamp, and its JSON nests at most so deep. -/
structure Value.FitsIn (n : Nat) (v : Value) : Prop where
  restored : v.restored = v
  depth : v.toJson.depth ≤ n

structure Value.AllFitIn (n : Nat) (vs : List Value) : Prop where
  restored : ∀ v ∈ vs, v.restored = v
  depth : itemsDepth (vs.map Value.toJson) < n

namespace Schema

theorem value_eq_ok {j : Json} {v : Value} (h : value j = .ok v) : v.FitsIn j.depth := by
  cases j with
  | null => cases h; exact ⟨rfl, Nat.le_refl _⟩
  | bool b => cases h; exact ⟨rfl, Nat.le_refl _⟩
  | string s => cases h; exact ⟨rfl, Nat.le_refl _⟩
  | list items => cases h
  | number n =>
    have flat (d : Double) : (Value.float d).toJson.depth ≤ 0 := by
      rw [Value.toJson]
      split <;> exact Nat.le_refl _
    cases n with
    | float d => cases h; exact ⟨rfl, flat d⟩
    | integer n =>
      rw [value] at h
      split at h
      · cases h; exact ⟨rfl, Nat.le_refl _⟩
      · cases h; exact ⟨rfl, flat _⟩
  | record members =>
    rw [value] at h
    split at h
    · cases h
      refine ⟨rfl, ?_⟩
      show (0 : Nat) + 1 ≤ membersDepth members + 1
      omega
    · cases h

theorem values_eq_ok {j : Json} {vs : List Value} (h : list value j = .ok vs) : Value.AllFitIn j.depth vs := by
  obtain ⟨items, rfl, read⟩ := list_eq_ok h
  refine ⟨fun v hv => ?_, Nat.lt_succ_of_le ((itemsDepth_le _).2 fun j hj => ?_)⟩
  · obtain ⟨i, -, value⟩ := read v hv
    exact (value_eq_ok value).restored
  · obtain ⟨v, hv, rfl⟩ := List.mem_map.1 hj
    obtain ⟨i, hi, value⟩ := read v hv
    exact Nat.le_trans (value_eq_ok value).depth (depth_le_itemsDepth hi)

end Schema

/-! ## Predicates -/

/-- The levels of nesting below a test that its JSON cannot do without: values to bind in raw SQL can be left
out if there are none. -/
def Test.needed : Test → Nat
  | .compare _ _ v => v.toJson.depth
  | .columns .. => 0
  | .oneOf _ vs _ => itemsDepth (vs.map Value.toJson) + 1
  | .isNull .. => 0
  | .between _ low high _ => max low.toJson.depth high.toJson.depth
  | .raw _ [] => 0
  | .raw _ vs => itemsDepth (vs.map Value.toJson) + 1

namespace Predicate

mutual

def needed : Predicate → Nat
  | test _ t => t.needed + 1
  | group _ ps => listNeeded ps + 2

def listNeeded : List Predicate → Nat
  | [] => 0
  | p :: ps => max p.needed (listNeeded ps)

end

theorem listNeeded_le {n : Nat} (ps : List Predicate) : listNeeded ps ≤ n ↔ ∀ p ∈ ps, p.needed ≤ n := by
  induction ps with
  | nil => simp [listNeeded]
  | cons p ps ih => rw [listNeeded, Nat.max_le, ih, List.forall_mem_cons]

/-- The predicate binds neither dates nor timestamps and can be said in JSON that nests at most so deep. -/
structure FitsIn (n : Nat) (p : Predicate) : Prop where
  restored : ∀ v ∈ p.bindings, v.restored = v
  needed : p.needed ≤ n

theorem FitsIn.mono {m n : Nat} {p : Predicate} (h : p.FitsIn m) (hmn : m ≤ n) : p.FitsIn n :=
  ⟨h.restored, Nat.le_trans h.needed hmn⟩

end Predicate

namespace Schema

section Parts

variable {s : Source Json} {n number : Nat} {name : String}

theorem value_field (hs : ∀ j ∈ s.parts, j.depth ≤ n) {v : Value} (h : field number name value none s = .ok v) :
    v.FitsIn n := by
  obtain ⟨j, hj, value⟩ | none := field_eq_ok h
  · have fits := value_eq_ok value
    exact ⟨fits.restored, Nat.le_trans fits.depth (hs j hj)⟩
  · cases none

theorem values_field (hs : ∀ j ∈ s.parts, j.depth ≤ n) {default? : Option (List Value)} {vs : List Value}
    (h : field number name (list value) default? s = .ok vs) : Value.AllFitIn n vs ∨ default? = some vs := by
  refine (field_eq_ok h).imp_left ?_
  rintro ⟨j, hj, values⟩
  have fits := values_eq_ok values
  exact ⟨fits.restored, Nat.lt_of_lt_of_le fits.depth (hs j hj)⟩

/-- **A predicate is said no deeper than its parts**, if its members are. -/
theorem parts_eq_ok {member : Json → Except ReadError Predicate} {kind : Kind} {p : Predicate}
    (hm : ∀ j p, member j = .ok p → p.FitsIn j.depth) (hs : ∀ j ∈ s.parts, j.depth ≤ n)
    (h : parts member s kind = .ok p) : p.FitsIn (n + 1) := by
  cases kind with
  | compare =>
    simp only [parts, Placed.seq_eq_ok, Placed.map_eq_ok] at h
    obtain ⟨-, c, ⟨-, v, ⟨-, operator, ⟨column, -, rfl⟩, -, rfl⟩, hv, rfl⟩, -, rfl⟩ := h
    have value := value_field hs hv
    refine ⟨?_, Nat.succ_le_succ value.depth⟩
    simpa [Predicate.bindings, Test.bindings] using value.restored
  | columns =>
    simp only [parts, Placed.seq_eq_ok, Placed.map_eq_ok] at h
    obtain ⟨-, c, ⟨-, second, ⟨-, operator, ⟨first, -, rfl⟩, -, rfl⟩, -, rfl⟩, -, rfl⟩ := h
    exact ⟨by simp [Predicate.bindings, Test.bindings], Nat.succ_le_succ (Nat.zero_le n)⟩
  | oneOf =>
    simp only [parts, Placed.seq_eq_ok, Placed.map_eq_ok] at h
    obtain ⟨-, c, ⟨-, negated, ⟨-, vs, ⟨column, -, rfl⟩, hvs, rfl⟩, -, rfl⟩, -, rfl⟩ := h
    obtain values | none := values_field hs hvs
    · exact ⟨values.restored, Nat.succ_le_succ values.depth⟩
    · cases none
  | isNull =>
    simp only [parts, Placed.seq_eq_ok, Placed.map_eq_ok] at h
    obtain ⟨-, c, ⟨-, negated, ⟨column, -, rfl⟩, -, rfl⟩, -, rfl⟩ := h
    exact ⟨by simp [Predicate.bindings, Test.bindings], Nat.succ_le_succ (Nat.zero_le n)⟩
  | between =>
    simp only [parts, Placed.seq_eq_ok, Placed.map_eq_ok] at h
    obtain ⟨-, c, ⟨-, negated, ⟨-, high, ⟨-, low, ⟨column, -, rfl⟩, hl, rfl⟩, hh, rfl⟩, -, rfl⟩, -, rfl⟩ := h
    have lower := value_field hs hl
    have upper := value_field hs hh
    refine ⟨?_, Nat.succ_le_succ (Nat.max_le.2 ⟨lower.depth, upper.depth⟩)⟩
    simpa [Predicate.bindings, Test.bindings] using ⟨lower.restored, upper.restored⟩
  | group =>
    simp only [parts, Placed.seq_eq_ok, Placed.map_eq_ok] at h
    obtain ⟨-, c, ⟨ps, hps, rfl⟩, -, rfl⟩ := h
    obtain ⟨j, hj, list⟩ | none := field_eq_ok hps
    · obtain ⟨items, rfl, read⟩ := list_eq_ok list
      have room : itemsDepth items + 1 ≤ n := hs _ hj
      have fits : ∀ p ∈ ps, p.FitsIn (itemsDepth items) := by
        intro p hp
        obtain ⟨i, hi, value⟩ := read p hp
        exact (hm i p value).mono (depth_le_itemsDepth hi)
      refine ⟨fun v hv => ?_, ?_⟩
      · rw [Predicate.bindings, Predicate.listBindings_eq_flatMap] at hv
        obtain ⟨p, hp, hv⟩ := List.mem_flatMap.1 hv
        exact (fits p hp).restored v hv
      · have deepest := (Predicate.listNeeded_le ps).2 fun p hp => (fits p hp).needed
        rw [Predicate.needed]
        omega
    · cases none
  | raw =>
    simp only [parts, Placed.seq_eq_ok, Placed.map_eq_ok] at h
    obtain ⟨-, c, ⟨-, vs, ⟨sql, -, rfl⟩, hvs, rfl⟩, -, rfl⟩ := h
    cases vs with
    | nil => exact ⟨by simp [Predicate.bindings, Test.bindings], Nat.succ_le_succ (Nat.zero_le n)⟩
    | cons v vs =>
      obtain values | none := values_field hs hvs
      · exact ⟨values.restored, Nat.succ_le_succ values.depth⟩
      · cases none

end Parts

theorem ofParts_eq_ok {member : Json → Except ReadError Predicate} {kind : Kind} {s : Source Json} {n : Nat}
    {p : Predicate} (hm : ∀ j p, member j = .ok p → p.FitsIn j.depth) (hs : ∀ j ∈ s.parts, j.depth ≤ n)
    (h : ofParts member kind s = .ok p) : p.FitsIn (n + 1) := by
  cases s with
  | named members => exact parts_eq_ok hm hs (Placed.result_eq_ok.1 h)
  | listed items form =>
    obtain ⟨parts, -⟩ := Placed.seqLeft_eq_ok.1 (Placed.result_eq_ok.1 h)
    refine parts_eq_ok hm ?_ parts
    exact hs

theorem predicate_eq_ok {depth : Nat} {j : Json} {p : Predicate} (h : predicate depth j = .ok p) :
    p.FitsIn j.depth := by
  induction depth generalizing j p with
  | zero => cases h
  | succ depth ih =>
    cases j with
    | record members =>
      obtain ⟨kind, -, parts⟩ := bind_eq_ok.1 h
      refine ofParts_eq_ok (fun _ _ => ih) (fun j hj => ?_) parts
      obtain ⟨m, hm, rfl⟩ := List.mem_map.1 hj
      exact depth_le_membersDepth (List.mem_of_mem_filter hm)
    | list items =>
      cases items with
      | nil => cases h
      | cons tag items =>
        obtain ⟨kind, -, parts⟩ := bind_eq_ok.1 h
        refine ofParts_eq_ok (fun _ _ => ih) (fun j hj => ?_) parts
        exact depth_le_itemsDepth (List.mem_cons_of_mem _ hj)
    | _ => cases h

/-! ## Predicates and queries in a text -/

theorem untaggedMembers_eq_ok {room place : Nat} {given : List (String × Outline)}
    {members : List (String × Json)} (h : untaggedMembers room place given = .ok members) :
    ∀ m ∈ members, m.2.depth ≤ room := by
  induction given generalizing place members with
  | nil =>
    cases h
    simp
  | cons m ms ih =>
    obtain ⟨k, o⟩ := m
    rw [untaggedMembers] at h
    split at h
    · exact ih h
    · obtain ⟨_, rest, first, later, rfl⟩ := Placed.seq_eq_ok.1 h
      obtain ⟨j, strict, rfl⟩ := Placed.map_eq_ok.1 first
      rintro m (_ | ⟨_, hm⟩)
      · exact depth_le_of_strict o (Placed.look_eq_ok.1 strict)
      · exact ih later m hm

/-- **A predicate is said with the levels of nesting that were left for its text.** -/
theorem predicateOf_eq_ok {room : Nat} {o : Outline} {p : Predicate} (h : predicateOf room o = .ok p) :
    p.FitsIn room := by
  cases o with
  | record given stop =>
    cases room with
    | zero => cases h
    | succ room =>
      obtain ⟨⟨kind, members⟩, read, parts⟩ := bind_eq_ok.1 h
      obtain ⟨both, -⟩ := Placed.seqLeft_eq_ok.1 (Placed.result_eq_ok.1 read)
      obtain ⟨_, ms, tag, others, same⟩ := Placed.seq_eq_ok.1 both
      obtain ⟨k, -, rfl⟩ := Placed.map_eq_ok.1 tag
      cases same
      -- the parts are read with fresh levels: what bounds them is the look at the text before
      refine ofParts_eq_ok (fun _ _ => predicate_eq_ok) (fun j hj => ?_) parts
      obtain ⟨m, hm, rfl⟩ := List.mem_map.1 hj
      exact untaggedMembers_eq_ok others m hm
  | list items stop =>
    cases room with
    | zero => cases h
    | succ room =>
      cases items with
      | nil =>
        obtain ⟨-, -, untagged⟩ := bind_eq_ok.1 h
        cases untagged
      | cons tag items =>
        obtain ⟨kind, -, h⟩ := bind_eq_ok.1 h
        obtain ⟨js, strict, h⟩ := bind_eq_ok.1 h
        obtain ⟨-, -, parts⟩ := bind_eq_ok.1 h
        have items := itemsDepth_le_of_strictItems items (looked_eq_ok.1 strict)
        refine ofParts_eq_ok (fun _ _ => predicate_eq_ok) ?_ parts
        exact (itemsDepth_le _).1 items
  | _ => cases h

theorem joinOf_eq_ok {room : Nat} {o : Outline} {j : Join} (h : joinOf room o = .ok j) :
    ∀ p ∈ j.conditions, p.FitsIn (room - 2) := by
  obtain ⟨r, s, rfl, read⟩ := formOf_eq_ok h
  simp only [Placed.seq_eq_ok, Placed.map_eq_ok] at read
  obtain ⟨-, on, ⟨-, table, ⟨kind, -, rfl⟩, -, rfl⟩, conditions, rfl⟩ := read
  intro p hp
  obtain ⟨r, i, rfl, value⟩ := listOf_field conditions p hp
  exact predicateOf_eq_ok value

end Schema

/-- The filters, the having conditions and the join conditions of a query can be said with so many levels of
nesting for all of it, and bind neither dates nor timestamps. -/
structure Query.FitsIn (room : Nat) (q : Query) : Prop where
  filters : ∀ p ∈ q.filters, p.FitsIn (room - 2)
  havings : ∀ p ∈ q.havings, p.FitsIn (room - 2)
  conditions : ∀ p ∈ q.joins.flatMap Join.conditions, p.FitsIn (room - 4)

namespace Schema

/-- **A query is said with the levels of nesting that were left for its text**: a list and its record take two
of them, and those of a join two more. -/
theorem queryOf_eq_ok {room : Nat} {o : Outline} {q : Query} (h : queryOf room o = .ok q) : q.FitsIn room := by
  obtain ⟨r, s, rfl, read⟩ := formOf_eq_ok h
  simp only [Placed.seq_eq_ok, Placed.map_eq_ok] at read
  obtain ⟨-, orders, ⟨-, havings, ⟨-, groups, ⟨-, filters, ⟨-, joins, ⟨-, offset, ⟨-, limit, ⟨-, distinct,
    ⟨-, aggregate, ⟨-, columns, ⟨table, -, rfl⟩, -, rfl⟩, -, rfl⟩, -, rfl⟩, -, rfl⟩, -, rfl⟩, hj, rfl⟩,
    hf, rfl⟩, -, rfl⟩, hh, rfl⟩, -, rfl⟩ := read
  refine ⟨fun p hp => ?_, fun p hp => ?_, fun p hp => ?_⟩
  · obtain ⟨r, i, rfl, value⟩ := listOf_field hf p hp
    exact predicateOf_eq_ok value
  · obtain ⟨r, i, rfl, value⟩ := listOf_field hh p hp
    exact predicateOf_eq_ok value
  · obtain ⟨j, hj', hp⟩ := List.mem_flatMap.1 hp
    obtain ⟨r, i, rfl, value⟩ := listOf_field hj j hj'
    exact joinOf_eq_ok value p hp

end Schema

theorem Query.fitsIn_of_ofText {t : String} {q : Query} (h : Query.ofText t = .ok q) :
    q.FitsIn Outline.maxDepth := by
  rw [Query.ofText, Schema.readText] at h
  split at h
  split at h
  · cases h
  · next read =>
    split at h
    · cases h
      exact Schema.queryOf_eq_ok read
    · cases h

/-! ## How deep a predicate is written -/

namespace Predicate

mutual

/-- Raw SQL without values to bind stands within exactly so many groups of the predicate. -/
def bareRawAt : Nat → Predicate → Bool
  | 0, test _ (.raw _ []) => true
  | n + 1, group _ ps => listBareRawAt n ps
  | _, _ => false

def listBareRawAt : Nat → List Predicate → Bool
  | _, [] => false
  | n, p :: ps => bareRawAt n p || listBareRawAt n ps

end

theorem listBareRawAt_eq_any (n : Nat) (ps : List Predicate) : listBareRawAt n ps = ps.any (bareRawAt n) := by
  induction ps with
  | nil => rfl
  | cons p ps ih => rw [listBareRawAt, ih, List.any_cons]

theorem listJson_eq_map (ps : List Predicate) : listJson ps = ps.map toJson := by
  induction ps with
  | nil => rfl
  | cons p ps ih => rw [listJson, ih, List.map_cons]

/-- Raw SQL without values to bind is written one level deeper than it can be said, with an empty list; every
other test is written as it is said. -/
theorem depth_test (c : Connective) (t : Test) :
    (test c t).toJson.depth = if (test c t).bareRawAt 0 then 2 else t.needed + 1 := by
  cases t with
  | compare column operator v =>
    show membersDepth _ + 1 = _
    simp [Test.members, membersDepth, depth, bareRawAt, Test.needed]
  | columns first operator second => rfl
  | oneOf column vs negated =>
    show membersDepth _ + 1 = _
    simp [Test.members, membersDepth, depth, bareRawAt, Test.needed]
  | isNull column negated => rfl
  | between column low high negated =>
    show membersDepth _ + 1 = _
    simp [Test.members, membersDepth, depth, bareRawAt, Test.needed]
  | raw sql vs =>
    show membersDepth _ + 1 = _
    cases vs with
    | nil => rfl
    | cons v vs => simp [Test.members, membersDepth, depth, bareRawAt, Test.needed]

theorem depth_group (c : Connective) (ps : List Predicate) :
    (group c ps).toJson.depth = itemsDepth (ps.map toJson) + 2 := by
  rw [← listJson_eq_map]
  show max 0 (max (itemsDepth (listJson ps) + 1) (max 0 0)) + 1 = _
  omega

/-- **What is written too deep.** A predicate that can be said within `n` groups and one test is written so, but
for raw SQL without values to bind within all `n` groups. -/
theorem depth_le_iff {n : Nat} {p : Predicate} (h : p.needed ≤ 2 * n + 1) :
    p.toJson.depth ≤ 2 * n + 1 ↔ p.bareRawAt n = false := by
  induction n generalizing p with
  | zero =>
    cases p with
    | group c ps =>
      rw [needed] at h
      omega
    | test c t =>
      rw [needed] at h
      rw [depth_test]
      split
      · next bare => simp [bare]
      · next bare => simp [bare, h]
  | succ n ih =>
    cases p with
    | test c t =>
      rw [needed] at h
      have shallow : (test c t).toJson.depth ≤ 2 * (n + 1) + 1 := by
        rw [depth_test]
        split <;> omega
      exact iff_of_true shallow rfl
    | group c ps =>
      rw [needed] at h
      have members := (listNeeded_le (n := 2 * n + 1) ps).1 (by omega)
      have inner : (group c ps).toJson.depth ≤ 2 * (n + 1) + 1 ↔ itemsDepth (ps.map toJson) ≤ 2 * n + 1 := by
        rw [depth_group]
        omega
      rw [inner, itemsDepth_le, List.forall_mem_map, bareRawAt, listBareRawAt_eq_any, List.any_eq_false]
      refine forall₂_congr fun p hp => ?_
      rw [ih (members p hp), Bool.not_eq_true]

end Predicate

/-! ## How deep a query is written -/

theorem Json.depth_strings (texts : List String) : (strings texts).depth ≤ 1 := by
  refine Nat.succ_le_succ ((itemsDepth_le _).2 fun j hj => ?_)
  obtain ⟨s, -, rfl⟩ := List.mem_map.1 hj
  exact Nat.le_refl 0

theorem Json.depth_list_map_le {α : Type} {write : α → Json} {xs : List α} {n : Nat} :
    (list (xs.map write)).depth ≤ n + 1 ↔ ∀ x ∈ xs, (write x).depth ≤ n := by
  rw [depth, Nat.add_le_add_iff_right, itemsDepth_le, List.forall_mem_map]

namespace Query

theorem depth_join_le {j : Join} {n : Nat} :
    j.toJson.depth ≤ n + 2 ↔ ∀ p ∈ j.conditions, p.toJson.depth ≤ n := by
  rw [Join.toJson, depth, Nat.add_le_add_iff_right, membersDepth_le, List.forall_mem_cons,
    List.forall_mem_cons, List.forall_mem_singleton, depth_list_map_le]
  simp [depth]

theorem depth_toJson_le {q : Query} {n : Nat} :
    q.toJson.depth ≤ n + 4 ↔
      (∀ p ∈ q.filters ++ q.havings, p.toJson.depth ≤ n + 2) ∧
        ∀ p ∈ q.joins.flatMap Join.conditions, p.toJson.depth ≤ n := by
  have texts (l : List String) : (strings l).depth ≤ n + 3 := Nat.le_trans (depth_strings l) (by omega)
  have aggregate : (Json.optional (q.aggregate.map Aggregate.toJson)).depth ≤ n + 3 := by
    cases q.aggregate with
    | none => exact Nat.zero_le _
    | some a =>
      have columns := depth_strings a.columns
      show max 0 (max (strings a.columns).depth 0) + 1 ≤ n + 3
      omega
  have count (c : Option UInt64) : (countJson c).depth ≤ n + 3 := by
    cases c <;> exact Nat.zero_le _
  have orders : (Json.list (q.orders.map Order.toJson)).depth ≤ n + 3 := by
    refine depth_list_map_le.2 fun o _ => ?_
    cases o <;> simp [Order.toJson, depth, membersDepth]
  have joins : (Json.list (q.joins.map Join.toJson)).depth ≤ n + 3 ↔
      ∀ p ∈ q.joins.flatMap Join.conditions, p.toJson.depth ≤ n := by
    rw [depth_list_map_le, List.forall_mem_flatMap]
    exact forall₂_congr fun j _ => depth_join_le
  have clause (ps : List Predicate) : (Json.list (ps.map Predicate.toJson)).depth ≤ n + 3 ↔
      ∀ p ∈ ps, p.toJson.depth ≤ n + 2 := depth_list_map_le
  rw [toJson_eq, depth, Nat.add_le_add_iff_right, membersDepth_le]
  simp only [members, List.forall_mem_cons, joins, clause, texts, aggregate, count, orders,
    List.forall_mem_append]
  simp [depth]
  tauto

/-- Raw SQL without values to bind stands as deep as a text can nest: within 62 groups of a filter or a having
condition, or within 61 groups of a join condition. -/
def bareRawAtLimit (q : Query) : Bool :=
  (q.filters ++ q.havings).any (Predicate.bareRawAt 62) ||
    (q.joins.flatMap Join.conditions).any (Predicate.bareRawAt 61)

/-- **Which accepted queries are written too deep.** -/
theorem depth_le_iff {q : Query} (h : q.FitsIn Outline.maxDepth) :
    q.toJson.depth ≤ Outline.maxDepth ↔ q.bareRawAtLimit = false := by
  have filters : ∀ p ∈ q.filters ++ q.havings, p.needed ≤ 2 * 62 + 1 :=
    List.forall_mem_append.2 ⟨fun p hp => (h.filters p hp).needed, fun p hp => (h.havings p hp).needed⟩
  have conditions : ∀ p ∈ q.joins.flatMap Join.conditions, p.needed ≤ 2 * 61 + 1 :=
    fun p hp => (h.conditions p hp).needed
  rw [bareRawAtLimit, Bool.or_eq_false_iff, List.any_eq_false, List.any_eq_false]
  refine (depth_toJson_le (n := 123)).trans (and_congr ?_ ?_)
  · refine forall₂_congr fun p hp => ?_
    rw [Bool.not_eq_true]
    exact Predicate.depth_le_iff (filters p hp)
  · refine forall₂_congr fun p hp => ?_
    rw [Bool.not_eq_true]
    exact Predicate.depth_le_iff (conditions p hp)

end Query

end SqlGrammar
