import Mathlib.Data.List.Nodup
import Mathlib.Logic.Relation
import SqlGrammar.Proofs.AddedMember
import SqlGrammar.Proofs.RoundTrip

/-!
Edits of a JSON text that should not matter to who reads a query from it (`Edit`): the members of a record in another
order, and a member that tells its default left out or written out. They may stand anywhere, in records within lists
and records. What a member has for its default depends on what the record stands for (`Role`), and that depends on
where it stands; where nothing is known of a record only its order can change.

An edit can be undone (`Edit.symm`), so it is enough to follow it in one direction. It turns data into data
(`Edit.isData`) and what can be passed by into what can be passed by (`Edit.skip`). Of the nesting it changes
no more than an empty list that comes or goes, and so the nesting apart from empty lists stays (`Edit.reach`).

A reader of records meets an edit in one of its fields. So the edit of a record is turned into an edit of the source
of the fields (`SourceEdit`, `Edit.named`), and a field that keeps what it reads keeps the field (`field_edited`).
-/

namespace SqlGrammar

open Json

/-! ## Nesting -/

namespace Json.Outline

mutual

/-- How deep lists and records nest, where an empty list counts for so many levels. -/
def nesting (empty : Nat) : Outline → Nat
  | list items _ => if items.isEmpty then empty else itemsNesting empty items + 1
  | record members _ => membersNesting empty members + 1
  | _ => 0

def itemsNesting (empty : Nat) : List Outline → Nat
  | [] => 0
  | o :: os => max (nesting empty o) (itemsNesting empty os)

def membersNesting (empty : Nat) : List (Key × Outline) → Nat
  | [] => 0
  | (_, o) :: ms => max (nesting empty o) (membersNesting empty ms)

end

def depth (o : Outline) : Nat := o.nesting 1

/-- How deep they nest apart from empty lists. -/
def reach (o : Outline) : Nat := o.nesting 0

theorem itemsNesting_le {empty n : Nat} : ∀ items : List Outline,
    itemsNesting empty items ≤ n ↔ ∀ o ∈ items, o.nesting empty ≤ n
  | [] => by simp [itemsNesting]
  | o :: os => by rw [itemsNesting, Nat.max_le, itemsNesting_le os, List.forall_mem_cons]

theorem membersNesting_le {empty n : Nat} : ∀ members : List (Key × Outline),
    membersNesting empty members ≤ n ↔ ∀ m ∈ members, m.2.nesting empty ≤ n
  | [] => by simp [membersNesting]
  | (_, o) :: ms => by rw [membersNesting, Nat.max_le, membersNesting_le ms, List.forall_mem_cons]

theorem depth_list_le {items : List Outline} {stop : ListStop} {n : Nat} :
    (list items stop).depth ≤ n + 1 ↔ ∀ o ∈ items, o.depth ≤ n := by
  cases items with
  | nil => simp [depth, nesting]
  | cons o os =>
    rw [depth, nesting, if_neg (by simp), Nat.add_le_add_iff_right, itemsNesting_le]
    rfl

theorem depth_record_le {members : List (Key × Outline)} {stop : RecordStop} {n : Nat} :
    (record members stop).depth ≤ n + 1 ↔ ∀ m ∈ members, m.2.depth ≤ n := by
  rw [depth, nesting, Nat.add_le_add_iff_right, membersNesting_le]
  rfl

mutual

theorem reach_depth : ∀ o : Outline, o.reach ≤ o.depth ∧ o.depth ≤ o.reach + 1
  | list [] _ => ⟨Nat.zero_le 1, Nat.le_refl 1⟩
  | list (o :: os) _ => (itemsNesting_zero_one (o :: os)).imp Nat.succ_le_succ Nat.succ_le_succ
  | record members _ => (membersNesting_zero_one members).imp Nat.succ_le_succ Nat.succ_le_succ
  | null | bool _ | number _ | string _ | broken _ _ => ⟨Nat.le_refl 0, Nat.zero_le 1⟩

theorem itemsNesting_zero_one : ∀ items : List Outline,
    itemsNesting 0 items ≤ itemsNesting 1 items ∧ itemsNesting 1 items ≤ itemsNesting 0 items + 1
  | [] => ⟨Nat.le_refl 0, Nat.zero_le 1⟩
  | o :: os => by
    have first := reach_depth o
    have rest := itemsNesting_zero_one os
    rw [depth, reach] at first
    rw [itemsNesting, itemsNesting]
    omega

theorem membersNesting_zero_one : ∀ members : List (Key × Outline),
    membersNesting 0 members ≤ membersNesting 1 members ∧ membersNesting 1 members ≤ membersNesting 0 members + 1
  | [] => ⟨Nat.le_refl 0, Nat.zero_le 1⟩
  | (_, o) :: ms => by
    have first := reach_depth o
    have rest := membersNesting_zero_one ms
    rw [depth, reach] at first
    rw [membersNesting, membersNesting]
    omega

end

end Json.Outline

namespace Json

mutual

theorem depth_toOutline : ∀ j : Json, j.toOutline.depth = j.depth
  | null | bool _ | number _ | string _ | list [] => rfl
  | list (j :: js) => congrArg Nat.succ (nesting_itemOutlines (j :: js))
  | record members => congrArg Nat.succ (nesting_memberOutlines members)

theorem nesting_itemOutlines : ∀ js : List Json, Outline.itemsNesting 1 (itemOutlines js) = itemsDepth js
  | [] => rfl
  | j :: js => congrArg₂ max (depth_toOutline j) (nesting_itemOutlines js)

theorem nesting_memberOutlines : ∀ ms : List (String × Json),
    Outline.membersNesting 1 (memberOutlines ms) = membersDepth ms
  | [] => rfl
  | (_, j) :: ms => congrArg₂ max (depth_toOutline j) (nesting_memberOutlines ms)

end

/-! ## Data -/

theorem toOutline_injective : Function.Injective toOutline := by
  intro i j same
  have first := strict_toOutline i (Nat.le_max_left i.depth j.depth)
  rw [same, strict_toOutline j (Nat.le_max_right _ _)] at first
  exact (Except.ok.inj first).symm

mutual

/-- What a strict look gives are the data that the outline is of. -/
theorem eq_toOutline_of_strict : ∀ (o : Outline) {room : Nat} {j : Json}, o.strict room = .ok j → o = j.toOutline
  | .null, _, _, h | .bool _, _, _, h | .number (.ok _), _, _, h | .string (.ok _), _, _, h => by cases h; rfl
  | .number (.error _), _, _, h | .string (.error _), _, _, h => by cases h
  | .list items stop, 0, _, h => by cases h
  | .list items stop, room + 1, _, h => by
    obtain ⟨js, strict, h⟩ := Schema.bind_eq_ok.1 h
    obtain ⟨_, closed, same⟩ := Schema.bind_eq_ok.1 h
    cases same
    cases stop with
    | closed => rw [eq_itemOutlines_of_strict items strict, toOutline]
    | _ => cases closed
  | .record members stop, 0, _, h => by cases h
  | .record members stop, room + 1, _, h => by
    obtain ⟨ms, strict, h⟩ := Schema.bind_eq_ok.1 h
    obtain ⟨_, closed, same⟩ := Schema.bind_eq_ok.1 h
    cases same
    rw [eq_memberOutlines_of_strict members strict, Schema.eq_closed_of_strict closed, toOutline]
  | .broken _ _, _, _, h => by cases h

theorem eq_itemOutlines_of_strict : ∀ (os : List Outline) {room : Nat} {js : List Json},
    Outline.strictItems room os = .ok js → os = itemOutlines js
  | [], _, _, h => by cases h; rfl
  | o :: os, _, _, h => by
    obtain ⟨j, first, h⟩ := Schema.bind_eq_ok.1 h
    obtain ⟨js, rest, same⟩ := Schema.bind_eq_ok.1 h
    cases same
    rw [itemOutlines, ← eq_toOutline_of_strict o first, ← eq_itemOutlines_of_strict os rest]

theorem eq_memberOutlines_of_strict : ∀ (os : List (Key × Outline)) {room : Nat} {ms : List (String × Json)},
    Outline.strictMembers room os = .ok ms → os = memberOutlines ms
  | [], _, _, h => by cases h; rfl
  | (k, o) :: os, _, _, h => by
    obtain ⟨name, key, h⟩ := Schema.bind_eq_ok.1 h
    obtain ⟨j, first, h⟩ := Schema.bind_eq_ok.1 h
    obtain ⟨ms, rest, same⟩ := Schema.bind_eq_ok.1 h
    cases same
    rw [memberOutlines, ← eq_toOutline_of_strict o first, ← eq_memberOutlines_of_strict os rest, key]

end

theorem strict_eq_ok {o : Outline} {room : Nat} {j : Json} (h : o.depth ≤ room) :
    o.strict room = .ok j ↔ o = j.toOutline := by
  refine ⟨eq_toOutline_of_strict o, ?_⟩
  rintro rfl
  rw [depth_toOutline] at h
  exact strict_toOutline j h

def Outline.IsData (o : Outline) : Prop := ∃ j : Json, o = j.toOutline

namespace Outline

theorem exists_itemOutlines {items : List Outline} (h : ∀ o ∈ items, o.IsData) : ∃ js, items = itemOutlines js := by
  induction items with
  | nil => exact ⟨[], rfl⟩
  | cons o os ih =>
    obtain ⟨⟨j, rfl⟩, rest⟩ := List.forall_mem_cons.1 h
    obtain ⟨js, rfl⟩ := ih rest
    exact ⟨j :: js, rfl⟩

theorem exists_memberOutlines {members : List (Key × Outline)}
    (h : ∀ m ∈ members, (∃ k, m.1 = .ok k) ∧ m.2.IsData) : ∃ ms, members = memberOutlines ms := by
  induction members with
  | nil => exact ⟨[], rfl⟩
  | cons m ms ih =>
    obtain ⟨⟨⟨k, key⟩, j, value⟩, rest⟩ := List.forall_mem_cons.1 h
    obtain ⟨js, rfl⟩ := ih rest
    exact ⟨(k, j) :: js, by rw [memberOutlines, ← key, ← value]⟩

theorem isData_list {items : List Outline} : (list items .closed).IsData ↔ ∀ o ∈ items, o.IsData := by
  constructor
  · rintro ⟨j, same⟩ o ho
    cases j with
    | list js =>
      obtain ⟨rfl, -⟩ := Outline.list.inj same
      rw [itemOutlines_eq_map] at ho
      obtain ⟨i, -, rfl⟩ := List.mem_map.1 ho
      exact ⟨i, rfl⟩
    | _ => cases same
  · intro h
    obtain ⟨js, rfl⟩ := exists_itemOutlines h
    exact ⟨.list js, rfl⟩

theorem isData_record {members : List (Key × Outline)} :
    (record members .closed).IsData ↔ ∀ m ∈ members, (∃ k, m.1 = .ok k) ∧ m.2.IsData := by
  constructor
  · rintro ⟨j, same⟩ m hm
    cases j with
    | record ms =>
      obtain ⟨rfl, -⟩ := Outline.record.inj same
      rw [memberOutlines_eq_map] at hm
      obtain ⟨n, -, rfl⟩ := List.mem_map.1 hm
      exact ⟨⟨n.1, rfl⟩, n.2, rfl⟩
    | _ => cases same
  · intro h
    obtain ⟨ms, rfl⟩ := exists_memberOutlines h
    exact ⟨.record ms, rfl⟩

/-! ## Passing by -/

theorem seq_eq_ok {x y : Except Fault Unit} : (x >>= fun _ => y) = .ok () ↔ x = .ok () ∧ y = .ok () := by
  cases x <;> simp [bind, Except.bind]

theorem skip_list {items : List Outline} : (list items .closed).skip = .ok () ↔ ∀ o ∈ items, o.skip = .ok () := by
  have inner : skipItems items = .ok () ↔ ∀ o ∈ items, o.skip = .ok () := by
    induction items with
    | nil => simp [skipItems]
    | cons o os ih => rw [skipItems, seq_eq_ok, ih, List.forall_mem_cons]
  rw [skip, seq_eq_ok, inner]
  exact and_iff_left rfl

theorem skip_record {members : List (Key × Outline)} :
    (record members .closed).skip = .ok () ↔ ∀ m ∈ members, m.2.skip = .ok () := by
  have inner : skipMembers members = .ok () ↔ ∀ m ∈ members, m.2.skip = .ok () := by
    induction members with
    | nil => simp [skipMembers]
    | cons m ms ih => rw [skipMembers, seq_eq_ok, ih, List.forall_mem_cons]
  rw [skip, seq_eq_ok, inner]
  exact and_iff_left rfl

end Outline

end Json

namespace Schema

/-! ## Edits -/

/-- What a part of a query stands for. Of a plain part nothing is known. -/
inductive Role
  | query
  | join
  | predicate
  | order
  | list (items : Role)
  | plain

namespace Role

/-- The members of a record that stand for more than a plain part, among as many others as are needed to give each
its place in a list that stands for the record. -/
def members : Role → List (String × Role)
  | query =>
    [("table", plain), ("columns", plain), ("aggregate", plain), ("distinct", plain), ("limit", plain),
      ("offset", plain), ("joins", list join), ("wheres", list predicate), ("groups", plain),
      ("havings", list predicate), ("orders", list order)]
  | join => [("kind", plain), ("table", plain), ("on", list predicate)]
  | predicate => [("type", plain), ("wheres", list predicate)]
  | order | list _ | plain => []

def under (r : Role) : Key → Role
  | .ok name => (r.members.lookup name).getD plain
  | .error _ => plain

def item : Role → Nat → Role
  | list r, _ => r
  | r, i => (r.members[i]?.map Prod.snd).getD plain

/-- The members that have a default, with it. -/
def defaults : Role → List (String × Json)
  | query => ({} : Query).members
  | join => [("kind", .string "inner"), ("on", .list [])]
  | predicate => [("boolean", .string "and"), ("negated", .bool false), ("bindings", .list [])]
  | order => [("direction", .string "asc")]
  | list _ | plain => []

end Role

/-- The names of members; a key that is no text is no name. -/
def names (members : List (Key × Outline)) : List String := members.filterMap fun m => m.1.toOption

/-- The second text differs from the first one, which stands for this, by the order of the members of one record in
which no name comes twice, or by a default of one record that is written out in one of them only. -/
inductive Edit : Role → Outline → Outline → Prop
  | reorder {r : Role} {members members' : List (Key × Outline)} : (names members).Nodup → members.Perm members' →
    Edit r (.record members .closed) (.record members' .closed)
  | drop {r : Role} {before after : List (Key × Outline)} {name : String} {j : Json} : (name, j) ∈ r.defaults →
    name ∉ names (before ++ after) →
    Edit r (.record (before ++ (.ok name, j.toOutline) :: after) .closed) (.record (before ++ after) .closed)
  | add {r : Role} {before after : List (Key × Outline)} {name : String} {j : Json} : (name, j) ∈ r.defaults →
    name ∉ names (before ++ after) →
    Edit r (.record (before ++ after) .closed) (.record (before ++ (.ok name, j.toOutline) :: after) .closed)
  | member {r : Role} {before after : List (Key × Outline)} {key : Key} {v w : Outline} : Edit (r.under key) v w →
    Edit r (.record (before ++ (key, v) :: after) .closed) (.record (before ++ (key, w) :: after) .closed)
  | item {r : Role} {before after : List Outline} {v w : Outline} : Edit (r.item before.length) v w →
    Edit r (.list (before ++ v :: after) .closed) (.list (before ++ w :: after) .closed)

theorem plain_default {r : Role} {name : String} {j : Json} (h : (name, j) ∈ r.defaults) :
    j.toOutline.reach = 0 ∧ j.toOutline.skip = .ok () := by
  have all : ∀ m ∈ r.defaults, m.2.toOutline.reach = 0 ∧ m.2.toOutline.skip = .ok () := by
    cases r with
    | list _ => nofun
    | _ => decide
  exact all (name, j) h

theorem not_mem_defaults {r : Role} {name : String} {j : Json} (own : name ∉ r.defaults.map Prod.fst) :
    (name, j) ∉ r.defaults := fun given => own (List.mem_map.2 ⟨(name, j), given, rfl⟩)

namespace Edit

variable {r : Role} {o o' : Outline}

theorem symm (edit : Edit r o o') : Edit r o' o := by
  induction edit with
  | reorder distinct perm => exact .reorder ((perm.filterMap _).nodup_iff.1 distinct) perm.symm
  | drop default absent => exact .add default absent
  | add default absent => exact .drop default absent
  | member _ ih => exact .member ih
  | item _ ih => exact .item ih

/-- **What holds of a text part by part is kept by an edit**, if it holds of defaults; it may depend on the levels
that are left. -/
theorem keeps {P : Nat → Outline → Prop} {C : Nat → Prop} {K : Key → Prop}
    (record : ∀ n ms, P n (.record ms .closed) ↔ C n ∧ ∀ m ∈ ms, K m.1 ∧ P (n - 1) m.2)
    (list : ∀ n os, os ≠ [] → (P n (.list os .closed) ↔ C n ∧ ∀ o ∈ os, P (n - 1) o))
    (default : ∀ {r : Role} {name j}, (name, j) ∈ r.defaults → ∀ n, K (.ok name) ∧ P n j.toOutline)
    (edit : Edit r o o') {n : Nat} (h : P n o) : P n o' := by
  induction edit generalizing n with
  | reorder _ perm =>
    obtain ⟨level, parts⟩ := (record n _).1 h
    exact (record n _).2 ⟨level, fun m hm => parts m (perm.mem_iff.2 hm)⟩
  | drop _ _ =>
    obtain ⟨level, parts⟩ := (record n _).1 h
    obtain ⟨before, -, after⟩ := List.forall_mem_append.1 parts |>.imp_right List.forall_mem_cons.1
    exact (record n _).2 ⟨level, List.forall_mem_append.2 ⟨before, after⟩⟩
  | add given _ =>
    obtain ⟨level, parts⟩ := (record n _).1 h
    obtain ⟨before, after⟩ := List.forall_mem_append.1 parts
    refine (record n _).2 ⟨level, List.forall_mem_append.2 ⟨before, List.forall_mem_cons.2 ⟨?_, after⟩⟩⟩
    exact default given (n - 1)
  | member _ ih =>
    obtain ⟨level, parts⟩ := (record n _).1 h
    obtain ⟨before, here, after⟩ := List.forall_mem_append.1 parts |>.imp_right List.forall_mem_cons.1
    refine (record n _).2 ⟨level, List.forall_mem_append.2 ⟨before, List.forall_mem_cons.2 ⟨?_, after⟩⟩⟩
    exact ⟨here.1, ih here.2⟩
  | item _ ih =>
    obtain ⟨level, parts⟩ := (list n _ (by simp)).1 h
    obtain ⟨before, here, after⟩ := List.forall_mem_append.1 parts |>.imp_right List.forall_mem_cons.1
    refine (list n _ (by simp)).2 ⟨level, List.forall_mem_append.2 ⟨before, List.forall_mem_cons.2 ⟨?_, after⟩⟩⟩
    exact ih here

theorem depth_ne_zero (edit : Edit r o o') : o.depth ≠ 0 := by
  cases edit with
  | item _ =>
    rw [Outline.depth, Outline.nesting, if_neg (by simp)]
    exact Nat.succ_ne_zero _
  | _ => exact Nat.succ_ne_zero _

theorem isData (edit : Edit r o o') (h : o.IsData) : o'.IsData := by
  refine edit.keeps (P := fun _ => Outline.IsData) (C := fun _ => True) (K := fun k => ∃ name, k = .ok name)
    (fun _ ms => ?_) (fun _ os _ => ?_) (fun {r name j} _ _ => ⟨⟨name, rfl⟩, j, rfl⟩) (n := 0) h
  · rw [Outline.isData_record, true_and]
  · rw [Outline.isData_list, true_and]

theorem skip (edit : Edit r o o') (h : o.skip = .ok ()) : o'.skip = .ok () := by
  refine edit.keeps (P := fun _ o => o.skip = .ok ()) (C := fun _ => True) (K := fun _ => True)
    (fun _ ms => ?_) (fun _ os _ => ?_) (fun given _ => ⟨trivial, (plain_default given).2⟩) (n := 0) h
  · simp only [Outline.skip_record, true_and]
  · rw [Outline.skip_list, true_and]

theorem reach_le (edit : Edit r o o') {n : Nat} (h : o.reach ≤ n) : o'.reach ≤ n := by
  refine edit.keeps (P := fun n o => o.reach ≤ n) (C := fun n => 0 < n) (K := fun _ => True)
    (fun n ms => ?_) (fun n os given => ?_) (fun given _ => ⟨trivial, (plain_default given).1 ▸ Nat.zero_le _⟩) h
  · simp only [Outline.reach, true_and]
    rw [← Outline.membersNesting_le, Outline.nesting]
    omega
  · simp only [Outline.reach]
    rw [← Outline.itemsNesting_le, Outline.nesting, if_neg (by simpa using given)]
    omega

/-- **An edit leaves the nesting apart from empty lists as it was.** -/
theorem reach (edit : Edit r o o') : o.reach = o'.reach :=
  Nat.le_antisymm (edit.symm.reach_le (Nat.le_refl _)) (edit.reach_le (Nat.le_refl _))

end Edit

/-! ## Readings that are kept -/

namespace Placed

variable {α β : Type} {x y : Placed α}

/-- What the first reading reads is what the second one reads. -/
def Kept (x y : Placed α) : Prop := ∀ a, x = ok a → y = ok a

theorem Kept.refl (x : Placed α) : Kept x x := fun _ h => h

theorem Kept.map (f : α → β) (h : Kept x y) : Kept (f <$> x) (f <$> y) := by
  intro b hb
  obtain ⟨a, given, rfl⟩ := map_eq_ok.1 hb
  exact map_eq_ok.2 ⟨a, h a given, rfl⟩

theorem Kept.seq {f g : Placed (α → β)} (hf : Kept f g) (h : Kept x y) : Kept (f <*> x) (g <*> y) := by
  intro b hb
  obtain ⟨u, a, first, second, rfl⟩ := seq_eq_ok.1 hb
  exact seq_eq_ok.2 ⟨u, a, hf u first, h a second, rfl⟩

theorem Kept.seqLeft {u v : Placed β} (h : Kept x y) (hu : Kept u v) : Kept (x <* u) (y <* v) := by
  intro a ha
  obtain ⟨first, b, second⟩ := seqLeft_eq_ok.1 ha
  exact seqLeft_eq_ok.2 ⟨h a first, b, hu b second⟩

theorem Kept.result (h : Kept x y) {a : α} (ha : x.result = .ok a) : y.result = .ok a :=
  result_eq_ok.2 (h a (result_eq_ok.1 ha))

end Placed

/-! ## Sources of fields -/

section Sources

variable {ρ α : Type}

/-- An edit of a source of fields, which stands for this: `same` is an edit of a part, and `tells` is how a part tells
a default. The items of a list stand behind so many others. -/
inductive SourceEdit (same : Role → ρ → ρ → Prop) (tells : ρ → Json → Prop) (shift : Nat) (r : Role) :
    Source ρ → Source ρ → Prop
  | reorder {members members' : List (String × ρ)} : (members.map Prod.fst).Nodup → members.Perm members' →
    SourceEdit same tells shift r (.named members) (.named members')
  | drop {before after : List (String × ρ)} {name : String} {v : ρ} {j : Json} : (name, j) ∈ r.defaults → tells v j →
    name ∉ (before ++ after).map Prod.fst →
    SourceEdit same tells shift r (.named (before ++ (name, v) :: after)) (.named (before ++ after))
  | add {before after : List (String × ρ)} {name : String} {v : ρ} {j : Json} : (name, j) ∈ r.defaults → tells v j →
    name ∉ (before ++ after).map Prod.fst →
    SourceEdit same tells shift r (.named (before ++ after)) (.named (before ++ (name, v) :: after))
  | member {before after : List (String × ρ)} {name : String} {v w : ρ} : same (r.under (.ok name)) v w →
    SourceEdit same tells shift r (.named (before ++ (name, v) :: after)) (.named (before ++ (name, w) :: after))
  | item {before after : List ρ} {v w : ρ} {form : String} : same (r.item (before.length + shift)) v w →
    SourceEdit same tells shift r (.listed (before ++ v :: after) form) (.listed (before ++ w :: after) form)

/-- The reader reads from a part what it reads before an edit of it. -/
def Keep (same : ρ → ρ → Prop) (read : ρ → Except ReadError α) : Prop :=
  ∀ ⦃v w a⦄, same v w → read v = .ok a → read w = .ok a

theorem mem_valuesOf {name : String} {v : ρ} {members : List (String × ρ)} (h : (name, v) ∈ members) :
    v ∈ valuesOf name members := List.mem_map.2 ⟨(name, v), List.mem_filter.2 ⟨h, decide_eq_true rfl⟩, rfl⟩

theorem valuesOf_of_not_mem {name : String} {members : List (String × ρ)} (h : name ∉ members.map Prod.fst) :
    valuesOf name members = [] := valuesOf_of_firstNamed?_none (firstNamed?_of_not_mem h)

theorem valuesOf_insert {name : String} {before after : List (String × ρ)}
    (h : name ∉ (before ++ after).map Prod.fst) (v : ρ) : valuesOf name (before ++ (name, v) :: after) = [v] := by
  rw [List.map_append, List.mem_append, not_or] at h
  rw [valuesOf_append, valuesOf_cons_self, valuesOf_of_not_mem h.1, valuesOf_of_not_mem h.2]
  rfl

theorem valuesOf_insert_of_ne {name label : String} (h : name ≠ label) (before after : List (String × ρ)) (v : ρ) :
    valuesOf label (before ++ (name, v) :: after) = valuesOf label (before ++ after) := by
  rw [valuesOf_append, valuesOf_cons_of_ne h, ← valuesOf_append]

theorem valuesOf_perm {members members' : List (String × ρ)} (distinct : (members.map Prod.fst).Nodup)
    (perm : members.Perm members') (name : String) : valuesOf name members = valuesOf name members' := by
  have same : (valuesOf name members).Perm (valuesOf name members') := (perm.filter _).map _
  by_cases given : name ∈ members.map Prod.fst
  · obtain ⟨v, member⟩ : ∃ v, (name, v) ∈ members := by simpa using given
    obtain ⟨before, after, rfl⟩ := List.append_of_mem member
    have absent : name ∉ (before ++ after).map Prod.fst := by
      rw [List.map_append, List.map_cons, List.nodup_middle] at distinct
      rw [List.map_append]
      exact (List.nodup_cons.1 distinct).1
    rw [valuesOf_insert absent] at same ⊢
    exact (List.perm_singleton.1 same.symm).symm
  · rw [valuesOf_of_not_mem given] at same ⊢
    exact (List.perm_nil.1 same.symm).symm

variable {same : Role → ρ → ρ → Prop} {tells : ρ → Json → Prop} {shift : Nat} {r : Role} {s s' : Source ρ}

/-- **A field is read as before the edit of its source**, if its reader keeps what it reads and its default is what
is read of a part that tells it. -/
theorem field_edited (edit : SourceEdit same tells shift r s s') (number : Nat) (name : String)
    {read : ρ → Except ReadError α} {default? : Option α} (under : Keep (same (r.under (.ok name))) read)
    (item : Keep (same (r.item (number + shift))) read)
    (default : ∀ j v, (name, j) ∈ r.defaults → tells v j → ∃ a, default? = some a ∧ read v = .ok a) :
    Placed.Kept (field number name read default? s) (field number name read default? s') := by
  intro a h
  cases edit with
  | reorder distinct perm =>
    rw [field_named_eq_ok] at h ⊢
    rwa [← valuesOf_perm distinct perm]
  | @drop before after label v j given said absent =>
    rw [field_named_eq_ok] at h ⊢
    by_cases hn : label = name
    · subst hn
      rw [valuesOf_insert absent] at h
      rw [valuesOf_of_not_mem absent]
      obtain ⟨b, rfl, value⟩ := default j v given said
      obtain ⟨none, -⟩ | ⟨w, one, read⟩ := h
      · cases none
      · cases one
        cases value.symm.trans read
        exact Or.inl ⟨rfl, rfl⟩
    · rwa [← valuesOf_insert_of_ne hn before after v]
  | @add before after label v j given said absent =>
    rw [field_named_eq_ok] at h ⊢
    by_cases hn : label = name
    · subst hn
      rw [valuesOf_of_not_mem absent] at h
      rw [valuesOf_insert absent]
      obtain ⟨b, rfl, value⟩ := default j v given said
      obtain ⟨-, same⟩ | ⟨w, one, -⟩ := h
      · cases same
        exact Or.inr ⟨v, rfl, value⟩
      · cases one
    · rwa [valuesOf_insert_of_ne hn]
  | @member before after label v w edit =>
    rw [field_named_eq_ok] at h ⊢
    by_cases hn : label = name
    · subst hn
      rw [valuesOf_append, valuesOf_cons_self] at h ⊢
      obtain ⟨none, -⟩ | ⟨u, one, read⟩ := h
      · simp at none
      · rcases List.append_eq_singleton_iff.1 one with ⟨first, rest⟩ | ⟨-, none⟩
        · obtain ⟨rfl, last⟩ := List.cons.inj rest
          exact Or.inr ⟨w, by rw [first, last]; rfl, under edit read⟩
        · cases none
    · rw [valuesOf_insert_of_ne hn] at h ⊢
      exact h
  | @item before after v w form edit =>
    rcases Nat.lt_trichotomy number before.length with first | rfl | later
    · simpa only [field, List.getElem?_append_left first, List.length_append, List.length_cons] using h
    · simp only [field, List.getElem?_append_right (Nat.le_refl _), Nat.sub_self, List.getElem?_cons_zero] at h ⊢
      rw [Placed.here_eq_ok] at h ⊢
      exact item edit h
    · obtain ⟨k, rfl⟩ := Nat.exists_eq_add_of_lt later
      have behind (u : ρ) : (before ++ u :: after)[before.length + k + 1]? = after[k]? := by
        rw [List.getElem?_append_right (by omega)]
        simp [Nat.add_assoc]
      simpa only [field, behind, List.length_append, List.length_cons] using h

section Parts

variable {p : Role} {read : ρ → Except ReadError α} (edit : SourceEdit same tells shift r s s') (number : Nat)
  (name : String) (under : r.under (.ok name) = p) (item : r.item (number + shift) = p) (keep : Keep (same p) read)

include edit under item keep

theorem part_edited (own : name ∉ r.defaults.map Prod.fst) :
    Placed.Kept (field number name read none s) (field number name read none s') :=
  field_edited edit number name (under ▸ keep) (item ▸ keep) fun _ _ given => absurd given (not_mem_defaults own)

theorem default_edited {j : Json} {a : α} (own : ∀ i, (name, i) ∈ r.defaults → i = j)
    (value : ∀ v, tells v j → read v = .ok a) :
    Placed.Kept (field number name read (some a) s) (field number name read (some a) s') := by
  refine field_edited edit number name (under ▸ keep) (item ▸ keep) fun i v given told => ⟨a, rfl, ?_⟩
  exact value v (own i given ▸ told)

end Parts

/-- The parts of two sources are kept apart from others, if all of them hold something. -/
theorem SourceEdit.within (edit : SourceEdit same tells shift r s s') {P : ρ → Prop} (h : ∀ v ∈ s.parts, P v)
    (h' : ∀ v ∈ s'.parts, P v) :
    SourceEdit (fun r v w => same r v w ∧ P v ∧ P w) (fun v j => tells v j ∧ P v) shift r s s' := by
  cases edit with
  | reorder distinct perm => exact .reorder distinct perm
  | drop given told absent => exact .drop given ⟨told, h _ (by simp [Source.parts])⟩ absent
  | add given told absent => exact .add given ⟨told, h' _ (by simp [Source.parts])⟩ absent
  | member edit => exact .member ⟨edit, h _ (by simp [Source.parts]), h' _ (by simp [Source.parts])⟩
  | item edit => exact .item ⟨edit, h _ (by simp [Source.parts]), h' _ (by simp [Source.parts])⟩

theorem SourceEdit.filter {members members' : List (String × ρ)}
    (edit : SourceEdit same tells shift r (.named members) (.named members')) (label : String) (shift' : Nat) :
    members.filter (fun m => m.1 ≠ label) = members'.filter (fun m => m.1 ≠ label) ∨
      SourceEdit same tells shift' r (.named (members.filter fun m => m.1 ≠ label))
        (.named (members'.filter fun m => m.1 ≠ label)) := by
  have without {name : String} {before after : List (String × ρ)} (absent : name ∉ (before ++ after).map Prod.fst) :
      name ∉ (before.filter (fun m => m.1 ≠ label) ++ after.filter fun m => m.1 ≠ label).map Prod.fst := by
    rw [← List.filter_append]
    exact fun given => absent ((List.filter_sublist.map Prod.fst).subset given)
  have gone {before after : List (String × ρ)} {v : ρ} :
      (before ++ (label, v) :: after).filter (fun m => m.1 ≠ label) =
        before.filter (fun m => m.1 ≠ label) ++ after.filter fun m => m.1 ≠ label := by simp
  have stays {name : String} {before after : List (String × ρ)} {v : ρ} (hn : name ≠ label) :
      (before ++ (name, v) :: after).filter (fun m => m.1 ≠ label) =
        before.filter (fun m => m.1 ≠ label) ++ (name, v) :: after.filter fun m => m.1 ≠ label := by simp [hn]
  cases edit with
  | reorder distinct perm =>
    exact Or.inr (.reorder (distinct.sublist (List.filter_sublist.map Prod.fst)) (perm.filter _))
  | @drop before after name v j given told absent =>
    by_cases hn : name = label
    · subst hn
      exact Or.inl (by rw [gone, List.filter_append])
    · rw [stays hn, List.filter_append]
      exact Or.inr (.drop given told (without absent))
  | @add before after name v j given told absent =>
    by_cases hn : name = label
    · subst hn
      exact Or.inl (by rw [gone, List.filter_append])
    · rw [stays hn, List.filter_append]
      exact Or.inr (.add given told (without absent))
  | @member before after name v w edit =>
    by_cases hn : name = label
    · subst hn
      exact Or.inl (by rw [gone, gone])
    · rw [stays hn, stays hn]
      exact Or.inr (.member edit)

end Sources

/-! ## From texts to sources -/

theorem exists_map_of_perm {κ σ : Type} {g : κ → σ} {us ys : List σ} (perm : us.Perm ys) {xs : List κ}
    (image : xs.map g = us) : ∃ zs, zs.map g = ys ∧ xs.Perm zs := by
  induction perm generalizing xs with
  | nil => exact ⟨xs, image, .refl xs⟩
  | cons u _ ih =>
    obtain ⟨x, xs, rfl, rfl, rest⟩ := List.map_eq_cons_iff.1 image
    obtain ⟨zs, rfl, perm⟩ := ih rest
    exact ⟨x :: zs, rfl, perm.cons x⟩
  | swap u v us =>
    obtain ⟨x, xs, rfl, rfl, rest⟩ := List.map_eq_cons_iff.1 image
    obtain ⟨y, xs, rfl, rfl, rfl⟩ := List.map_eq_cons_iff.1 rest
    exact ⟨y :: x :: xs, rfl, .swap y x xs⟩
  | trans _ _ ih ih' =>
    obtain ⟨ys, rfl, first⟩ := ih image
    obtain ⟨zs, rfl, second⟩ := ih' rfl
    exact ⟨zs, rfl, first.trans second⟩

section Images

variable {ρ : Type} {f : ρ → Outline} {r : Role} {o' : Outline}

/-- Members as they stand in a text, if `f` is how their values do. -/
def spelled (f : ρ → Outline) (members : List (String × ρ)) : List (Key × Outline) :=
  members.map fun m => (.ok m.1, f m.2)

theorem names_spelled (members : List (String × ρ)) : names (spelled f members) = members.map Prod.fst := by
  induction members with
  | nil => rfl
  | cons m ms ih => exact congrArg (m.1 :: ·) ih

theorem spelled_append (before after : List (String × ρ)) :
    spelled f (before ++ after) = spelled f before ++ spelled f after := List.map_append

theorem spelled_eq_append {members : List (String × ρ)} {before after : List (Key × Outline)}
    (h : spelled f members = before ++ after) :
    ∃ b a, members = b ++ a ∧ before = spelled f b ∧ after = spelled f a := by
  obtain ⟨b, a, rfl, rfl, rfl⟩ := List.map_eq_append_iff.1 h
  exact ⟨b, a, rfl, rfl, rfl⟩

theorem spelled_eq_insert {members : List (String × ρ)} {before after : List (Key × Outline)} {key : Key}
    {v : Outline} (h : spelled f members = before ++ (key, v) :: after) :
    ∃ b name w a, members = b ++ (name, w) :: a ∧ before = spelled f b ∧ key = .ok name ∧ v = f w ∧
      after = spelled f a := by
  obtain ⟨b, _, rfl, rfl, rest⟩ := List.map_eq_append_iff.1 h
  obtain ⟨⟨name, w⟩, a, rfl, member, rfl⟩ := List.map_eq_cons_iff.1 rest
  cases member
  exact ⟨b, name, w, a, rfl, rfl, rfl, rfl, rfl⟩

variable (image : ∀ {r : Role} {v : ρ} {o : Outline}, Edit r (f v) o → ∃ w, o = f w)

include image

/-- **An edit of a record is an edit of its members.** -/
theorem Edit.named (defaults : ∀ j : Json, ∃ v, j.toOutline = f v) {members : List (String × ρ)} (shift : Nat)
    (edit : Edit r (.record (spelled f members) .closed) o') :
    ∃ members' : List (String × ρ), o' = .record (spelled f members') .closed ∧
      SourceEdit (fun r v w => Edit r (f v) (f w)) (fun v j => j.toOutline = f v) shift r (.named members)
        (.named members') := by
  generalize same : spelled f members = given at edit
  cases edit with
  | reorder distinct perm =>
    obtain ⟨members', rfl, order⟩ := exists_map_of_perm perm same
    rw [← same, names_spelled] at distinct
    exact ⟨members', rfl, .reorder distinct order⟩
  | drop given absent =>
    obtain ⟨before, name, v, after, rfl, rfl, key, value, rfl⟩ := spelled_eq_insert same
    cases key
    rw [← spelled_append, names_spelled] at absent
    exact ⟨before ++ after, by rw [spelled_append], .drop given value absent⟩
  | @add _ _ _ name j given absent =>
    obtain ⟨before, after, rfl, rfl, rfl⟩ := spelled_eq_append same
    obtain ⟨v, value⟩ := defaults j
    rw [← spelled_append, names_spelled] at absent
    refine ⟨before ++ (name, v) :: after, ?_, .add given value absent⟩
    rw [spelled_append, value]
    rfl
  | member edit =>
    obtain ⟨before, name, v, after, rfl, rfl, rfl, rfl, rfl⟩ := spelled_eq_insert same
    obtain ⟨w, rfl⟩ := image edit
    exact ⟨before ++ (name, w) :: after, by rw [spelled_append]; rfl, .member edit⟩

theorem Edit.listed {items : List ρ} (edit : Edit r (.list (items.map f) .closed) o') :
    ∃ before v w after, items = before ++ v :: after ∧ o' = .list ((before ++ w :: after).map f) .closed ∧
      Edit (r.item before.length) (f v) (f w) := by
  generalize same : items.map f = given at edit
  cases edit with
  | item edit =>
    obtain ⟨before, _, rfl, rfl, rest⟩ := List.map_eq_append_iff.1 same
    obtain ⟨v, after, rfl, rfl, rfl⟩ := List.map_eq_cons_iff.1 rest
    obtain ⟨w, rfl⟩ := image edit
    rw [List.length_map] at edit
    exact ⟨before, v, w, after, rfl, by rw [List.map_append]; rfl, edit⟩

end Images

end Schema

end SqlGrammar
