import SqlGrammar.Proofs.Scanning
import SqlGrammar.Schema.Query

/-!
Reading data from its own outline. Data nests as deep as its `depth`. A strict look at the outline of data
gives the data if so many levels of nesting are left (`strict_toOutline`), and finds it too deep if not
(`strict_toOutline_of_lt`). A reader of outlines `Weighs` data if it does the same: where enough levels are left
it gives what it should, and elsewhere it refuses the data as too deep.

Readers of lists, of data as a whole and of what may be missing weigh what their parts weigh (`Weighs.list`,
`weighs_whole`, `Weighs.option`); so does the reader of a record that holds known members only, each key once
(`Weighs.field`, `weighs_form`). Of several readings that are too deep the first fault counts, and all faults
are the same (`Placed.Weighed.seq`).
-/

namespace SqlGrammar

/-! ## Depth -/

namespace Json

mutual

/-- How deep lists and records nest. -/
def depth : Json → Nat
  | list items => itemsDepth items + 1
  | record members => membersDepth members + 1
  | _ => 0

def itemsDepth : List Json → Nat
  | [] => 0
  | j :: js => max (depth j) (itemsDepth js)

def membersDepth : List (String × Json) → Nat
  | [] => 0
  | (_, j) :: ms => max (depth j) (membersDepth ms)

end

theorem itemsDepth_le {room : Nat} : ∀ items : List Json,
    itemsDepth items ≤ room ↔ ∀ j ∈ items, j.depth ≤ room
  | [] => by simp [itemsDepth]
  | j :: js => by rw [itemsDepth, Nat.max_le, itemsDepth_le js, List.forall_mem_cons]

theorem membersDepth_le {room : Nat} : ∀ members : List (String × Json),
    membersDepth members ≤ room ↔ ∀ m ∈ members, m.2.depth ≤ room
  | [] => by simp [membersDepth]
  | (k, j) :: ms => by rw [membersDepth, Nat.max_le, membersDepth_le ms, List.forall_mem_cons]

theorem depth_le_itemsDepth {items : List Json} {j : Json} (h : j ∈ items) : j.depth ≤ itemsDepth items :=
  (itemsDepth_le items).1 (Nat.le_refl _) j h

theorem depth_le_membersDepth {members : List (String × Json)} {m : String × Json} (h : m ∈ members) :
    m.2.depth ≤ membersDepth members :=
  (membersDepth_le members).1 (Nat.le_refl _) m h

theorem itemOutlines_eq_map : ∀ items : List Json, itemOutlines items = items.map toOutline
  | [] => rfl
  | j :: js => by rw [itemOutlines, itemOutlines_eq_map js, List.map_cons]

theorem memberOutlines_eq_map : ∀ members : List (String × Json),
    memberOutlines members = members.map fun m => (.ok m.1, m.2.toOutline)
  | [] => rfl
  | (k, j) :: ms => by rw [memberOutlines, memberOutlines_eq_map ms, List.map_cons]

mutual

/-- **A strict look at the outline of data gives the data**, if enough levels of nesting are left. -/
theorem strict_toOutline : ∀ (j : Json) {room : Nat}, j.depth ≤ room → j.toOutline.strict room = .ok j
  | null, _, _ => rfl
  | bool _, _, _ => rfl
  | number _, _, _ => rfl
  | string _, _, _ => rfl
  | list items, room + 1, h => by
    have inner := strictItems_itemOutlines items (Nat.le_of_succ_le_succ h)
    rw [toOutline, Outline.strict, inner]
    rfl
  | record members, room + 1, h => by
    have inner := strictMembers_memberOutlines members (Nat.le_of_succ_le_succ h)
    rw [toOutline, Outline.strict, inner]
    rfl

theorem strictItems_itemOutlines : ∀ (items : List Json) {room : Nat}, itemsDepth items ≤ room →
    Outline.strictItems room (itemOutlines items) = .ok items
  | [], _, _ => rfl
  | j :: js, room, h => by
    obtain ⟨first, rest⟩ := Nat.max_le.1 h
    rw [itemOutlines, Outline.strictItems, strict_toOutline j first, strictItems_itemOutlines js rest]
    rfl

theorem strictMembers_memberOutlines : ∀ (members : List (String × Json)) {room : Nat},
    membersDepth members ≤ room → Outline.strictMembers room (memberOutlines members) = .ok members
  | [], _, _ => rfl
  | (k, j) :: ms, room, h => by
    obtain ⟨first, rest⟩ := Nat.max_le.1 h
    rw [memberOutlines, Outline.strictMembers, strict_toOutline j first,
      strictMembers_memberOutlines ms rest]
    rfl

end

mutual

/-- **A strict look refuses data that nest deeper than the levels it has left.** -/
theorem strict_toOutline_of_lt : ∀ (j : Json) {room : Nat}, room < j.depth →
    j.toOutline.strict room = .error .tooDeep
  | list _, 0, _ => rfl
  | list items, room + 1, h => by
    have inner := strictItems_of_lt items (Nat.lt_of_succ_lt_succ h)
    rw [toOutline, Outline.strict, inner]
    rfl
  | record _, 0, _ => rfl
  | record members, room + 1, h => by
    have inner := strictMembers_of_lt members (Nat.lt_of_succ_lt_succ h)
    rw [toOutline, Outline.strict, inner]
    rfl

theorem strictItems_of_lt : ∀ (items : List Json) {room : Nat}, room < itemsDepth items →
    Outline.strictItems room (itemOutlines items) = .error .tooDeep
  | j :: js, room, h => by
    rw [itemOutlines, Outline.strictItems]
    by_cases first : j.depth ≤ room
    · have rest : room < itemsDepth js := by
        rw [itemsDepth] at h
        omega
      rw [strict_toOutline j first, strictItems_of_lt js rest]
      rfl
    · rw [strict_toOutline_of_lt j (Nat.lt_of_not_le first)]
      rfl

theorem strictMembers_of_lt : ∀ (members : List (String × Json)) {room : Nat}, room < membersDepth members →
    Outline.strictMembers room (memberOutlines members) = .error .tooDeep
  | (k, j) :: ms, room, h => by
    rw [memberOutlines, Outline.strictMembers]
    by_cases first : j.depth ≤ room
    · have rest : room < membersDepth ms := by
        rw [membersDepth] at h
        omega
      rw [strict_toOutline j first, strictMembers_of_lt ms rest]
      rfl
    · rw [strict_toOutline_of_lt j (Nat.lt_of_not_le first)]
      rfl

end

end Json

namespace Schema

open Json

/-! ## Readings that may be refused as too deep -/

namespace Placed

variable {α β : Type}

/-- The reading gives this if what it reads fits, and is refused as too deep if not. -/
structure Weighed (x : Placed α) (fits : Prop) (a : α) : Prop where
  ok : fits → x = ok a
  tooDeep : ¬fits → ∃ i, x = fault i (.malformed .tooDeep)

theorem weighed_ok (a : α) : (ok a).Weighed True a :=
  ⟨fun _ => rfl, fun h => absurd trivial h⟩

theorem Weighed.congr {x : Placed α} {a : α} {p q : Prop} (h : x.Weighed p a) (hpq : p ↔ q) : x.Weighed q a :=
  ⟨fun hq => h.ok (hpq.2 hq), fun hq => h.tooDeep (mt hpq.1 hq)⟩

theorem Weighed.map (f : α → β) {x : Placed α} {a : α} {p : Prop} (h : x.Weighed p a) :
    (f <$> x).Weighed p (f a) := by
  refine ⟨fun hp => ?_, fun hp => ?_⟩
  · rw [h.ok hp]
    rfl
  · obtain ⟨i, rfl⟩ := h.tooDeep hp
    exact ⟨i, rfl⟩

/-- Two readings fit if both do; whichever fault comes first is the same. -/
theorem Weighed.seq {f : Placed (α → β)} {x : Placed α} {g : α → β} {a : α} {p q : Prop}
    (hf : f.Weighed p g) (hx : x.Weighed q a) : (f <*> x).Weighed (p ∧ q) (g a) := by
  refine ⟨fun ⟨hp, hq⟩ => ?_, fun hn => ?_⟩
  · rw [hf.ok hp, hx.ok hq]
    rfl
  · by_cases hp : p
    · obtain ⟨i, rfl⟩ := hx.tooDeep fun hq => hn ⟨hp, hq⟩
      rw [hf.ok hp]
      exact ⟨i, rfl⟩
    · obtain ⟨i, rfl⟩ := hf.tooDeep hp
      by_cases hq : q
      · rw [hx.ok hq]
        exact ⟨i, rfl⟩
      · obtain ⟨j, rfl⟩ := hx.tooDeep hq
        show ∃ k, Placed.map _ (if j < i then fault j _ else fault i _) = _
        split
        · exact ⟨j, rfl⟩
        · exact ⟨i, rfl⟩

end Placed

/-! ## Readers of outlines -/

section Readers

variable {α β : Type}

/-- The reader gives this for the outline of these data where enough levels of nesting are left, and refuses
them as too deep elsewhere. -/
structure Weighs (read : Nat → Outline → Except ReadError α) (j : Json) (a : α) : Prop where
  reads : ∀ room ≤ Outline.maxDepth, j.depth ≤ room → read room j.toOutline = .ok a
  refuses : ∀ room ≤ Outline.maxDepth, room < j.depth →
    read room j.toOutline = .error (.malformed .tooDeep)

theorem weighs_flat {read : Nat → Outline → Except ReadError α} {j : Json} {a : α} (hj : j.depth = 0)
    (h : ∀ room, read room j.toOutline = .ok a) : Weighs read j a :=
  ⟨fun room _ _ => h room, fun room _ hd => absurd (hj ▸ hd) (Nat.not_lt_zero room)⟩

theorem weighs_text (s : String) : Weighs (fun _ => textOf) (.string s) s := weighs_flat rfl fun _ => rfl

theorem weighs_truth (b : Bool) : Weighs (fun _ => truthOf) (.bool b) b := weighs_flat rfl fun _ => rfl

theorem weighs_whole {read : Json → Except ReadError α} {j : Json} {a : α} (h : read j = .ok a) :
    Weighs (whole read) j a := by
  refine ⟨fun room _ hd => ?_, fun room _ hd => ?_⟩
  · rw [whole, strict_toOutline j hd]
    exact h
  · rw [whole, strict_toOutline_of_lt j hd]
    rfl

theorem readAll_map {ρ : Type} {read : ρ → Except ReadError α} {write : β → ρ} {back : β → α} {xs : List β}
    (h : ∀ x ∈ xs, read (write x) = .ok (back x)) : readAll read (xs.map write) = .ok (xs.map back) := by
  induction xs with
  | nil => rfl
  | cons x xs ih =>
    rw [List.map_cons, readAll, h x List.mem_cons_self, ih fun y hy => h y (List.mem_cons_of_mem _ hy)]
    rfl

/-- A list is too deep if one of its items is: those before it are read. -/
theorem readAll_tooDeep {read : Nat → Outline → Except ReadError α} (write : β → Json) (back : β → α)
    {xs : List β} {room : Nat} (hr : room ≤ Outline.maxDepth) (h : ∀ x ∈ xs, Weighs read (write x) (back x))
    (hd : room < itemsDepth (xs.map write)) :
    readAll (read room) (xs.map fun x => (write x).toOutline) = .error (.malformed .tooDeep) := by
  induction xs with
  | nil => cases hd
  | cons x xs ih =>
    rw [List.map_cons, readAll]
    obtain first | first := Nat.lt_or_ge room (write x).depth
    · rw [(h x List.mem_cons_self).refuses room hr first]
      rfl
    · have rest : room < itemsDepth (xs.map write) := by
        rw [List.map_cons, itemsDepth] at hd
        omega
      rw [(h x List.mem_cons_self).reads room hr first,
        ih (fun y hy => h y (List.mem_cons_of_mem _ hy)) rest]
      rfl

theorem Weighs.list {read : Nat → Outline → Except ReadError α} (write : β → Json) (back : β → α)
    (xs : List β) (h : ∀ x ∈ xs, Weighs read (write x) (back x)) :
    Weighs (listOf read) (.list (xs.map write)) (xs.map back) := by
  have items (room : Nat) : listOf read (room + 1) (Json.list (xs.map write)).toOutline =
      (readAll (read room) (xs.map fun x => (write x).toOutline) >>= fun values => .ok values) := by
    rw [toOutline, itemOutlines_eq_map, List.map_map]
    rfl
  refine ⟨?_, ?_⟩
  · rintro (_ | room) hm hd
    · cases hd
    · have inner : ∀ j ∈ xs.map write, j.depth ≤ room := (itemsDepth_le _).1 (Nat.le_of_succ_le_succ hd)
      have values : readAll (read room) (xs.map fun x => (write x).toOutline) = .ok (xs.map back) :=
        readAll_map fun x hx =>
          (h x hx).reads room (Nat.le_of_succ_le hm) (inner _ (List.mem_map_of_mem hx))
      rw [items, values]
      rfl
  · rintro (_ | room) hm hd
    · rfl
    · rw [items, readAll_tooDeep write back (Nat.le_of_succ_le hm) h (Nat.lt_of_succ_lt_succ hd)]
      rfl

theorem weighs_strings (texts : List String) : Weighs (listOf fun _ => textOf) (.strings texts) texts := by
  have texts := Weighs.list Json.string id texts fun s _ => weighs_text s
  rwa [List.map_id] at texts

/-- What may be missing is read, if it is never written as `null`. -/
theorem Weighs.option {read : Nat → Outline → Except ReadError α} (write : β → Json) (back : β → α)
    (x : Option β) (hn : ∀ b, x = some b → (write b).toOutline ≠ .null)
    (h : ∀ b, x = some b → Weighs read (write b) (back b)) :
    Weighs (fun room => optionOf (read room)) (.optional (x.map write)) (x.map back) := by
  cases x with
  | none => exact weighs_flat rfl fun _ => rfl
  | some b =>
    have value := h b rfl
    have given (room : Nat) : optionOf (read room) (write b).toOutline =
        (read room (write b).toOutline).map some := by
      unfold optionOf
      split
      · next he => exact absurd he (hn b rfl)
      · rfl
    refine ⟨fun room hr hd => ?_, fun room hr hd => ?_⟩
    · exact (given room).trans (congrArg (Except.map some) (value.reads room hr hd))
    · exact (given room).trans (congrArg (Except.map some) (value.refuses room hr hd))

end Readers

/-! ## Records -/

section Records

variable {α ρ : Type}

theorem firstNamed?_of_not_mem {name : String} {members : List (String × ρ)}
    (h : name ∉ members.map Prod.fst) : firstNamed? name members = none := by
  induction members with
  | nil => rfl
  | cons m ms ih =>
    obtain ⟨k, v⟩ := m
    obtain ⟨hk, hms⟩ := not_or.1 (mt List.mem_cons.2 h)
    rw [firstNamed?, if_neg (Ne.symm hk), ih hms]
    rfl

theorem exists_firstNamed? {name : String} {v : ρ} {members : List (String × ρ)}
    (hn : (members.map Prod.fst).Nodup) (hm : (name, v) ∈ members) :
    ∃ i, firstNamed? name members = some (i, v) ∧ firstNamed? name (members.drop (i + 1)) = none := by
  induction members with
  | nil => cases hm
  | cons m ms ih =>
    obtain ⟨k, w⟩ := m
    obtain ⟨hk, hms⟩ := List.nodup_cons.1 hn
    by_cases he : k = name
    · subst he
      have same : w = v := by
        rcases List.mem_cons.1 hm with h | h
        · exact (Prod.mk.inj h).2.symm
        · exact absurd (List.mem_map.2 ⟨_, h, rfl⟩) hk
      exact ⟨0, by rw [firstNamed?, if_pos rfl, same], firstNamed?_of_not_mem hk⟩
    · have later : (name, v) ∈ ms := by
        rcases List.mem_cons.1 hm with h | h
        · exact absurd (Prod.mk.inj h).1.symm he
        · exact h
      obtain ⟨i, first, rest⟩ := ih hms later
      exact ⟨i + 1, by rw [firstNamed?, if_neg he, first]; rfl, rest⟩

/-- **A member of a record with distinct keys is read.** -/
theorem field_of_mem {number : Nat} {name : String} {read : ρ → Except ReadError α} {default? : Option α}
    {members : List (String × ρ)} {v : ρ} {a : α} (hn : (members.map Prod.fst).Nodup)
    (hm : (name, v) ∈ members) (hr : read v = .ok a) :
    field number name read default? (.named members) = .ok a := by
  obtain ⟨i, first, rest⟩ := exists_firstNamed? hn hm
  simp only [field, first, rest, hr]
  rfl

end Records

/-- The members of a record with their outlines. -/
def outlined (members : List (String × Json)) : List (String × Outline) :=
  members.map fun m => (m.1, m.2.toOutline)

theorem Weighs.field {α : Type} {read : Nat → Outline → Except ReadError α} {j : Json} {a : α}
    (h : Weighs read j a) (number : Nat) (name : String) (default? : Option α) {room : Nat}
    {members : List (String × Json)} (hn : (members.map Prod.fst).Nodup) (hm : (name, j) ∈ members)
    (hr : room ≤ Outline.maxDepth) :
    (field number name (read room) default? (.named (outlined members))).Weighed (j.depth ≤ room) a := by
  have keys : (outlined members).map Prod.fst = members.map Prod.fst := by
    rw [outlined, List.map_map]
    rfl
  have member : (name, j.toOutline) ∈ outlined members := List.mem_map.2 ⟨_, hm, rfl⟩
  refine ⟨fun hd => field_of_mem (keys ▸ hn) member (h.reads room hr hd), fun hd => ?_⟩
  obtain ⟨i, first, rest⟩ := exists_firstNamed? (keys ▸ hn) member
  have refused := h.refuses room hr (Nat.lt_of_not_le hd)
  refine ⟨i, ?_⟩
  simp only [Schema.field, first, rest, refused]
  rfl

/-- Members with proper keys, as they stand in an outline. -/
def keyed (members : List (String × Outline)) : List (Key × Outline) := members.map fun m => (.ok m.1, m.2)

theorem namedMembers_keyed (members : List (String × Outline)) :
    namedMembers (keyed members) = (members, .ok ()) := by
  induction members with
  | nil => rfl
  | cons m ms ih =>
    show namedMembers ((.ok m.1, m.2) :: keyed ms) = _
    rw [namedMembers, ih]

theorem namedMembers_memberOutlines (members : List (String × Json)) :
    namedMembers (memberOutlines members) = (outlined members, .ok ()) := by
  have keys : memberOutlines members = keyed (outlined members) := by
    rw [memberOutlines_eq_map, keyed, outlined, List.map_map]
    rfl
  rw [keys, namedMembers_keyed]

/-- What can be passed by are known members, and those that a lax look gets past. -/
theorem skipStrangers_eq_ok {known : List String} {members : List (String × Outline)} {place : Nat} :
    skipStrangers known place members = .ok () ↔ ∀ m ∈ members, m.1 ∈ known ∨ m.2.skip = .ok () := by
  induction members generalizing place with
  | nil => simp [skipStrangers]
  | cons m ms ih =>
    obtain ⟨k, o⟩ := m
    have rest := @ih (place + 1)
    rw [skipStrangers, List.forall_mem_cons, ← rest]
    by_cases hk : k ∈ known
    · simp [hk]
    · cases o.skip <;> simp [hk]

theorem skipStrangers_of_known {known : List String} {members : List (String × Outline)}
    (h : ∀ m ∈ members, m.1 ∈ known) (place : Nat) : skipStrangers known place members = .ok () :=
  skipStrangers_eq_ok.2 fun m hm => Or.inl (h m hm)

/-- **A record of known members is read by its fields.** -/
theorem weighs_form {α : Type} {name : String} {known : List String}
    {read : Nat → Source Outline → Placed α} {members : List (String × Json)} {a : α}
    (hk : ∀ m ∈ members, m.1 ∈ known)
    (h : ∀ room ≤ Outline.maxDepth,
      (read room (.named (outlined members))).Weighed (∀ m ∈ members, m.2.depth ≤ room) a) :
    Weighs (formOf name known read) (.record members) a := by
  have strangers : skipStrangers known 0 (outlined members) = .ok () := by
    refine skipStrangers_of_known (fun m hx => ?_) 0
    obtain ⟨x, member, rfl⟩ := List.mem_map.1 hx
    exact hk x member
  have fields (room : Nat) : formOf name known read (room + 1) (Json.record members).toOutline =
      (read room (.named (outlined members))).result := by
    rw [toOutline, formOf]
    simp only [namedMembers_memberOutlines, strangers]
    cases read room (.named (outlined members)) <;> rfl
  refine ⟨?_, ?_⟩
  · rintro (_ | room) hm hd
    · cases hd
    · have inner := (membersDepth_le _).1 (Nat.le_of_succ_le_succ hd)
      rw [fields, (h room (Nat.le_of_succ_le hm)).ok inner]
      rfl
  · rintro (_ | room) hm hd
    · rfl
    · have deep : ¬∀ m ∈ members, m.2.depth ≤ room := by
        rw [← membersDepth_le]
        exact Nat.not_le_of_lt (Nat.lt_of_succ_lt_succ hd)
      obtain ⟨i, refused⟩ := (h room (Nat.le_of_succ_le hm)).tooDeep deep
      rw [fields, refused]
      rfl

end Schema

end SqlGrammar
