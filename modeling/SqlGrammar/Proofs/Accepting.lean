import SqlGrammar.Proofs.Reading

/-!
What a reading that succeeds has read. Every part of it has then succeeded: of two readings at places of a
text both (`Placed.seq_eq_ok`), of a list every item, of a record of fixed members every field, and each field
is read from a part of its source or takes its default (`field_eq_ok`).

A look at a text succeeds only if the text nests no deeper than the levels it has left
(`depth_le_of_strict`), and lists and records use up one level each (`listOf_eq_ok`, `formOf_eq_ok`).
-/

namespace SqlGrammar

open Json

namespace Schema

/-! ## Readings at places of a text -/

namespace Placed

variable {α β : Type}

theorem map_eq_ok {f : α → β} {x : Placed α} {b : β} : f <$> x = ok b ↔ ∃ a, x = ok a ∧ f a = b := by
  show Placed.map f x = ok b ↔ _
  cases x <;> simp [map]

theorem seq_eq_ok {f : Placed (α → β)} {x : Placed α} {b : β} :
    f <*> x = ok b ↔ ∃ g a, f = ok g ∧ x = ok a ∧ g a = b := by
  show (both f x).map (fun p => p.1 p.2) = ok b ↔ _
  constructor
  · intro h
    obtain ⟨⟨g, a⟩, parts, rfl⟩ := map_eq_ok.1 h
    obtain ⟨hf, hx⟩ := both_eq_ok_iff.1 parts
    exact ⟨g, a, hf, hx, rfl⟩
  · rintro ⟨g, a, rfl, rfl, rfl⟩
    rfl

theorem seqLeft_eq_ok {x : Placed α} {y : Placed β} {a : α} : x <* y = ok a ↔ x = ok a ∧ ∃ b, y = ok b := by
  show Function.const β <$> x <*> y = ok a ↔ _
  simp only [seq_eq_ok, map_eq_ok]
  constructor
  · rintro ⟨-, b, ⟨a', hx, rfl⟩, hy, rfl⟩
    exact ⟨hx, b, hy⟩
  · rintro ⟨hx, b, hy⟩
    exact ⟨_, b, ⟨a, hx, rfl⟩, hy, rfl⟩

theorem result_eq_ok {x : Placed α} {a : α} : x.result = .ok a ↔ x = ok a := by
  cases x <;> simp [result]

theorem here_eq_ok {i : Nat} {x : Except ReadError α} {a : α} : here i x = ok a ↔ x = .ok a := by
  cases x <;> simp [here]

theorem look_eq_ok {i : Nat} {x : Except Fault α} {a : α} : look i x = ok a ↔ x = .ok a := by
  cases x <;> simp [look]

end Placed

/-! ## Fields and lists -/

/-- What a source holds, under a name or in a place. -/
def Source.parts {ρ : Type} : Source ρ → List ρ
  | .named members => members.map Prod.snd
  | .listed items _ => items

theorem mem_of_firstNamed? {ρ : Type} {name : String} {members : List (String × ρ)} {i : Nat} {v : ρ}
    (h : firstNamed? name members = some (i, v)) : v ∈ members.map Prod.snd := by
  induction members generalizing i with
  | nil => cases h
  | cons m ms ih =>
    obtain ⟨k, w⟩ := m
    rw [firstNamed?] at h
    split at h
    · obtain ⟨-, rfl⟩ := Prod.mk.inj (Option.some.inj h)
      exact List.mem_cons_self
    · obtain ⟨⟨j, x⟩, found, same⟩ := Option.map_eq_some_iff.1 h
      obtain ⟨-, rfl⟩ := Prod.mk.inj same
      exact List.mem_cons_of_mem _ (ih found)

/-- **A field is read from a part of its source**, or takes its default. -/
theorem field_eq_ok {ρ α : Type} {number : Nat} {name : String} {read : ρ → Except ReadError α}
    {default? : Option α} {s : Source ρ} {a : α} (h : field number name read default? s = .ok a) :
    (∃ v ∈ s.parts, read v = .ok a) ∨ default? = some a := by
  cases s with
  | named members =>
    simp only [field] at h
    cases found : firstNamed? name members with
    | none =>
      rw [found] at h
      cases default? with
      | none => cases h
      | some b => exact Or.inr (congrArg some (Placed.ok.inj h))
    | some m =>
      obtain ⟨i, v⟩ := m
      simp only [found] at h
      split at h
      · cases h
      · exact Or.inl ⟨v, mem_of_firstNamed? found, Placed.here_eq_ok.1 h⟩
  | listed items form =>
    simp only [field] at h
    cases found : items[number]? with
    | none =>
      rw [found] at h
      cases default? with
      | none => cases h
      | some b => exact Or.inr (congrArg some (Placed.ok.inj h))
    | some v =>
      rw [found] at h
      exact Or.inl ⟨v, List.mem_of_getElem? found, Placed.here_eq_ok.1 h⟩

theorem bind_eq_ok {ε α β : Type} {x : Except ε α} {f : α → Except ε β} {b : β} :
    x >>= f = .ok b ↔ ∃ a, x = .ok a ∧ f a = .ok b := by
  cases x <;> simp [bind, Except.bind]

theorem readAll_eq_ok {ρ α : Type} {read : ρ → Except ReadError α} {xs : List ρ} {as : List α}
    (h : readAll read xs = .ok as) : ∀ a ∈ as, ∃ x ∈ xs, read x = .ok a := by
  induction xs generalizing as with
  | nil =>
    cases h
    simp
  | cons x xs ih =>
    obtain ⟨b, first, later⟩ := bind_eq_ok.1 h
    obtain ⟨bs, rest, whole⟩ := bind_eq_ok.1 later
    cases whole
    rintro a (_ | ⟨_, ha⟩)
    · exact ⟨x, List.mem_cons_self, first⟩
    · obtain ⟨y, hy, read⟩ := ih rest a ha
      exact ⟨y, List.mem_cons_of_mem _ hy, read⟩

theorem list_eq_ok {α : Type} {read : Json → Except ReadError α} {j : Json} {as : List α}
    (h : list read j = .ok as) : ∃ items, j = .list items ∧ ∀ a ∈ as, ∃ i ∈ items, read i = .ok a := by
  cases j with
  | list items => exact ⟨items, rfl, readAll_eq_ok h⟩
  | _ => cases h

theorem looked_eq_ok {α : Type} {x : Except Fault α} {a : α} : looked x = .ok a ↔ x = .ok a := by
  cases x <;> simp [looked]

/-! ## Levels of nesting -/

mutual

theorem depth_le_of_strict : ∀ (o : Outline) {room : Nat} {j : Json}, o.strict room = .ok j → j.depth ≤ room
  | .null, _, _, h => by cases h; exact Nat.zero_le _
  | .bool _, _, _, h => by cases h; exact Nat.zero_le _
  | .number (.ok _), _, _, h => by cases h; exact Nat.zero_le _
  | .number (.error _), _, _, h => by cases h
  | .string (.ok _), _, _, h => by cases h; exact Nat.zero_le _
  | .string (.error _), _, _, h => by cases h
  | .list items stop, 0, _, h => by cases h
  | .list items stop, room + 1, _, h => by
    obtain ⟨js, strict, h⟩ := bind_eq_ok.1 h
    obtain ⟨-, -, same⟩ := bind_eq_ok.1 h
    cases same
    exact Nat.succ_le_succ (itemsDepth_le_of_strictItems items strict)
  | .record members stop, 0, _, h => by cases h
  | .record members stop, room + 1, _, h => by
    obtain ⟨ms, strict, h⟩ := bind_eq_ok.1 h
    obtain ⟨-, -, same⟩ := bind_eq_ok.1 h
    cases same
    exact Nat.succ_le_succ (membersDepth_le_of_strictMembers members strict)
  | .broken _ _, _, _, h => by cases h

theorem itemsDepth_le_of_strictItems : ∀ (os : List Outline) {room : Nat} {js : List Json},
    Outline.strictItems room os = .ok js → itemsDepth js ≤ room
  | [], _, _, h => by cases h; exact Nat.zero_le _
  | o :: os, _, _, h => by
    obtain ⟨j, first, h⟩ := bind_eq_ok.1 h
    obtain ⟨js, rest, same⟩ := bind_eq_ok.1 h
    cases same
    exact Nat.max_le.2 ⟨depth_le_of_strict o first, itemsDepth_le_of_strictItems os rest⟩

theorem membersDepth_le_of_strictMembers : ∀ (os : List (Key × Outline)) {room : Nat}
    {ms : List (String × Json)}, Outline.strictMembers room os = .ok ms → membersDepth ms ≤ room
  | [], _, _, h => by cases h; exact Nat.zero_le _
  | (k, o) :: os, _, _, h => by
    obtain ⟨_, -, h⟩ := bind_eq_ok.1 h
    obtain ⟨j, first, h⟩ := bind_eq_ok.1 h
    obtain ⟨ms, rest, same⟩ := bind_eq_ok.1 h
    cases same
    exact Nat.max_le.2 ⟨depth_le_of_strict o first, membersDepth_le_of_strictMembers os rest⟩

end

section Readers

variable {α : Type} {room : Nat}

theorem listOf_eq_ok {read : Nat → Outline → Except ReadError α} {o : Outline} {as : List α}
    (h : listOf read room o = .ok as) : ∀ a ∈ as, ∃ r i, room = r + 1 ∧ read r i = .ok a := by
  cases o with
  | list items stop =>
    cases room with
    | zero => cases h
    | succ room =>
      obtain ⟨values, read, h⟩ := bind_eq_ok.1 h
      obtain ⟨-, -, same⟩ := bind_eq_ok.1 h
      cases same
      intro a ha
      obtain ⟨i, -, value⟩ := readAll_eq_ok read a ha
      exact ⟨room, i, rfl, value⟩
  | _ => cases h

/-- The items of a list are read with one level less; a list that is missing has none. -/
theorem listOf_field {number : Nat} {name : String} {read : Nat → Outline → Except ReadError α}
    {s : Source Outline} {as : List α} (h : field number name (listOf read room) (some []) s = .ok as) :
    ∀ a ∈ as, ∃ r i, room = r + 1 ∧ read r i = .ok a := by
  obtain ⟨o, -, list⟩ | none := field_eq_ok h
  · exact listOf_eq_ok list
  · cases none
    simp

theorem formOf_eq_ok {name : String} {members : List String} {read : Nat → Source Outline → Placed α}
    {o : Outline} {a : α} (h : formOf name members read room o = .ok a) :
    ∃ r s, room = r + 1 ∧ read r s = .ok a := by
  cases o with
  | record given stop =>
    cases room with
    | zero => cases h
    | succ room =>
      obtain ⟨both, -⟩ := Placed.seqLeft_eq_ok.1 (Placed.result_eq_ok.1 h)
      obtain ⟨value, -⟩ := Placed.seqLeft_eq_ok.1 both
      exact ⟨room, _, rfl, value⟩
  | list items stop =>
    cases room with
    | zero => cases h
    | succ room =>
      obtain ⟨value, -⟩ := Placed.seqLeft_eq_ok.1 (Placed.result_eq_ok.1 h)
      exact ⟨room, _, rfl, value⟩
  | _ => cases h

end Readers

end Schema

end SqlGrammar
