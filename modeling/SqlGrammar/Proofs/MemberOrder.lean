import SqlGrammar.Proofs.Counting
import SqlGrammar.Proofs.EditedData
import SqlGrammar.Proofs.JsonGrammar

/-!
The order of members and the omission of defaults do not matter in the text of a query. Whoever reads a part of a
query from a text reads the same from it after an edit (`Keeps`), where so many levels of nesting are left as both
texts need: lists item by item (`keeps_list`), data as a whole once they are data (`keeps_whole`), and records by
their fields, where members that belong to no field are passed by (`keeps_form`). Of a predicate the tag is read where
it stands and the rest as data, which is as if it were read from data (`predicateOf_iff`).

A chain of edits can let an empty list come or go, and with it one level of nesting (`kept_of_edits`). So a text is
read as all texts that edits make of it if it nests at least one level less than a text may (`ofText_edited`).
-/

namespace SqlGrammar

open Json

namespace Schema

/-! ## Texts -/

/-- An edit where so many levels of nesting are left. -/
def EditIn (room : Nat) (r : Role) (v w : Outline) : Prop := Edit r v w ∧ v.depth ≤ room ∧ w.depth ≤ room

def TellsIn (room : Nat) (v : Outline) (j : Json) : Prop := j.toOutline = v ∧ v.depth ≤ room

abbrev SourceEditIn (room : Nat) : Role → Source Outline → Source Outline → Prop :=
  SourceEdit (EditIn room) (TellsIn room) 0

/-- The reader reads the same after an edit of what stands for this. -/
def Keeps {α : Type} (r : Role) (read : Nat → Outline → Except ReadError α) : Prop :=
  ∀ room, Keep (EditIn room r) (read room)

section Readers

variable {α : Type} {r : Role} {read : Nat → Outline → Except ReadError α}

theorem keeps_flat (h : ∀ room o a, read room o = .ok a → o.depth = 0) : Keeps r read :=
  fun room v _ a edit given => absurd (h room v a given) edit.1.depth_ne_zero

theorem keeps_text : Keeps r fun _ => textOf := keeps_flat fun _ o a h => by
  cases o <;> first | rfl | cases h

theorem keeps_truth : Keeps r fun _ => truthOf := keeps_flat fun _ o a h => by
  cases o <;> first | rfl | cases h

theorem keeps_data {data : Json → Except ReadError α}
    (h : ∀ room o a, read room o = .ok a ↔ ∃ j, o.strict room = .ok j ∧ data j = .ok a)
    (keep : Keep (DataEdit r) data) : Keeps r read := by
  rintro room v w a ⟨edit, fits, fits'⟩ given
  obtain ⟨j, strict, value⟩ := (h room v a).1 given
  obtain rfl := (strict_eq_ok fits).1 strict
  obtain ⟨j', rfl⟩ := exists_data edit
  exact (h room _ a).2 ⟨j', (strict_eq_ok fits').2 rfl, keep edit value⟩

theorem whole_eq_ok {data : Json → Except ReadError α} {room : Nat} {o : Outline} {a : α} :
    whole data room o = .ok a ↔ ∃ j, o.strict room = .ok j ∧ data j = .ok a := by
  rw [whole, bind_eq_ok]
  simp only [looked_eq_ok]

theorem keeps_whole {data : Json → Except ReadError α} (keep : Keep (DataEdit r) data) : Keeps r (whole data) :=
  keeps_data (fun _ _ _ => whole_eq_ok) keep

theorem keeps_option (keep : Keeps r read) : Keeps r fun room => optionOf (read room) := by
  intro room v w a edit given
  have some (o : Outline) (h : o.depth ≠ 0) : optionOf (read room) o = (read room o).map some := by
    cases o with
    | null => exact absurd rfl h
    | _ => rfl
  dsimp only at given ⊢
  rw [some v edit.1.depth_ne_zero] at given
  rw [some w edit.1.symm.depth_ne_zero]
  cases value : read room v with
  | error e =>
    rw [value] at given
    cases given
  | ok b =>
    rw [value] at given
    rw [keep room edit value, given]

theorem keeps_list (item : ∀ i, Keeps (r.item i) read) : Keeps r (listOf read) := by
  rintro (_ | room) v w as ⟨edit, fits, fits'⟩ given
  · exact absurd (Nat.le_zero.1 fits) edit.depth_ne_zero
  · cases edit with
    | item inner =>
      obtain ⟨values, all, rest⟩ := bind_eq_ok.1 given
      rw [Outline.depth_list_le] at fits fits'
      have kept := fun a => item _ room ⟨inner, fits _ (by simp), fits' _ (by simp)⟩ (a := a)
      exact bind_eq_ok.2 ⟨values, readAll_edited kept all, rest⟩
    | _ => cases given

/-- A word that is written as a record is its one key, with nothing as its value. -/
theorem exists_of_wordOf {words : List (String × α)} {room : Nat} {members : List (Key × Outline)} {a : α}
    (h : wordOf words room (.record members .closed) = .ok a) : ∃ k, members = [(k, .null)] := by
  cases room with
  | zero => cases h
  | succ room =>
    match members, h with
    | [(k, v)], h =>
      obtain ⟨key, -, h⟩ := bind_eq_ok.1 h
      obtain ⟨b, -, later⟩ := bind_eq_ok.1 h
      cases v with
      | null => exact ⟨k, rfl⟩
      | _ => cases later
    | (k, v) :: m :: more, h =>
      obtain ⟨key, -, h⟩ := bind_eq_ok.1 h
      obtain ⟨b, -, later⟩ := bind_eq_ok.1 h
      cases v <;> cases later

theorem keeps_word {words : List (String × α)} : Keeps .plain (wordOf words) := by
  rintro room v w a ⟨edit, -, -⟩ given
  cases edit with
  | reorder _ perm =>
    obtain ⟨k, rfl⟩ := exists_of_wordOf given
    rwa [List.perm_singleton.1 perm.symm]
  | drop default _ => cases default
  | add default _ => cases default
  | member inner =>
    obtain ⟨k, one⟩ := exists_of_wordOf given
    obtain ⟨rfl, rest⟩ | ⟨-, none⟩ := List.append_eq_singleton_iff.1 one
    · cases rest
      cases inner
    · cases none
  | item _ => cases given

/-! ### Predicates -/

/-- The tag of a predicate as data, which in a text is a word. -/
def kindOfWord (j : Json) : Except ReadError Kind := kindOfText j.toOutline

theorem keep_kindOfWord : Keep (DataEdit r) kindOfWord := keep_flat fun j a h => by
  cases j <;> first | rfl | cases h

theorem valuesOf_outlined (name : String) (members : List (String × Json)) :
    valuesOf name (outlined members) = (valuesOf name members).map toOutline := by
  rw [valuesOf, valuesOf, outlined, List.filter_map, List.map_map, List.map_map]
  rfl

theorem field_outlined {read : Outline → Except ReadError α} {number : Nat} {name : String} {default? : Option α}
    {members : List (String × Json)} {a : α} : field number name read default? (.named (outlined members)) = .ok a ↔
      field number name (fun j => read j.toOutline) default? (.named members) = .ok a := by
  rw [field_named_eq_ok, field_named_eq_ok, valuesOf_outlined, List.map_eq_nil_iff]
  simp only [List.map_eq_singleton_iff]
  refine or_congr_right ⟨?_, ?_⟩
  · rintro ⟨_, ⟨j, one, rfl⟩, value⟩
    exact ⟨j, one, value⟩
  · rintro ⟨j, one, value⟩
    exact ⟨_, ⟨j, one, rfl⟩, value⟩

theorem untaggedMembers_outlined {room : Nat} {members : List (String × Json)} (h : ∀ m ∈ members, m.2.depth ≤ room)
    (place : Nat) : untaggedMembers room place (outlined members) = .ok (members.filter fun m => m.1 ≠ "type") := by
  induction members generalizing place with
  | nil => rfl
  | cons m ms ih =>
    obtain ⟨first, rest⟩ := List.forall_mem_cons.1 h
    show untaggedMembers room place ((m.1, m.2.toOutline) :: outlined ms) = _
    rw [untaggedMembers, ih rest, strict_toOutline _ first]
    by_cases tag : m.1 = "type"
    · simp [tag]
    · simp only [tag, if_false]
      simp [tag]
      rfl

/-- Of what a text has for a predicate all is data, if its tag is. -/
theorem exists_of_untaggedMembers {room place : Nat} {given : List (String × Outline)} {members : List (String × Json)}
    (tag : ∀ m ∈ given, m.1 = "type" → ∃ s, m.2 = .string (.ok s))
    (h : untaggedMembers room place given = .ok members) :
    ∃ all, given = outlined all ∧ ∀ m ∈ all, m.2.depth ≤ room := by
  induction given generalizing place members with
  | nil => exact ⟨[], rfl, by simp⟩
  | cons m ms ih =>
    obtain ⟨k, o⟩ := m
    obtain ⟨first, rest⟩ := List.forall_mem_cons.1 tag
    rw [untaggedMembers] at h
    split at h
    · next hk =>
      obtain ⟨all, rfl, fits⟩ := ih rest h
      obtain ⟨s, rfl⟩ := first hk
      exact ⟨(k, .string s) :: all, rfl, List.forall_mem_cons.2 ⟨Nat.zero_le _, fits⟩⟩
    · obtain ⟨_, js, here, later, rfl⟩ := Placed.seq_eq_ok.1 h
      obtain ⟨j, strict, rfl⟩ := Placed.map_eq_ok.1 here
      obtain ⟨all, rfl, fits⟩ := ih rest later
      have value := Placed.look_eq_ok.1 strict
      obtain rfl := eq_toOutline_of_strict o value
      exact ⟨(k, j) :: all, rfl, List.forall_mem_cons.2 ⟨depth_le_of_strict _ value, fits⟩⟩

theorem exists_of_kindOfText {o : Outline} {kind : Kind} (h : kindOfText o = .ok kind) : ∃ s, o = .string (.ok s) := by
  cases o with
  | string s =>
    cases s with
    | ok s => exact ⟨s, rfl⟩
    | error f => cases h
  | _ => cases h

theorem exists_of_predicateOf {room : Nat} {o : Outline} {p : Predicate} (h : predicateOf room o = .ok p) :
    ∃ j : Json, o = j.toOutline ∧ j.depth ≤ room := by
  cases o with
  | record given stop =>
    cases room with
    | zero => cases h
    | succ room =>
      obtain ⟨⟨kind, members⟩, read, -⟩ := bind_eq_ok.1 h
      obtain ⟨both, ends⟩ := Placed.seqLeft_eq_ok.1 (Placed.result_eq_ok.1 read)
      obtain ⟨_, ms, tag, others, -⟩ := Placed.seq_eq_ok.1 both
      obtain ⟨k, tagged, -⟩ := Placed.map_eq_ok.1 tag
      obtain ⟨⟨⟩, ends⟩ := ends
      obtain ⟨⟨⟩, keys, closed⟩ := bind_eq_ok.1 (Placed.look_eq_ok.1 ends)
      have word : ∀ m ∈ (namedMembers given).1, m.1 = "type" → ∃ s, m.2 = .string (.ok s) := by
        intro m hm named
        obtain ⟨-, none⟩ | ⟨w, one, value⟩ := field_named_eq_ok.1 tagged
        · cases none
        · have here : m.2 ∈ valuesOf "type" (namedMembers given).1 := mem_valuesOf (named ▸ hm)
          rw [one, List.mem_singleton] at here
          rw [here]
          exact exists_of_kindOfText value
      obtain ⟨all, same, fits⟩ := exists_of_untaggedMembers word others
      refine ⟨.record all, ?_, Nat.succ_le_succ ((membersDepth_le all).2 fits)⟩
      rw [eq_keyed keys, same, eq_closed_of_strict closed, toOutline, memberOutlines_eq_map, keyed, outlined,
        List.map_map]
      rfl
  | list items stop =>
    cases room with
    | zero => cases h
    | succ room =>
      cases items with
      | nil =>
        obtain ⟨-, -, untagged⟩ := bind_eq_ok.1 h
        cases untagged
      | cons tag items =>
        obtain ⟨kind, tagged, h⟩ := bind_eq_ok.1 h
        obtain ⟨js, strict, h⟩ := bind_eq_ok.1 h
        obtain ⟨_, closed, -⟩ := bind_eq_ok.1 h
        obtain ⟨s, rfl⟩ := exists_of_kindOfText tagged
        have others := looked_eq_ok.1 strict
        obtain rfl := eq_itemOutlines_of_strict items others
        have fits := itemsDepth_le_of_strictItems _ others
        refine ⟨.list (.string s :: js), ?_, Nat.succ_le_succ (Nat.max_le.2 ⟨Nat.zero_le _, fits⟩)⟩
        cases stop with
        | closed => rfl
        | _ => cases closed
  | _ => cases h

theorem predicateOf_toOutline {room : Nat} {j : Json} (h : j.depth ≤ room) {p : Predicate} :
    predicateOf room j.toOutline = .ok p ↔ predicateBy kindOfWord (predicate Outline.maxDepth) j = .ok p := by
  cases j with
  | record members =>
    cases room with
    | zero => cases h
    | succ room =>
      have fits := (membersDepth_le members).1 (Nat.le_of_succ_le_succ h)
      have others := untaggedMembers_outlined fits 0
      rw [toOutline, predicateOf]
      simp only [namedMembers_memberOutlines, others]
      rw [predicateBy, bind_eq_ok, bind_eq_ok]
      constructor
      · rintro ⟨⟨kind, ms⟩, read, parts⟩
        obtain ⟨both, -⟩ := Placed.seqLeft_eq_ok.1 (Placed.result_eq_ok.1 read)
        obtain ⟨_, _, tag, ⟨⟩, same⟩ := Placed.seq_eq_ok.1 both
        obtain ⟨k, tagged, rfl⟩ := Placed.map_eq_ok.1 tag
        cases same
        exact ⟨kind, Placed.result_eq_ok.2 (field_outlined.1 tagged), parts⟩
      · rintro ⟨kind, tagged, parts⟩
        have tag := field_outlined.2 (Placed.result_eq_ok.1 tagged)
        refine ⟨(kind, _), Placed.result_eq_ok.2 (Placed.seqLeft_eq_ok.2 ⟨?_, (), rfl⟩), parts⟩
        exact Placed.seq_eq_ok.2 ⟨_, _, Placed.map_eq_ok.2 ⟨kind, tag, rfl⟩, rfl, rfl⟩
  | list items =>
    cases room with
    | zero => cases h
    | succ room =>
      cases items with
      | nil => exact iff_of_false (fun h => by cases h) fun h => by cases h
      | cons tag items =>
        have fits := (Nat.max_le.1 (Nat.le_of_succ_le_succ h)).2
        have others := strictItems_itemOutlines items fits
        rw [toOutline, itemOutlines, predicateOf, others]
        rfl
  | _ => exact iff_of_false (fun h => by cases h) fun h => by cases h

theorem predicateOf_iff {room : Nat} {o : Outline} {p : Predicate} : predicateOf room o = .ok p ↔
    ∃ j, o.strict room = .ok j ∧ predicateBy kindOfWord (predicate Outline.maxDepth) j = .ok p := by
  constructor
  · intro h
    obtain ⟨j, rfl, fits⟩ := exists_of_predicateOf h
    exact ⟨j, strict_toOutline j fits, (predicateOf_toOutline fits).1 h⟩
  · rintro ⟨j, strict, h⟩
    obtain rfl := eq_toOutline_of_strict o strict
    exact (predicateOf_toOutline (depth_le_of_strict _ strict)).2 h

theorem keeps_predicate : Keeps .predicate predicateOf :=
  keeps_data (fun _ _ _ => predicateOf_iff) (keep_predicateBy (fun _ => keep_kindOfWord) (keep_predicate _))

end Readers

/-! ### Records of fixed members -/

section Forms

variable {α : Type} {r p : Role} {room : Nat} {s s' : Source Outline}

/-- What can be passed by in a record can be passed by after an edit, defaults of any name included. -/
theorem strangers_edited {known : List String} {members members' : List (String × Outline)}
    (edit : SourceEditIn room r (.named members) (.named members')) :
    Placed.Kept (skipStrangers known 0 members) (skipStrangers known 0 members') := by
  rintro ⟨⟩ h
  rw [skipStrangers_eq_ok] at h ⊢
  cases edit with
  | reorder _ perm => exact fun m hm => h m (perm.mem_iff.2 hm)
  | drop _ _ _ =>
    rw [List.forall_mem_append, List.forall_mem_cons] at h
    exact List.forall_mem_append.2 ⟨h.1, h.2.2⟩
  | add given told _ =>
    rw [List.forall_mem_append] at h
    refine List.forall_mem_append.2 ⟨h.1, List.forall_mem_cons.2 ⟨Or.inr ?_, h.2⟩⟩
    exact told.1 ▸ (plain_default given).2
  | member inner =>
    rw [List.forall_mem_append, List.forall_mem_cons] at h ⊢
    exact ⟨h.1, h.2.1.imp_right inner.1.skip, h.2.2⟩

theorem formOf_keyed_eq_ok {form : String} {known : List String} {read : Nat → Source Outline → Placed α}
    {members : List (String × Outline)} {a : α} :
    formOf form known read (room + 1) (.record (keyed members) .closed) = .ok a ↔
      (read room (.named members) <* skipStrangers known 0 members).result = .ok a := by
  rw [formOf]
  simp only [namedMembers_keyed]
  rw [Placed.result_eq_ok, Placed.result_eq_ok, Placed.seqLeft_eq_ok]
  exact and_iff_left ⟨(), rfl⟩

/-- **A record is read as before, if its fields are**, whether it is written as a record or as a list. -/
theorem keeps_form {form : String} {known : List String} {read : Nat → Source Outline → Placed α}
    (fields : ∀ room s s', SourceEditIn room r s s' → Placed.Kept (read room s) (read room s')) :
    Keeps r (formOf form known read) := by
  rintro (_ | room) v w a ⟨edit, fits, fits'⟩ h
  · exact absurd (Nat.le_zero.1 fits) edit.depth_ne_zero
  cases v with
  | record given stop =>
    obtain ⟨-, -, keys, stopped⟩ := formOf_record_eq_ok h
    obtain rfl := eq_closed_of_strict stopped
    obtain ⟨members, rfl⟩ : ∃ members, given = keyed members := ⟨_, eq_keyed keys⟩
    obtain ⟨members', rfl, edited⟩ := edit.named (f := id) (fun _ => ⟨_, rfl⟩) (fun j => ⟨j.toOutline, rfl⟩) 0
    rw [Outline.depth_record_le] at fits fits'
    have within := edited.within (P := fun o => o.depth ≤ room) (List.forall_mem_map.2 fun m hm => ?_)
      (List.forall_mem_map.2 fun m hm => ?_)
    · rw [formOf_keyed_eq_ok] at h
      exact formOf_keyed_eq_ok.2 (((fields room _ _ within).seqLeft (strangers_edited within)).result h)
    · exact fits _ (List.mem_map.2 ⟨m, hm, rfl⟩)
    · exact fits' _ (List.mem_map.2 ⟨m, hm, rfl⟩)
  | list items stop =>
    cases edit with
    | item inner =>
      rw [Outline.depth_list_le] at fits fits'
      have within : EditIn room _ _ _ := ⟨inner, fits _ (by simp), fits' _ (by simp)⟩
      refine Placed.Kept.result ((fields room _ _ (.item within)).seqLeft ?_) h
      simp only [listEnd, List.length_append, List.length_cons]
      exact .refl _
  | _ => cases h

end Forms

section Defaults

variable {α : Type} {room : Nat} {read : Outline → Except ReadError α} {j : Json} {a : α}

theorem read_of_tellsIn (h : j.depth ≤ room → read j.toOutline = .ok a) (v : Outline) (told : TellsIn room v j) :
    read v = .ok a := by
  obtain ⟨rfl, fits⟩ := told
  exact h (depth_toOutline j ▸ fits)

theorem listOf_empty {read : Nat → Outline → Except ReadError α} (h : (Json.list []).depth ≤ room) :
    listOf read room (Json.list []).toOutline = .ok [] := by
  cases room with
  | zero => cases h
  | succ room => rfl

end Defaults

theorem keeps_texts {r : Role} : Keeps r (listOf fun _ => textOf) := keeps_list fun _ => keeps_text

theorem keeps_aggregate : Keeps .plain aggregateOf := by
  refine keeps_form fun room s s' edit => ?_
  have function := part_edited edit 0 "function" rfl rfl (keeps_text (r := .plain) room) (by simp [Role.defaults])
  have columns := part_edited edit 1 "columns" rfl rfl (keeps_texts (r := .plain) room) (by simp [Role.defaults])
  exact (function.map _).seq columns

theorem keeps_join : Keeps .join joinOf := by
  refine keeps_form fun room s s' edit => ?_
  have kinds : Keep (EditIn room .plain) (wordOf joinKinds room) := keeps_word room
  have conditions : Keeps (.list .predicate) (listOf predicateOf) := keeps_list fun _ => keeps_predicate
  have kind := default_edited edit 0 "kind" rfl rfl kinds (fun i given => by simpa [Role.defaults] using given)
    (read_of_tellsIn fun _ => rfl)
  have table := part_edited edit 1 "table" rfl rfl (keeps_text (r := .plain) room) (by simp [Role.defaults])
  have on := default_edited edit 2 "on" rfl rfl (conditions room) (fun i given => by simpa [Role.defaults] using given)
    (read_of_tellsIn listOf_empty)
  exact ((kind.map _).seq table).seq on

theorem keep_count (clause : PagingClause) : Keep (DataEdit .plain) (count clause) := keep_flat fun j a h => by
  cases j <;> first | rfl | cases h

/-- **A query is read as before the edit of its text.** -/
theorem keeps_query : Keeps .query queryOf := by
  refine keeps_form fun room s s' edit => ?_
  have own {name : String} {j i : Json} (only : valuesOf name ({} : Query).members = [j])
      (given : (name, i) ∈ Role.query.defaults) : i = j := List.mem_singleton.1 (only ▸ mem_valuesOf given)
  have text : Keeps .plain fun _ => textOf := keeps_text
  have texts : Keeps .plain (listOf fun _ => textOf) := keeps_texts
  have aggregate : Keeps .plain fun room => optionOf (aggregateOf room) := keeps_option keeps_aggregate
  have truth : Keeps .plain fun _ => truthOf := keeps_truth
  have counted (clause : PagingClause) : Keeps .plain fun room => optionOf (whole (count clause) room) :=
    keeps_option (keeps_whole (keep_count clause))
  have joins : Keeps (.list .join) (listOf joinOf) := keeps_list fun _ => keeps_join
  have predicates : Keeps (.list .predicate) (listOf predicateOf) := keeps_list fun _ => keeps_predicate
  have orders : Keeps (.list .order) (listOf (whole order)) := keeps_list fun _ => keeps_whole keep_order
  have table := default_edited edit 0 "table" rfl rfl (text room) (fun _ => own rfl) (read_of_tellsIn fun _ => rfl)
  have columns := default_edited edit 1 "columns" rfl rfl (texts room) (fun _ => own rfl) (read_of_tellsIn listOf_empty)
  have aggregate := default_edited edit 2 "aggregate" rfl rfl (aggregate room) (fun _ => own rfl)
    (read_of_tellsIn fun _ => rfl)
  have distinct := default_edited edit 3 "distinct" rfl rfl (truth room) (fun _ => own rfl)
    (read_of_tellsIn fun _ => rfl)
  have limit := default_edited edit 4 "limit" rfl rfl (counted .limit room) (fun _ => own rfl)
    (read_of_tellsIn fun _ => rfl)
  have offset := default_edited edit 5 "offset" rfl rfl (counted .offset room) (fun _ => own rfl)
    (read_of_tellsIn fun _ => rfl)
  have joins := default_edited edit 6 "joins" rfl rfl (joins room) (fun _ => own rfl) (read_of_tellsIn listOf_empty)
  have filters := default_edited edit 7 "wheres" rfl rfl (predicates room) (fun _ => own rfl)
    (read_of_tellsIn listOf_empty)
  have groups := default_edited edit 8 "groups" rfl rfl (texts room) (fun _ => own rfl) (read_of_tellsIn listOf_empty)
  have havings := default_edited edit 9 "havings" rfl rfl (predicates room) (fun _ => own rfl)
    (read_of_tellsIn listOf_empty)
  have orders := default_edited edit 10 "orders" rfl rfl (orders room) (fun _ => own rfl) (read_of_tellsIn listOf_empty)
  exact ((((((((((table.map _).seq columns).seq aggregate).seq distinct).seq limit).seq offset).seq joins).seq
    filters).seq groups).seq havings).seq orders

/-! ## Chains of edits -/

section Chains

variable {r : Role} {o o' : Outline} (edits : Relation.ReflTransGen (Edit r) o o')

include edits

theorem reach_of_edits : o.reach = o'.reach := by
  induction edits with
  | refl => rfl
  | tail _ edit ih => exact ih.trans edit.reach

theorem edits_symm : Relation.ReflTransGen (Edit r) o' o := by
  induction edits with
  | refl => exact .refl
  | tail _ edit ih => exact .head edit.symm ih

omit edits in
theorem edits_member {v w : Outline} (before : List (Key × Outline)) (key : Key) (after : List (Key × Outline))
    (edits : Relation.ReflTransGen (Edit (r.under key)) v w) :
    Relation.ReflTransGen (Edit r) (.record (before ++ (key, v) :: after) .closed)
      (.record (before ++ (key, w) :: after) .closed) := by
  induction edits with
  | refl => exact .refl
  | tail _ edit ih => exact ih.tail (.member edit)

omit edits in
theorem edits_item {v w : Outline} (before after : List Outline)
    (edits : Relation.ReflTransGen (Edit (r.item before.length)) v w) :
    Relation.ReflTransGen (Edit r) (.list (before ++ v :: after) .closed)
      (.list (before ++ w :: after) .closed) := by
  induction edits with
  | refl => exact .refl
  | tail _ edit ih => exact ih.tail (.item edit)

/-- **What a reader that keeps what it reads gives is kept along a chain of edits**, if one level of nesting more is
left than the text has: an empty list may have come that is the deepest of all. -/
theorem kept_of_edits {α : Type} {read : Nat → Outline → Except ReadError α} (keep : Keeps r read) {room : Nat}
    (shallow : o.reach < room) {a : α} (h : read room o = .ok a) : read room o' = .ok a := by
  have fits {u : Outline} (same : o.reach = u.reach) : u.depth ≤ room :=
    Nat.le_trans (Outline.reach_depth u).2 (same ▸ shallow)
  induction edits with
  | refl => exact h
  | tail before edit ih =>
    have reach := reach_of_edits before
    exact keep room ⟨edit, fits reach, fits (reach.trans edit.reach)⟩ ih

end Chains

end Schema

/-! ## Queries in texts -/

section Queries

variable {t t' : String} {o o' : Outline}

theorem Query.ofText_of_spells (text : Spells o t.toList) (q : Query) :
    Query.ofText t = .ok q ↔ Schema.queryOf Outline.maxDepth o = .ok q := by
  obtain ⟨left, scanned, rest⟩ := outline_of_spells text
  rw [Query.ofText_eq_ok, scanned]
  exact and_iff_left rest

/-- Texts that are read as the same query, or as none, compile to the same statement, or to none. -/
theorem compile_congr (h : ∀ q, Query.ofText t = .ok q ↔ Query.ofText t' = .ok q) (d : Dialect) (file : String) :
    (∀ limit offset, (CommandLine.compileSelect d file t limit offset).toOption =
      (CommandLine.compileSelect d file t' limit offset).toOption) ∧
    (CommandLine.compile d (.exists file) t).toOption = (CommandLine.compile d (.exists file) t').toOption := by
  cases read : Query.ofText t with
  | ok q =>
    have read' := (h q).1 read
    refine ⟨fun limit offset => ?_, ?_⟩
    · rw [compileSelect_eq read, compileSelect_eq read']
    · rw [CommandLine.compile, CommandLine.compile, read, read']
  | error e =>
    cases read' : Query.ofText t' with
    | ok q => cases read.symm.trans ((h q).2 read')
    | error e' =>
      refine ⟨fun limit offset => ?_, ?_⟩
      · rw [CommandLine.compileSelect, CommandLine.compileSelect, read, read']
        rfl
      · rw [CommandLine.compile, CommandLine.compile, read, read']
        rfl

/-- **The order and the omission of members do not matter.** -/
theorem ofText_edited (text : Spells o t.toList) (text' : Spells o' t'.toList) (shallow : o.depth < Outline.maxDepth)
    (edits : Relation.ReflTransGen (Schema.Edit .query) o o') :
    (∀ q, Query.ofText t = .ok q ↔ Query.ofText t' = .ok q) ∧
      ∀ d file, (∀ limit offset, (CommandLine.compileSelect d file t limit offset).toOption =
          (CommandLine.compileSelect d file t' limit offset).toOption) ∧
        (CommandLine.compile d (.exists file) t).toOption = (CommandLine.compile d (.exists file) t').toOption := by
  have reach : o.reach < Outline.maxDepth := Nat.lt_of_le_of_lt (Outline.reach_depth o).1 shallow
  have same := Schema.reach_of_edits edits
  have alike (q : Query) : Query.ofText t = .ok q ↔ Query.ofText t' = .ok q := by
    rw [Query.ofText_of_spells text, Query.ofText_of_spells text']
    exact ⟨Schema.kept_of_edits edits Schema.keeps_query reach,
      Schema.kept_of_edits (Schema.edits_symm edits) Schema.keeps_query (same ▸ reach)⟩
  exact ⟨alike, compile_congr alike⟩

/-- A tag stands last, in a group whose tag stands last, and three defaults are written out. -/
theorem ofText_edited_of_moved_tags :
    let leaf : Json := .record [("type", .string "null"), ("column", .string "a")]
    let leaf' : Json := .record [("column", .string "a"), ("negated", .bool false), ("type", .string "null")]
    let group : Json := .record [("type", .string "nested"), ("wheres", .list [leaf])]
    let group' : Json := .record [("boolean", .string "and"), ("wheres", .list [leaf']), ("type", .string "nested")]
    let data : Json := .record [("table", .string "t"), ("wheres", .list [group])]
    let data' : Json := .record [("wheres", .list [group']), ("joins", .list []), ("table", .string "t")]
    let q : Query := { table := "t", filters := [.group .and [.test .and (.isNull "a" false)]] }
    Query.ofText data.text = .ok q ∧ Query.ofText data'.text = .ok q := by
  intro leaf leaf' group group' data data' q
  have null : Relation.ReflTransGen (Schema.Edit .predicate) leaf.toOutline leaf'.toOutline := by
    refine .head (.reorder (by decide) (.swap _ _ _)) (.single ?_)
    exact @Schema.Edit.add .predicate [(.ok "column", _)] [(.ok "type", _)] "negated" (.bool false)
      (by simp [Schema.Role.defaults]) (by decide)
  have nested : Relation.ReflTransGen (Schema.Edit .predicate) group.toOutline group'.toOutline := by
    refine (Schema.edits_member (r := .predicate) [(.ok "type", _)] (.ok "wheres") []
      (Schema.edits_item (r := .list .predicate) [] [] null)).trans ?_
    refine .head (.reorder (by decide) (.swap _ _ _)) (.single ?_)
    exact @Schema.Edit.add .predicate [] [(.ok "wheres", _), (.ok "type", _)] "boolean" (.string "and")
      (by simp [Schema.Role.defaults]) (by decide)
  have whole : Relation.ReflTransGen (Schema.Edit .query) data.toOutline data'.toOutline := by
    refine (Schema.edits_member (r := .query) [(.ok "table", _)] (.ok "wheres") []
      (Schema.edits_item (r := .list .predicate) [] [] nested)).trans ?_
    refine .head (.reorder (by decide) (.swap _ _ _)) (.single ?_)
    exact @Schema.Edit.add .query [(.ok "wheres", _)] [(.ok "table", _)] "joins" (.list [])
      (by simp [Schema.Role.defaults, Query.members]) (by decide)
  have read : Query.ofText data.text = .ok q := by decide +kernel
  have text : Spells data.toOutline data.text.toList :=
    spells_text (by simp [data, group, leaf, Json.Whole, MembersWhole, ItemsWhole])
  have text' : Spells data'.toOutline data'.text.toList :=
    spells_text (by simp [data', group', leaf', Json.Whole, MembersWhole, ItemsWhole])
  exact ⟨read, ((ofText_edited text text' (by decide) whole).1 q).1 read⟩

end Queries

end SqlGrammar
