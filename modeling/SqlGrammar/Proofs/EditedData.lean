import SqlGrammar.Proofs.Editing

/-!
What is read of data before and after an edit of them (`Keep`). Texts, truth values and tags are never edited
(`keep_flat`). A raw expression and a word that is written as a record have one member only, so there is no other
order of it (`rawExpression?_edited`, `keep_word`). The parts of a predicate are read by their names, or by their
numbers behind the tag, and a part that has a default is one that is read there (`parts_edited`); that the members
of a group are read as before is the hypothesis, so predicates follow by induction on how deep they are looked into
(`keep_predicate`).

A sort key is tried as a column first. That it stays none if it is none needs the way back, which is an edit too
(`keep_order`).
-/

namespace SqlGrammar

open Json

namespace Schema

/-! ## Lists -/

section Lists

variable {ρ α : Type} {read : ρ → Except ReadError α}

theorem readAll_edited {before after : List ρ} {v w : ρ} (keep : ∀ a, read v = .ok a → read w = .ok a)
    {as : List α} (h : readAll read (before ++ v :: after) = .ok as) :
    readAll read (before ++ w :: after) = .ok as := by
  induction before generalizing as with
  | nil =>
    obtain ⟨a, first, later⟩ := bind_eq_ok.1 h
    exact bind_eq_ok.2 ⟨a, keep a first, later⟩
  | cons u before ih =>
    obtain ⟨a, first, later⟩ := bind_eq_ok.1 h
    obtain ⟨bs, rest, whole⟩ := bind_eq_ok.1 later
    exact bind_eq_ok.2 ⟨a, first, bind_eq_ok.2 ⟨bs, ih rest, whole⟩⟩

end Lists

/-! ## Data -/

/-- An edit of data is one of their outlines. -/
def DataEdit (r : Role) (v w : Json) : Prop := Edit r v.toOutline w.toOutline

def DataTells (v j : Json) : Prop := j.toOutline = v.toOutline

abbrev DataSourceEdit : Nat → Role → Source Json → Source Json → Prop := SourceEdit DataEdit DataTells

section Data

variable {α : Type} {r : Role} {v w : Json}

theorem read_of_tells {read : Json → Except ReadError α} {j : Json} {a : α} (h : read j = .ok a) (v : Json)
    (told : DataTells v j) : read v = .ok a := toOutline_injective told ▸ h

theorem exists_data {o : Outline} (edit : Edit r v.toOutline o) : ∃ w : Json, o = w.toOutline := edit.isData ⟨v, rfl⟩

theorem DataEdit.record {members : List (String × Json)} (edit : DataEdit r (.record members) w) (shift : Nat) :
    ∃ members', w = .record members' ∧ DataSourceEdit shift r (.named members) (.named members') := by
  have outlines (ms : List (String × Json)) :
      (Json.record ms).toOutline = .record (spelled toOutline ms) .closed := by
    rw [toOutline, memberOutlines_eq_map]
    rfl
  rw [DataEdit, outlines] at edit
  obtain ⟨members', same, edited⟩ := edit.named exists_data (fun j => ⟨j, rfl⟩) shift
  rw [← outlines] at same
  exact ⟨members', toOutline_injective same, edited⟩

theorem DataEdit.list {items : List Json} (edit : DataEdit r (.list items) w) :
    ∃ before u v after, items = before ++ u :: after ∧ w = .list (before ++ v :: after) ∧
      DataEdit (r.item before.length) u v := by
  have outlines (js : List Json) : (Json.list js).toOutline = .list (js.map toOutline) .closed := by
    rw [toOutline, itemOutlines_eq_map]
  rw [DataEdit, outlines] at edit
  obtain ⟨before, u, v, after, rfl, same, inner⟩ := edit.listed exists_data
  rw [← outlines] at same
  exact ⟨before, u, v, after, rfl, toOutline_injective same, inner⟩

theorem DataEdit.depth_ne_zero (edit : DataEdit r v w) : v.depth ≠ 0 := by
  cases v with
  | list _ | record _ => exact Nat.succ_ne_zero _
  | _ => cases edit

theorem keep_flat {read : Json → Except ReadError α} (h : ∀ j a, read j = .ok a → j.depth = 0) :
    Keep (DataEdit r) read := fun v _ a edit given => absurd (h v a given) edit.depth_ne_zero

theorem keep_text : Keep (DataEdit r) text := keep_flat fun j a h => by
  cases j <;> first | rfl | cases h

theorem keep_truth : Keep (DataEdit r) truth := keep_flat fun j a h => by
  cases j <;> first | rfl | cases h

theorem keep_kindOf : Keep (DataEdit r) kindOf := keep_flat fun j a h => by
  cases j <;> first | rfl | cases h

theorem keep_list {read : Json → Except ReadError α} (item : ∀ i, Keep (DataEdit (r.item i)) read) :
    Keep (DataEdit r) (list read) := by
  intro v w as edit h
  cases v with
  | list items =>
    obtain ⟨before, u, v, after, rfl, rfl, inner⟩ := edit.list
    exact readAll_edited (fun a => item before.length inner) h
  | _ => cases h

/-- Where nothing is known of a record, its members are in another order or one of them is edited. -/
theorem plain_cases {members members' : List (String × Json)} {shift : Nat}
    (edit : DataSourceEdit shift .plain (.named members) (.named members')) :
    ((members.map Prod.fst).Nodup ∧ members.Perm members') ∨ ∃ before name u v after,
      members = before ++ (name, u) :: after ∧ members' = before ++ (name, v) :: after ∧ DataEdit .plain u v := by
  cases edit with
  | reorder distinct perm => exact Or.inl ⟨distinct, perm⟩
  | drop given _ _ => cases given
  | add given _ _ => cases given
  | member edit => exact Or.inr ⟨_, _, _, _, _, rfl, rfl, edit⟩

theorem rawExpression?_eq_some {members : List (String × Json)} {sql : String} :
    rawExpression? members = some sql ↔
      (∃ k, members.getLast? = some (k, .string sql)) ∧ ∀ m ∈ members, m.1 = rawKey := by
  rw [rawExpression?]
  split
  · next k sql' last => simp [last, and_comm]
  · next other =>
    refine iff_of_false nofun ?_
    rintro ⟨⟨k, last⟩, -⟩
    exact other k sql last

/-- A raw expression is a single member, so there is no other order of it, and its text is not edited. -/
theorem rawExpression?_edited {members members' : List (String × Json)} {shift : Nat} {sql : String}
    (edit : DataSourceEdit shift .plain (.named members) (.named members')) (h : rawExpression? members = some sql) :
    rawExpression? members' = some sql := by
  obtain ⟨⟨k, last⟩, keys⟩ := rawExpression?_eq_some.1 h
  obtain ⟨distinct, perm⟩ | ⟨before, name, u, v, after, rfl, rfl, inner⟩ := plain_cases edit
  · match members, last, keys, distinct, perm with
    | [m], _, _, _, perm => rwa [List.perm_singleton.1 perm.symm]
    | m :: n :: ms, _, keys, distinct, _ =>
      have same : m.1 = n.1 := (keys m (by simp)).trans (keys n (by simp)).symm
      simp [same] at distinct
  · refine rawExpression?_eq_some.2 ⟨⟨k, ?_⟩, ?_⟩
    · cases after with
      | nil =>
        rw [List.getLast?_concat] at last
        cases last
        exact absurd rfl inner.depth_ne_zero
      | cons m after => simpa using last
    · rw [List.forall_mem_append, List.forall_mem_cons] at keys ⊢
      exact keys

theorem keep_value : Keep (DataEdit .plain) value := by
  intro v w a edit h
  cases v with
  | record members =>
    rw [value] at h
    split at h
    · next sql raw =>
      obtain ⟨members', rfl, edited⟩ := edit.record 0
      rw [value, rawExpression?_edited edited raw]
      exact h
    · cases h
  | list _ => cases h
  | _ => exact absurd rfl edit.depth_ne_zero

theorem keep_nothing (lenient : Bool) : Keep (DataEdit .plain) (nothing lenient) := by
  intro v w a edit h
  cases v with
  | record members =>
    obtain ⟨members', rfl, edited⟩ := edit.record 0
    cases members with
    | nil =>
      obtain ⟨-, perm⟩ | ⟨before, name, u, v, after, none, -⟩ := plain_cases edited
      · rwa [List.perm_nil.1 perm.symm]
      · simp at none
    | cons m ms => cases h
  | list _ => cases h
  | _ => exact absurd rfl edit.depth_ne_zero

theorem keep_word {lenient : Bool} {words : List (String × α)} : Keep (DataEdit .plain) (word lenient words) := by
  intro v w a edit h
  cases v with
  | record members =>
    obtain ⟨members', rfl, edited⟩ := edit.record 0
    match members, h with
    | [(k, u)], h =>
      obtain ⟨-, perm⟩ | ⟨before, name, u', v, after, one, rfl, inner⟩ := plain_cases edited
      · rwa [List.perm_singleton.1 perm.symm]
      · obtain ⟨rfl, rest⟩ | ⟨-, none⟩ := List.append_eq_singleton_iff.1 one.symm
        case inr => cases none
        cases rest
        obtain ⟨b, named, later⟩ := bind_eq_ok.1 h
        obtain ⟨⟨⟩, void, whole⟩ := bind_eq_ok.1 later
        exact bind_eq_ok.2 ⟨b, named, bind_eq_ok.2 ⟨(), keep_nothing lenient inner void, whole⟩⟩
  | list _ => cases h
  | _ => exact absurd rfl edit.depth_ne_zero

end Data

/-! ### Fields -/

section Fields

variable {α : Type} {r : Role} {shift : Nat} {s s' : Source Json} (edit : DataSourceEdit shift r s s')
  (number : Nat) (name : String)

include edit

theorem flat_edited {read : Json → Except ReadError α} (own : name ∉ r.defaults.map Prod.fst)
    (keep : ∀ r, Keep (DataEdit r) read) :
    Placed.Kept (field number name read none s) (field number name read none s') :=
  field_edited edit number name (keep _) (keep _) fun _ _ given => absurd given (not_mem_defaults own)

theorem text_edited (own : name ∉ r.defaults.map Prod.fst) :
    Placed.Kept (field number name text none s) (field number name text none s') :=
  flat_edited edit number name own fun _ => keep_text

end Fields

/-! ### Predicates -/

section Parts

variable {s s' : Source Json} (edit : DataSourceEdit 1 .predicate s s')

include edit

theorem connective_edited (number : Nat) :
    Placed.Kept (connective (number + 1) s) (connective (number + 1) s') :=
  default_edited edit (number + 1) "boolean" rfl rfl keep_word
    (fun i given => by simpa [Role.defaults] using given) (read_of_tells rfl)

theorem negation_edited (number : Nat) : Placed.Kept (negation (number + 1) s) (negation (number + 1) s') :=
  default_edited edit (number + 1) "negated" rfl rfl keep_truth
    (fun i given => by simpa [Role.defaults] using given) (read_of_tells rfl)

/-- **The parts of a predicate are read as before**, if those of the members of a group are. -/
theorem parts_edited {member : Json → Except ReadError Predicate} (keep : Keep (DataEdit .predicate) member)
    (kind : Kind) : Placed.Kept (parts member s kind) (parts member s' kind) := by
  have values : Keep (DataEdit .plain) (list value) := keep_list fun _ => keep_value
  cases kind with
  | compare =>
    have column := text_edited edit 0 "column" (by decide)
    have operator := text_edited edit 1 "operator" (by decide)
    have value := part_edited edit 2 "value" rfl rfl keep_value (by decide)
    exact (((column.map _).seq operator).seq value).seq (connective_edited edit 2)
  | columns =>
    have first := text_edited edit 0 "first" (by decide)
    have operator := text_edited edit 1 "operator" (by decide)
    have second := text_edited edit 2 "second" (by decide)
    exact (((first.map _).seq operator).seq second).seq (connective_edited edit 2)
  | oneOf =>
    have column := text_edited edit 0 "column" (by decide)
    have values := part_edited edit 1 "values" rfl rfl values (by decide)
    exact (((column.map _).seq values).seq (negation_edited edit 1)).seq (connective_edited edit 2)
  | isNull =>
    have column := text_edited edit 0 "column" (by decide)
    exact ((column.map _).seq (negation_edited edit 0)).seq (connective_edited edit 1)
  | between =>
    have column := text_edited edit 0 "column" (by decide)
    have low := part_edited edit 1 "low" rfl rfl keep_value (by decide)
    have high := part_edited edit 2 "high" rfl rfl keep_value (by decide)
    exact ((((column.map _).seq low).seq high).seq (negation_edited edit 2)).seq (connective_edited edit 3)
  | group =>
    have members := part_edited edit 0 "wheres" rfl rfl (keep_list (r := .list .predicate) fun _ => keep) (by decide)
    exact (members.map _).seq (connective_edited edit 0)
  | raw =>
    have sql := text_edited edit 0 "sql" (by decide)
    have bindings := default_edited edit 1 "bindings" rfl rfl values
      (fun i given => by simpa [Role.defaults] using given) (read_of_tells rfl)
    exact ((sql.map _).seq bindings).seq (connective_edited edit 1)

end Parts

theorem ofParts_edited {member : Json → Except ReadError Predicate} (keep : Keep (DataEdit .predicate) member)
    {before after : List Json} {u v : Json} (edit : DataEdit (Role.predicate.item (before.length + 1)) u v)
    {kind : Kind} {p : Predicate} (h : ofParts member kind (.listed (before ++ u :: after) "") = .ok p) :
    ofParts member kind (.listed (before ++ v :: after) "") = .ok p := by
  refine Placed.Kept.result ((parts_edited (.item edit) keep kind).seqLeft ?_) h
  rw [List.length_append, List.length_append]
  exact .refl _

/-- A predicate whose tag is read by `tag`, and the members of a group by `member`. -/
def predicateBy (tag : Json → Except ReadError Kind) (member : Json → Except ReadError Predicate) :
    Json → Except ReadError Predicate
  | .record members => do
    let kind ← (field 0 "type" tag none (.named members)).result
    ofParts member kind (.named (members.filter fun m => m.1 ≠ "type"))
  | .list [] => untagged
  | .list (first :: items) => do
    let kind ← tag first
    ofParts member kind (.listed items "")
  | j => mistyped predicateForm j

theorem predicate_eq (depth : Nat) : predicate (depth + 1) = predicateBy kindOf (predicate depth) := by
  funext j
  cases j with
  | list items => cases items <;> rfl
  | _ => rfl

theorem keep_predicateBy {tag : Json → Except ReadError Kind} {member : Json → Except ReadError Predicate}
    (keepTag : ∀ r, Keep (DataEdit r) tag) (keep : Keep (DataEdit .predicate) member) :
    Keep (DataEdit .predicate) (predicateBy tag member) := by
  intro v w p edit h
  cases v with
  | record members =>
    obtain ⟨members', rfl, edited⟩ := edit.record 1
    obtain ⟨kind, tagged, parts⟩ := bind_eq_ok.1 h
    have kept : Placed.Kept (field 0 "type" tag none (.named members)) (field 0 "type" tag none (.named members')) :=
      flat_edited edited 0 "type" (by decide) keepTag
    refine bind_eq_ok.2 ⟨kind, kept.result tagged, ?_⟩
    obtain untouched | others := edited.filter "type" 1
    · rwa [← untouched]
    · exact (parts_edited others keep kind).result parts
  | list items =>
    obtain ⟨before, u, v, after, rfl, rfl, inner⟩ := edit.list
    cases before with
    | nil =>
      obtain ⟨kind, tagged, parts⟩ := bind_eq_ok.1 h
      exact bind_eq_ok.2 ⟨kind, keepTag _ inner tagged, parts⟩
    | cons first before =>
      obtain ⟨kind, tagged, parts⟩ := bind_eq_ok.1 h
      exact bind_eq_ok.2 ⟨kind, tagged, ofParts_edited keep inner parts⟩
  | _ => exact absurd rfl edit.depth_ne_zero

theorem keep_predicate (depth : Nat) : Keep (DataEdit .predicate) (predicate depth) := by
  induction depth with
  | zero => exact fun v w a _ h => nomatch h
  | succ depth ih =>
    rw [predicate_eq]
    exact keep_predicateBy (fun _ => keep_kindOf) ih

/-! ### Sort keys -/

def columnKey (s : Source Json) : Placed Order :=
  Order.column <$> field 0 "column" text none s <*> field 1 "direction" (word false directions) (some .asc) s

def rawKeyword (s : Source Json) : Placed Order := Order.raw <$> field 0 "raw" text none s

theorem order_eq_ok {members : List (String × Json)} {o : Order} : order (.record members) = .ok o ↔
    columnKey (.named members) = .ok o ∨
      (∀ o', columnKey (.named members) ≠ .ok o') ∧ rawKeyword (.named members) = .ok o := by
  unfold columnKey rawKeyword order
  dsimp only
  generalize Order.column <$> field 0 "column" text none (.named members) <*>
    field 1 "direction" (word false directions) (some .asc) (.named members) = column
  generalize Order.raw <$> field 0 "raw" text none (.named members) = raw
  cases column with
  | ok o => simp
  | fault i e => cases raw <;> simp

theorem columnKey_edited {s s' : Source Json} (edit : DataSourceEdit 0 .order s s') :
    Placed.Kept (columnKey s) (columnKey s') := by
  have column := text_edited edit 0 "column" (by decide)
  have direction : Placed.Kept (field 1 "direction" (word false directions) (some .asc) s) _ :=
    default_edited edit 1 "direction" rfl rfl keep_word
      (fun i given => by simpa [Role.defaults] using given) (read_of_tells rfl)
  exact (column.map _).seq direction

/-- A sort key that is no column stays none, since an edit can be undone. -/
theorem keep_order : Keep (DataEdit .order) order := by
  intro v w o edit h
  cases v with
  | record members =>
    obtain ⟨members', rfl, edited⟩ := edit.record 0
    obtain ⟨_, same, undone⟩ := DataEdit.record (Edit.symm edit) 0
    cases same
    rw [order_eq_ok] at h ⊢
    refine h.imp (columnKey_edited edited o) ?_
    rintro ⟨none, raw⟩
    have kept := (text_edited edited 0 "raw" (by decide)).map Order.raw
    exact ⟨fun o' column => none o' (columnKey_edited undone o' column), kept o raw⟩
  | list _ => cases h
  | _ => exact absurd rfl edit.depth_ne_zero

end Schema

end SqlGrammar
