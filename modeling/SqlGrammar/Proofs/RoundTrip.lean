import SqlGrammar.Proofs.Masking
import SqlGrammar.Proofs.Reading

/-!
A query is read back from its own JSON text. Dates and timestamps come back as strings with their text,
everything else as it was (`Value.restored`); doubles are left out, but for the negative zero. A text that nests
too deep is refused for that.

Each part of a query is read back by itself: values (`value_toJson`), predicates as data
(`predicate_toJson`) and in a text (`weighs_predicate`), joins, sort keys, the aggregate and the row counts.
In a text, a predicate is read where it stands only up to its tag; its parts are read as data, with fresh
levels of nesting.
-/

namespace SqlGrammar

open Json

/-! ## Values -/

def Value.isFloat : Value → Bool
  | float _ => true
  | _ => false

/-- The value is no double but the negative zero: what a numeral in the range of the integers can stand for. -/
def Value.isExact : Value → Bool
  | float d => d = Double.zero.neg
  | _ => true

theorem Value.isExact_of_isFloat {v : Value} (h : v.isFloat = false) : v.isExact := by
  cases v with
  | float d => cases h
  | _ => rfl

/-- What a value is read back as: dates and timestamps as their text. -/
def Value.restored : Value → Value
  | date d => string d.text
  | timestamp t => string t.text
  | v => v

namespace Schema

theorem value_toJson {v : Value} (h : v.isExact) : value v.toJson = .ok v.restored := by
  cases v with
  | float d =>
    obtain rfl : d = Double.zero.neg := of_decide_eq_true h
    rfl
  | int n =>
    have upper : n.toInt < 0x8000000000000000 := n.toInt_lt
    show (if n.toInt < 0x8000000000000000 then Except.ok (Value.int (.ofInt n.toInt)) else _) = _
    rw [if_pos upper, Int64.ofInt_toInt]
    rfl
  | _ => rfl

theorem values_toJson {vs : List Value} (h : ∀ v ∈ vs, v.isExact) :
    list value (.list (vs.map Value.toJson)) = .ok (vs.map Value.restored) :=
  readAll_map fun v hv => value_toJson (h v hv)

/-! ## Predicates as data -/

def kindOfTest : Test → Kind
  | .compare .. => .compare
  | .columns .. => .columns
  | .oneOf .. => .oneOf
  | .isNull .. => .isNull
  | .between .. => .between
  | .raw .. => .raw

theorem variant_tag (t : Test) : variant kinds t.tag = .ok (kindOfTest t) := by
  cases t <;> rfl

section Parts

variable {members : List (String × Json)} (hn : (members.map Prod.fst).Nodup)

include hn

theorem connective_of_mem {c : Connective} (hm : ("boolean", .string c.word) ∈ members) (number : Nat) :
    connective number (.named members) = .ok c :=
  field_of_mem hn hm (by cases c <;> rfl)

theorem negation_of_mem {b : Bool} (hm : ("negated", .bool b) ∈ members) (number : Nat) :
    negation number (.named members) = .ok b :=
  field_of_mem hn hm rfl

theorem text_of_mem {name s : String} (hm : (name, .string s) ∈ members) (number : Nat) :
    field number name text none (.named members) = .ok s :=
  field_of_mem hn hm rfl

theorem value_of_mem {name : String} {v : Value} (hm : (name, v.toJson) ∈ members)
    (hv : v.isExact) (number : Nat) :
    field number name value none (.named members) = .ok v.restored :=
  field_of_mem hn hm (value_toJson hv)

theorem values_of_mem {name : String} (vs : List Value) (hm : (name, .list (vs.map Value.toJson)) ∈ members)
    (hv : ∀ v ∈ vs, v.isExact) (number : Nat) (default? : Option (List Value)) :
    field number name (list value) default? (.named members) = .ok (vs.map Value.restored) :=
  field_of_mem hn hm (values_toJson hv)

end Parts

theorem ofParts_members (member : Json → Except ReadError Predicate) (c : Connective) {t : Test}
    (h : ∀ v ∈ t.bindings, v.isExact) :
    ofParts member (kindOfTest t) (.named (t.members ++ [("boolean", .string c.word)])) =
      .ok (.test c (t.mapValues Value.restored)) := by
  have keys : ((t.members ++ [("boolean", Json.string c.word)]).map Prod.fst).Nodup := by
    cases t <;> simp [Test.members]
  have connective := connective_of_mem keys (c := c) (by simp)
  cases t with
  | compare column operator v =>
    rw [kindOfTest, ofParts, parts, connective, text_of_mem (s := column) keys (by simp [Test.members]),
      text_of_mem (s := operator) keys (by simp [Test.members]),
      value_of_mem (v := v) keys (by simp [Test.members]) (h v (by simp [Test.bindings]))]
    rfl
  | columns first operator second =>
    rw [kindOfTest, ofParts, parts, connective, text_of_mem (s := first) keys (by simp [Test.members]),
      text_of_mem (s := operator) keys (by simp [Test.members]),
      text_of_mem (s := second) keys (by simp [Test.members])]
    rfl
  | oneOf column vs negated =>
    rw [kindOfTest, ofParts, parts, connective, text_of_mem (s := column) keys (by simp [Test.members]),
      values_of_mem keys vs (by simp [Test.members]) h,
      negation_of_mem (b := negated) keys (by simp [Test.members])]
    rfl
  | isNull column negated =>
    rw [kindOfTest, ofParts, parts, connective, text_of_mem (s := column) keys (by simp [Test.members]),
      negation_of_mem (b := negated) keys (by simp [Test.members])]
    rfl
  | between column low high negated =>
    rw [kindOfTest, ofParts, parts, connective, text_of_mem (s := column) keys (by simp [Test.members]),
      value_of_mem (v := low) keys (by simp [Test.members]) (h low (by simp [Test.bindings])),
      value_of_mem (v := high) keys (by simp [Test.members]) (h high (by simp [Test.bindings])),
      negation_of_mem (b := negated) keys (by simp [Test.members])]
    rfl
  | raw sql vs =>
    rw [kindOfTest, ofParts, parts, connective, text_of_mem (s := sql) keys (by simp [Test.members]),
      values_of_mem keys vs (by simp [Test.members]) h]
    rfl

theorem ofParts_group {member : Json → Except ReadError Predicate} (c : Connective) {ps qs : List Predicate}
    (h : readAll member (Predicate.listJson ps) = .ok qs) :
    ofParts member .group
        (.named [("wheres", .list (Predicate.listJson ps)), ("boolean", .string c.word)]) =
      .ok (.group c qs) := by
  have keys : ([("wheres", Json.list (Predicate.listJson ps)), ("boolean", Json.string c.word)].map
      Prod.fst).Nodup := by simp
  have connective := connective_of_mem keys (c := c) (by simp)
  have members : field 0 "wheres" (list member) none
      (.named [("wheres", .list (Predicate.listJson ps)), ("boolean", .string c.word)]) = .ok qs :=
    field_of_mem keys List.mem_cons_self h
  rw [ofParts, parts, connective, members]
  rfl

/-! ## Predicates behind their tag -/

section Tagged

variable {tag : String} {kind : Kind} {members : List (String × Json)}

/-- The tag is read, and no member takes its place. -/
theorem kind_of_tag {ρ : Type} {read : ρ → Except ReadError Kind} {v : ρ} {members : List (String × ρ)}
    (hr : read v = .ok kind) (hm : "type" ∉ members.map Prod.fst) :
    field 0 "type" read none (.named (("type", v) :: members)) = .ok kind := by
  have nothing := firstNamed?_of_not_mem hm
  simp only [field, firstNamed?, if_pos, List.drop_succ_cons, List.drop_zero, nothing, hr]
  rfl

theorem filter_untagged (hm : "type" ∉ members.map Prod.fst) :
    members.filter (fun m => m.1 ≠ "type") = members := by
  rw [List.filter_eq_self]
  intro m hx
  have other : m.1 ≠ "type" := fun he => hm (he ▸ List.mem_map_of_mem hx)
  simpa using other

/-- A predicate is read by the parts behind its tag. -/
theorem predicate_record (ht : variant kinds tag = .ok kind) (hm : "type" ∉ members.map Prod.fst)
    (depth : Nat) :
    predicate (depth + 1) (.record (("type", .string tag) :: members)) =
      ofParts (predicate depth) kind (.named members) := by
  have read : field 0 "type" kindOf none (.named (("type", .string tag) :: members)) = .ok kind :=
    kind_of_tag ht hm
  have untagged : (("type", Json.string tag) :: members).filter (fun m => m.1 ≠ "type") = members := by
    rw [List.filter_cons_of_neg (by simp), filter_untagged hm]
  rw [predicate, read, untagged]
  rfl

theorem weighed_untaggedMembers {room : Nat} (hm : "type" ∉ members.map Prod.fst) (place : Nat) :
    (untaggedMembers room place (outlined members)).Weighed (∀ m ∈ members, m.2.depth ≤ room) members := by
  induction members generalizing place with
  | nil => exact (Placed.weighed_ok []).congr (by simp)
  | cons m ms ih =>
    obtain ⟨k, j⟩ := m
    obtain ⟨hk, hms⟩ := not_or.1 (mt List.mem_cons.2 hm)
    have first : (Placed.look place (j.toOutline.strict room)).Weighed (j.depth ≤ room) j := by
      refine ⟨fun hd => ?_, fun hd => ⟨place, ?_⟩⟩
      · rw [strict_toOutline j hd]
        rfl
      · rw [strict_toOutline_of_lt j (Nat.lt_of_not_le hd)]
        rfl
    have both := (first.map fun j js => (k, j) :: js).seq (ih hms (place + 1))
    show (untaggedMembers room place ((k, j.toOutline) :: outlined ms)).Weighed _ _
    rw [untaggedMembers, if_neg (Ne.symm hk)]
    exact both.congr (by rw [List.forall_mem_cons])

/-- In a text it is read so too, once all of it has been read, its parts with fresh levels of nesting. -/
theorem predicateOf_record {room : Nat} (ht : variant kinds tag = .ok kind)
    (hm : "type" ∉ members.map Prod.fst) :
    predicateOf (room + 1) (toOutline (.record (("type", .string tag) :: members))) =
      ((untaggedMembers room 1 (outlined members)).result >>= fun members =>
        ofParts (predicate Outline.maxDepth) kind (.named members)) := by
  have keys : "type" ∉ (outlined members).map Prod.fst := by
    rw [outlined, List.map_map]
    exact hm
  have read : field 0 "type" kindOfText none
      (.named (outlined (("type", .string tag) :: members))) = .ok kind := kind_of_tag ht keys
  have others : untaggedMembers room 0 (outlined (("type", .string tag) :: members)) =
      untaggedMembers room 1 (outlined members) := rfl
  rw [toOutline, predicateOf]
  simp only [namedMembers_memberOutlines, read, others]
  cases untaggedMembers room 1 (outlined members) <;> rfl

end Tagged

end Schema

namespace Predicate

def tag : Predicate → String
  | test _ t => t.tag
  | group .. => "nested"

def kind : Predicate → Schema.Kind
  | test _ t => Schema.kindOfTest t
  | group .. => .group

/-- The members of a predicate behind its tag. -/
def members : Predicate → List (String × Json)
  | test c t => t.members ++ [("boolean", .string c.word)]
  | group c ps => [("wheres", .list (listJson ps)), ("boolean", .string c.word)]

theorem toJson_eq (p : Predicate) : p.toJson = .record (("type", .string p.tag) :: p.members) := by
  cases p <;> rfl

theorem variant_tag (p : Predicate) : Schema.variant Schema.kinds p.tag = .ok p.kind := by
  cases p with
  | test c t => exact Schema.variant_tag t
  | group c ps => rfl

theorem tag_not_mem (p : Predicate) : "type" ∉ p.members.map Prod.fst := by
  cases p with
  | test c t => cases t <;> simp [members, Test.members]
  | group c ps => simp [members]

end Predicate

namespace Schema

theorem predicate_succ (p : Predicate) (depth : Nat) :
    predicate (depth + 1) p.toJson = ofParts (predicate depth) p.kind (.named p.members) := by
  rw [p.toJson_eq, predicate_record p.variant_tag p.tag_not_mem]

mutual

/-- **A predicate is read back from its data.** -/
theorem predicate_toJson : ∀ (p : Predicate) (depth : Nat), (∀ v ∈ p.bindings, v.isExact) →
    p.toJson.depth ≤ depth →
    predicate depth p.toJson = .ok (p.mapTests (Test.mapValues Value.restored))
  | .test c t, depth + 1, hv, _ => by
    rw [predicate_succ]
    exact ofParts_members _ c hv
  | .group c ps, depth + 1, hv, hd => by
    -- a group nests its members by a record and a list
    have inner : itemsDepth (Predicate.listJson ps) + 1 ≤ depth := by
      have members := (membersDepth_le _).1 (Nat.le_of_succ_le_succ hd)
      exact members ("wheres", .list (Predicate.listJson ps)) (by simp)
    rw [predicate_succ]
    exact ofParts_group c (readAll_listJson ps depth hv (Nat.le_of_succ_le inner))

theorem readAll_listJson : ∀ (ps : List Predicate) (depth : Nat),
    (∀ v ∈ Predicate.listBindings ps, v.isExact) →
    itemsDepth (Predicate.listJson ps) ≤ depth →
    readAll (predicate depth) (Predicate.listJson ps) =
      .ok (Predicate.mapListTests (Test.mapValues Value.restored) ps)
  | [], _, _, _ => rfl
  | p :: ps, depth, hv, hd => by
    obtain ⟨first, rest⟩ := Nat.max_le.1 hd
    have value := predicate_toJson p depth (fun v hm => hv v (List.mem_append_left _ hm)) first
    have values := readAll_listJson ps depth (fun v hm => hv v (List.mem_append_right _ hm)) rest
    rw [Predicate.listJson, readAll, value, values]
    rfl

end

/-- **A predicate is read back from its text**: behind its tag it is read as data. It is refused as too deep
before its parts are looked at. -/
theorem weighs_predicate {p : Predicate} (hv : ∀ v ∈ p.bindings, v.isExact) :
    Weighs predicateOf p.toJson (p.mapTests (Test.mapValues Value.restored)) := by
  have members (room : Nat) : (untaggedMembers room 1 (outlined p.members)).Weighed
      (∀ m ∈ p.members, m.2.depth ≤ room) p.members := weighed_untaggedMembers p.tag_not_mem 1
  have depth : p.toJson.depth = membersDepth p.members + 1 := by
    rw [p.toJson_eq]
    exact congrArg (· + 1) (Nat.zero_max _)
  refine ⟨?_, ?_⟩
  · rintro (_ | room) hm hd
    · rw [depth] at hd
      cases hd
    · have data := predicate_toJson p (Outline.maxDepth + 1) hv (by omega)
      have inner : ∀ m ∈ p.members, m.2.depth ≤ room := (membersDepth_le _).1 (by omega)
      have parts := (members room).ok inner
      rw [predicate_succ] at data
      rw [p.toJson_eq, predicateOf_record p.variant_tag p.tag_not_mem, parts]
      exact data
  · rintro (_ | room) hm hd
    · rw [p.toJson_eq]
      rfl
    · have deep : ¬∀ m ∈ p.members, m.2.depth ≤ room := by
        rw [← membersDepth_le]
        omega
      obtain ⟨i, refused⟩ := (members room).tooDeep deep
      rw [p.toJson_eq, predicateOf_record p.variant_tag p.tag_not_mem, refused]
      rfl

theorem weighs_predicates (ps : List Predicate) (hv : ∀ v ∈ ps.flatMap Predicate.bindings, v.isExact) :
    Weighs (listOf predicateOf) (.list (ps.map Predicate.toJson))
      (Predicate.mapListTests (Test.mapValues Value.restored) ps) := by
  rw [Predicate.mapListTests_eq_map]
  refine Weighs.list Predicate.toJson _ ps fun p hp => ?_
  exact weighs_predicate fun v hm => hv v (List.mem_flatMap.2 ⟨p, hp, hm⟩)

/-! ## The other parts of a query -/

theorem weighs_joinKind (k : JoinKind) : Weighs (wordOf joinKinds) (.string k.word) k :=
  weighs_flat rfl fun _ => by cases k <;> rfl

theorem weighs_join {j : Join} (hv : ∀ v ∈ j.conditions.flatMap Predicate.bindings, v.isExact) :
    Weighs joinOf j.toJson
      { j with conditions := Predicate.mapListTests (Test.mapValues Value.restored) j.conditions } := by
  refine weighs_form (by simp) fun room hr => ?_
  have keys : ([("kind", Json.string j.kind.word), ("table", Json.string j.table),
    ("on", Json.list (j.conditions.map Predicate.toJson))].map Prod.fst).Nodup := by simp
  have kind := (weighs_joinKind j.kind).field 0 "kind" (some .inner) keys (by simp) hr
  have table := (weighs_text j.table).field 1 "table" none keys (by simp) hr
  have on := (weighs_predicates j.conditions hv).field 2 "on" (some []) keys (by simp) hr
  refine (((kind.map Join.mk).seq table).seq on).congr ?_
  simp only [List.forall_mem_cons, List.not_mem_nil, false_implies, implies_true, and_true, and_assoc]

theorem weighs_aggregate (a : Aggregate) : Weighs aggregateOf a.toJson a := by
  refine weighs_form (by simp) fun room hr => ?_
  have keys : ([("function", Json.string a.name), ("columns", Json.strings a.columns)].map
    Prod.fst).Nodup := by simp
  have name := (weighs_text a.name).field 0 "function" none keys (by simp) hr
  have columns := (weighs_strings a.columns).field 1 "columns" none keys (by simp) hr
  refine ((name.map Aggregate.mk).seq columns).congr ?_
  simp only [List.forall_mem_cons, List.not_mem_nil, false_implies, implies_true, and_true]

/-- A sort key is read back: only a column is written with a member `column`. -/
theorem order_toJson (o : Order) : order o.toJson = .ok o := by
  cases o with
  | column c direction =>
    have keys : ([("column", Json.string c), ("direction", Json.string direction.word)].map
      Prod.fst).Nodup := by simp
    have name : field 0 "column" text none
        (.named [("column", Json.string c), ("direction", Json.string direction.word)]) = .ok c :=
      text_of_mem keys (by simp) 0
    have way : field 1 "direction" (word false directions) (some .asc)
        (.named [("column", Json.string c), ("direction", Json.string direction.word)]) = .ok direction :=
      field_of_mem keys (v := .string direction.word) (by simp) (by cases direction <;> rfl)
    rw [Order.toJson, order, name, way]
    rfl
  | raw sql => rfl

theorem weighs_count (clause : PagingClause) (n : Option UInt64) :
    Weighs (fun room => optionOf (whole (count clause) room)) (countJson n) n := by
  have number (k : UInt64) : count clause (.integer k.toNat) = .ok k := by
    show count clause (.number (.integer (.ofNat k.toNat))) = _
    rw [count, if_pos k.toNat_lt_size, UInt64.ofNat_toNat]
  have value := Weighs.option (fun k : UInt64 => Json.integer k.toNat) id n
    (fun k _ => by simp [Json.integer, toOutline]) fun k _ => weighs_whole (number k)
  rwa [Option.map_id] at value

end Schema

/-! ## Queries -/

def Query.members (q : Query) : List (String × Json) :=
  [("table", .string q.table), ("columns", .strings q.columns),
    ("aggregate", .optional (q.aggregate.map Aggregate.toJson)), ("distinct", .bool q.distinct),
    ("limit", countJson q.limit), ("offset", countJson q.offset),
    ("joins", .list (q.joins.map Join.toJson)),
    ("wheres", .list (q.filters.map Predicate.toJson)),
    ("groups", .strings q.groups), ("havings", .list (q.havings.map Predicate.toJson)),
    ("orders", .list (q.orders.map Order.toJson))]

theorem Query.toJson_eq (q : Query) : q.toJson = .record q.members := rfl

theorem Query.keys_members (q : Query) : q.members.map Prod.fst = Schema.queryMembers := rfl

namespace Schema

section Parts

variable {q : Query} (hv : ∀ v ∈ q.values, v.isExact)

include hv

theorem weighs_clause {ps : List Predicate} (h : ps ⊆ q.predicates) :
    Weighs (listOf predicateOf) (.list (ps.map Predicate.toJson))
      (Predicate.mapListTests (Test.mapValues Value.restored) ps) := by
  refine weighs_predicates ps fun v hm => hv v ?_
  obtain ⟨p, hp, hm⟩ := List.mem_flatMap.1 hm
  exact List.mem_flatMap.2 ⟨p, h hp, hm⟩

theorem weighs_joins :
    Weighs (listOf joinOf) (.list (q.joins.map Join.toJson)) (q.mapValues Value.restored).joins := by
  refine Weighs.list Join.toJson _ q.joins fun j hj => weighs_join fun v hm => hv v ?_
  obtain ⟨p, hp, hm⟩ := List.mem_flatMap.1 hm
  refine List.mem_flatMap.2 ⟨p, ?_, hm⟩
  exact List.mem_append_left _ (List.mem_append_left _ (List.mem_flatMap.2 ⟨j, hj, hp⟩))

/-- **A query is read back where enough levels of nesting are left**, and refused as too deep elsewhere. -/
theorem weighs_query : Weighs queryOf q.toJson (q.mapValues Value.restored) := by
  have orders : Weighs (listOf (whole order)) (.list (q.orders.map Order.toJson)) q.orders := by
    have keys := Weighs.list Order.toJson id q.orders fun o _ => weighs_whole (order_toJson o)
    rwa [List.map_id] at keys
  have aggregate : Weighs (fun room => optionOf (aggregateOf room))
      (.optional (q.aggregate.map Aggregate.toJson)) q.aggregate := by
    have value := Weighs.option Aggregate.toJson id q.aggregate
      (fun a _ => by simp [Aggregate.toJson, toOutline]) fun a _ => weighs_aggregate a
    rwa [Option.map_id] at value
  have keys : (q.members.map Prod.fst).Nodup := by
    rw [q.keys_members]
    decide
  have known : ∀ m ∈ q.members, m.1 ∈ queryMembers := by
    intro m hm
    rw [← q.keys_members]
    exact List.mem_map_of_mem hm
  rw [q.toJson_eq]
  refine weighs_form known fun room hr => ?_
  have table := (weighs_text q.table).field 0 "table" (some "") keys (by simp [Query.members]) hr
  have columns := (weighs_strings q.columns).field 1 "columns" (some []) keys (by simp [Query.members]) hr
  have aggregate := aggregate.field 2 "aggregate" (some none) keys (by simp [Query.members]) hr
  have distinct := (weighs_truth q.distinct).field 3 "distinct" (some false) keys (by simp [Query.members]) hr
  have limit := (weighs_count .limit q.limit).field 4 "limit" (some none) keys (by simp [Query.members]) hr
  have offset := (weighs_count .offset q.offset).field 5 "offset" (some none) keys (by simp [Query.members]) hr
  have joins := (weighs_joins hv).field 6 "joins" (some []) keys (by simp [Query.members]) hr
  have filters := (weighs_clause hv q.filters_subset_predicates).field 7 "wheres" (some []) keys
    (by simp [Query.members]) hr
  have groups := (weighs_strings q.groups).field 8 "groups" (some []) keys (by simp [Query.members]) hr
  have havings := (weighs_clause hv q.havings_subset_predicates).field 9 "havings" (some []) keys
    (by simp [Query.members]) hr
  have orders := orders.field 10 "orders" (some []) keys (by simp [Query.members]) hr
  have all := ((((((((((table.map Query.mk).seq columns).seq aggregate).seq distinct).seq limit).seq
    offset).seq joins).seq filters).seq groups).seq havings).seq orders
  refine all.congr ?_
  simp only [Query.members, List.forall_mem_cons, List.not_mem_nil, false_implies, implies_true, and_true,
    and_assoc]

end Parts

theorem reads_query {q : Query} (hv : ∀ v ∈ q.values, v.isFloat = false) :
    ∀ room ≤ Outline.maxDepth, q.toJson.depth ≤ room →
      queryOf room q.toJson.toOutline = .ok (q.mapValues Value.restored) :=
  (weighs_query fun v hm => Value.isExact_of_isFloat (hv v hm)).reads

end Schema

/-! ## Only integers of 64 bits and negative zeros are written -/

namespace Json

theorem itemsWhole_iff : ∀ items : List Json, ItemsWhole items ↔ ∀ j ∈ items, j.Whole
  | [] => by simp [ItemsWhole]
  | j :: js => by simp [ItemsWhole, itemsWhole_iff js]

theorem membersWhole_iff : ∀ members : List (String × Json), MembersWhole members ↔ ∀ m ∈ members, m.2.Whole
  | [] => by simp [MembersWhole]
  | (k, j) :: ms => by simp [MembersWhole, membersWhole_iff ms]

theorem membersWhole_append {members more : List (String × Json)} (h : MembersWhole members)
    (hm : MembersWhole more) : MembersWhole (members ++ more) := by
  rw [membersWhole_iff] at *
  intro m hx
  exact (List.mem_append.1 hx).elim (h m) (hm m)

theorem whole_list {β : Type} {write : β → Json} {xs : List β} (h : ∀ x ∈ xs, (write x).Whole) :
    (Json.list (xs.map write)).Whole := by
  refine (itemsWhole_iff _).2 fun j hj => ?_
  obtain ⟨x, hx, rfl⟩ := List.mem_map.1 hj
  exact h x hx

theorem whole_strings (texts : List String) : (strings texts).Whole := whole_list fun _ _ => trivial

theorem whole_optional {β : Type} {write : β → Json} {x : Option β} (h : ∀ b, (write b).Whole) :
    (optional (x.map write)).Whole := by
  cases x with
  | none => trivial
  | some b => exact h b

end Json

theorem whole_value {v : Value} (h : v.isExact) : v.toJson.Whole := by
  cases v with
  | int n => exact ⟨n.le_toInt, Int.lt_trans n.toInt_lt (by decide)⟩
  | float d =>
    obtain rfl : d = Double.zero.neg := of_decide_eq_true h
    exact rfl
  | raw sql => exact ⟨trivial, trivial⟩
  | _ => trivial

theorem whole_members {t : Test} (h : ∀ v ∈ t.bindings, v.isExact) : MembersWhole t.members := by
  have value : ∀ v ∈ t.bindings, v.toJson.Whole := fun v hv => whole_value (h v hv)
  cases t with
  | compare c operator v => exact ⟨trivial, trivial, value v (by simp [Test.bindings]), trivial⟩
  | columns first operator second => exact ⟨trivial, trivial, trivial, trivial⟩
  | oneOf c vs negated => exact ⟨trivial, whole_list value, trivial, trivial⟩
  | isNull c negated => exact ⟨trivial, trivial, trivial⟩
  | between c low high negated =>
    have lower := value low (by simp [Test.bindings])
    have upper := value high (by simp [Test.bindings])
    exact ⟨trivial, lower, upper, trivial, trivial⟩
  | raw sql vs => exact ⟨trivial, whole_list value, trivial⟩

mutual

theorem whole_predicate : ∀ p : Predicate, (∀ v ∈ p.bindings, v.isExact) → p.toJson.Whole
  | .test _ _, h => ⟨trivial, membersWhole_append (whole_members h) ⟨trivial, trivial⟩⟩
  | .group _ ps, h => ⟨trivial, itemsWhole_listJson ps h, trivial, trivial⟩

theorem itemsWhole_listJson : ∀ ps : List Predicate,
    (∀ v ∈ Predicate.listBindings ps, v.isExact) → ItemsWhole (Predicate.listJson ps)
  | [], _ => trivial
  | p :: ps, h => ⟨whole_predicate p fun v hv => h v (List.mem_append_left _ hv),
      itemsWhole_listJson ps fun v hv => h v (List.mem_append_right _ hv)⟩

end

/-- The data of a query hold no number but integers of 64 bits and negative zeros. -/
theorem whole_exact_query {q : Query} (h : ∀ v ∈ q.values, v.isExact) : q.toJson.Whole := by
  have clause {ps : List Predicate} (hps : ps ⊆ q.predicates) : (Json.list (ps.map Predicate.toJson)).Whole :=
    whole_list fun p hp => whole_predicate p fun v hv => h v (List.mem_flatMap.2 ⟨p, hps hp, hv⟩)
  have count (n : Option UInt64) : (countJson n).Whole := by
    refine whole_optional fun k => ⟨?_, ?_⟩
    · have := k.toNat_lt
      omega
    · have := k.toNat_lt
      omega
  have joins : (Json.list (q.joins.map Join.toJson)).Whole := by
    refine whole_list fun j hj => ⟨trivial, trivial, clause fun p hp => ?_, trivial⟩
    exact List.mem_append_left _ (List.mem_append_left _ (List.mem_flatMap.2 ⟨j, hj, hp⟩))
  have aggregate : (Json.optional (q.aggregate.map Aggregate.toJson)).Whole :=
    whole_optional fun a => ⟨trivial, whole_strings a.columns, trivial⟩
  have orders : (Json.list (q.orders.map Order.toJson)).Whole := by
    refine whole_list fun o _ => ?_
    cases o with
    | column c direction => exact ⟨trivial, trivial, trivial⟩
    | raw sql => exact ⟨trivial, trivial⟩
  exact ⟨trivial, whole_strings q.columns, aggregate, trivial, count q.limit, count q.offset, joins,
    clause q.filters_subset_predicates, whole_strings q.groups, clause q.havings_subset_predicates, orders,
    trivial⟩

theorem whole_query {q : Query} (h : ∀ v ∈ q.values, v.isFloat = false) : q.toJson.Whole :=
  whole_exact_query fun v hm => Value.isExact_of_isFloat (h v hm)

/-- **A query survives its JSON form.** Without doubles, and with lists and records that nest at most 127
deep, the text of a query is read as this query, with its dates and timestamps as strings. -/
theorem ofText_toJson (q : Query) (hv : ∀ v ∈ q.values, v.isFloat = false) (hd : q.toJson.depth ≤ 127) :
    Query.ofText q.toJson.text = .ok (q.mapValues Value.restored) := by
  have scanned := outline_chars (whole_query hv)
  have read := Schema.reads_query hv Outline.maxDepth (Nat.le_refl _) hd
  rw [Query.ofText, Schema.readText, Json.text, String.toList_ofList, scanned]
  simp only [read]
  rfl

/-- Groups with a date and a raw expression, a text with quotes and control characters, the ends of the
ranges of integers, and sort keys of both kinds. -/
theorem ofText_toJson_of_nested :
    let date : Date := ⟨2024, 2, 29⟩
    let q : Query :=
      { table := "users as u", columns := ["\"na\\me\""], aggregate := some .count, distinct := true
        limit := some 18446744073709551615, offset := some 0
        joins := [{ kind := .cross, table := "t" }]
        filters := [.group .or [.test .and (.oneOf "id" [.int (-9223372036854775808), .raw "now()"] true),
          .test .or (.compare "at" "<" (.date date))], .test .and (.raw "a = ?" [.string "\n\x01é"])]
        orders := [.column "id" .desc, .raw "rand()"] }
    Query.ofText q.toJson.text = .ok { q with
      filters := [.group .or [.test .and (.oneOf "id" [.int (-9223372036854775808), .raw "now()"] true),
        .test .or (.compare "at" "<" (.string "2024-02-29"))],
        .test .and (.raw "a = ?" [.string "\n\x01é"])] } := by
  intro date q
  have back := ofText_toJson q (by decide) (by decide)
  rw [back]
  decide

end SqlGrammar
