import SqlGrammar.Proofs.Source

/-!
The statement of a changed query. `Query.mapTexts` changes the tables, the columns and the tests of a
query and leaves everything else where it is. If the pieces of each name and of each test change one by
one (`Piecewise`), then so do the pieces of the whole select (`selectPieces_mapTexts`): what is left
out, which connective is written and where the trim cuts all stay the same.
-/

namespace SqlGrammar

open CommandLine (DialectName)

namespace Predicate

mutual

def mapTests (f : Test → Test) : Predicate → Predicate
  | test c t => test c (f t)
  | group c ps => group c (mapListTests f ps)

def mapListTests (f : Test → Test) : List Predicate → List Predicate
  | [] => []
  | p :: ps => p.mapTests f :: mapListTests f ps

end

theorem mapListTests_eq_map (f : Test → Test) (ps : List Predicate) :
    mapListTests f ps = ps.map (mapTests f) := by
  induction ps with
  | nil => rfl
  | cons p ps ih => rw [mapListTests, ih, List.map_cons]

@[simp] theorem connective_mapTests (f : Test → Test) (p : Predicate) :
    (p.mapTests f).connective = p.connective := by
  cases p <;> rfl

end Predicate

def Order.mapColumn (f : String → String) : Order → Order
  | column c direction => column (f c) direction
  | raw sql => raw sql

/-- A query with its tables, columns and tests changed. No main table stays none. -/
def Query.mapTexts (table column : String → String) (test : Test → Test) (q : Query) : Query :=
  { q with
    table := if q.table = "" then "" else table q.table
    columns := q.columns.map column
    aggregate := q.aggregate.map fun a => { a with columns := a.columns.map column }
    joins := q.joins.map fun j =>
      { j with table := table j.table, conditions := Predicate.mapListTests test j.conditions }
    filters := Predicate.mapListTests test q.filters
    groups := q.groups.map column
    havings := Predicate.mapListTests test q.havings
    orders := q.orders.map (Order.mapColumn column) }

def Test.mapValues (f : Value → Value) : Test → Test
  | compare column operator v => compare column operator (f v)
  | columns first operator second => columns first operator second
  | oneOf column vs negated => oneOf column (vs.map f) negated
  | isNull column negated => isNull column negated
  | between column low high negated => between column (f low) (f high) negated
  | raw sql vs => raw sql (vs.map f)

def Query.mapValues (f : Value → Value) (q : Query) : Query :=
  { q with
    joins := q.joins.map fun j =>
      { j with conditions := Predicate.mapListTests (Test.mapValues f) j.conditions }
    filters := Predicate.mapListTests (Test.mapValues f) q.filters
    havings := Predicate.mapListTests (Test.mapValues f) q.havings }

theorem Query.mapValues_eq_mapTexts (f : Value → Value) (q : Query) :
    q.mapValues f = q.mapTexts id id (Test.mapValues f) := by
  have keys : q.orders.map (Order.mapColumn id) = q.orders := by
    have same : Order.mapColumn id = id := by
      funext o
      cases o <;> rfl
    rw [same, List.map_id]
  have aggregate : (q.aggregate.map fun a => { a with columns := a.columns.map id }) = q.aggregate := by
    cases q.aggregate <;> simp
  have table : (if q.table = "" then "" else id q.table) = q.table := by
    split
    · next he => exact he.symm
    · rfl
  rw [mapTexts, keys, aggregate, table, List.map_id, List.map_id]
  rfl

theorem glue_map (g : Piece → Piece) {separator : String} (hw : g (.word separator) = .word separator)
    (parts : List (List Piece)) :
    (glue separator parts).map g = glue separator (parts.map fun ps => ps.map g) := by
  induction parts with
  | nil => rfl
  | cons ps rest ih =>
    cases rest with
    | nil => simp
    | cons qs rest =>
      rw [glue_cons_cons, List.map_append, List.map_cons, hw, ih]
      rfl

theorem wordIf_map (g : Piece → Piece) (hw : ∀ w, g (.word w) = .word w) (b : Bool) (w : String) :
    (wordIf b w).map g = wordIf b w := by
  cases b
  · rfl
  · simp [wordIf, hw]

/-! ## Names -/

def Name.Reference.map (f : String → String) (r : Reference) : Reference :=
  ⟨r.segments.map f, r.aliasName.map f⟩

theorem Name.Reference.pieces_map {g : Piece → Piece} {f : String → String}
    (hw : ∀ w, g (.word w) = .word w) (hf : ∀ s, segmentPiece (f s) = g (segmentPiece s))
    (r : Reference) : (r.map f).pieces = r.pieces.map g := by
  have name : glue "." ((r.map f).segments.map fun s => [segmentPiece s]) =
      (glue "." (r.segments.map fun s => [segmentPiece s])).map g := by
    rw [glue_map g (hw "."), Name.Reference.map, List.map_map, List.map_map]
    congr 1
    exact List.map_congr_left fun s _ => by simp [hf]
  unfold Name.Reference.pieces
  rw [name, List.map_append]
  cases hl : r.aliasName with
  | none => simp [Name.Reference.map, hl]
  | some a => simp [Name.Reference.map, hl, hw, hf]

section Fixed

variable {g : Piece → Piece} (hw : ∀ w, g (.word w) = .word w) (hn : ∀ s, g (.name s) = .name s)

include hw hn

theorem segmentPiece_fixed (s : String) : g (segmentPiece s) = segmentPiece s := by
  unfold segmentPiece
  split
  · exact hw _
  · exact hn _

/-- What leaves words and names alone leaves references alone. -/
theorem columnPieces_fixed (s : String) : (columnPieces s).map g = columnPieces s := by
  have same (r : Name.Reference) : r.map id = r := by simp [Name.Reference.map]
  have pieces := Name.Reference.pieces_map hw (fun s => (segmentPiece_fixed hw hn s).symm)
    (Name.Reference.ofText s) (f := id)
  rw [same] at pieces
  exact pieces.symm

theorem columnListPieces_fixed (columns : List String) :
    (columnListPieces columns).map g = columnListPieces columns := by
  unfold columnListPieces commaPieces
  rw [glue_map g (hw ", "), List.map_map]
  congr 1
  exact List.map_congr_left fun c _ => columnPieces_fixed hw hn c

theorem tablePieces_fixed (tablePrefix s : String) :
    (tablePieces tablePrefix s).map g = tablePieces tablePrefix s := by
  unfold tablePieces
  cases Name.splitAlias? s.toList with
  | none => exact columnPieces_fixed hw hn _
  | some cut => simp [columnPieces_fixed hw hn, segmentPiece_fixed hw hn, hw]

end Fixed

/-! ## Predicates -/

theorem valuePieces_map {g : Piece → Piece} {f : Value → Value} (hw : ∀ w, g (.word w) = .word w)
    (hf : ∀ v, valuePiece (f v) = g (valuePiece v)) (vs : List Value) :
    commaPieces ((vs.map f).map fun v => [valuePiece v]) =
      (commaPieces (vs.map fun v => [valuePiece v])).map g := by
  unfold commaPieces
  rw [glue_map g (hw ", "), List.map_map, List.map_map]
  congr 1
  exact List.map_congr_left fun v _ => by simp [hf]

section Predicates

variable {g : Piece → Piece} {f : Test → Test}

mutual

theorem pieces?_mapTests (hw : ∀ w, g (.word w) = .word w) : ∀ p : Predicate,
    (∀ t ∈ p.tests, testPieces (f t) = (testPieces t).map g) →
      (p.mapTests f).pieces? = p.pieces?.map (List.map g)
  | .test c t, ht => by
    have test := ht t (List.mem_singleton_self t)
    simp [Predicate.mapTests, Predicate.pieces?, test]
  | .group c ps, ht => by
    have inner := listPieces_mapListTests hw ps ht
    -- a group in which nothing is said is none before the change and after it
    simp only [Predicate.mapTests, Predicate.pieces?, inner]
    cases listPieces ps with
    | nil => rfl
    | cons p rest => simp [hw]

/-- The pieces of predicates change one by one if those of their tests do. -/
theorem listPieces_mapListTests (hw : ∀ w, g (.word w) = .word w) : ∀ ps : List Predicate,
    (∀ t ∈ Predicate.listTests ps, testPieces (f t) = (testPieces t).map g) →
      listPieces (Predicate.mapListTests f ps) = (listPieces ps).map g
  | [], _ => rfl
  | p :: ps, ht => by
    have first := pieces?_mapTests hw p fun t hm => ht t (List.mem_append_left _ hm)
    have rest : ∀ t ∈ Predicate.listTests ps, testPieces (f t) = (testPieces t).map g :=
      fun t hm => ht t (List.mem_append_right _ hm)
    simp only [Predicate.mapListTests, listPieces, first]
    cases p.pieces? with
    | none => exact listPieces_mapListTests hw ps rest
    | some inner =>
      cases inner with
      | nil => exact listPieces_mapListTests hw ps rest
      | cons x xs => simp [tailPieces_mapListTests hw ps rest]

theorem tailPieces_mapListTests (hw : ∀ w, g (.word w) = .word w) : ∀ ps : List Predicate,
    (∀ t ∈ Predicate.listTests ps, testPieces (f t) = (testPieces t).map g) →
      tailPieces (Predicate.mapListTests f ps) = (tailPieces ps).map g
  | [], _ => rfl
  | p :: ps, ht => by
    have first := pieces?_mapTests hw p fun t hm => ht t (List.mem_append_left _ hm)
    have rest : ∀ t ∈ Predicate.listTests ps, testPieces (f t) = (testPieces t).map g :=
      fun t hm => ht t (List.mem_append_right _ hm)
    simp only [Predicate.mapListTests, tailPieces, first, Predicate.connective_mapTests]
    cases p.pieces? with
    | none => exact tailPieces_mapListTests hw ps rest
    | some inner => simp [connectivePiece, hw, tailPieces_mapListTests hw ps rest]

end

theorem testPieces_mapValues {f : Value → Value} (hw : ∀ w, g (.word w) = .word w)
    (hn : ∀ s, g (.name s) = .name s) (ht : ∀ t, g (.verbatim t) = .verbatim t)
    (hv : ∀ v, valuePiece (f v) = g (valuePiece v)) (hs : ∀ t vs, g (.sql t vs) = .sql t (vs.map f))
    (t : Test) : testPieces (t.mapValues f) = (testPieces t).map g := by
  have column := columnPieces_fixed hw hn
  cases t with
  | oneOf c vs negated =>
    cases vs with
    | nil => simp [Test.mapValues, testPieces, hw]
    | cons v vs =>
      have all := valuePieces_map hw hv (v :: vs)
      simp only [List.map_cons, List.map_map] at all
      simp [Test.mapValues, testPieces, column, all, hw]
  | raw sql vs =>
    simp only [Test.mapValues, testPieces]
    split
    · rfl
    · simp [hs]
  | _ => simp [Test.mapValues, testPieces, column, hw, ht, hv]

theorem clausePieces_mapListTests (hw : ∀ w, g (.word w) = .word w) {ps : List Predicate}
    (ht : ∀ t ∈ Predicate.listTests ps, testPieces (f t) = (testPieces t).map g) (word : String) :
    clausePieces word (Predicate.mapListTests f ps) = (clausePieces word ps).map g := by
  unfold clausePieces
  rw [listPieces_mapListTests hw ps ht]
  cases listPieces ps with
  | nil => rfl
  | cons p rest => simp [hw]

end Predicates

/-! ## Selects -/

/-- The pieces of names and tests change one by one, and so that nothing appears or disappears. -/
structure Piecewise (g : Piece → Piece) (d d' : Dialect) (onTable onColumn : String → String)
    (onTest : Test → Test) (q : Query) : Prop where
  word : ∀ w, g (.word w) = .word w
  verbatim : ∀ t, g (.verbatim t) = .verbatim t
  column : ∀ c, columnPieces (onColumn c) = (columnPieces c).map g
  star : onColumn "*" = "*"
  table : ∀ t, tablePieces d'.settings.tablePrefix (onTable t) =
    (tablePieces d.settings.tablePrefix t).map g
  table_ne : ∀ t, t ≠ "" → onTable t ≠ ""
  test : ∀ t ∈ q.tests, testPieces (onTest t) = (testPieces t).map g
  all : ∀ cs, written d' ((columnListPieces cs).map g) = ['*'] ↔ written d (columnListPieces cs) = ['*']
  empty : ∀ p, p.FromQuery d.settings.tablePrefix q → ((g p).text d' = [] ↔ p.text d = [])

section Select

variable {g : Piece → Piece} {d d' : Dialect} {table column : String → String} {test : Test → Test}
  {q : Query} (h : Piecewise g d d' table column test q)

include h

theorem columnListPieces_map (cs : List String) :
    columnListPieces (cs.map column) = (columnListPieces cs).map g := by
  unfold columnListPieces commaPieces
  rw [glue_map g (h.word ", "), List.map_map, List.map_map]
  congr 1
  exact List.map_congr_left fun c _ => h.column c

theorem selected_mapTexts : (q.mapTexts table column test).selected = q.selected.map column := by
  unfold Query.selected Query.mapTexts
  cases q.columns with
  | nil => simp [h.star]
  | cons c cs => rfl

theorem joinPieces_mapTexts {j : Join} (hj : j ∈ q.joins) :
    joinPieces d'.settings.tablePrefix
      { j with table := table j.table, conditions := Predicate.mapListTests test j.conditions } =
    (joinPieces d.settings.tablePrefix j).map g := by
  have printed : ({ j with
      table := table j.table
      conditions := Predicate.mapListTests test j.conditions } : Join).printed =
        Predicate.mapListTests test j.printed := by
    unfold Join.printed
    split <;> rfl
  have conditions := listPieces_mapListTests h.word j.printed fun t ht =>
    h.test t (Predicate.listTests_subset (Query.printed_subset_predicates hj) ht)
  unfold joinPieces
  rw [printed, conditions, h.table]
  cases listPieces j.printed with
  | nil => simp [h.word]
  | cons p rest => simp [h.word]

theorem orderPieces_mapColumn (o : Order) : orderPieces (o.mapColumn column) = (orderPieces o).map g := by
  cases o with
  | column c direction => simp [Order.mapColumn, orderPieces, h.column, h.word]
  | raw sql => simp [Order.mapColumn, orderPieces, h.verbatim]

theorem aggregatePieces_mapTexts (a : Aggregate) :
    aggregatePieces d' (q.mapTexts table column test) { a with columns := a.columns.map column } =
      (aggregatePieces d q a).map g := by
  have columns := columnListPieces_map h a.columns
  have all := h.all a.columns
  have distinct : (q.distinct && decide (written d' ((columnListPieces a.columns).map g) ≠ ['*'])) =
      (q.distinct && decide (written d (columnListPieces a.columns) ≠ ['*'])) := by
    simp only [ne_eq, all]
  unfold aggregatePieces
  simp only [columns, Query.mapTexts, distinct, List.map_append, List.map_cons, List.map_nil, h.word,
    h.verbatim, wordIf_map g h.word]

theorem fragmentPieces_mapTexts (n : DialectName) (c : Component) :
    fragmentPieces d' n (q.mapTexts table column test) c = (fragmentPieces d n q c).map g := by
  have columns := columnListPieces_map h
  cases c with
  | aggregate =>
    have each := aggregatePieces_mapTexts h
    simp only [fragmentPieces]
    show (((q.aggregate.map _).map _).getD []) = _
    cases q.aggregate with
    | none => rfl
    | some a => exact each a
  | limit =>
    simp only [fragmentPieces]
    show ((q.limit.map _).getD []) = _
    cases q.limit with
    | none => rfl
    | some k =>
      cases n <;> simp [limitPieces, h.word, wordIf_map g h.word, Query.mapTexts]
  | offset =>
    simp only [fragmentPieces]
    show ((q.offset.map _).getD []) = _
    cases q.offset with
    | none => rfl
    | some k =>
      cases n <;> simp [offsetPieces, h.word, wordIf_map g h.word, Query.mapTexts]
  | columns =>
    -- whether an aggregate or the paging owns the word `select` does not depend on any text
    have aggregate : (q.mapTexts table column test).aggregate.isSome = q.aggregate.isSome := by
      simp [Query.mapTexts]
    have paging : n.leadsWithPaging (q.mapTexts table column test) = n.leadsWithPaging q := rfl
    simp only [fragmentPieces, aggregate, paging, selected_mapTexts h, columns]
    split
    · rfl
    · simp only [List.map_append, wordIf_map g h.word]
      rfl
  | table =>
    simp only [fragmentPieces]
    by_cases ht : q.table = ""
    · simp [Query.mapTexts, ht]
    · have renamed := h.table_ne _ ht
      simp [Query.mapTexts, ht, renamed, h.word, h.table]
  | joins =>
    simp only [fragmentPieces, glue_map g (h.word " "), Query.mapTexts, List.map_map]
    congr 1
    exact List.map_congr_left fun j hj => joinPieces_mapTexts h hj
  | filters =>
    exact clausePieces_mapListTests h.word
      (fun t ht => h.test t (Predicate.listTests_subset q.filters_subset_predicates ht)) "where"
  | groups =>
    have empty : (q.mapTexts table column test).groups.isEmpty = q.groups.isEmpty := by
      simp [Query.mapTexts]
    simp only [fragmentPieces, empty]
    split
    · rfl
    · simp [Query.mapTexts, columns, h.word]
  | havings =>
    exact clausePieces_mapListTests h.word
      (fun t ht => h.test t (Predicate.listTests_subset q.havings_subset_predicates ht)) "having"
  | orders =>
    have empty : (q.mapTexts table column test).orders.isEmpty = q.orders.isEmpty := by
      simp [Query.mapTexts]
    simp only [fragmentPieces, empty]
    split
    · rfl
    · rw [List.map_cons, h.word, commaPieces, commaPieces, glue_map g (h.word ", ")]
      simp only [Query.mapTexts, List.map_map]
      congr 2
      exact List.map_congr_left fun o _ => orderPieces_mapColumn h o

/-- **The pieces of a select change one by one**: the changed query leaves out the same fragments. -/
theorem selectPieces_mapTexts (n : DialectName) :
    selectPieces d' n (q.mapTexts table column test) = (selectPieces d n q).map g := by
  have parts : selectParts d' n (q.mapTexts table column test) =
      (selectParts d n q).map fun ps => ps.map g := by
    unfold selectParts
    induction n.components with
    | nil => rfl
    | cons c cs ih =>
      -- a fragment has text before the change exactly if it has some after it
      have fragment := fragmentPieces_mapTexts h n c
      have empty : written d' ((fragmentPieces d n q c).map g) = [] ↔
          written d (fragmentPieces d n q c) = [] := by
        unfold written
        rw [List.flatMap_map, List.flatMap_eq_nil_iff, List.flatMap_eq_nil_iff]
        exact forall₂_congr fun p hp => h.empty p (fromQuery_of_mem_fragmentPieces hp)
      by_cases he : written d (fragmentPieces d n q c) = []
      · simpa [List.filter_cons, fragment, he, empty.2 he] using ih
      · simpa [List.filter_cons, fragment, he, mt empty.1 he] using ih
  rw [selectPieces, selectPieces, glue_map g (h.word " "), parts]

end Select

end SqlGrammar
