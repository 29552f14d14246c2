import SqlGrammar.Proofs.Source

/-!
What is read off a statement piece by piece. Let `f` give a list for every piece and nothing for a word
of the grammar. Then `f` over a list of predicates depends on its tests only: connectives, parentheses
and groups in which nothing is said drop out (`flatMap_listPieces`). Over a whole select, `f` runs
through the fragments in the dialect's order, and none that was left out for its empty text is missed
(`flatMap_selectPieces`).
-/

namespace SqlGrammar

open CommandLine (DialectName)

variable {β : Type} {f : Piece → List β}

theorem flatMap_glue {separator : String} (hw : f (.word separator) = []) (parts : List (List Piece)) :
    (glue separator parts).flatMap f = parts.flatMap fun ps => ps.flatMap f := by
  induction parts with
  | nil => rfl
  | cons ps rest ih =>
    cases rest with
    | nil => simp
    | cons qs rest =>
      rw [glue_cons_cons, List.flatMap_append, List.flatMap_cons, hw, ih, List.nil_append]
      rfl

theorem flatMap_wordIf (hw : ∀ w, f (.word w) = []) (b : Bool) (w : String) :
    (wordIf b w).flatMap f = [] := by
  cases b
  · rfl
  · simp [wordIf, hw]

section Predicates

variable {g : Test → List β}

mutual

theorem flatMap_pieces? (hw : ∀ w, f (.word w) = []) : ∀ p : Predicate,
    (∀ t ∈ p.tests, (testPieces t).flatMap f = g t) →
      (p.pieces?.getD []).flatMap f = p.tests.flatMap g
  | .test c t, ht => by
    have test := ht t (List.mem_singleton_self t)
    simp [Predicate.pieces?, Predicate.tests, test]
  | .group c ps, ht => by
    have inner := flatMap_listPieces hw ps ht
    simp only [Predicate.pieces?, Predicate.tests]
    rw [← inner]
    split
    · next hp => rw [hp]; rfl
    · simp [hw]

/-- **Over a list of predicates `f` depends on the tests only.** -/
theorem flatMap_listPieces (hw : ∀ w, f (.word w) = []) : ∀ ps : List Predicate,
    (∀ t ∈ Predicate.listTests ps, (testPieces t).flatMap f = g t) →
      (listPieces ps).flatMap f = (Predicate.listTests ps).flatMap g
  | [], _ => rfl
  | p :: ps, ht => by
    have first := flatMap_pieces? hw p fun t hm => ht t (List.mem_append_left _ hm)
    have rest : ∀ t ∈ Predicate.listTests ps, (testPieces t).flatMap f = g t :=
      fun t hm => ht t (List.mem_append_right _ hm)
    rw [listPieces, Predicate.listTests, List.flatMap_append, ← first]
    split
    · next hp => rw [hp]; exact flatMap_listPieces hw ps rest
    · next hp => rw [hp]; exact flatMap_listPieces hw ps rest
    · next inner _ hp => rw [hp, List.flatMap_append, flatMap_tailPieces hw ps rest]; rfl

theorem flatMap_tailPieces (hw : ∀ w, f (.word w) = []) : ∀ ps : List Predicate,
    (∀ t ∈ Predicate.listTests ps, (testPieces t).flatMap f = g t) →
      (tailPieces ps).flatMap f = (Predicate.listTests ps).flatMap g
  | [], _ => rfl
  | p :: ps, ht => by
    have first := flatMap_pieces? hw p fun t hm => ht t (List.mem_append_left _ hm)
    have rest : ∀ t ∈ Predicate.listTests ps, (testPieces t).flatMap f = g t :=
      fun t hm => ht t (List.mem_append_right _ hm)
    rw [tailPieces, Predicate.listTests, List.flatMap_append, ← first]
    split
    · next hp => rw [hp]; exact flatMap_tailPieces hw ps rest
    · next inner hp =>
      -- the connective is a word, so it gives nothing
      rw [hp, List.cons_append, List.flatMap_cons, List.flatMap_append, flatMap_tailPieces hw ps rest,
        connectivePiece, hw]
      rfl

end

theorem flatMap_clausePieces (hw : ∀ w, f (.word w) = []) (word : String) (ps : List Predicate) :
    (clausePieces word ps).flatMap f = (listPieces ps).flatMap f := by
  unfold clausePieces
  split
  · next hp => rw [hp]
  · rw [List.flatMap_cons, hw, List.nil_append]

end Predicates

/-! ## Names and fragments -/

def ofColumn (f : Piece → List β) (s : String) : List β := (columnPieces s).flatMap f

def ofTable (f : Piece → List β) (tablePrefix s : String) : List β :=
  (tablePieces tablePrefix s).flatMap f

/-- What `f` reads off a list of predicates. -/
def ofPredicates (f : Piece → List β) (ps : List Predicate) : List β :=
  (Predicate.listTests ps).flatMap fun t => (testPieces t).flatMap f

def ofFragment (f : Piece → List β) (tablePrefix : String) (q : Query) : Component → List β
  | .aggregate =>
    (q.aggregate.map fun a => f (.verbatim a.name) ++ a.columns.flatMap (ofColumn f)).getD []
  | .limit => []
  | .offset => []
  | .columns => if q.aggregate.isSome then [] else q.selected.flatMap (ofColumn f)
  | .table => if q.table = "" then [] else ofTable f tablePrefix q.table
  | .joins => q.joins.flatMap fun j => ofTable f tablePrefix j.table ++ ofPredicates f j.printed
  | .filters => ofPredicates f q.filters
  | .groups => q.groups.flatMap (ofColumn f)
  | .havings => ofPredicates f q.havings
  | .orders => q.orders.flatMap fun o => o.names.flatMap (ofColumn f) ++ o.verbatims.flatMap fun t =>
      f (.verbatim t)

section Fragments

variable (hw : ∀ w, f (.word w) = [])

include hw

theorem ofColumn_eq (s : String) :
    ofColumn f s = ((Name.Reference.ofText s).segments ++ (Name.Reference.ofText s).aliasName.toList).flatMap
      fun part => f (segmentPiece part) := by
  unfold ofColumn columnPieces Name.Reference.pieces
  rw [List.flatMap_append, List.flatMap_append, flatMap_glue (hw "."), List.flatMap_map]
  cases (Name.Reference.ofText s).aliasName with
  | none => simp
  | some a => simp [hw]

theorem flatMap_columnListPieces (columns : List String) :
    (columnListPieces columns).flatMap f = columns.flatMap (ofColumn f) := by
  rw [columnListPieces, commaPieces, flatMap_glue (hw ", "), List.flatMap_map]
  rfl

theorem flatMap_joinPieces (tablePrefix : String) (j : Join) :
    (joinPieces tablePrefix j).flatMap f = ofTable f tablePrefix j.table ++ ofPredicates f j.printed := by
  have conditions := flatMap_listPieces hw j.printed fun _ _ => rfl
  rw [joinPieces, List.cons_append, List.flatMap_cons, hw, List.nil_append, List.flatMap_append,
    ofPredicates, ← conditions]
  split
  · next hp => rw [hp]; rfl
  · rw [List.flatMap_cons, hw, List.nil_append]; rfl

theorem flatMap_orderPieces (o : Order) :
    (orderPieces o).flatMap f =
      o.names.flatMap (ofColumn f) ++ o.verbatims.flatMap fun t => f (.verbatim t) := by
  cases o with
  | column c direction => simp [orderPieces, Order.names, Order.verbatims, hw, ofColumn]
  | raw sql => simp [orderPieces, Order.names, Order.verbatims]

/-- **Off a fragment `f` reads its names, its verbatim texts and its tests, in their order.** -/
theorem flatMap_fragmentPieces (d : Dialect) (n : DialectName) (q : Query) (c : Component) :
    (fragmentPieces d n q c).flatMap f = ofFragment f d.settings.tablePrefix q c := by
  cases c with
  | aggregate =>
    simp only [fragmentPieces, ofFragment]
    cases q.aggregate with
    | none => rfl
    | some a => simp [aggregatePieces, hw, flatMap_wordIf hw, flatMap_columnListPieces hw]
  | limit =>
    simp only [fragmentPieces, ofFragment]
    cases q.limit with
    | none => rfl
    | some k => cases n <;> simp [limitPieces, hw, flatMap_wordIf hw]
  | offset =>
    simp only [fragmentPieces, ofFragment]
    cases q.offset with
    | none => rfl
    | some k => cases n <;> simp [offsetPieces, hw, flatMap_wordIf hw]
  | columns =>
    simp only [fragmentPieces, ofFragment]
    split
    · rfl
    · simp [flatMap_wordIf hw, flatMap_columnListPieces hw]
  | table =>
    simp only [fragmentPieces, ofFragment]
    split
    · rfl
    · rw [List.flatMap_cons, hw]; rfl
  | joins =>
    simp only [fragmentPieces, ofFragment, flatMap_glue (hw " "), List.flatMap_map,
      flatMap_joinPieces hw]
  | filters =>
    simp only [fragmentPieces, ofFragment, flatMap_clausePieces hw]
    exact flatMap_listPieces hw _ fun _ _ => rfl
  | groups =>
    simp only [fragmentPieces, ofFragment]
    split
    · next he => rw [List.isEmpty_iff.1 he]; rfl
    · rw [List.flatMap_cons, hw, List.nil_append, flatMap_columnListPieces hw]
  | havings =>
    simp only [fragmentPieces, ofFragment, flatMap_clausePieces hw]
    exact flatMap_listPieces hw _ fun _ _ => rfl
  | orders =>
    simp only [fragmentPieces, ofFragment]
    split
    · next he => rw [List.isEmpty_iff.1 he]; rfl
    · rw [List.flatMap_cons, hw, List.nil_append, commaPieces, flatMap_glue (hw ", "), List.flatMap_map]
      simp only [flatMap_orderPieces hw]

end Fragments

/-- **Over a select `f` runs through all fragments in the order of the dialect**, if `f` gives nothing
for a piece without text. -/
theorem flatMap_selectPieces {d : Dialect} {n : DialectName} {q : Query} (hw : ∀ w, f (.word w) = [])
    (he : ∀ p, p.FromQuery d.settings.tablePrefix q → p.text d = [] → f p = []) :
    (selectPieces d n q).flatMap f = n.components.flatMap (ofFragment f d.settings.tablePrefix q) := by
  rw [selectPieces, flatMap_glue (hw " "), selectParts]
  induction n.components with
  | nil => rfl
  | cons c cs ih =>
    rw [List.map_cons, List.filter_cons, List.flatMap_cons]
    rw [← flatMap_fragmentPieces hw d n q c]
    split
    · rw [List.flatMap_cons, ih]
    · next he' =>
      -- a fragment that was left out is made of pieces without text
      have empty : written d (fragmentPieces d n q c) = [] := by simpa using he'
      have nothing : (fragmentPieces d n q c).flatMap f = [] := by
        rw [List.flatMap_eq_nil_iff]
        intro p hp
        exact he p (fromQuery_of_mem_fragmentPieces hp) (List.flatMap_eq_nil_iff.1 empty p hp)
      rw [nothing, ih, List.nil_append]

end SqlGrammar
