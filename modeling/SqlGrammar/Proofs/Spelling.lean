import SqlGrammar.Proofs.Piece

/-!
The pieces of names, predicates and fragments, and that they spell what a dialect writes. A list of
predicates is written in two states: nothing said yet, where the connective of the next predicate is
left out (`listPieces`), and something said, where it is written (`tailPieces`). What decides between
the two is whether a text is empty, and on predicates no text is empty but that of no pieces at all
(`written_listPieces_eq_nil`); so the pieces need no dialect to be found. Only the fragments of a
select are told apart by their texts.
-/

namespace SqlGrammar

open CommandLine (DialectName)

/-! ## Names -/

/-- A segment of a name; `*` stands bare. -/
def segmentPiece (s : String) : Piece := if s = "*" then .word "*" else .name s

def Name.Reference.pieces (r : Reference) : List Piece :=
  glue "." (r.segments.map fun s => [segmentPiece s]) ++
    match r.aliasName with
    | none => []
    | some a => [.word " as ", segmentPiece a]

def columnPieces (s : String) : List Piece := (Name.Reference.ofText s).pieces

/-- The pieces of a table reference after the text that is put in front of its name. -/
def tablePieces (tablePrefix s : String) : List Piece :=
  match Name.splitAlias? s.toList with
  | none => columnPieces (tablePrefix ++ s)
  | some (name, label) =>
    columnPieces (tablePrefix ++ String.ofList name) ++
      [.word " as ", segmentPiece (String.ofList (Text.trimList label))]

def commaPieces (parts : List (List Piece)) : List Piece := glue ", " parts

def columnListPieces (columns : List String) : List Piece := commaPieces (columns.map columnPieces)

def valuePiece : Value → Piece
  | .raw sql => .verbatim sql
  | v => .bound v

section Names

variable {d : Dialect} {n : DialectName} (h : d.Follows n)

include h

theorem toList_segment (s : String) : (d.segment s).toList = (segmentPiece s).text d := by
  rw [h.segment]
  unfold Name.segment segmentPiece
  split
  · next hs => rw [hs]; rfl
  · rfl

theorem toList_render (r : Name.Reference) : (r.render d.segment).toList = written d r.pieces := by
  have name : (String.intercalate "." (r.segments.map d.segment)).toList =
      written d (glue "." (r.segments.map fun s => [segmentPiece s])) :=
    toList_intercalate_map d "." d.segment _ (fun s => by simp [toList_segment h]) _
  unfold Name.Reference.render Name.Reference.pieces
  cases r.aliasName with
  | none => simpa using name
  | some a => simp [name, toList_segment h, Piece.text]

theorem toList_column (s : String) : (d.column s).toList = written d (columnPieces s) := by
  rw [h.column]
  exact toList_render h _

theorem toList_table (s : String) :
    (d.table s).toList = written d (tablePieces d.settings.tablePrefix s) := by
  rw [h.table]
  unfold Name.table tablePieces
  cases Name.splitAlias? s.toList with
  | none => exact toList_column h _
  | some cut => simp [toList_column h, toList_segment h, Piece.text]

theorem toList_columnList (columns : List String) :
    (d.columnList columns).toList = written d (columnListPieces columns) := by
  rw [h.columnList]
  exact toList_intercalate_map d ", " d.column columnPieces (toList_column h) columns

theorem toList_parameter (v : Value) : (d.parameter v).toList = (valuePiece v).text d := by
  rw [h.parameter]
  cases v <;> rfl

theorem toList_parameters (vs : List Value) :
    (d.parameters vs).toList = written d (commaPieces (vs.map fun v => [valuePiece v])) := by
  rw [h.parameters]
  exact toList_intercalate_map d ", " d.parameter _ (fun v => by simp [toList_parameter h]) vs

end Names

/-! ## Predicates -/

def testPieces : Test → List Piece
  | .compare column operator value =>
    columnPieces column ++ [.word " ", .verbatim operator, .word " ", valuePiece value]
  | .columns first operator second =>
    columnPieces first ++ [.word " ", .verbatim operator, .word " "] ++ columnPieces second
  | .oneOf _ [] negated => [.word (if negated then "1 = 1" else "0 = 1")]
  | .oneOf column values negated =>
    columnPieces column ++ .word (" " ++ Dialect.negation negated ++ "in (") ::
      commaPieces (values.map fun v => [valuePiece v]) ++ [.word ")"]
  | .isNull column negated =>
    columnPieces column ++ [.word (" is " ++ Dialect.negation negated ++ "null")]
  | .between column low high negated =>
    columnPieces column ++ [.word (" " ++ Dialect.negation negated ++ "between "), valuePiece low,
      .word " and ", valuePiece high]
  | .raw sql values => if sql = "" then [] else [.sql sql values]

/-- The word between a predicate and what stands before it. -/
def connectivePiece (c : Connective) : Piece := .word (" " ++ c.word ++ " ")

mutual

/-- The pieces of a predicate; none for a group in which nothing is said. -/
def Predicate.pieces? : Predicate → Option (List Piece)
  | .test _ t => some (testPieces t)
  | .group _ ps =>
    match listPieces ps with
    | [] => none
    | inner => some (.word "(" :: inner ++ [.word ")"])

/-- The pieces of predicates where nothing is said yet. -/
def listPieces : List Predicate → List Piece
  | [] => []
  | p :: ps =>
    match p.pieces? with
    | none => listPieces ps
    | some [] => listPieces ps
    | some inner => inner ++ tailPieces ps

/-- The pieces of predicates where something is said. -/
def tailPieces : List Predicate → List Piece
  | [] => []
  | p :: ps =>
    match p.pieces? with
    | none => tailPieces ps
    | some inner => connectivePiece p.connective :: inner ++ tailPieces ps

end

theorem written_ne_nil_of_mem_word {d : Dialect} {ps : List Piece} {t : String}
    (hm : Piece.word t ∈ ps) (ht : t ≠ "") : written d ps ≠ [] := by
  intro hw
  have := List.flatMap_eq_nil_iff.1 hw _ hm
  exact ht (String.toList_inj.1 this)

theorem written_testPieces_eq_nil {d : Dialect} {t : Test} :
    written d (testPieces t) = [] ↔ testPieces t = [] := by
  refine ⟨fun hw => ?_, fun hp => by rw [hp]; rfl⟩
  cases t with
  | compare => exact absurd hw (written_ne_nil_of_mem_word (t := " ") (by simp [testPieces]) (by decide))
  | columns => exact absurd hw (written_ne_nil_of_mem_word (t := " ") (by simp [testPieces]) (by decide))
  | oneOf column values negated =>
    cases values with
    | nil => cases negated <;> simp [testPieces, Piece.text] at hw
    | cons v vs =>
      exact absurd hw (written_ne_nil_of_mem_word (t := ")") (by simp [testPieces]) (by decide))
  | isNull column negated =>
    refine absurd hw (written_ne_nil_of_mem_word (t := " is " ++ Dialect.negation negated ++ "null")
      (by simp [testPieces]) ?_)
    cases negated <;> decide
  | between => exact absurd hw (written_ne_nil_of_mem_word (t := " and ") (by simp [testPieces]) (by decide))
  | raw sql values =>
    simp only [testPieces] at hw ⊢
    split at hw
    · next hs => rw [if_pos hs]
    · next hs =>
      refine absurd (String.toList_inj.1 ?_) hs
      simpa [Piece.text] using hw

theorem written_pieces?_eq_nil {d : Dialect} {p : Predicate} {inner : List Piece}
    (hp : p.pieces? = some inner) : written d inner = [] ↔ inner = [] := by
  cases p with
  | test c t =>
    simp only [Predicate.pieces?, Option.some.injEq] at hp
    rw [← hp]
    exact written_testPieces_eq_nil
  | group c ps =>
    simp only [Predicate.pieces?] at hp
    split at hp
    · cases hp
    · cases hp
      simp [Piece.text]

/-- On predicates no text is empty but that of no pieces. -/
theorem written_listPieces_eq_nil {d : Dialect} {ps : List Predicate} :
    written d (listPieces ps) = [] ↔ listPieces ps = [] := by
  refine ⟨fun hw => ?_, fun hp => by rw [hp]; rfl⟩
  induction ps with
  | nil => rfl
  | cons p ps ih =>
    simp only [listPieces] at hw ⊢
    -- a predicate without pieces is passed over, and the first one with pieces has text
    split at hw
    · next hp => rw [hp] at *; exact ih hw
    · next hp => rw [hp] at *; exact ih hw
    · next inner hne hp =>
      rw [written_append, List.append_eq_nil_iff] at hw
      exact absurd ((written_pieces?_eq_nil hp).1 hw.1) (fun he => hne he)

/-- A spelled text is empty exactly when its pieces are none. -/
theorem eq_empty_iff_of_spelled {d : Dialect} {s : String} {ps : List Piece}
    (hs : s.toList = written d ps) (hn : written d ps = [] ↔ ps = []) : s = "" ↔ ps = [] := by
  rw [← hn, ← hs, ← String.toList_inj]
  rfl

section Predicates

variable {d : Dialect} {n : DialectName}

theorem toList_test (h : d.Follows n) (t : Test) : (d.test t).toList = written d (testPieces t) := by
  cases t with
  | compare column operator value =>
    simp [Dialect.test, testPieces, toList_column h, toList_parameter h, Piece.text]
  | columns first operator second => simp [Dialect.test, testPieces, toList_column h, Piece.text]
  | oneOf column values negated =>
    cases values with
    | nil => cases negated <;> simp [Dialect.test, testPieces, Piece.text]
    | cons v vs =>
      simp only [Dialect.test, testPieces, String.toList_append, toList_column h, toList_parameters h]
      simp [Piece.text]
  | isNull column negated => simp [Dialect.test, testPieces, toList_column h, Piece.text]
  | between column low high negated =>
    simp [Dialect.test, testPieces, toList_column h, toList_parameter h, Piece.text]
  | raw sql values =>
    simp only [Dialect.test, testPieces]
    split
    · next hs => rw [hs]; rfl
    · simp [Piece.text]

mutual

theorem toList_predicate? (h : d.Follows n) : ∀ p : Predicate,
    (d.predicate? p).map String.toList = p.pieces?.map (written d)
  | .test c t => by simp [Dialect.predicate?, Predicate.pieces?, toList_test h]
  | .group c ps => by
    have inner := toList_predicatesAfter_empty h ps
    have empty := eq_empty_iff_of_spelled inner written_listPieces_eq_nil
    simp only [Dialect.predicate?, Predicate.pieces?]
    split
    · next he => rw [empty.1 he]; rfl
    · next he =>
      split
      · next hl => exact absurd (empty.2 hl) he
      · simp [inner, Piece.text]

theorem toList_predicatesAfter_empty (h : d.Follows n) : ∀ ps : List Predicate,
    (d.predicatesAfter "" ps).toList = written d (listPieces ps)
  | [] => rfl
  | p :: ps => by
    have hp := toList_predicate? h p
    have rest := toList_predicatesAfter_empty h ps
    simp only [Dialect.predicatesAfter, listPieces]
    cases ht : d.predicate? p with
    | none =>
      rw [ht] at hp
      rw [Option.map_eq_none_iff.1 hp.symm]
      exact rest
    | some text =>
      rw [ht] at hp
      obtain ⟨inner, hi, hw⟩ := Option.map_eq_some_iff.1 hp.symm
      have empty := eq_empty_iff_of_spelled hw.symm (written_pieces?_eq_nil hi)
      simp only [Dialect.joinPredicate, if_true, hi]
      -- raw SQL without text is a predicate, but after it there is still nothing said
      split
      · next he => cases he
      · next he => cases he; rw [empty.2 rfl]; exact rest
      · next he =>
        cases he
        have said : text ≠ "" := fun e => by simp_all
        rw [toList_predicatesAfter h ps text said, written_append, hw]

theorem toList_predicatesAfter (h : d.Follows n) : ∀ (ps : List Predicate) (sql : String), sql ≠ "" →
    (d.predicatesAfter sql ps).toList = sql.toList ++ written d (tailPieces ps)
  | [], sql, _ => by simp [Dialect.predicatesAfter, tailPieces]
  | p :: ps, sql, hs => by
    have hp := toList_predicate? h p
    simp only [Dialect.predicatesAfter, tailPieces]
    cases ht : d.predicate? p with
    | none =>
      rw [ht] at hp
      rw [Option.map_eq_none_iff.1 hp.symm]
      exact toList_predicatesAfter h ps sql hs
    | some text =>
      rw [ht] at hp
      obtain ⟨inner, hi, hw⟩ := Option.map_eq_some_iff.1 hp.symm
      -- what stands already stays in front, so something is said for the rest too
      have hj : Dialect.joinPredicate sql p.connective text ≠ "" := by
        rw [Dialect.joinPredicate, if_neg hs, ne_eq, ← String.toList_inj]
        simp
      simp only [hi]
      rw [toList_predicatesAfter h ps _ hj, Dialect.joinPredicate, if_neg hs]
      simp [connectivePiece, Piece.text, hw]

end

/-- **The pieces of a list of predicates spell its text.** -/
theorem toList_predicates (h : d.Follows n) (ps : List Predicate) :
    (d.predicates ps).toList = written d (listPieces ps) := toList_predicatesAfter_empty h ps

end Predicates

/-! ## Fragments -/

def clausePieces (word : String) (ps : List Predicate) : List Piece :=
  match listPieces ps with
  | [] => []
  | inner => .word (word ++ " ") :: inner

/-- The conditions that a join writes; a cross join writes none. -/
def Join.printed (j : Join) : List Predicate := if j.kind = .cross then [] else j.conditions

def joinPieces (tablePrefix : String) (j : Join) : List Piece :=
  .word (j.kind.word ++ " join ") :: tablePieces tablePrefix j.table ++
    match listPieces j.printed with
    | [] => []
    | inner => .word " on " :: inner

def orderPieces : Order → List Piece
  | .column column direction => columnPieces column ++ [.word (" " ++ direction.word)]
  | .raw sql => [.verbatim sql]

def wordIf (b : Bool) (text : String) : List Piece := if b then [.word text] else []

def aggregatePieces (d : Dialect) (q : Query) (a : Aggregate) : List Piece :=
  let columns := columnListPieces a.columns
  [.word "select ", .verbatim a.name, .word "("] ++
    wordIf (q.distinct && written d columns ≠ ['*']) "distinct " ++ columns ++ [.word ") as aggregate"]

def limitPieces (n : DialectName) (q : Query) (k : UInt64) : List Piece :=
  match n with
  | .generic => [.word ("limit " ++ Text.natural k.toNat)]
  | .firebird => wordIf (!q.aggregate.isSome) ("select first " ++ Text.natural k.toNat)

def offsetPieces (n : DialectName) (q : Query) (k : UInt64) : List Piece :=
  match n with
  | .generic => [.word ("offset " ++ Text.natural k.toNat)]
  | .firebird =>
    wordIf (!q.aggregate.isSome)
      ((if q.limit.isSome then "skip " else "select skip ") ++ Text.natural k.toNat)

def fragmentPieces (d : Dialect) (n : DialectName) (q : Query) : Component → List Piece
  | .aggregate => (q.aggregate.map (aggregatePieces d q)).getD []
  | .limit => (q.limit.map (limitPieces n q)).getD []
  | .offset => (q.offset.map (offsetPieces n q)).getD []
  | .columns =>
    if q.aggregate.isSome then []
    else wordIf (!n.leadsWithPaging q) "select " ++ wordIf q.distinct "distinct " ++
      columnListPieces q.selected
  | .table => if q.table = "" then [] else .word "from " :: tablePieces d.settings.tablePrefix q.table
  | .joins => glue " " (q.joins.map (joinPieces d.settings.tablePrefix))
  | .filters => clausePieces "where" q.filters
  | .groups => if q.groups.isEmpty then [] else .word "group by " :: columnListPieces q.groups
  | .havings => clausePieces "having" q.havings
  | .orders => if q.orders.isEmpty then [] else .word "order by " :: commaPieces (q.orders.map orderPieces)

/-- The fragments of a select, each as its pieces; those without text are left out. -/
def selectParts (d : Dialect) (n : DialectName) (q : Query) : List (List Piece) :=
  (n.components.map (fragmentPieces d n q)).filter fun ps => written d ps ≠ []

def selectPieces (d : Dialect) (n : DialectName) (q : Query) : List Piece := glue " " (selectParts d n q)

section Fragments

variable {d : Dialect} {n : DialectName} (h : d.Follows n)

theorem written_wordIf (d : Dialect) (b : Bool) (text : String) :
    written d (wordIf b text) = if b then text.toList else [] := by
  cases b <;> simp [wordIf, Piece.text]

include h

theorem toList_predicateClause (word : String) (ps : List Predicate) :
    (d.predicateClause word ps).toList = written d (clausePieces word ps) := by
  have text := toList_predicates h ps
  have empty := eq_empty_iff_of_spelled text written_listPieces_eq_nil
  unfold Dialect.predicateClause clausePieces
  dsimp only
  split
  · next he => rw [empty.1 he]; rfl
  · next he =>
    split
    · next hl => exact absurd (empty.2 hl) he
    · simp [text, Piece.text]

theorem toList_joinClause (j : Join) :
    (d.joinClause j).toList = written d (joinPieces d.settings.tablePrefix j) := by
  have conditions : (if j.kind = .cross then "" else d.predicates j.conditions) = d.predicates j.printed := by
    unfold Join.printed
    split <;> rfl
  have text := toList_predicates h j.printed
  have empty := eq_empty_iff_of_spelled text written_listPieces_eq_nil
  unfold Dialect.joinClause joinPieces
  dsimp only
  rw [conditions]
  split
  · next he => simp [empty.1 he, toList_table h, Piece.text]
  · next he =>
    split
    · next hl => exact absurd (empty.2 hl) he
    · simp [text, toList_table h, Piece.text]

theorem toList_sortKey (o : Order) : (d.sortKey o).toList = written d (orderPieces o) := by
  cases o with
  | column column direction => simp [Dialect.sortKey, orderPieces, toList_column h, Piece.text]
  | raw sql => simp [Dialect.sortKey, orderPieces, Piece.text]

theorem toList_aggregate (q : Query) (a : Aggregate) :
    (d.aggregate q a).toList = written d (aggregatePieces d q a) := by
  have columns := toList_columnList h a.columns
  -- whether all columns are meant is asked of their text, which is that of their pieces
  have star : d.columnList a.columns = "*" ↔ written d (columnListPieces a.columns) = ['*'] := by
    rw [← columns, ← String.toList_inj]
    rfl
  have distinct : (q.distinct && decide (d.columnList a.columns ≠ "*")) =
      (q.distinct && decide (written d (columnListPieces a.columns) ≠ ['*'])) := by
    simp only [ne_eq, star]
  rw [h.aggregate]
  unfold aggregatePieces
  dsimp only
  rw [distinct]
  generalize (q.distinct && decide (written d (columnListPieces a.columns) ≠ ['*'])) = b
  simp only [String.toList_append, written_append, written_cons, written_nil, written_wordIf, Piece.text,
    List.append_nil, ← columns]
  cases b <;> simp

/-- **The pieces of a fragment spell its text.** -/
theorem toList_fragment (q : Query) (c : Component) :
    (d.fragment q c).toList = written d (fragmentPieces d n q c) := by
  cases c with
  | aggregate =>
    show ((q.aggregate.map (d.aggregate q)).getD "").toList = _
    unfold fragmentPieces
    cases q.aggregate with
    | none => rfl
    | some a => exact toList_aggregate h q a
  | limit =>
    show ((q.limit.map (d.limit q)).getD "").toList = _
    unfold fragmentPieces
    cases q.limit with
    | none => rfl
    | some k =>
      show (d.limit q k).toList = written d (limitPieces n q k)
      rw [h.limit]
      cases n with
      | generic => simp [limitPieces, Piece.text]
      | firebird => cases ha : q.aggregate.isSome <;> simp [limitPieces, written_wordIf, ha]
  | offset =>
    show ((q.offset.map (d.offset q)).getD "").toList = _
    unfold fragmentPieces
    cases q.offset with
    | none => rfl
    | some k =>
      show (d.offset q k).toList = written d (offsetPieces n q k)
      rw [h.offset]
      cases n with
      | generic => simp [offsetPieces, Piece.text]
      | firebird => cases ha : q.aggregate.isSome <;> simp [offsetPieces, written_wordIf, ha]
  | columns =>
    show (d.columns q).toList = written d (if q.aggregate.isSome then [] else _)
    rw [h.columns]
    split
    · rfl
    · simp only [String.toList_append, written_append, written_wordIf, toList_columnList h]
      cases n.leadsWithPaging q <;> cases q.distinct <;> simp
  | table =>
    show (d.tableClause q).toList = written d (if q.table = "" then [] else _)
    unfold Dialect.tableClause
    split
    · rfl
    · simp [toList_table h, Piece.text]
  | joins => exact toList_intercalate_map d " " d.joinClause _ (toList_joinClause h) q.joins
  | filters => exact toList_predicateClause h "where" q.filters
  | groups =>
    show (d.groupClause q).toList = written d (if q.groups.isEmpty then [] else _)
    unfold Dialect.groupClause
    split
    · rfl
    · simp [toList_columnList h, Piece.text]
  | havings => exact toList_predicateClause h "having" q.havings
  | orders =>
    show (d.orderClause q).toList = written d (if q.orders.isEmpty then [] else _)
    unfold Dialect.orderClause
    split
    · rfl
    · have keys := toList_intercalate_map d ", " d.sortKey orderPieces (toList_sortKey h) q.orders
      simp [commaList, commaPieces, keys, Piece.text]

/-- **The pieces of a select spell it**, less the blanks at its ends. -/
theorem toList_select (q : Query) :
    (d.select q).toList = Text.trimList (written d (selectPieces d n q)) := by
  have parts : ((d.components.map (d.fragment q)).filter fun s => s ≠ "").map String.toList =
      (selectParts d n q).map (written d) := by
    unfold selectParts
    rw [h.components]
    induction n.components with
    | nil => rfl
    | cons c cs ih =>
      -- a fragment is left out by its text, and so are its pieces
      have text := toList_fragment h q c
      have empty : d.fragment q c = "" ↔ written d (fragmentPieces d n q c) = [] := by
        rw [← text, ← String.toList_inj]
        rfl
      by_cases he : d.fragment q c = ""
      · simpa [List.filter_cons, he, empty.1 he] using ih
      · simpa [List.filter_cons, he, mt empty.2 he, text] using ih
  rw [Dialect.select, Text.toList_trim, String.toList_intercalate, parts, selectPieces, written_glue]

end Fragments

end SqlGrammar
