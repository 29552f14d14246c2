import SqlGrammar.Proofs.Lexing

/-!
Names in a statement stand apart: the piece after a name is a word of the grammar, in every reference,
test, list of predicates and fragment (`apart_selectPieces`). Texts that are put together with a word
between them stay apart whatever they are (`apart_append_word`), and this is how every clause puts its
parts together.
-/

namespace SqlGrammar

open CommandLine (DialectName)

theorem apart_append {ps qs : List Piece} (hp : Apart ps) (hq : Apart qs) (hs : StartsWithWord qs) :
    Apart (ps ++ qs) := by
  induction ps with
  | nil => exact hq
  | cons p ps ih =>
    cases p with
    | name s =>
      -- after a name at the end of the first list comes the start of the second one
      refine ⟨?_, ih hp.2⟩
      cases ps with
      | nil => exact hs
      | cons x xs => cases x <;> first | trivial | exact hp.1
    | _ => exact ih hp

theorem apart_append_word {ps qs : List Piece} {w : String} (hp : Apart ps) (hq : Apart qs) :
    Apart (ps ++ .word w :: qs) := apart_append hp hq trivial

theorem apart_glue {separator : String} {parts : List (List Piece)} (h : ∀ ps ∈ parts, Apart ps) :
    Apart (glue separator parts) := by
  induction parts with
  | nil => trivial
  | cons ps rest ih =>
    have first := h ps List.mem_cons_self
    have later := ih fun qs hq => h qs (List.mem_cons_of_mem _ hq)
    cases rest with
    | nil => simpa using first
    | cons qs rest =>
      rw [glue_cons_cons]
      exact apart_append_word first later

theorem apart_segmentPiece (s : String) : Apart [segmentPiece s] := by
  unfold segmentPiece
  split
  · trivial
  · exact ⟨trivial, trivial⟩

theorem apart_valuePiece (v : Value) {ps : List Piece} (h : Apart ps) : Apart (valuePiece v :: ps) := by
  cases v <;> exact h

theorem apart_wordIf (b : Bool) (w : String) : Apart (wordIf b w) := by
  cases b <;> trivial

theorem apart_columnPieces (s : String) : Apart (columnPieces s) := by
  have name : Apart (glue "." ((Name.Reference.ofText s).segments.map fun s => [segmentPiece s])) := by
    refine apart_glue fun ps hps => ?_
    obtain ⟨part, -, rfl⟩ := List.mem_map.1 hps
    exact apart_segmentPiece part
  unfold columnPieces Name.Reference.pieces
  cases (Name.Reference.ofText s).aliasName with
  | none => simpa using name
  | some a => exact apart_append_word name (apart_segmentPiece a)

theorem apart_tablePieces (tablePrefix s : String) : Apart (tablePieces tablePrefix s) := by
  unfold tablePieces
  cases Name.splitAlias? s.toList with
  | none => exact apart_columnPieces _
  | some cut =>
    have label := apart_segmentPiece (String.ofList (Text.trimList cut.2))
    exact apart_append_word (apart_columnPieces _) label

theorem apart_columnListPieces (columns : List String) : Apart (columnListPieces columns) := by
  refine apart_glue fun ps hps => ?_
  obtain ⟨c, -, rfl⟩ := List.mem_map.1 hps
  exact apart_columnPieces c

theorem apart_testPieces (t : Test) : Apart (testPieces t) := by
  cases t with
  | compare c operator v =>
    have right : Apart [.verbatim operator, .word " ", valuePiece v] := apart_valuePiece v trivial
    rw [testPieces]
    exact apart_append_word (apart_columnPieces c) right
  | columns first operator second =>
    have right : Apart (.verbatim operator :: .word " " :: columnPieces second) := apart_columnPieces second
    rw [testPieces, List.append_assoc]
    exact apart_append_word (apart_columnPieces first) right
  | oneOf c vs negated =>
    cases vs with
    | nil => trivial
    | cons v vs =>
      have values : Apart (commaPieces ((v :: vs).map fun v => [valuePiece v])) := by
        refine apart_glue fun ps hps => ?_
        obtain ⟨w, -, rfl⟩ := List.mem_map.1 hps
        exact apart_valuePiece w trivial
      have right : Apart (commaPieces ((v :: vs).map fun v => [valuePiece v]) ++ [.word ")"]) :=
        apart_append_word values trivial
      rw [testPieces, List.append_assoc]
      · exact apart_append_word (apart_columnPieces c) right
      · simp
  | isNull c negated =>
    rw [testPieces]
    exact apart_append_word (apart_columnPieces c) trivial
  | between c low high negated =>
    have upper : Apart [.word " and ", valuePiece high] := apart_valuePiece high trivial
    have right : Apart [valuePiece low, .word " and ", valuePiece high] := apart_valuePiece low upper
    rw [testPieces]
    exact apart_append_word (apart_columnPieces c) right
  | raw sql vs =>
    rw [testPieces]
    split
    · trivial
    · trivial

theorem startsWithWord_tailPieces (ps : List Predicate) : StartsWithWord (tailPieces ps) := by
  induction ps with
  | nil => trivial
  | cons p ps ih =>
    rw [tailPieces]
    cases p.pieces? with
    | none => exact ih
    | some inner => trivial

mutual

theorem apart_pieces? : ∀ (p : Predicate) {inner : List Piece}, p.pieces? = some inner → Apart inner
  | .test c t, inner, h => by
    cases h
    exact apart_testPieces t
  | .group c ps, inner, h => by
    have members := apart_listPieces ps
    rw [Predicate.pieces?] at h
    split at h
    · cases h
    · cases h
      have opened : Apart (.word "(" :: listPieces ps) := members
      exact apart_append_word opened trivial

theorem apart_listPieces : ∀ ps : List Predicate, Apart (listPieces ps)
  | [] => trivial
  | p :: ps => by
    rw [listPieces]
    split
    · exact apart_listPieces ps
    · exact apart_listPieces ps
    · next inner _ hp =>
      exact apart_append (apart_pieces? p hp) (apart_tailPieces ps) (startsWithWord_tailPieces ps)

theorem apart_tailPieces : ∀ ps : List Predicate, Apart (tailPieces ps)
  | [] => trivial
  | p :: ps => by
    rw [tailPieces]
    split
    · exact apart_tailPieces ps
    · next inner hp =>
      have first : Apart inner := apart_pieces? p hp
      have joined : Apart (connectivePiece p.connective :: inner) := first
      exact apart_append joined (apart_tailPieces ps) (startsWithWord_tailPieces ps)

end

theorem apart_clausePieces (word : String) (ps : List Predicate) : Apart (clausePieces word ps) := by
  have members := apart_listPieces ps
  unfold clausePieces
  split
  · trivial
  · exact members

theorem apart_joinPieces (tablePrefix : String) (j : Join) : Apart (joinPieces tablePrefix j) := by
  have table := apart_tablePieces tablePrefix j.table
  have conditions := apart_listPieces j.printed
  unfold joinPieces
  split
  · rw [List.append_nil]
    exact table
  · have joined : Apart (.word (j.kind.word ++ " join ") :: tablePieces tablePrefix j.table) := table
    exact apart_append_word joined conditions

theorem apart_orderPieces (o : Order) : Apart (orderPieces o) := by
  cases o with
  | column c direction =>
    rw [orderPieces]
    exact apart_append_word (apart_columnPieces c) trivial
  | raw sql => trivial

theorem apart_aggregatePieces (d : Dialect) (q : Query) (a : Aggregate) :
    Apart (aggregatePieces d q a) := by
  have columns := apart_columnListPieces a.columns
  refine apart_append_word ?_ trivial
  cases (q.distinct && decide (written d (columnListPieces a.columns) ≠ ['*'])) <;> exact columns

/-- **In every fragment of a select a name is followed by a word of the grammar, or by nothing.** -/
theorem apart_fragmentPieces (d : Dialect) (n : DialectName) (q : Query) (c : Component) :
    Apart (fragmentPieces d n q c) := by
  cases c with
  | aggregate =>
    simp only [fragmentPieces]
    cases q.aggregate with
    | none => trivial
    | some a => exact apart_aggregatePieces d q a
  | limit =>
    simp only [fragmentPieces]
    cases q.limit with
    | none => trivial
    | some k => cases n <;> simp [limitPieces, apart_wordIf, Apart]
  | offset =>
    simp only [fragmentPieces]
    cases q.offset with
    | none => trivial
    | some k => cases n <;> simp [offsetPieces, apart_wordIf, Apart]
  | columns =>
    have columns := apart_columnListPieces q.selected
    simp only [fragmentPieces]
    split
    · trivial
    · cases n.leadsWithPaging q <;> cases q.distinct <;> exact columns
  | table =>
    have table := apart_tablePieces d.settings.tablePrefix q.table
    simp only [fragmentPieces]
    split
    · trivial
    · exact table
  | joins =>
    refine apart_glue fun ps hps => ?_
    obtain ⟨j, -, rfl⟩ := List.mem_map.1 hps
    exact apart_joinPieces d.settings.tablePrefix j
  | filters => exact apart_clausePieces "where" q.filters
  | groups =>
    have columns := apart_columnListPieces q.groups
    simp only [fragmentPieces]
    split
    · trivial
    · exact columns
  | havings => exact apart_clausePieces "having" q.havings
  | orders =>
    have keys : Apart (commaPieces (q.orders.map orderPieces)) := by
      refine apart_glue fun ps hps => ?_
      obtain ⟨o, -, rfl⟩ := List.mem_map.1 hps
      exact apart_orderPieces o
    simp only [fragmentPieces]
    split
    · trivial
    · exact keys

theorem apart_selectPieces (d : Dialect) (n : DialectName) (q : Query) : Apart (selectPieces d n q) := by
  refine apart_glue fun ps hps => ?_
  obtain ⟨c, -, rfl⟩ := List.mem_map.1 (List.mem_filter.1 hps).1
  exact apart_fragmentPieces d n q c

end SqlGrammar
