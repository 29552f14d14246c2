import SqlGrammar.Proofs.Apart
import SqlGrammar.Proofs.Collect
import SqlGrammar.Proofs.Mapping
import SqlGrammar.Proofs.Reference

/-!
Identifiers cannot change the structure of a statement. With quoting on, every statement is read to its
end, and the names that are read are `Query.identifiers`: clause by clause the segments and aliases of
the tables and columns that the clauses write, as they are in the query. What is read besides names
depends on the outline of the query only (`Query.outline`), in which every segment and every alias has
been replaced by one and the same letter.
-/

namespace SqlGrammar

open CommandLine (DialectName)

/-! ## The names of a query -/

/-- The segments and the alias of a reference that are quoted: all but `*`. -/
def Name.Reference.quoted (r : Reference) : List String :=
  (r.segments ++ r.aliasName.toList).filter fun s => s ≠ "*"

def columnNames (s : String) : List String := (Name.Reference.ofText s).quoted

/-- The names that a test writes. A test with an empty list is a constant and writes none. -/
def Test.quoted : Test → List String
  | compare column _ _ => columnNames column
  | columns first _ second => columnNames first ++ columnNames second
  | oneOf _ [] _ => []
  | oneOf column _ _ => columnNames column
  | isNull column _ => columnNames column
  | between column _ _ _ => columnNames column
  | raw .. => []

def predicateNames (ps : List Predicate) : List String := (Predicate.listTests ps).flatMap Test.quoted

/-- The names that a statement writes, in its order. An aggregate takes the place of the columns, an empty
main table is not written, and the conditions of a cross join are not. -/
def Query.identifiers (tablePrefix : String) (q : Query) : List String :=
  (match q.aggregate with
    | some a => a.columns.flatMap columnNames
    | none => q.selected.flatMap columnNames) ++
  (if q.table = "" then [] else columnNames (tablePrefix ++ q.table)) ++
  (q.joins.flatMap fun j => columnNames (tablePrefix ++ j.table) ++ predicateNames j.printed) ++
  predicateNames q.filters ++ q.groups.flatMap columnNames ++ predicateNames q.havings ++
  q.orders.flatMap fun o => o.names.flatMap columnNames

def Piece.names : Piece → List String
  | name s => [s]
  | _ => []

@[simp] theorem Piece.names_word (t : String) : (Piece.word t).names = [] := rfl

@[simp] theorem Piece.names_verbatim (t : String) : (Piece.verbatim t).names = [] := rfl

theorem names_segmentPiece (s : String) : (segmentPiece s).names = [s].filter fun s => s ≠ "*" := by
  unfold segmentPiece
  by_cases hs : s = "*"
  · simp [hs, Piece.names]
  · simp [hs, Piece.names]

theorem ofColumn_names (s : String) : ofColumn Piece.names s = columnNames s := by
  rw [ofColumn_eq (fun _ => rfl), columnNames, Name.Reference.quoted]
  generalize (Name.Reference.ofText s).segments ++ (Name.Reference.ofText s).aliasName.toList = parts
  induction parts with
  | nil => rfl
  | cons part parts ih =>
    rw [List.flatMap_cons, names_segmentPiece, ih, ← List.filter_append, List.singleton_append]

theorem ofTable_names {tablePrefix : String} (hp : ' ' ∉ tablePrefix.toList) (s : String) :
    ofTable Piece.names tablePrefix s = columnNames (tablePrefix ++ s) := by
  rw [ofTable, tablePieces_eq_columnPieces hp]
  exact ofColumn_names _

theorem names_valuePieces (vs : List Value) :
    (commaPieces (vs.map fun v => [valuePiece v])).flatMap Piece.names = [] := by
  rw [commaPieces, flatMap_glue (by rfl), List.flatMap_map, List.flatMap_eq_nil_iff]
  intro v _
  cases v <;> rfl

theorem names_testPieces (t : Test) : (testPieces t).flatMap Piece.names = t.quoted := by
  have column (s : String) : (columnPieces s).flatMap Piece.names = columnNames s := ofColumn_names s
  have value (v : Value) : (valuePiece v).names = [] := by cases v <;> rfl
  cases t with
  | oneOf c vs negated =>
    cases vs with
    | nil => rfl
    | cons v vs =>
      have values := names_valuePieces (v :: vs)
      simp only [testPieces, List.flatMap_append, List.flatMap_cons, column, values]
      simp [Test.quoted]
  | raw sql vs =>
    simp only [testPieces]
    split <;> rfl
  | _ => simp [testPieces, Test.quoted, column, value]

theorem ofPredicates_names (ps : List Predicate) : ofPredicates Piece.names ps = predicateNames ps := by
  unfold ofPredicates predicateNames
  simp only [names_testPieces]

/-- The names in the pieces of a select are the identifiers of the query. -/
theorem names_selectPieces {d : Dialect} {n : DialectName} {q : Query}
    (hp : ' ' ∉ d.settings.tablePrefix.toList) (hd : ∀ s, d.quote s ≠ "") :
    (selectPieces d n q).flatMap Piece.names = q.identifiers d.settings.tablePrefix := by
  have columns : ofColumn Piece.names = columnNames := funext ofColumn_names
  have nothing (ts : List String) : (ts.flatMap fun _ => ([] : List String)) = [] :=
    List.flatMap_eq_nil_iff.2 fun _ _ => rfl
  rw [flatMap_selectPieces (fun _ => rfl)]
  · -- the two orders differ in the place of the paging only, which holds no names
    unfold Query.identifiers
    cases n <;> cases ha : q.aggregate <;>
      simp [DialectName.components, Dialect.firebirdComponents, Component.standard, ofFragment, ha, columns,
        ofTable_names hp, ofPredicates_names, nothing]
  · intro p _ he
    cases p with
    | name s => exact absurd (String.toList_eq_nil_iff.1 he) (hd s)
    | _ => rfl

/-! ## The outline of a query -/

def Test.mapColumns (f : String → String) : Test → Test
  | compare column operator v => compare (f column) operator v
  | columns first operator second => columns (f first) operator (f second)
  | oneOf column vs negated => oneOf (f column) vs negated
  | isNull column negated => isNull (f column) negated
  | between column low high negated => between (f column) low high negated
  | raw sql vs => raw sql vs

/-- One letter for every segment but `*`. -/
def outlineSegment : String → String := Name.segment fun _ => "x"

/-- The shape of a reference: how many segments, which of them are `*`, and the same of its alias. -/
def outlineColumn : String → String := Name.column outlineSegment

def outlineTable (tablePrefix : String) : String → String :=
  Name.table outlineColumn outlineSegment tablePrefix

/-- The query with every table and column replaced by its shape. Two queries with the same outline
differ only in texts of identifiers that have the same shape. -/
def Query.outline (tablePrefix : String) (q : Query) : Query :=
  q.mapTexts (outlineTable tablePrefix) outlineColumn (Test.mapColumns outlineColumn)

/-- The piece with one letter for a name. -/
def Piece.outline : Piece → Piece
  | name _ => name "x"
  | p => p

theorem outline_segmentPiece (s : String) :
    segmentPiece (outlineSegment s) = (segmentPiece s).outline := by
  unfold outlineSegment Name.segment segmentPiece
  by_cases hs : s = "*"
  · simp [hs, Piece.outline]
  · simp [hs, Piece.outline]

theorem outline_columnPieces (s : String) :
    columnPieces (outlineColumn s) = (columnPieces s).map Piece.outline := by
  have shape : outlineColumn s = ((Name.Reference.ofText s).map outlineSegment).render id := by
    unfold outlineColumn Name.column Name.Reference.render Name.Reference.map
    simp only [List.map_map]
    cases (Name.Reference.ofText s).aliasName <;> rfl
  have letters (t : String) : outlineSegment t = "*" ∨ outlineSegment t = "x" := by
    unfold outlineSegment Name.segment
    split
    · next ht => exact Or.inl ht
    · exact Or.inr rfl
  have read : Name.Reference.ofText (outlineColumn s) =
      (Name.Reference.ofText s).map outlineSegment := by
    rw [shape]
    refine Name.Reference.ofText_render ?_ ?_ ?_
    · simpa [Name.Reference.map] using Name.Reference.segments_ofText_ne_nil s
    · intro part hpart
      obtain ⟨t, -, rfl⟩ := List.mem_map.1 hpart
      rcases letters t with ht | ht <;> rw [ht] <;> decide
    · intro a ha
      obtain ⟨t, -, rfl⟩ := Option.map_eq_some_iff.1 ha
      rcases letters t with ht | ht <;> rw [ht]
      · exact Text.trimmed_of_all (by decide)
      · exact Text.trimmed_of_all (by decide)
  rw [columnPieces, read]
  exact Name.Reference.pieces_map (fun _ => rfl) outline_segmentPiece _

theorem outline_tablePieces {tablePrefix : String} (hp : ' ' ∉ tablePrefix.toList) (s : String) :
    tablePieces "" (outlineTable tablePrefix s) = (tablePieces tablePrefix s).map Piece.outline := by
  have table : outlineTable tablePrefix s = outlineColumn (tablePrefix ++ s) :=
    Name.table_eq_column hp outlineSegment s
  rw [table, tablePieces_eq_columnPieces (by decide), tablePieces_eq_columnPieces hp, String.empty_append,
    outline_columnPieces]

theorem outlineTable_ne {tablePrefix : String} (hp : ' ' ∉ tablePrefix.toList) (s : String) :
    outlineTable tablePrefix s ≠ "" := by
  intro he
  have pieces := outline_tablePieces hp s
  rw [he, show tablePieces "" "" = [.name ""] by decide] at pieces
  have hm : Piece.name "" ∈ (tablePieces tablePrefix s).map Piece.outline := by
    rw [← pieces]
    exact List.mem_singleton_self _
  obtain ⟨p, -, ho⟩ := List.mem_map.1 hm
  cases p <;> simp [Piece.outline] at ho

theorem outline_testPieces (t : Test) :
    testPieces (t.mapColumns outlineColumn) = (testPieces t).map Piece.outline := by
  have value (v : Value) : (valuePiece v).outline = valuePiece v := by cases v <;> rfl
  cases t with
  | oneOf c vs negated =>
    cases vs with
    | nil => rfl
    | cons v vs =>
      have all := valuePieces_map (fun _ => rfl) (fun w => (value w).symm) (v :: vs) (f := id)
      rw [List.map_id, List.map_cons] at all
      simp [Test.mapColumns, testPieces, outline_columnPieces, ← all, Piece.outline]
  | raw sql vs =>
    simp only [Test.mapColumns, testPieces]
    split <;> rfl
  | compare c operator v =>
    simp only [Test.mapColumns, testPieces, outline_columnPieces, List.map_append, List.map_cons, value]
    rfl
  | between c low high negated =>
    simp only [Test.mapColumns, testPieces, outline_columnPieces, List.map_append, List.map_cons, value]
    rfl
  | columns first operator second =>
    simp [Test.mapColumns, testPieces, outline_columnPieces, Piece.outline]
  | isNull c negated => simp [Test.mapColumns, testPieces, outline_columnPieces, Piece.outline]

/-! ## Reading a statement -/

def Test.sqls : Test → List String
  | raw sql _ => [sql]
  | _ => []

/-- No text that is written as it stands holds a double quote. -/
structure Query.QuoteFree (q : Query) : Prop where
  verbatims : ∀ t ∈ q.verbatims, '"' ∉ t.toList
  sqls : ∀ t ∈ q.tests.flatMap Test.sqls, '"' ∉ t.toList

def Token.name? : Token → Option String
  | plain _ => none
  | name t => some (String.ofList t)

/-- The token with nothing said about the text of a name. -/
def Token.masked : Token → Token
  | plain c => plain c
  | name _ => name []

theorem Token.isBlank_masked (t : Token) : t.masked.isBlank = t.isBlank := by
  cases t <;> rfl

theorem names_trimTokens (ts : List Token) :
    (trimTokens ts).filterMap Token.name? = ts.filterMap Token.name? := by
  have nothing {us : List Token} (h : ∀ t ∈ us, t.isBlank = true) : us.filterMap Token.name? = [] := by
    rw [List.filterMap_eq_nil_iff]
    intro t ht
    have := h t ht
    cases t with
    | plain c => rfl
    | name u => cases this
  obtain ⟨a, b, hs, ha, hb⟩ := exists_trimTokens ts
  conv_rhs => rw [hs]
  rw [List.filterMap_append, List.filterMap_append, nothing ha, nothing hb, List.nil_append,
    List.append_nil]

section Read

variable {n : DialectName} {s : Settings} {q : Query}

theorem quote_of_quoting (hq : s.quoteIdentifiers = true) : (n.dialect s).quote = Name.doubleQuoted := by
  rw [DialectName.quote_dialect, Dialect.quoteBy_of_true hq]

theorem lexical_of_fromQuery (hq : s.quoteIdentifiers = true) (h : q.QuoteFree) {p : Piece}
    (hp : p.FromQuery s.tablePrefix q) : p.Lexical (n.dialect s) := by
  cases p with
  | word t => exact ⟨hp.1, hp.not_mem (by decide)⟩
  | name t => exact congrFun (quote_of_quoting hq) t
  | verbatim t => exact h.verbatims t hp
  | bound v =>
    show '"' ∉ (n.dialect s).placeholder.toList
    rw [DialectName.placeholder_dialect]
    decide
  | sql t vs => exact h.sqls t (List.mem_flatMap.2 ⟨_, hp.2, List.mem_singleton_self t⟩)

/-- **A select is read piece by piece**, less the blanks at its ends. -/
theorem lex_select (hq : s.quoteIdentifiers = true) (h : q.QuoteFree) :
    lex ((n.dialect s).select q) =
      some (trimTokens ((selectPieces (n.dialect s) n q).flatMap (Piece.tokens (n.dialect s)))) := by
  have lexical : ∀ p ∈ selectPieces (n.dialect s) n q, p.Lexical (n.dialect s) :=
    fun p hp => lexical_of_fromQuery hq h (fromQuery_of_mem_select hp)
  rw [lex, toList_select (n.follows_dialect s)]
  exact lexFrom_trimList (lexFrom_written (apart_selectPieces _ n q) lexical)

theorem names_tokens (d : Dialect) (ps : List Piece) :
    (ps.flatMap (Piece.tokens d)).filterMap Token.name? = ps.flatMap Piece.names := by
  have plain (cs : List Char) : (cs.map Token.plain).filterMap Token.name? = [] := by
    rw [List.filterMap_eq_nil_iff]
    intro t ht
    obtain ⟨c, -, rfl⟩ := List.mem_map.1 ht
    rfl
  induction ps with
  | nil => rfl
  | cons p ps ih =>
    rw [List.flatMap_cons, List.filterMap_append, ih, List.flatMap_cons]
    cases p with
    | name t => simp [Piece.tokens, Piece.names, Token.name?]
    | _ => rw [Piece.tokens, plain] <;> first | rfl | simp

/-- What is read besides names is read of the outline too. -/
theorem masked_tokens (d : Dialect) (ps : List Piece) :
    (ps.flatMap (Piece.tokens d)).map Token.masked =
      ((ps.map Piece.outline).flatMap (Piece.tokens d)).map Token.masked := by
  induction ps with
  | nil => rfl
  | cons p ps ih =>
    rw [List.flatMap_cons, List.map_append, ih, List.map_cons, List.flatMap_cons, List.map_append]
    cases p <;> rfl

/-- Names are the only pieces of a column that hold a quote. -/
theorem written_outline_eq_star (hq : s.quoteIdentifiers = true) (ps : List Piece) :
    written (n.dialect s) (ps.map Piece.outline) = ['*'] ↔ written (n.dialect s) ps = ['*'] := by
  have quote {qs : List Piece} {t : String} (hm : Piece.name t ∈ qs) :
      written (n.dialect s) qs ≠ ['*'] := by
    intro he
    have : '"' ∈ written (n.dialect s) qs := by
      refine List.mem_flatMap.2 ⟨_, hm, ?_⟩
      rw [Piece.text, quote_of_quoting hq]
      exact Name.quote_mem_doubleQuoted t
    rw [he] at this
    revert this
    decide
  -- with a name both texts hold a quote, without one they are the same
  by_cases hn : ∃ t, Piece.name t ∈ ps
  · obtain ⟨t, ht⟩ := hn
    have renamed : Piece.name "x" ∈ ps.map Piece.outline := List.mem_map.2 ⟨_, ht, rfl⟩
    exact iff_of_false (quote renamed) (quote ht)
  · have same : ps.map Piece.outline = ps := by
      conv_rhs => rw [← List.map_id ps]
      refine List.map_congr_left fun p hp => ?_
      cases p with
      | name t => exact absurd ⟨t, hp⟩ hn
      | _ => rfl
    rw [same]

theorem text_withoutPrefix (p : Piece) :
    p.text (n.dialect { s with tablePrefix := "" }) = p.text (n.dialect s) := by
  cases n <;> cases p <;> rfl

theorem piecewise_outline (hq : s.quoteIdentifiers = true) (hp : ' ' ∉ s.tablePrefix.toList) :
    Piecewise Piece.outline (n.dialect s) (n.dialect { s with tablePrefix := "" })
      (outlineTable s.tablePrefix) outlineColumn (Test.mapColumns outlineColumn) q where
  word _ := rfl
  verbatim _ := rfl
  column c := outline_columnPieces c
  star := by decide
  table t := by
    rw [DialectName.settings_dialect, DialectName.settings_dialect]
    exact outline_tablePieces hp t
  table_ne t _ := outlineTable_ne hp t
  test t _ := outline_testPieces t
  all cs := by
    have text : written (n.dialect { s with tablePrefix := "" }) = written (n.dialect s) := by
      funext ps
      exact List.flatMap_congr fun p _ => text_withoutPrefix p
    rw [text]
    exact written_outline_eq_star hq _
  empty p _ := by
    rw [text_withoutPrefix]
    cases p with
    | name t =>
      have text (u : String) : (Piece.name u).text (n.dialect s) ≠ [] := by
        rw [Piece.text, quote_of_quoting hq]
        exact List.ne_nil_of_mem (Name.quote_mem_doubleQuoted u)
      exact iff_of_false (text "x") (text t)
    | _ => exact Iff.rfl

end Read

/-- **Identifiers cannot change the structure of a statement.** Every select is read to its end, the
names that are read are the identifiers of the query, and what is read besides them is the same for any
two queries with the same outline. -/
theorem identifiers_of_lex_select (n : DialectName) (s : Settings) (hq : s.quoteIdentifiers = true)
    (hp : ' ' ∉ s.tablePrefix.toList) (q : Query) (h : q.QuoteFree) :
    (∃ ts, lex ((n.dialect s).select q) = some ts ∧
      ts.filterMap Token.name? = q.identifiers s.tablePrefix) ∧
    ∀ q' : Query, q'.QuoteFree → q'.outline s.tablePrefix = q.outline s.tablePrefix →
      (lex ((n.dialect s).select q')).map (List.map Token.masked) =
        (lex ((n.dialect s).select q)).map (List.map Token.masked) := by
  constructor
  · refine ⟨_, lex_select hq h, ?_⟩
    have quoted : ∀ t, (n.dialect s).quote t ≠ "" := by
      intro t he
      rw [quote_of_quoting hq, ← String.toList_eq_nil_iff] at he
      exact List.ne_nil_of_mem (Name.quote_mem_doubleQuoted t) he
    have names := names_selectPieces (n := n) (q := q) (d := n.dialect s)
      (by rw [DialectName.settings_dialect]; exact hp) quoted
    rw [DialectName.settings_dialect] at names
    rw [names_trimTokens, names_tokens, names]
  · intro q' h' outline
    have pieces (r : Query) :
        selectPieces (n.dialect { s with tablePrefix := "" }) n (r.outline s.tablePrefix) =
          (selectPieces (n.dialect s) n r).map Piece.outline :=
      selectPieces_mapTexts (piecewise_outline hq hp) n
    -- both statements have the pieces of the statement of their outline
    have same : (selectPieces (n.dialect s) n q').map Piece.outline =
        (selectPieces (n.dialect s) n q).map Piece.outline := by
      rw [← pieces q', ← pieces q, outline]
    rw [lex_select hq h', lex_select hq h, Option.map_some, Option.map_some,
      ← trimTokens_map Token.isBlank_masked, ← trimTokens_map Token.isBlank_masked,
      masked_tokens _ (selectPieces (n.dialect s) n q'), masked_tokens _ (selectPieces (n.dialect s) n q),
      same]

/-- A quote, a keyword and a comma in the name of a column. -/
theorem identifiers_of_lex_select_of_quotes :
    let q : Query := { table := "t", columns := ["a\" from b, c"], filters := [.test .and (.isNull "x.y" true)] }
    let q' : Query := { table := "u", columns := ["b"], filters := [.test .and (.isNull "\".\"\"" true)] }
    q'.outline "p_" = q.outline "p_" ∧ q.identifiers "p_" = ["a\" from b, c", "p_t", "x", "y"] ∧
    (∃ ts, lex ((DialectName.firebird.dialect { tablePrefix := "p_" }).select q) = some ts ∧
      ts.filterMap Token.name? = q.identifiers "p_") ∧
    (lex ((DialectName.firebird.dialect { tablePrefix := "p_" }).select q')).map (List.map Token.masked) =
      (lex ((DialectName.firebird.dialect { tablePrefix := "p_" }).select q)).map
        (List.map Token.masked) := by
  intro q q'
  have whole := identifiers_of_lex_select .firebird { tablePrefix := "p_" } rfl (by decide) q
    ⟨by decide, by decide⟩
  have same : q'.outline "p_" = q.outline "p_" := by decide
  exact ⟨same, by decide, whole.1, whole.2 q' ⟨by decide, by decide⟩ same⟩

end SqlGrammar
