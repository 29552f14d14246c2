import SqlGrammar.Proofs.Identifiers
import SqlGrammar.Proofs.Insertion

/-!
Quoting adds quotes and nothing else. Where no text of a query holds a double quote, the statement without
quoting is the quoted one with its quotes deleted. Both are the same pieces (`selectPieces_quoting`), and
deleting the quotes turns the text of each piece into the other one (`unquoted_written`). Two places look at
a text that is written, and so could tell the two settings apart:

1. an aggregate asks whether its columns are `*`; without quotes only the column `*` is written so;
2. a select leaves out a fragment without text; every fragment has a word of the grammar in it
   (`written_fragmentPieces_eq_nil`) but the columns after a paging, which have no text without quotes if
   they are one empty name.

Both follow from `columnList_of_length_lt`: a list of columns that is written in less than two characters is
one column, and its text.
-/

namespace SqlGrammar

open CommandLine (DialectName)

def Settings.quoting (s : Settings) (on : Bool) : Settings := { s with quoteIdentifiers := on }

/-! ## Deleting quotes -/

def unquotedList (s : List Char) : List Char := s.filter fun c => c ≠ '"'

def unquoted (s : String) : String := String.ofList (unquotedList s.toList)

@[simp] theorem toList_unquoted (s : String) : (unquoted s).toList = unquotedList s.toList := by
  simp [unquoted]

theorem unquotedList_append (s t : List Char) : unquotedList (s ++ t) = unquotedList s ++ unquotedList t :=
  List.filter_append s t

theorem unquotedList_of_not_mem {s : List Char} (h : '"' ∉ s) : unquotedList s = s := by
  apply List.filter_eq_self.2
  intro c hc
  exact decide_eq_true fun e => h (e ▸ hc)

theorem unquoted_append (s t : String) : unquoted (s ++ t) = unquoted s ++ unquoted t := by
  rw [← String.toList_inj]
  simp [unquotedList_append]

theorem unquoted_of_not_mem {s : String} (h : '"' ∉ s.toList) : unquoted s = s := by
  rw [← String.toList_inj, toList_unquoted, unquotedList_of_not_mem h]

theorem unquotedList_doubleQuoted {name : String} (h : '"' ∉ name.toList) :
    unquotedList (Name.doubleQuoted name).toList = name.toList := by
  have body : Name.escaped name.toList = name.toList := by
    have same : ∀ s : List Char, '"' ∉ s → Name.escaped s = s := by
      intro s hs
      induction s with
      | nil => rfl
      | cons c r ih =>
        rw [Name.escaped_cons fun e => hs (e ▸ List.mem_cons_self),
          ih fun hm => hs (List.mem_cons_of_mem _ hm)]
    exact same _ h
  rw [Name.toList_doubleQuoted, body, unquotedList_append]
  show unquotedList name.toList ++ [] = _
  rw [List.append_nil, unquotedList_of_not_mem h]

/-- Quotes are no blanks, so a text may be trimmed before they are deleted. -/
theorem trimList_unquotedList_trimList (s : List Char) :
    Text.trimList (unquotedList (Text.trimList s)) = Text.trimList (unquotedList s) := by
  have blank {b : List Char} (hb : ∀ c ∈ b, Text.isBlank c = true) :
      ∀ c ∈ unquotedList b, Text.isBlank c = true := fun c hc => hb c (List.mem_of_mem_filter hc)
  obtain ⟨a, b, hs, ha, hb⟩ := Text.exists_trimList s
  obtain ⟨a', b', hm, ha', hb'⟩ := Text.exists_trimList (unquotedList (Text.trimList s))
  have whole : unquotedList s =
      (unquotedList a ++ a') ++ Text.trimList (unquotedList (Text.trimList s)) ++
        (b' ++ unquotedList b) := by
    conv_lhs => rw [hs, unquotedList_append, unquotedList_append, hm]
    simp only [List.append_assoc]
  rw [whole, Text.trimList_eq _ _ (Text.trimmed_trimList _)]
  · intro c hc
    exact (List.mem_append.1 hc).elim (blank ha c) (ha' c)
  · intro c hc
    exact (List.mem_append.1 hc).elim (hb' c) (blank hb c)

/-! ## Pieces -/

/-- No text of the piece holds a double quote, before it is quoted. -/
def Piece.Quoteless : Piece → Prop
  | word t => '"' ∉ t.toList
  | name t => '"' ∉ t.toList
  | verbatim t => '"' ∉ t.toList
  | bound _ => True
  | sql t _ => '"' ∉ t.toList

section Pieces

variable {n : DialectName} {s : Settings}

theorem unquoted_text {p : Piece} (h : p.Quoteless) :
    unquotedList (p.text (n.dialect (s.quoting true))) = p.text (n.dialect (s.quoting false)) := by
  cases p with
  | name t =>
    rw [Piece.text, Piece.text, DialectName.quote_dialect, DialectName.quote_dialect,
      Dialect.quoteBy_of_true rfl, Dialect.quoteBy_of_false rfl]
    exact unquotedList_doubleQuoted h
  | bound v =>
    rw [Piece.text, Piece.text, DialectName.placeholder_dialect, DialectName.placeholder_dialect]
    exact unquotedList_of_not_mem (by decide)
  | word t => exact unquotedList_of_not_mem h
  | verbatim t => exact unquotedList_of_not_mem h
  | sql t vs => exact unquotedList_of_not_mem h

/-- **Deleting the quotes of pieces gives their text without quoting.** -/
theorem unquoted_written {ps : List Piece} (h : ∀ p ∈ ps, p.Quoteless) :
    unquotedList (written (n.dialect (s.quoting true)) ps) = written (n.dialect (s.quoting false)) ps := by
  induction ps with
  | nil => rfl
  | cons p ps ih =>
    have first := unquoted_text (n := n) (s := s) (h p List.mem_cons_self)
    have rest := ih fun x hx => h x (List.mem_cons_of_mem _ hx)
    rw [written_cons, written_cons, unquotedList_append, first, rest]

end Pieces

/-! ## Columns that are written in a character or less -/

section Short

variable (n : DialectName) (s : Settings)

theorem segment_unquoted (t : String) : (n.dialect (s.quoting false)).segment t = t := by
  rw [(n.follows_dialect _).segment, DialectName.quote_dialect, Dialect.quoteBy_of_false rfl, Name.segment]
  exact ite_self t

theorem column_unquoted {t : String} (h : Name.splitAlias? t.toList = none) :
    (n.dialect (s.quoting false)).column t = t := by
  have segment : (n.dialect (s.quoting false)).segment = id := funext (segment_unquoted n s)
  rw [(n.follows_dialect _).column, Name.column, Name.Reference.ofText_of_none h, segment,
    Name.Reference.render, List.map_id]
  exact (Name.intercalate_ofList_splitOn t.toList).trans String.ofList_toList

theorem le_length_column {t : String} {cut : List Char × List Char}
    (h : Name.splitAlias? t.toList = some cut) :
    4 ≤ ((n.dialect (s.quoting false)).column t).toList.length := by
  rw [(n.follows_dialect _).column, Name.column, Name.Reference.ofText_of_some h, Name.Reference.render]
  simp only [String.toList_append, List.length_append]
  have word : " as ".toList.length = 4 := rfl
  omega

/-- **A list of columns in less than two characters is one column and its text.** -/
theorem columnList_of_length_lt {cs : List String} (hne : cs ≠ [])
    (h : ((n.dialect (s.quoting false)).columnList cs).toList.length < 2) :
    cs = [(n.dialect (s.quoting false)).columnList cs] := by
  rw [(n.follows_dialect _).columnList] at *
  unfold commaList at *
  cases cs with
  | nil => exact absurd rfl hne
  | cons c rest =>
    cases rest with
    | cons c' rest =>
      rw [String.toList_intercalate, List.map_cons, List.map_cons, List.map_cons, List.map_cons,
        List.intercalate_cons_cons, List.length_append, List.length_append] at h
      have comma : ", ".toList.length = 2 := rfl
      omega
    | nil =>
      have alone : String.intercalate ", " [(n.dialect (s.quoting false)).column c] =
          (n.dialect (s.quoting false)).column c := by
        rw [← String.toList_inj, String.toList_intercalate]
        simp
      rw [List.map_singleton, alone] at h ⊢
      cases hcut : Name.splitAlias? c.toList with
      | none => rw [column_unquoted n s hcut]
      | some cut =>
        have long := le_length_column n s hcut
        omega

end Short

/-! ## The fragments of a select -/

theorem subset_glue {separator : String} {parts : List (List Piece)} {ps : List Piece} (h : ps ∈ parts) :
    ps ⊆ glue separator parts := by
  induction parts with
  | nil => cases h
  | cons qs rest ih =>
    cases rest with
    | nil => rw [List.mem_singleton.1 h, glue_singleton]; exact List.Subset.refl _
    | cons rs rest =>
      rw [glue_cons_cons]
      rcases List.mem_cons.1 h with rfl | h
      · exact List.subset_append_left _ _
      · intro p hp
        exact List.mem_append_right _ (List.mem_cons_of_mem _ (ih h hp))

theorem word_mem_wordIf {b : Bool} {w : String} (h : wordIf b w ≠ []) : .word w ∈ wordIf b w := by
  cases b
  · exact absurd rfl h
  · exact List.mem_singleton_self _

theorem exists_word_clausePieces {word : String} {ps : List Predicate} (h : clausePieces word ps ≠ []) :
    ∃ w, .word w ∈ clausePieces word ps := by
  unfold clausePieces at *
  cases hl : listPieces ps with
  | nil => rw [hl] at h; exact absurd rfl h
  | cons p rest => exact ⟨_, List.mem_cons_self⟩

section Fragments

variable {d : Dialect} {n : DialectName} {q : Query} {c : Component}

/-- Every fragment but the columns has a word of the grammar in it, if it has any piece. -/
theorem exists_word_fragmentPieces (hc : c ≠ .columns) (h : fragmentPieces d n q c ≠ []) :
    ∃ w, .word w ∈ fragmentPieces d n q c := by
  unfold fragmentPieces at *
  cases c with
  | columns => exact absurd rfl hc
  | aggregate =>
    cases ha : q.aggregate with
    | none => simp [ha] at h
    | some a => exact ⟨"select ", by simp [aggregatePieces]⟩
  | limit =>
    cases hl : q.limit with
    | none => simp [hl] at h
    | some k =>
      simp only [hl, Option.map_some, Option.getD_some] at h ⊢
      cases n with
      | generic => exact ⟨_, List.mem_singleton_self _⟩
      | firebird => exact ⟨_, word_mem_wordIf h⟩
  | offset =>
    cases ho : q.offset with
    | none => simp [ho] at h
    | some k =>
      simp only [ho, Option.map_some, Option.getD_some] at h ⊢
      cases n with
      | generic => exact ⟨_, List.mem_singleton_self _⟩
      | firebird => exact ⟨_, word_mem_wordIf h⟩
  | table =>
    dsimp only at h ⊢
    split at h
    · exact absurd rfl h
    · next ht => exact ⟨"from ", by rw [if_neg ht]; exact List.mem_cons_self⟩
  | joins =>
    dsimp only at h ⊢
    cases hj : q.joins with
    | nil => rw [hj] at h; exact absurd rfl h
    | cons j js => exact ⟨_, subset_glue (List.mem_map_of_mem List.mem_cons_self) List.mem_cons_self⟩
  | filters => exact exists_word_clausePieces h
  | groups =>
    dsimp only at h ⊢
    split at h
    · exact absurd rfl h
    · next hg => exact ⟨"group by ", by rw [if_neg hg]; exact List.mem_cons_self⟩
  | havings => exact exists_word_clausePieces h
  | orders =>
    dsimp only at h ⊢
    split at h
    · exact absurd rfl h
    · next ho => exact ⟨"order by ", by rw [if_neg ho]; exact List.mem_cons_self⟩

theorem written_fragmentPieces_eq_nil (hc : c ≠ .columns) :
    written d (fragmentPieces d n q c) = [] ↔ fragmentPieces d n q c = [] := by
  refine ⟨fun hw => ?_, fun hp => by rw [hp]; rfl⟩
  by_contra h
  obtain ⟨w, hm⟩ := exists_word_fragmentPieces hc h
  have word : IsGrammarText w := fromQuery_of_mem_fragmentPieces hm
  exact written_ne_nil_of_mem_word hm word.1 hw

end Fragments

/-! ## Texts without quotes -/

section Quoteless

variable {names verbatims : List String} {tests : List Test}

theorem Piece.From.quoteless {p : Piece} (hp : p.From names verbatims tests)
    (hn : ∀ t ∈ names, '"' ∉ t.toList) (hv : ∀ t ∈ verbatims, '"' ∉ t.toList)
    (ht : ∀ t ∈ tests.flatMap Test.sqls, '"' ∉ t.toList) : p.Quoteless := by
  cases p with
  | word t => exact IsGrammarText.not_mem hp (by decide)
  | name t =>
    intro hm
    obtain ⟨u, hu, hc⟩ := hp _ hm
    exact hn u hu hc
  | verbatim t => exact hv t hp
  | bound v => trivial
  | sql t vs => exact ht t (List.mem_flatMap.2 ⟨_, hp.2, List.mem_singleton_self t⟩)

theorem quoteless_columnPieces {c : String} (h : '"' ∉ c.toList) : ∀ p ∈ columnPieces c, p.Quoteless := by
  intro p hp
  have source : p.From [c] [] [] := from_of_mem_columnPieces hp fun x hx => ⟨c, List.mem_singleton_self c, hx⟩
  exact source.quoteless (by simpa using h) (by simp) (by simp)

theorem quoteless_columnListPieces {cs : List String} (h : ∀ c ∈ cs, '"' ∉ c.toList) :
    ∀ p ∈ columnListPieces cs, p.Quoteless := by
  intro p hp
  rcases mem_glue hp with rfl | ⟨ps, hps, hp⟩
  · exact (by decide : '"' ∉ ", ".toList)
  · obtain ⟨c, hc, rfl⟩ := List.mem_map.1 hps
    exact quoteless_columnPieces (h c hc) p hp

theorem quoteless_tablePieces {tablePrefix t : String} (hp : '"' ∉ tablePrefix.toList)
    (ht : '"' ∉ t.toList) : ∀ p ∈ tablePieces tablePrefix t, p.Quoteless := by
  intro p hm
  have source : p.From [tablePrefix, t] [] [] := from_of_mem_tablePieces hm (by simp) (by simp)
  exact source.quoteless (by simp [hp, ht]) (by simp) (by simp)

end Quoteless

/-! ## Selects -/

/-- No text of the query holds a double quote. -/
structure Query.Quoteless (q : Query) : Prop extends q.QuoteFree where
  names : ∀ t ∈ q.names, '"' ∉ t.toList

@[simp] theorem tablePrefix_quoting (n : DialectName) (s : Settings) (on : Bool) :
    (n.dialect (s.quoting on)).settings.tablePrefix = s.tablePrefix := by
  rw [DialectName.settings_dialect]
  rfl

section Selects

variable {n : DialectName} {s : Settings} {q : Query}

/-- Columns are written as `*` with quoting exactly if they are without. -/
theorem written_eq_star_quoting {cs : List String} (h : ∀ c ∈ cs, '"' ∉ c.toList) :
    written (n.dialect (s.quoting true)) (columnListPieces cs) = ['*'] ↔
      written (n.dialect (s.quoting false)) (columnListPieces cs) = ['*'] := by
  constructor
  · intro he
    rw [← unquoted_written (quoteless_columnListPieces h), he]
    rfl
  · intro he
    have text : (n.dialect (s.quoting false)).columnList cs = "*" := by
      rw [← String.toList_inj, toList_columnList (n.follows_dialect _), he]
      rfl
    have some : cs ≠ [] := by
      rintro rfl
      cases he
    have star : cs = ["*"] := by
      rw [columnList_of_length_lt n s some (by rw [text]; decide), text]
    rw [star]
    rfl

theorem fragmentPieces_quoting (h : q.Quoteless) (c : Component) :
    fragmentPieces (n.dialect (s.quoting true)) n q c = fragmentPieces (n.dialect (s.quoting false)) n q c := by
  cases c with
  | aggregate =>
    simp only [fragmentPieces]
    cases ha : q.aggregate with
    | none => rfl
    | some a =>
      have columns : ∀ c ∈ a.columns, '"' ∉ c.toList := by
        intro c hc
        exact h.names c (by simp [Query.names, ha, hc])
      have star := written_eq_star_quoting (n := n) (s := s) columns
      simp only [Option.map_some, Option.getD_some, aggregatePieces, ne_eq, star]
  | _ => simp only [fragmentPieces, tablePrefix_quoting]

/-- Columns without text are one empty name. -/
theorem columns_eq_of_written (h : written (n.dialect (s.quoting false)) (columnListPieces q.selected) = []) :
    q.columns = [""] := by
  have text : (n.dialect (s.quoting false)).columnList q.selected = "" := by
    rw [← String.toList_inj, toList_columnList (n.follows_dialect _), h]
    rfl
  have some : q.selected ≠ [] := by
    unfold Query.selected
    cases q.columns <;> simp
  have one : q.selected = [""] := by
    rw [columnList_of_length_lt n s some (by rw [text]; decide), text]
  unfold Query.selected at one
  split at one
  · exact absurd one (by decide)
  · exact one

theorem quoteless_fragmentPieces (hs : '"' ∉ s.tablePrefix.toList) (h : q.Quoteless) (c : Component) :
    ∀ p ∈ fragmentPieces (n.dialect (s.quoting false)) n q c, p.Quoteless := by
  intro p hp
  have source := fromQuery_of_mem_fragmentPieces hp
  rw [tablePrefix_quoting] at source
  refine source.quoteless ?_ h.verbatims h.sqls
  intro t ht
  rcases List.mem_cons.1 ht with rfl | ht
  · exact hs
  · exact h.names t ht

theorem written_fragmentPieces_quoting (hs : '"' ∉ s.tablePrefix.toList) (h : q.Quoteless)
    (hc : q.columns ≠ [""]) (c : Component) :
    written (n.dialect (s.quoting true)) (fragmentPieces (n.dialect (s.quoting false)) n q c) = [] ↔
      written (n.dialect (s.quoting false)) (fragmentPieces (n.dialect (s.quoting false)) n q c) = [] := by
  constructor
  · intro he
    rw [← unquoted_written (quoteless_fragmentPieces hs h c), he]
    rfl
  · intro he
    by_cases hcol : c = .columns
    · subst hcol
      simp only [fragmentPieces] at he ⊢
      split at he
      · next ha => rw [if_pos ha]; rfl
      · rw [written_append] at he
        exact absurd (columns_eq_of_written (List.append_eq_nil_iff.1 he).2) hc
    · rw [(written_fragmentPieces_eq_nil hcol).1 he]
      rfl

/-- **A select has the same pieces with and without quoting.** -/
theorem selectPieces_quoting (hs : '"' ∉ s.tablePrefix.toList) (h : q.Quoteless) (hc : q.columns ≠ [""]) :
    selectPieces (n.dialect (s.quoting true)) n q = selectPieces (n.dialect (s.quoting false)) n q := by
  have fragments : n.components.map (fragmentPieces (n.dialect (s.quoting true)) n q) =
      n.components.map (fragmentPieces (n.dialect (s.quoting false)) n q) :=
    List.map_congr_left fun c _ => fragmentPieces_quoting h c
  unfold selectPieces selectParts
  rw [fragments]
  congr 1
  apply List.filter_congr
  intro ps hps
  obtain ⟨c, -, rfl⟩ := List.mem_map.1 hps
  simp only [ne_eq, written_fragmentPieces_quoting hs h hc c]

theorem quoteless_selectPieces (hs : '"' ∉ s.tablePrefix.toList) (h : q.Quoteless) :
    ∀ p ∈ selectPieces (n.dialect (s.quoting false)) n q, p.Quoteless := by
  intro p hp
  rcases mem_glue hp with rfl | ⟨ps, hps, hp⟩
  · exact (by decide : '"' ∉ " ".toList)
  · obtain ⟨c, -, rfl⟩ := List.mem_map.1 (List.mem_of_mem_filter hps)
    exact quoteless_fragmentPieces hs h c p hp

theorem unquoted_select (hs : '"' ∉ s.tablePrefix.toList) (h : q.Quoteless) (hc : q.columns ≠ [""]) :
    Text.trim (unquoted ((n.dialect (s.quoting true)).select q)) = (n.dialect (s.quoting false)).select q := by
  have text := unquoted_written (n := n) (s := s) (quoteless_selectPieces (n := n) hs h)
  rw [← String.toList_inj, Text.toList_trim, toList_unquoted, toList_select (n.follows_dialect _),
    toList_select (n.follows_dialect _), selectPieces_quoting hs h hc, trimList_unquotedList_trimList, text]

end Selects

/-! ## Inserts -/

section Inserts

variable {n : DialectName} {s : Settings}

theorem unquoted_commaList {α : Type} (f g : α → String) (xs : List α)
    (h : ∀ x ∈ xs, unquoted (f x) = g x) : unquoted (commaList (xs.map f)) = commaList (xs.map g) := by
  have comma : unquotedList ", ".toList = ", ".toList := rfl
  unfold commaList
  rw [← String.toList_inj, toList_unquoted, String.toList_intercalate, String.toList_intercalate]
  induction xs with
  | nil => rfl
  | cons x rest ih =>
    have first : unquotedList (f x).toList = (g x).toList := by
      rw [← toList_unquoted, h x List.mem_cons_self]
    cases rest with
    | nil => simpa using first
    | cons y rest =>
      have later := ih fun z hz => h z (List.mem_cons_of_mem _ hz)
      simp only [List.map_cons] at later ⊢
      rw [List.intercalate_cons_cons, List.intercalate_cons_cons, unquotedList_append, unquotedList_append,
        later, first, comma]

theorem unquoted_column {c : String} (h : '"' ∉ c.toList) :
    unquoted ((n.dialect (s.quoting true)).column c) = (n.dialect (s.quoting false)).column c := by
  rw [← String.toList_inj, toList_unquoted, toList_column (n.follows_dialect _),
    toList_column (n.follows_dialect _), unquoted_written (quoteless_columnPieces h)]

theorem unquoted_table {t : String} (hs : '"' ∉ s.tablePrefix.toList) (h : '"' ∉ t.toList) :
    unquoted ((n.dialect (s.quoting true)).table t) = (n.dialect (s.quoting false)).table t := by
  rw [← String.toList_inj, toList_unquoted, toList_table (n.follows_dialect _),
    toList_table (n.follows_dialect _), tablePrefix_quoting, tablePrefix_quoting,
    unquoted_written (quoteless_tablePieces hs h)]

theorem unquoted_parameter {v : Value} (h : ∀ t ∈ v.rawTexts, '"' ∉ t.toList) :
    unquoted ((n.dialect (s.quoting true)).parameter v) = (n.dialect (s.quoting false)).parameter v := by
  rw [(n.follows_dialect _).parameter, (n.follows_dialect _).parameter, DialectName.placeholder_dialect,
    DialectName.placeholder_dialect]
  have placeholder : unquoted "?" = "?" := unquoted_of_not_mem (by decide)
  cases v with
  | raw sql => exact unquoted_of_not_mem (h sql (List.mem_singleton_self sql))
  | _ => exact placeholder

theorem unquoted_columnList {cs : List String} (h : ∀ c ∈ cs, '"' ∉ c.toList) :
    unquoted ((n.dialect (s.quoting true)).columnList cs) = (n.dialect (s.quoting false)).columnList cs := by
  rw [(n.follows_dialect _).columnList, (n.follows_dialect _).columnList]
  exact unquoted_commaList _ _ cs fun c hm => unquoted_column (h c hm)

theorem unquoted_parameters {vs : List Value} (h : ∀ v ∈ vs, ∀ t ∈ v.rawTexts, '"' ∉ t.toList) :
    unquoted ((n.dialect (s.quoting true)).parameters vs) = (n.dialect (s.quoting false)).parameters vs := by
  rw [(n.follows_dialect _).parameters, (n.follows_dialect _).parameters]
  exact unquoted_commaList _ _ vs fun v hm => unquoted_parameter (h v hm)

theorem unquoted_insert (hs : '"' ∉ s.tablePrefix.toList) {q : Query} (ht : '"' ∉ q.table.toList)
    {v : InsertValues} (hc : ∀ r ∈ v.records, ∀ c ∈ r.columns, '"' ∉ c.toList)
    (hv : ∀ x ∈ v.flatten, ∀ t ∈ x.rawTexts, '"' ∉ t.toList) :
    unquoted ((n.dialect (s.quoting true)).insert q v) = (n.dialect (s.quoting false)).insert q v := by
  have standard (on : Bool) : (n.dialect (s.quoting on)).Standard := by
    cases n with
    | firebird => exact .firebird _
    | generic => exact Dialect.standard_generic _
  have name := unquoted_table (n := n) hs ht
  rw [(standard true).insert_eq, (standard false).insert_eq]
  unfold insertText
  split
  · next first rest _ hr =>
    have columns := unquoted_columnList (n := n) (s := s) (hc first (hr ▸ List.mem_cons_self))
    have tuple : ∀ r ∈ first :: rest,
        unquoted ("(" ++ (n.dialect (s.quoting true)).parameters r.values ++ ")") =
          "(" ++ (n.dialect (s.quoting false)).parameters r.values ++ ")" := by
      intro r hm
      have values : ∀ x ∈ r.values, ∀ t ∈ x.rawTexts, '"' ∉ t.toList :=
        fun x hx => hv x (List.mem_flatMap.2 ⟨r, hr ▸ hm, hx⟩)
      have values := unquoted_parameters (n := n) (s := s) values
      simp (disch := decide) only [unquoted_append, unquoted_of_not_mem, values]
    have tuples := unquoted_commaList _ _ (first :: rest) tuple
    simp (disch := decide) only [unquoted_append, unquoted_of_not_mem, name, columns, tuples]
  · simp (disch := decide) only [unquoted_append, unquoted_of_not_mem, name]

end Inserts

/-- **Turning quoting off removes the quotes and nothing else.** Where no text holds a double quote, a
statement without quoting is the quoted one with its quotes deleted; of a select the ends are trimmed again,
since a quoted name may have blanks or nothing in it. The columns may not be one empty name: it has text in
quotes only. -/
theorem unquoted_statements (n : DialectName) (s : Settings) (hs : '"' ∉ s.tablePrefix.toList) :
    (∀ q : Query, q.Quoteless → q.columns ≠ [""] →
      Text.trim (unquoted ((n.dialect (s.quoting true)).select q)) =
        (n.dialect (s.quoting false)).select q) ∧
    ∀ (q : Query) (v : InsertValues), '"' ∉ q.table.toList →
      (∀ r ∈ v.records, ∀ c ∈ r.columns, '"' ∉ c.toList) →
      (∀ x ∈ v.flatten, ∀ t ∈ x.rawTexts, '"' ∉ t.toList) →
      unquoted ((n.dialect (s.quoting true)).insert q v) = (n.dialect (s.quoting false)).insert q v :=
  ⟨fun _ h hc => unquoted_select hs h hc, fun _ _ ht hc hv => unquoted_insert hs ht hc hv⟩

/-- A prefix, aliases and paging, and a group by an empty name, of which the trim leaves no blank. A bound
value may hold a quote. -/
theorem unquoted_statements_of_emptyGroup :
    let s : Settings := { tablePrefix := "app_" }
    let q : Query :=
      { table := "users as u ", columns := ["u.*", "a b as n"], limit := some 3, groups := [""] }
    let v : InsertValues := .single ⟨[("u.id", .raw "now()"), ("b", .string "\"")], by simp⟩
    let quoted := DialectName.firebird.dialect (s.quoting true)
    let bare := DialectName.firebird.dialect (s.quoting false)
    q.Quoteless ∧ q.columns ≠ [""] ∧
    quoted.select q =
      "select first 3 \"u\".*, \"a b\" as \"n\" from \"app_users\" as \"u\" group by \"\"" ∧
    bare.select q = "select first 3 u.*, a b as n from app_users as u group by" ∧
    Text.trim (unquoted (quoted.select q)) = bare.select q ∧
    bare.insert { table := "users" } v = "insert into app_users (u.id, b) values (now(), ?)" ∧
    unquoted (quoted.insert { table := "users" } v) = bare.insert { table := "users" } v := by
  intro s q v quoted bare
  have quoteless : q.Quoteless := ⟨⟨by decide, by decide⟩, by decide⟩
  obtain ⟨select, insert⟩ := unquoted_statements .firebird s (by decide)
  exact ⟨quoteless, by decide, by decide, by decide, select q quoteless (by decide), by decide,
    insert { table := "users" } v (by decide) (by decide) (by decide)⟩

end SqlGrammar
