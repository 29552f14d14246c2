import Mathlib.Data.List.Basic
import SqlGrammar.Proofs.ColumnText
import SqlGrammar.Proofs.Trim

/-!
The two named dialects differ in paging only. A select is its fragments in a row, each that has text with
a space before it, less the blanks at the ends (`toList_select_row`). In both dialects this row is the word
`select`, a body, and the clauses from the main table on (`clauseText`), which are written alike; the paging
goes before the body in Firebird (`toList_firebird_select`) and after the clauses in the mainstream
(`toList_generic_select`). The body is not blank, so the trim cuts nothing before it.
-/

namespace SqlGrammar

open CommandLine (DialectName)

/-! ## Fragments in a row -/

/-- Texts in a row, each that is not empty with a space before it. -/
def spaced (texts : List String) : List Char :=
  (texts.filter fun t => t ≠ "").flatMap fun t => ' ' :: t.toList

@[simp] theorem spaced_nil : spaced [] = [] := rfl

@[simp] theorem spaced_cons_empty (texts : List String) : spaced ("" :: texts) = spaced texts := rfl

theorem spaced_cons {t : String} (ht : t ≠ "") (texts : List String) :
    spaced (t :: texts) = ' ' :: (t.toList ++ spaced texts) := by
  simp [spaced, ht]

theorem spaced_append (texts more : List String) : spaced (texts ++ more) = spaced texts ++ spaced more := by
  rw [spaced, List.filter_append, List.flatMap_append]
  rfl

theorem cons_toList_intercalate (t : String) (ts : List String) :
    ' ' :: (String.intercalate " " (t :: ts)).toList = (t :: ts).flatMap fun u => ' ' :: u.toList := by
  rw [String.toList_intercalate]
  induction ts generalizing t with
  | nil => simp
  | cons u ts ih =>
    have rest := ih u
    rw [List.map_cons] at rest
    rw [List.map_cons, List.map_cons, List.intercalate_cons_cons, List.flatMap_cons, ← rest]
    simp

theorem trimList_space (t : List Char) : Text.trimList (' ' :: t) = Text.trimList t := by
  unfold Text.trimList
  rw [List.dropWhile_cons_of_pos (by decide)]

/-- **A select is its fragments in a row**, less the blanks at the ends. -/
theorem toList_select_row (d : Dialect) (q : Query) :
    (d.select q).toList = Text.trimList (spaced (d.components.map (d.fragment q))) := by
  rw [Dialect.select, Text.toList_trim, spaced]
  cases (d.components.map (d.fragment q)).filter fun t => t ≠ "" with
  | nil => rfl
  | cons t ts => rw [← cons_toList_intercalate, trimList_space]

/-! ## Trims that cut at the end only -/

namespace Text

def trimEnd (s : String) : String := String.ofList (trimEndList s.toList)

/-- A text with something in it that is no blank. -/
def Visible (s : List Char) : Prop := ∃ c ∈ s, isBlank c = false

theorem Visible.append_left {s : List Char} (h : Visible s) (t : List Char) : Visible (t ++ s) := by
  obtain ⟨c, hc, solid⟩ := h
  exact ⟨c, List.mem_append_right t hc, solid⟩

theorem Visible.append_right {s : List Char} (h : Visible s) (t : List Char) : Visible (s ++ t) := by
  obtain ⟨c, hc, solid⟩ := h
  exact ⟨c, List.mem_append_left t hc, solid⟩

theorem trimEndList_ne_nil {s : List Char} (h : Visible s) : trimEndList s ≠ [] := by
  intro he
  obtain ⟨c, hc, solid⟩ := h
  obtain ⟨b, hb, blank⟩ := exists_trimEndList s
  rw [he, List.nil_append] at hb
  rw [blank c (hb ▸ hc)] at solid
  cases solid

theorem trimEndList_append (a : List Char) {b : List Char} (h : Visible b) :
    trimEndList (a ++ b) = a ++ trimEndList b := by
  induction a with
  | nil => rfl
  | cons x a ih =>
    have solid : a ++ trimEndList b ≠ [] := by simp [trimEndList_ne_nil h]
    rw [List.cons_append, trimEndList, ih]
    split
    · next he => exact absurd he solid
    · rfl

end Text

/-- A text that starts with the word `select` is cut at its end only, and not within the word. -/
theorem trimList_select {s : List Char} (h : Text.Visible s) :
    Text.trimList ("select ".toList ++ s) = "select ".toList ++ Text.trimEndList s := by
  have front : ("select ".toList ++ s).dropWhile Text.isBlank = "select ".toList ++ s := by
    show ('s' :: _).dropWhile Text.isBlank = 's' :: _
    rw [List.dropWhile_cons_of_neg (by decide)]
  rw [Text.trimList, front, Text.trimEndList_append _ h]

/-! ## What both dialects write -/

def Component.clauses : List Component := [.table, .joins, .filters, .groups, .havings, .orders]

def Query.unpaged (q : Query) : Query := { q with limit := none, offset := none }

section Shared

variable (n : DialectName) (s : Settings) (q : Query)

theorem written_dialect (ps : List Piece) :
    written (n.dialect s) ps = written (Dialect.generic s) ps := by
  refine List.flatMap_congr fun p _ => ?_
  cases n <;> cases p <;> rfl

theorem fragment_clause {c : Component} (hc : c ∈ Component.clauses) :
    (n.dialect s).fragment q c = (Dialect.generic s).fragment q c := by
  have pieces : fragmentPieces (n.dialect s) n q c = fragmentPieces (Dialect.generic s) .generic q c := by
    have settings : (n.dialect s).settings = (Dialect.generic s).settings := by cases n <;> rfl
    cases c with
    | aggregate | limit | offset | columns => simp [Component.clauses] at hc
    | _ => simp only [fragmentPieces, settings]
  rw [← String.toList_inj, toList_fragment (n.follows_dialect s), pieces, written_dialect]
  exact (toList_fragment (DialectName.generic.follows_dialect s) q c).symm

def clauseText : List Char := spaced (Component.clauses.map ((Dialect.generic s).fragment q))

theorem spaced_clauses :
    spaced (Component.clauses.map ((n.dialect s).fragment q)) = clauseText s q := by
  rw [clauseText, List.map_congr_left fun c hc => fragment_clause n s q hc]

def aggregated (a : Aggregate) : String :=
  let columns := (Dialect.generic s).columnList a.columns
  if q.distinct && columns ≠ "*" then "distinct " ++ columns else columns

/-- What follows the word `select` and any paging, up to the main table. -/
def selectBody : String :=
  match q.aggregate with
  | some a => a.name ++ ("(" ++ (aggregated s q a ++ ") as aggregate"))
  | none => (if q.distinct then "distinct " else "") ++ (Dialect.generic s).columnList q.selected

theorem fragment_aggregate :
    (n.dialect s).fragment q .aggregate = if q.aggregate.isSome then "select " ++ selectBody s q else "" := by
  have text := (n.follows_dialect s).aggregate q
  have same (cs : List String) : (n.dialect s).columnList cs = (Dialect.generic s).columnList cs := by
    cases n <;> rfl
  show (q.aggregate.map ((n.dialect s).aggregate q)).getD "" = _
  cases ha : q.aggregate with
  | none => rfl
  | some a =>
    have body : selectBody s q = a.name ++ ("(" ++ (aggregated s q a ++ ") as aggregate")) := by
      rw [selectBody, ha]
    rw [Option.map_some, Option.getD_some, text, same, body]
    simp only [String.append_assoc]
    rfl

theorem fragment_columns :
    (n.dialect s).fragment q .columns =
      if q.aggregate.isSome then ""
      else (if n.leadsWithPaging q then "" else "select ") ++ selectBody s q := by
  have text := (n.follows_dialect s).columns q
  have same : (n.dialect s).columnList q.selected = (Dialect.generic s).columnList q.selected := by
    cases n <;> rfl
  show (n.dialect s).columns q = _
  rw [text, same, String.append_assoc]
  cases ha : q.aggregate with
  | none => rw [selectBody, ha]
  | some a => rfl

theorem visible_columnList (hq : s.quoteIdentifiers = true) :
    Text.Visible ((Dialect.generic s).columnList q.selected).toList := by
  obtain ⟨c, cs, hc⟩ : ∃ c cs, q.selected = c :: cs := by
    unfold Query.selected
    cases q.columns with
    | nil => exact ⟨_, _, rfl⟩
    | cons c cs => exact ⟨c, cs, rfl⟩
  obtain ⟨x, r, hx, first⟩ := Name.exists_toList_quotedColumn c
  have quoted : (Dialect.generic s).column = Name.quotedColumn := column_of_quoting (n := .generic) hq
  refine ⟨x, ?_, ?_⟩
  · have list : (Dialect.generic s).columnList q.selected =
        commaList (q.selected.map (Dialect.generic s).column) := rfl
    rw [list, commaList, hc, String.toList_intercalate, List.map_cons, List.map_cons, quoted, hx]
    cases cs with
    | nil => simp
    | cons c' cs => simp [List.intercalate_cons_cons]
  · rcases first with rfl | rfl <;> decide

theorem visible_selectBody (hq : s.quoteIdentifiers = true) : Text.Visible (selectBody s q).toList := by
  unfold selectBody
  cases q.aggregate with
  | some a => exact ⟨'(', by simp, by decide⟩
  | none =>
    rw [String.toList_append]
    exact (visible_columnList s q hq).append_left _

end Shared

/-! ## Where the paging goes -/

/-- A number, if there is one, between two texts. -/
def counted (before after : String) : Option UInt64 → String
  | none => ""
  | some n => before ++ Text.natural n.toNat ++ after

section Rows

variable {s : Settings} {q : Query}

theorem append_ne_empty {t : String} (ht : t ≠ "") (u : String) : t ++ u ≠ "" := by
  rw [ne_eq, ← String.toList_inj, String.toList_append] at *
  simp_all

/-- The mainstream dialect writes limit and offset after the clauses. -/
theorem toList_generic_select (s : Settings) (q : Query) :
    ((Dialect.generic s).select q).toList =
      Text.trimList ("select ".toList ++ ((selectBody s q).toList ++ clauseText s q ++
        (counted " limit " "" q.limit ++ counted " offset " "" q.offset).toList)) := by
  have aggregate : (Dialect.generic s).fragment q .aggregate = _ := fragment_aggregate .generic s q
  have columns : (Dialect.generic s).fragment q .columns = _ := fragment_columns .generic s q
  -- the aggregate or the columns own the word `select`
  have head : spaced ([Component.aggregate, .columns].map ((Dialect.generic s).fragment q)) =
      ' ' :: ("select ".toList ++ (selectBody s q).toList) := by
    have said : "select " ++ selectBody s q ≠ "" := append_ne_empty (by decide) _
    have unpaged : DialectName.generic.leadsWithPaging q = false := rfl
    rw [List.map_cons, List.map_cons, List.map_nil, aggregate, columns, unpaged]
    cases q.aggregate with
    | none => simp [spaced_cons said]
    | some a => simp [spaced_cons said]
  have paging : spaced ([Component.limit, .offset].map ((Dialect.generic s).fragment q)) =
      (counted " limit " "" q.limit ++ counted " offset " "" q.offset).toList := by
    have limit (k : UInt64) : "limit " ++ Text.natural k.toNat ≠ "" := append_ne_empty (by decide) _
    have offset (k : UInt64) : "offset " ++ Text.natural k.toNat ≠ "" := append_ne_empty (by decide) _
    simp only [List.map_cons, List.map_nil, Dialect.fragment, Dialect.generic]
    cases q.limit <;> cases q.offset <;> simp [spaced_cons, limit, offset, counted]
  have row : (Dialect.generic s).components.map ((Dialect.generic s).fragment q) =
      [Component.aggregate, .columns].map ((Dialect.generic s).fragment q) ++
        (Component.clauses.map ((Dialect.generic s).fragment q) ++
          [Component.limit, .offset].map ((Dialect.generic s).fragment q)) := rfl
  rw [toList_select_row, row, spaced_append, spaced_append, head, paging, List.cons_append, trimList_space]
  simp only [clauseText, List.append_assoc]

/-- Firebird writes limit and offset right after the word `select`, unless there is an aggregate. -/
theorem toList_firebird_select (hq : s.quoteIdentifiers = true) :
    ((Dialect.firebird s).select q).toList =
      Text.trimList ("select ".toList ++
        ((if q.aggregate.isSome then ""
          else counted "first " " " q.limit ++ counted "skip " " " q.offset).toList ++
            ((selectBody s q).toList ++ clauseText s q))) := by
  have aggregate : (Dialect.firebird s).fragment q .aggregate = _ := fragment_aggregate .firebird s q
  have columns : (Dialect.firebird s).fragment q .columns = _ := fragment_columns .firebird s q
  have clauses : spaced (Component.clauses.map ((Dialect.firebird s).fragment q)) = clauseText s q :=
    spaced_clauses .firebird s q
  have limit : (Dialect.firebird s).fragment q .limit = (q.limit.map fun k =>
      if q.aggregate.isSome then "" else "select first " ++ Text.natural k.toNat).getD "" := rfl
  have offset : (Dialect.firebird s).fragment q .offset = (q.offset.map fun k =>
      if q.aggregate.isSome then ""
      else (if q.limit.isSome then "skip " else "select skip ") ++ Text.natural k.toNat).getD "" := rfl
  have body : selectBody s q ≠ "" := by
    intro he
    obtain ⟨c, hc, -⟩ := visible_selectBody s q hq
    rw [he] at hc
    cases hc
  have nonempty {t : String} (ht : t ≠ "") (k : UInt64) : t ++ Text.natural k.toNat ≠ "" :=
    append_ne_empty ht _
  -- the first of aggregate, limit, offset and columns that is there owns the word `select`
  have head : spaced ([Component.aggregate, .limit, .offset, .columns].map ((Dialect.firebird s).fragment q)) =
      ' ' :: ("select ".toList ++ ((if q.aggregate.isSome then ""
          else counted "first " " " q.limit ++ counted "skip " " " q.offset).toList ++
            (selectBody s q).toList)) := by
    simp only [List.map_cons, List.map_nil, aggregate, columns, limit, offset,
      DialectName.leadsWithPaging]
    cases q.aggregate with
    | some a => cases q.limit <;> cases q.offset <;> simp [spaced_cons]
    | none =>
      cases q.limit <;> cases q.offset <;> simp [spaced_cons, counted, body, nonempty]
  have row : (Dialect.firebird s).components.map ((Dialect.firebird s).fragment q) =
      [Component.aggregate, .limit, .offset, .columns].map ((Dialect.firebird s).fragment q) ++
        Component.clauses.map ((Dialect.firebird s).fragment q) := rfl
  rw [toList_select_row, row, spaced_append, clauses, head, List.cons_append, trimList_space]
  simp only [List.append_assoc]

theorem trimEndList_append_natural (t : List Char) (k : Nat) :
    Text.trimEndList (t ++ (Text.natural k).toList) = t ++ (Text.natural k).toList := by
  refine Text.trimEndList_of_getLast fun c hc => ?_
  have digits : (Text.natural k).toList ≠ [] := by
    rw [Text.toList_natural]
    exact Nat.toDigits_ne_nil
  rw [List.getLast?_append, List.getLast?_eq_some_getLast digits, Option.some_or] at hc
  have digit : c ∈ Nat.toDigits 10 k := by
    rw [← Text.toList_natural, ← Option.some.inj hc]
    exact List.getLast_mem digits
  exact Text.isBlank_of_isDigit (Nat.isDigit_of_mem_toDigits (by decide) (by decide) digit)

theorem trimEndList_append_paging (t : List Char) {limit offset : Option UInt64}
    (h : limit.isSome ∨ offset.isSome) :
    Text.trimEndList (t ++ (counted " limit " "" limit ++ counted " offset " "" offset).toList) =
      t ++ (counted " limit " "" limit ++ counted " offset " "" offset).toList := by
  cases offset with
  | some m =>
    have last := trimEndList_append_natural (t ++ (counted " limit " "" limit ++ " offset ").toList) m.toNat
    simpa [counted] using last
  | none =>
    cases limit with
    | some k =>
      have last := trimEndList_append_natural (t ++ " limit ".toList) k.toNat
      simpa [counted] using last
    | none => simp at h

theorem toList_select_unpaged (hq : s.quoteIdentifiers = true) :
    ((Dialect.generic s).select q.unpaged).toList =
      "select ".toList ++ Text.trimEndList ((selectBody s q).toList ++ clauseText s q) := by
  have row := toList_generic_select s q.unpaged
  have nothing : counted " limit " "" q.unpaged.limit ++ counted " offset " "" q.unpaged.offset = "" := rfl
  rw [nothing, String.toList_empty, List.append_nil, trimList_select] at row
  · exact row
  · exact (visible_selectBody s q hq).append_right _

/-- Where Firebird writes no paging it writes what the mainstream dialect writes without paging. -/
theorem select_firebird_of_unpaged (hq : s.quoteIdentifiers = true)
    (hp : q.aggregate.isSome ∨ q.limit = none ∧ q.offset = none) :
    (Dialect.firebird s).select q = (Dialect.generic s).select q.unpaged := by
  have row := toList_firebird_select (q := q) hq
  have nothing : (if q.aggregate.isSome then ""
      else counted "first " " " q.limit ++ counted "skip " " " q.offset) = "" := by
    rcases hp with ha | ⟨hl, ho⟩
    · rw [if_pos ha]
    · rw [hl, ho]
      split <;> rfl
  rw [nothing, String.toList_empty, List.nil_append,
    trimList_select ((visible_selectBody s q hq).append_right _)] at row
  rw [← String.toList_inj, row, toList_select_unpaged hq]

theorem select_unpaged_of_aggregate (hq : s.quoteIdentifiers = true) (ha : q.aggregate.isSome)
    (columns : List String) (limit offset : Option UInt64) :
    (Dialect.generic s).select
      ({ q with columns := columns, limit := limit, offset := offset } : Query).unpaged =
        (Dialect.generic s).select q.unpaged := by
  let q' : Query := { q with columns := columns, limit := limit, offset := offset }
  have body : selectBody s q' = selectBody s q := by
    obtain ⟨a, ha⟩ := Option.isSome_iff_exists.1 ha
    have ha' : q'.aggregate = some a := ha
    rw [selectBody, ha', selectBody, ha]
    rfl
  have clauses : clauseText s q' = clauseText s q := rfl
  have row := toList_select_unpaged (q := q') hq
  rw [body, clauses, ← toList_select_unpaged hq] at row
  exact String.toList_inj.1 row

theorem exists_select_firebird (hq : s.quoteIdentifiers = true) (ha : q.aggregate = none) :
    ∃ rest, (Dialect.generic s).select q.unpaged =
        "select " ++ ((if q.distinct then "distinct " else "") ++ rest) ∧
      (Dialect.firebird s).select q = "select " ++ (counted "first " " " q.limit ++
        counted "skip " " " q.offset ++ ((if q.distinct then "distinct " else "") ++ rest)) := by
  let columns := ((Dialect.generic s).columnList q.selected).toList ++ clauseText s q
  -- the columns are not blank, so the trim cuts behind them
  have visible : Text.Visible columns := (visible_columnList s q hq).append_right _
  have split : (selectBody s q).toList ++ clauseText s q =
      (if q.distinct then "distinct " else "").toList ++ columns := by
    rw [selectBody, ha, String.toList_append, List.append_assoc]
  have unpaged := toList_select_unpaged (q := q) hq
  have row := toList_firebird_select (q := q) hq
  rw [split, Text.trimEndList_append _ visible] at unpaged
  rw [if_neg (by simp [ha]), split, trimList_select ((visible.append_left _).append_left _),
    Text.trimEndList_append _ (visible.append_left _), Text.trimEndList_append _ visible] at row
  refine ⟨String.ofList (Text.trimEndList columns), ?_, ?_⟩
  · rw [← String.toList_inj, unpaged]
    simp only [String.toList_append, String.toList_ofList]
  · rw [← String.toList_inj, row]
    simp only [String.toList_append, String.toList_ofList]

theorem exists_select_generic (hq : s.quoteIdentifiers = true) (hp : q.limit.isSome ∨ q.offset.isSome) :
    ∃ front, (Dialect.generic s).select q =
        front ++ (counted " limit " "" q.limit ++ counted " offset " "" q.offset) ∧
      Text.trimEnd front = (Dialect.generic s).select q.unpaged := by
  have visible : Text.Visible ((selectBody s q).toList ++ clauseText s q) :=
    (visible_selectBody s q hq).append_right _
  let front := "select ".toList ++ ((selectBody s q).toList ++ clauseText s q)
  have row := toList_generic_select s q
  rw [trimList_select (visible.append_right _), trimEndList_append_paging _ hp, ← List.append_assoc] at row
  refine ⟨String.ofList front, ?_, ?_⟩
  · rw [← String.toList_inj, row]
    simp only [front, String.toList_append, String.toList_ofList]
  · rw [← String.toList_inj, toList_select_unpaged hq, Text.trimEnd, String.toList_ofList,
      String.toList_ofList, Text.trimEndList_append _ visible]

end Rows

/-- **The two dialects differ in paging only.** Without limit and offset they write one and the same
text. With them, Firebird writes this text if there is an aggregate, and else puts the paging right after
the word `select`; the mainstream puts the paging at the end, after a text that differs from it by
blanks at the end at most. -/
theorem select_paging (s : Settings) (hq : s.quoteIdentifiers = true) (q : Query) :
    let text := (Dialect.generic s).select q.unpaged
    (Dialect.firebird s).select q.unpaged = text ∧
    (q.aggregate.isSome → ∀ columns limit offset, (Dialect.firebird s).select
      { q with columns := columns, limit := limit, offset := offset } = text) ∧
    (q.aggregate = none → ∃ rest,
      text = "select " ++ ((if q.distinct then "distinct " else "") ++ rest) ∧
      (Dialect.firebird s).select q = "select " ++ (counted "first " " " q.limit ++
        counted "skip " " " q.offset ++ ((if q.distinct then "distinct " else "") ++ rest))) ∧
    (q.limit.isSome ∨ q.offset.isSome → ∃ front,
      (Dialect.generic s).select q =
        front ++ (counted " limit " "" q.limit ++ counted " offset " "" q.offset) ∧
      Text.trimEnd front = text) := by
  intro text
  refine ⟨?_, fun ha columns limit offset => ?_, exists_select_firebird hq, exists_select_generic hq⟩
  · exact select_firebird_of_unpaged (q := q.unpaged) hq (Or.inr ⟨rfl, rfl⟩)
  · let q' : Query := { q with columns := columns, limit := limit, offset := offset }
    have unpaged : (Dialect.firebird s).select q' = (Dialect.generic s).select q'.unpaged :=
      select_firebird_of_unpaged hq (Or.inl ha)
    exact unpaged.trans (select_unpaged_of_aggregate hq ha columns limit offset)

/-- A page of distinct rows. -/
theorem select_paging_of_page :
    let q : Query :=
      { table := "users", columns := ["name"], distinct := true, limit := some 10, offset := some 20 }
    let s : Settings := { tablePrefix := "p_" }
    (Dialect.firebird s).select q.unpaged = (Dialect.generic s).select q.unpaged ∧
    (∃ rest, (Dialect.generic s).select q.unpaged = "select " ++ ("distinct " ++ rest) ∧
      (Dialect.firebird s).select q = "select " ++ (counted "first " " " q.limit ++
        counted "skip " " " q.offset ++ ("distinct " ++ rest))) ∧
    (∃ front, (Dialect.generic s).select q =
        front ++ (counted " limit " "" q.limit ++ counted " offset " "" q.offset) ∧
      Text.trimEnd front = (Dialect.generic s).select q.unpaged) ∧
    (Dialect.firebird s).select q = "select first 10 skip 20 distinct \"name\" from \"p_users\"" ∧
    (Dialect.generic s).select q = "select distinct \"name\" from \"p_users\" limit 10 offset 20" := by
  intro q s
  obtain ⟨unpaged, -, firebird, generic⟩ := select_paging s rfl q
  exact ⟨unpaged, firebird rfl, generic (Or.inl rfl), by decide, by decide⟩

end SqlGrammar
