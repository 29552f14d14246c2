import SqlGrammar.Proofs.ColumnText
import SqlGrammar.Proofs.Unquoting

/-!
Columns that are qualified by a table. The from clause and the joins write a table with the prefix of the
settings before its name (`table_of_plain`), and a column `t.c` is written without it
(`column_qualified`). So the qualifier is the name of the table exactly if there is no prefix
(`column_append_eq_segment_iff`): with quoting since a quoted name ends where it is closed, without it
since the text of a name is the name itself. `qualifiers_eq_tables_iff` says it of a whole query.
-/

namespace SqlGrammar

open CommandLine (DialectName)

/-! ## Names of one segment -/

namespace Name

/-- A text without points and without an alias. -/
def Plain (s : String) : Prop := '.' ∉ s.toList ∧ splitAlias? s.toList = none

instance (s : String) : Decidable (Plain s) := inferInstanceAs (Decidable (_ ∧ _))

theorem afterAs?_append_point {s : List Char} (h : afterAs? s = none) (r : List Char) :
    afterAs? (s ++ '.' :: r) = none := by
  by_contra hs
  obtain ⟨label, hl⟩ := Option.ne_none_iff_exists'.1 hs
  obtain ⟨a, b, he, ha, hb⟩ := afterAs?_eq_some_iff.1 hl
  -- the point would be one of the four characters, or the ` as ` stands before it
  match s, he with
  | [], he => cases he
  | [_], he => cases he; exact absurd ha (by decide)
  | [_, _], he => cases he; exact absurd hb (by decide)
  | [_, _, _], he => cases he
  | _ :: _ :: _ :: _ :: rest, he =>
    cases he
    rw [afterAs?_eq_some_iff.2 ⟨a, b, rfl, ha, hb⟩] at h
    cases h

theorem splitAlias?_append_point {s r : List Char} (hs : splitAlias? s = none) (hr : splitAlias? r = none) :
    splitAlias? (s ++ '.' :: r) = none := by
  induction s with
  | nil => exact splitAlias?_cons_eq_none_iff.2 ⟨afterAs?_cons_of_ne (by decide) r, hr⟩
  | cons c s ih =>
    obtain ⟨first, rest⟩ := splitAlias?_cons_eq_none_iff.1 hs
    exact splitAlias?_cons_eq_none_iff.2 ⟨afterAs?_append_point first r, ih rest⟩

theorem splitAlias?_append_as_ne_none (s r : List Char) :
    splitAlias? (s ++ ' ' :: 'a' :: 's' :: ' ' :: r) ≠ none := by
  intro h
  induction s with
  | nil =>
    have first := (splitAlias?_cons_eq_none_iff.1 h).1
    rw [afterAs?_eq_some_iff.2 ⟨'a', 's', rfl, by decide, by decide⟩] at first
    cases first
  | cons c s ih => exact ih (splitAlias?_cons_eq_none_iff.1 h).2

namespace Reference

theorem ofText_of_plain {s : String} (h : Plain s) : ofText s = ⟨[s], none⟩ := by
  rw [ofText_of_none h.2, List.splitOn_eq_singleton h.1]
  simp

theorem ofText_qualified {t c : String} (ht : Plain t) (hc : Plain c) :
    ofText (t ++ "." ++ c) = ⟨[t, c], none⟩ := by
  have text : (t ++ "." ++ c).toList = t.toList ++ '.' :: c.toList := by
    rw [String.toList_append, String.toList_append, List.append_assoc]
    rfl
  have whole : splitAlias? (t ++ "." ++ c).toList = none := by
    rw [text]
    exact splitAlias?_append_point ht.2 hc.2
  rw [ofText_of_none whole, text, List.splitOn_append_cons_self_of_not_mem ht.1, List.splitOn_eq_singleton hc.1]
  simp

end Reference

end Name

/-! ## Tables and their columns -/

section Written

variable {n : DialectName} {s : Settings} {t c : String}

theorem column_of_plain (ht : Name.Plain t) : (n.dialect s).column t = (n.dialect s).segment t := by
  rw [(n.follows_dialect s).column, Name.column, Name.Reference.ofText_of_plain ht, Name.Reference.render,
    List.map_singleton, String.intercalate_singleton]

theorem table_of_plain (ht : Name.Plain t) :
    (n.dialect s).table t = (n.dialect s).column (s.tablePrefix ++ t) := by
  rw [(n.follows_dialect s).table, Name.table, ht.2, DialectName.settings_dialect]

theorem column_qualified (ht : Name.Plain t) (hc : Name.Plain c) :
    (n.dialect s).column (t ++ "." ++ c) =
      (n.dialect s).segment t ++ "." ++ (n.dialect s).segment c := by
  rw [(n.follows_dialect s).column, Name.column, Name.Reference.ofText_qualified ht hc,
    Name.Reference.render, List.map_cons, List.map_singleton, String.intercalate_cons_cons,
    String.intercalate_singleton]

end Written

/-! ## A text before a name -/

namespace Name

/-- Names are quoted apart, `*` apart from all of them. -/
theorem segmentText_inj {s t : String} (h : segmentText s = segmentText t) : s = t := by
  by_cases hs : s = "*" <;> by_cases ht : t = "*"
  · rw [hs, ht]
  · rw [hs, segmentText_star, segmentText_of_ne ht] at h
    cases h
  · rw [ht, segmentText_star, segmentText_of_ne hs] at h
    cases h
  · rw [segmentText_of_ne hs, segmentText_of_ne ht] at h
    have bodies : escaped s.toList ++ '"' :: [] = escaped t.toList ++ '"' :: [] := (List.cons.inj h).2
    exact String.toList_inj.1 (escaped_append_inj (by simp) (by simp) bodies).1

theorem eq_singleton_of_dottedText {segs : List String} (hne : segs ≠ []) {t : String}
    (h : dottedText segs = segmentText t) : segs = [t] := by
  cases segs with
  | nil => exact absurd rfl hne
  | cons x rest =>
    cases rest with
    | nil =>
      rw [dottedText_singleton] at h
      rw [segmentText_inj h]
    | cons y rest =>
      rw [dottedText_cons_cons, ← List.append_nil (segmentText t)] at h
      cases (segmentText_append_inj (by simp) (by simp) h).2

theorem eq_of_toList_quotedColumn {s t : String} (h : (quotedColumn s).toList = segmentText t) : s = t := by
  have named := Reference.segments_ofText_ne_nil s
  rw [toList_quotedColumn, ← List.append_nil (aliasText _), ← dottedText_singleton,
    ← List.append_nil (dottedText [t])] at h
  obtain ⟨name, rest⟩ := dottedText_append_inj named (List.cons_ne_nil _ _)
    (head?_aliasText (by simp) (by decide)) (by simp) (head?_aliasText (by simp) (by decide)) (by simp) h
  rw [dottedText_singleton] at name
  have one := eq_singleton_of_dottedText named name
  cases hcut : splitAlias? s.toList with
  | some cut => simp [Reference.ofText_of_some hcut, aliasText] at rest
  | none =>
    rw [Reference.ofText_of_none hcut] at one
    have segments : (s.toList.splitOn '.').map String.ofList = [t] := one
    have whole := intercalate_ofList_splitOn s.toList
    rw [segments, String.ofList_toList] at whole
    exact whole.symm.trans String.intercalate_singleton

end Name

section Prefixed

variable {n : DialectName} {s : Settings} {t : String}

theorem eq_of_column_quoting {p : String} (ht : Name.Plain t)
    (h : (n.dialect (s.quoting false)).column p = t) : p = t := by
  cases hcut : Name.splitAlias? p.toList with
  | none => rw [← h, column_unquoted n s hcut]
  | some cut =>
    -- the alias of the column would be one of the name
    rw [(n.follows_dialect _).column, Name.column, Name.Reference.ofText_of_some hcut,
      Name.Reference.render] at h
    have whole := ht.2
    rw [← h, String.toList_append, String.toList_append, List.append_assoc] at whole
    exact absurd whole (Name.splitAlias?_append_as_ne_none _ _)

/-- **A text before the name of a table is written, whatever it is.** -/
theorem column_append_eq_segment_iff (ht : Name.Plain t) (p : String) :
    (n.dialect s).column (p ++ t) = (n.dialect s).segment t ↔ p = "" := by
  constructor
  · intro h
    apply String.append_eq_right_iff.1
    cases hq : s.quoteIdentifiers with
    | true =>
      rw [column_of_quoting hq, (n.follows_dialect s).segment, DialectName.quote_dialect,
        Dialect.quoteBy_of_true hq] at h
      exact Name.eq_of_toList_quotedColumn (congrArg String.toList h)
    | false =>
      have off : s = s.quoting false := by rw [Settings.quoting, ← hq]
      rw [off, segment_unquoted] at h
      exact eq_of_column_quoting ht h
  · rintro rfl
    rw [String.empty_append, column_of_plain ht]

end Prefixed

/-! ## Queries -/

namespace Query

/-- The tables of a query: its own one and those of the joins. -/
def tables (q : Query) : List String := q.table :: q.joins.map Join.table

/-- The texts of a query that name columns: those of the select list and of an aggregate, of all tests
(of joins, filters and havings, groups included), of the grouping and of the sort keys. -/
def columnNames (q : Query) : List String :=
  q.columns ++ (q.aggregate.map Aggregate.columns).getD [] ++ q.tests.flatMap Test.names ++ q.groups ++
    q.orders.flatMap Order.names

/-- The query names the column `c` of its table `t` as `t.c`. -/
structure Qualifies (q : Query) (t c : String) : Prop where
  table : t ∈ q.tables
  column : t ++ "." ++ c ∈ q.columnNames
  plain : Name.Plain t ∧ Name.Plain c

end Query

/-- **Qualified columns refer to the tables of a query exactly if no prefix is set.** A qualifier is
written as it is, a table after the prefix; so, where a column is qualified by a table at all, both are the
same only without a prefix. -/
theorem qualifiers_eq_tables_iff (n : DialectName) (s : Settings) (q : Query) :
    (∀ t c, q.Qualifies t c →
      (n.dialect s).column (t ++ "." ++ c) =
        (n.dialect s).segment t ++ "." ++ (n.dialect s).segment c ∧
      (n.dialect s).table t = (n.dialect s).column (s.tablePrefix ++ t)) ∧
    ((∀ t c, q.Qualifies t c →
      (n.dialect s).column (t ++ "." ++ c) = (n.dialect s).table t ++ "." ++ (n.dialect s).segment c) ↔
      s.tablePrefix = "" ∨ ∀ t c, ¬ q.Qualifies t c) := by
  have same {t c : String} (h : q.Qualifies t c) :
      (n.dialect s).column (t ++ "." ++ c) = (n.dialect s).table t ++ "." ++ (n.dialect s).segment c ↔
        s.tablePrefix = "" := by
    rw [column_qualified h.plain.1 h.plain.2, table_of_plain h.plain.1, String.append_left_inj,
      String.append_left_inj, eq_comm, column_append_eq_segment_iff h.plain.1]
  refine ⟨fun t c h => ⟨column_qualified h.plain.1 h.plain.2, table_of_plain h.plain.1⟩, ?_, ?_⟩
  · intro h
    by_cases hp : s.tablePrefix = ""
    · exact Or.inl hp
    · exact Or.inr fun t c hq => hp ((same hq).1 (h t c hq))
  · rintro (hp | none) t c hq
    · exact (same hq).2 hp
    · exact absurd hq (none t c)

/-- With a prefix, `users.id` is no column of `app_users`. -/
theorem qualifier_ne_table :
    ¬ ∀ (n : DialectName) (s : Settings) (q : Query) (t c : String), q.Qualifies t c →
      (n.dialect s).column (t ++ "." ++ c) =
        (n.dialect s).table t ++ "." ++ (n.dialect s).segment c := by
  intro h
  have qualifies : Query.Qualifies { table := "users", columns := ["users.id"] } "users" "id" :=
    ⟨by decide, by decide, by decide⟩
  have names := h .firebird { tablePrefix := "app_" } _ "users" "id" qualifies
  exact absurd names (by decide)

end SqlGrammar
