import Mathlib.Data.List.Basic
import SqlGrammar.Proofs.Collect
import SqlGrammar.Proofs.Reference

/-!
How many placeholders a statement has, and how many values. The two are counted on two walks over the
query: the text is made clause by clause, the values are gathered from all predicates at once. The walks
agree but for two cases, and `length_placed` is the account of both:

  1. a cross join writes no conditions, but what its conditions bind is among the values
     (`Query.unwritten`);
  2. a raw expression among the values of a raw predicate is dropped from the values, but its
     placeholder stays in the text (`Query.unbound`).
-/

namespace SqlGrammar

open CommandLine (DialectName)

/-! ## Values with a placeholder -/

/-- The values whose placeholders a piece holds. -/
def Piece.values : Piece → List Value
  | bound v => [v]
  | sql _ vs => vs
  | _ => []

namespace Test

/-- The values of a test that have a placeholder in its text. -/
def placed : Test → List Value
  | raw _ vs => vs
  | t => cleanBindings t.bindings

/-- The values of a test that have a placeholder in its text but are not bound. -/
def unbound : Test → List Value
  | raw _ vs => vs.filter Value.isRaw
  | _ => []

/-- The SQL of a raw predicate has one placeholder for each of its values. -/
def Matched : Test → Prop
  | raw sql vs => sql.toList.count '?' = vs.length
  | _ => True

instance : (t : Test) → Decidable t.Matched
  | raw sql vs => Nat.decEq (sql.toList.count '?') vs.length
  | compare .. | columns .. | oneOf .. | isNull .. | between .. => isTrue trivial

theorem length_placed (t : Test) :
    t.placed.length = (cleanBindings t.bindings).length + t.unbound.length := by
  cases t with
  | raw sql vs =>
    have split := List.length_eq_length_filter_add (l := vs) Value.isRaw
    show vs.length = (vs.filter fun v => !v.isRaw).length + (vs.filter Value.isRaw).length
    omega
  | _ => rfl

end Test

namespace Query

/-- The predicates that a statement writes: those of cross joins are left out. -/
def printed (q : Query) : List Predicate := q.joins.flatMap Join.printed ++ q.filters ++ q.havings

/-- The values that have a placeholder, in the order of the text. -/
def placed (q : Query) : List Value := (Predicate.listTests q.printed).flatMap Test.placed

def unbound (q : Query) : List Value := (Predicate.listTests q.printed).flatMap Test.unbound

/-- The values that are bound but have no placeholder: those of the conditions of cross joins. -/
def unwritten (q : Query) : List Value :=
  cleanBindings ((q.joins.filter fun j => j.kind = .cross).flatMap fun j =>
    Predicate.listBindings j.conditions)

/-- No text holds a question mark, but for the SQL of raw predicates, which holds one for each of its
values. -/
structure OwnPlaceholders (tablePrefix : String) (q : Query) : Prop where
  tablePrefix : '?' ∉ tablePrefix.toList
  names : ∀ t ∈ q.names, '?' ∉ t.toList
  verbatims : ∀ t ∈ q.verbatims, '?' ∉ t.toList
  raws : ∀ t ∈ q.tests, t.Matched

end Query

def Statement.placeholders (st : Statement) : Nat := st.sql.toList.count '?'

/-! ## The account of the values -/

mutual

theorem Predicate.bindings_eq_flatMap : ∀ p : Predicate, p.bindings = p.tests.flatMap Test.bindings
  | .test c t => by simp [bindings, tests]
  | .group c ps => listBindings_eq_flatMap_tests ps

theorem Predicate.listBindings_eq_flatMap_tests : ∀ ps : List Predicate,
    listBindings ps = (listTests ps).flatMap Test.bindings
  | [] => rfl
  | p :: ps => by
    rw [listBindings, listTests, List.flatMap_append, bindings_eq_flatMap p,
      listBindings_eq_flatMap_tests ps]

end

theorem length_flatMap_placed (ts : List Test) : (ts.flatMap Test.placed).length =
    (cleanBindings (ts.flatMap Test.bindings)).length + (ts.flatMap Test.unbound).length := by
  induction ts with
  | nil => rfl
  | cons t ts ih =>
    have first := t.length_placed
    simp only [List.flatMap_cons, List.length_append, cleanBindings_append]
    omega

/-- The conditions of joins bind what the written ones bind, and what those of cross joins bind. -/
theorem length_joins_bindings (js : List Join) :
    (cleanBindings (Predicate.listBindings (js.flatMap Join.conditions))).length =
      (cleanBindings (Predicate.listBindings (js.flatMap Join.printed))).length +
        (cleanBindings ((js.filter fun j => j.kind = .cross).flatMap fun j =>
          Predicate.listBindings j.conditions)).length := by
  simp only [Predicate.listBindings_eq_flatMap]
  induction js with
  | nil => rfl
  | cons j js ih =>
    -- a join counts on the right once: as written, or as a cross join
    by_cases hc : j.kind = .cross
    · simp only [List.flatMap_cons, List.filter_cons, hc, decide_true, if_true, Join.printed,
        List.flatMap_append, cleanBindings_append, List.length_append, List.nil_append] at ih ⊢
      omega
    · simp only [List.flatMap_cons, List.filter_cons, hc, decide_false, Join.printed, if_false,
        List.flatMap_append, cleanBindings_append, List.length_append, Bool.false_eq_true] at ih ⊢
      omega

/-- **Values with a placeholder and those bound without one are as many as values bound and those with
a placeholder that are not bound.** -/
theorem Query.length_placed (q : Query) :
    q.placed.length + q.unwritten.length = q.bindings.length + q.unbound.length := by
  have tests := length_flatMap_placed (Predicate.listTests q.printed)
  have joins := length_joins_bindings q.joins
  have printed : (Predicate.listTests q.printed).flatMap Test.bindings =
      Predicate.listBindings (q.joins.flatMap Join.printed) ++ Predicate.listBindings q.filters ++
        Predicate.listBindings q.havings := by
    simp only [Query.printed, Predicate.listTests_append, List.flatMap_append,
      Predicate.listBindings_eq_flatMap_tests]
  have bindings : q.bindings = cleanBindings (Predicate.listBindings (q.joins.flatMap Join.conditions) ++
      Predicate.listBindings q.filters ++ Predicate.listBindings q.havings) := by
    simp only [Query.bindings, Query.predicates, List.flatMap_append, Predicate.listBindings_eq_flatMap]
  rw [printed] at tests
  rw [bindings]
  simp only [cleanBindings_append, List.length_append] at tests ⊢
  unfold placed unbound unwritten
  omega

/-! ## The values of the pieces -/

theorem values_segmentPiece (s : String) : (segmentPiece s).values = [] := by
  unfold segmentPiece
  split <;> rfl

theorem ofColumn_values (s : String) : ofColumn Piece.values s = [] := by
  rw [ofColumn_eq (fun _ => rfl), List.flatMap_eq_nil_iff]
  exact fun part _ => values_segmentPiece part

theorem ofTable_values (tablePrefix s : String) : ofTable Piece.values tablePrefix s = [] := by
  unfold ofTable tablePieces
  cases Name.splitAlias? s.toList with
  | none => exact ofColumn_values _
  | some cut =>
    have name := ofColumn_values (tablePrefix ++ String.ofList cut.1)
    have label := values_segmentPiece (String.ofList (Text.trimList cut.2))
    rw [ofColumn] at name
    simp only [List.flatMap_append, List.flatMap_cons, List.flatMap_nil, name, label]
    rfl

theorem values_valuePieces (vs : List Value) :
    (commaPieces (vs.map fun v => [valuePiece v])).flatMap Piece.values = cleanBindings vs := by
  rw [commaPieces, flatMap_glue (by rfl)]
  induction vs with
  | nil => rfl
  | cons v vs ih =>
    rw [List.map_cons, List.flatMap_cons, ih]
    cases v <;> rfl

theorem values_testPieces {t : Test} (ht : t.Matched) :
    (testPieces t).flatMap Piece.values = t.placed := by
  have column (s : String) : (columnPieces s).flatMap Piece.values = [] := ofColumn_values s
  cases t with
  | compare c operator v =>
    cases v <;> simp [testPieces, column, Piece.values, valuePiece, Test.placed, Test.bindings,
      cleanBindings, Value.isRaw]
  | columns first operator second =>
    simp [testPieces, column, Piece.values, Test.placed, Test.bindings, cleanBindings]
  | oneOf c vs negated =>
    cases vs with
    | nil => rfl
    | cons v vs =>
      have values := values_valuePieces (v :: vs)
      simp only [testPieces, List.flatMap_append, List.flatMap_cons, column, values]
      simp [Piece.values, Test.placed, Test.bindings]
  | isNull c negated =>
    simp [testPieces, column, Piece.values, Test.placed, Test.bindings, cleanBindings]
  | between c low high negated =>
    cases low <;> cases high <;> simp [testPieces, column, Piece.values, valuePiece, Test.placed,
      Test.bindings, cleanBindings, Value.isRaw]
  | raw sql vs =>
    simp only [testPieces]
    split
    · next hs =>
      -- no text, so no placeholder and no value
      have none : vs.length = 0 := by rw [← (ht : _ = _), hs]; rfl
      rw [List.length_eq_zero_iff.1 none]
      rfl
    · simp [Piece.values, Test.placed]

theorem ofPredicates_values {ps : List Predicate} (h : ∀ t ∈ Predicate.listTests ps, t.Matched) :
    ofPredicates Piece.values ps = (Predicate.listTests ps).flatMap Test.placed := by
  unfold ofPredicates
  rw [List.flatMap_congr fun t ht => values_testPieces (h t ht)]

namespace Query

theorem printed_subset (q : Query) : q.printed ⊆ q.predicates := by
  intro p hp
  rw [printed, List.append_assoc, List.mem_append, List.mem_flatMap] at hp
  rcases hp with ⟨j, hj, hp⟩ | hp
  · exact printed_subset_predicates hj hp
  · rw [predicates, List.append_assoc]
    exact List.mem_append_right _ hp

theorem values_joins {q : Query} {tablePrefix : String} (h : ∀ t ∈ q.tests, t.Matched) :
    ofFragment Piece.values tablePrefix q .joins =
      (Predicate.listTests (q.joins.flatMap Join.printed)).flatMap Test.placed := by
  have each : ∀ j ∈ q.joins, ofTable Piece.values tablePrefix j.table ++
      ofPredicates Piece.values j.printed = (Predicate.listTests j.printed).flatMap Test.placed := by
    intro j hj
    rw [ofTable_values, List.nil_append]
    exact ofPredicates_values fun t ht =>
      h t (Predicate.listTests_subset (printed_subset_predicates hj) ht)
  simp only [ofFragment]
  rw [List.flatMap_congr each]
  induction q.joins with
  | nil => rfl
  | cons j js ih =>
    rw [List.flatMap_cons, List.flatMap_cons, Predicate.listTests_append, List.flatMap_append, ih]

/-- Only joins, filters and havings hold values, and both dialects write them in this order. -/
theorem values_selectPieces {d : Dialect} {n : DialectName} {q : Query} (h : ∀ t ∈ q.tests, t.Matched)
    (hd : d.placeholder ≠ "") : (selectPieces d n q).flatMap Piece.values = q.placed := by
  have names (cs : List String) : cs.flatMap (ofColumn Piece.values) = [] :=
    List.flatMap_eq_nil_iff.2 fun c _ => ofColumn_values c
  have joins : ofFragment Piece.values d.settings.tablePrefix q .joins = _ := values_joins h
  have filters : ofFragment Piece.values d.settings.tablePrefix q .filters = _ :=
    ofPredicates_values fun t ht => h t (Predicate.listTests_subset q.filters_subset_predicates ht)
  have havings : ofFragment Piece.values d.settings.tablePrefix q .havings = _ :=
    ofPredicates_values fun t ht => h t (Predicate.listTests_subset q.havings_subset_predicates ht)
  -- all other fragments are made of names, words and verbatim texts
  have rest : ∀ c, c ≠ .joins → c ≠ .filters → c ≠ .havings →
      ofFragment Piece.values d.settings.tablePrefix q c = [] := by
    intro c hj hf hh
    cases c with
    | aggregate => cases ha : q.aggregate <;> simp [ofFragment, ha, names, Piece.values]
    | columns => simp [ofFragment, names]
    | table => simp [ofFragment, ofTable_values]
    | groups => simp [ofFragment, names]
    | orders => simp [ofFragment, names, Piece.values]
    | limit => rfl
    | offset => rfl
    | joins => exact absurd rfl hj
    | filters => exact absurd rfl hf
    | havings => exact absurd rfl hh
  rw [flatMap_selectPieces (fun _ => rfl)]
  · rw [placed, printed, Predicate.listTests_append, Predicate.listTests_append, List.flatMap_append,
      List.flatMap_append, ← joins, ← filters, ← havings]
    cases n <;> simp [DialectName.components, Dialect.firebirdComponents, Component.standard, rest]
  · intro p hp he
    cases p with
    | bound v => exact absurd (String.toList_eq_nil_iff.1 he) hd
    | sql t vs => exact absurd (String.toList_eq_nil_iff.1 he) hp.1
    | _ => rfl

end Query

/-! ## The placeholders of the text -/

theorem Dialect.mem_quoteBy {c : Char} {s : Settings} {name : String} (h : c ∈ (quoteBy s name).toList) :
    c = '"' ∨ c ∈ name.toList := by
  unfold quoteBy at h
  split at h
  · exact Name.mem_doubleQuoted h
  · exact Or.inr h

section Count

variable {n : DialectName} {s : Settings} {q : Query}

theorem count_text {p : Piece} (h : q.OwnPlaceholders s.tablePrefix) (hp : p.FromQuery s.tablePrefix q) :
    (p.text (n.dialect s)).count '?' = p.values.length := by
  cases p with
  | word t => exact List.count_eq_zero.2 (hp.not_mem (by decide))
  | name t =>
    -- quoting adds no question mark to those of the name, and the name has none
    rw [Piece.text, DialectName.quote_dialect]
    refine List.count_eq_zero.2 fun hm => ?_
    rcases Dialect.mem_quoteBy hm with hc | hm
    · cases hc
    · obtain ⟨u, hu, hc⟩ := hp _ hm
      rcases List.mem_cons.1 hu with rfl | hu
      · exact h.tablePrefix hc
      · exact h.names u hu hc
  | verbatim t => exact List.count_eq_zero.2 (h.verbatims t hp)
  | bound v =>
    rw [Piece.text, DialectName.placeholder_dialect]
    rfl
  | sql t vs => exact h.raws _ hp.2

theorem count_written {ps : List Piece} (h : q.OwnPlaceholders s.tablePrefix)
    (hp : ∀ p ∈ ps, p.FromQuery s.tablePrefix q) :
    (written (n.dialect s) ps).count '?' = (ps.flatMap Piece.values).length := by
  induction ps with
  | nil => rfl
  | cons p ps ih =>
    have first := count_text (n := n) h (hp p List.mem_cons_self)
    have rest := ih fun p hm => hp p (List.mem_cons_of_mem _ hm)
    rw [written_cons, List.count_append, List.flatMap_cons, List.length_append, first, rest]

theorem values_select (h : q.OwnPlaceholders s.tablePrefix) :
    (selectPieces (n.dialect s) n q).flatMap Piece.values = q.placed := by
  refine Query.values_selectPieces h.raws ?_
  rw [DialectName.placeholder_dialect]
  decide

/-- **A select has a placeholder for each value that is placed in it.** -/
theorem count_select (h : q.OwnPlaceholders s.tablePrefix) :
    ((n.dialect s).select q).toList.count '?' = q.placed.length := by
  have pieces : ∀ p ∈ selectPieces (n.dialect s) n q, p.FromQuery s.tablePrefix q :=
    fun p hp => fromQuery_of_mem_select hp
  rw [toList_select (n.follows_dialect s), Text.count_trimList (by decide), count_written h pieces,
    values_select h]

theorem Query.OwnPlaceholders.counted (h : q.OwnPlaceholders s.tablePrefix) :
    ({ q with aggregate := some .count } : Query).OwnPlaceholders s.tablePrefix := by
  refine ⟨h.tablePrefix, ?_, ?_, h.raws⟩
  · intro t ht
    by_cases hs : t = "*"
    · rw [hs]
      decide
    · refine h.names t ?_
      simp only [Query.names, Query.tests, Query.predicates, Aggregate.count, Option.map_some,
        Option.getD_some, List.mem_append, List.mem_cons, List.not_mem_nil, or_false] at ht ⊢
      tauto
  · intro t ht
    by_cases hs : t = "count"
    · rw [hs]
      decide
    · refine h.verbatims t ?_
      simp only [Query.verbatims, Query.tests, Query.predicates, Aggregate.count, Option.map_some,
        Option.toList_some, List.mem_append, List.mem_cons, List.not_mem_nil, or_false] at ht ⊢
      tauto

theorem count_column_exists : ((DialectName.generic.dialect s).column "exists").toList.count '?' = 0 := by
  show (Name.column (Name.segment (Dialect.quoteBy s)) "exists").toList.count '?' = 0
  cases hq : s.quoteIdentifiers with
  | true => rw [Dialect.quoteBy_of_true hq]; decide
  | false => rw [Dialect.quoteBy_of_false hq]; decide

theorem count_exists? (h : q.OwnPlaceholders s.tablePrefix) :
    ((n.dialect s).exists? q).toList.count '?' = q.placed.length := by
  cases n with
  | firebird => exact count_select (n := .firebird) h.counted
  | generic =>
    have select := count_select (n := .generic) h
    have label : ((DialectName.generic.dialect s).column "exists").toList.count '?' = 0 :=
      count_column_exists
    show ("select exists(" ++ (DialectName.generic.dialect s).select q ++ ") as " ++
      (DialectName.generic.dialect s).column "exists").toList.count '?' = q.placed.length
    simp only [String.toList_append, List.count_append, select, label]
    simp

end Count

/-- **The account of a statement.** In the text and among the values of a select, and of an existence
check, nothing differs but the two cases of the account: what cross joins bind has no placeholder, and a
raw expression among the values of a raw predicate leaves its placeholder without a value. So the two
numbers agree exactly when these cases are equally many. -/
theorem placeholders_eq_length_bindings_iff (n : DialectName) (s : Settings) (q : Query)
    (h : q.OwnPlaceholders s.tablePrefix) :
    ∀ st ∈ [(n.dialect s).selectStatement q, (n.dialect s).existsStatement q],
      st.placeholders + q.unwritten.length = st.bindings.length + q.unbound.length ∧
        (st.placeholders = st.bindings.length ↔ q.unwritten.length = q.unbound.length) := by
  intro st hst
  have values := q.length_placed
  have counted : st.placeholders = q.placed.length ∧ st.bindings = q.bindings := by
    rcases List.mem_cons.1 hst with rfl | hst
    · exact ⟨count_select h, rfl⟩
    · rw [List.mem_singleton.1 hst]
      exact ⟨count_exists? h, rfl⟩
  rw [counted.1, counted.2]
  constructor
  · exact values
  · omega

/-- A query with placeholders in a join, in a group and in a raw predicate. -/
theorem placeholders_eq_length_bindings_iff_of_nested :
    let q : Query :=
      { table := "users"
        joins := [{ table := "orders", conditions := [.test .and (.compare "kind" "=" (.int 1))] }]
        filters := [.group .and [.test .and (.raw "a = ? or b = ?" [.int 2, .null])]] }
    ∀ st ∈ [((DialectName.firebird).dialect {}).selectStatement q,
        ((DialectName.firebird).dialect {}).existsStatement q],
      st.placeholders + q.unwritten.length = st.bindings.length + q.unbound.length ∧
        (st.placeholders = st.bindings.length ↔ q.unwritten.length = q.unbound.length) :=
  placeholders_eq_length_bindings_iff .firebird {} _
    ⟨by decide, by decide, by decide, by decide⟩

/-- A condition of a cross join is bound but not written, so the statement has a value too many; a raw
expression among the values of a raw predicate leaves it with a value too few. -/
theorem placeholders_ne_length_bindings :
    (let q : Query :=
      { table := "t"
        joins := [{ kind := .cross, table := "u", conditions := [.test .and (.compare "a" "=" (.int 1))] }] }
    let st := (Dialect.firebird {}).selectStatement q
    q.OwnPlaceholders "" ∧ st = ⟨"select * from \"t\" cross join \"u\"", [.int 1]⟩ ∧
      st.placeholders ≠ st.bindings.length) ∧
    (let q : Query := { table := "t", filters := [.test .and (.raw "a = ?" [.raw "now()"])] }
    let st := (Dialect.firebird {}).selectStatement q
    q.OwnPlaceholders "" ∧ st = ⟨"select * from \"t\" where a = ?", []⟩ ∧
      st.placeholders ≠ st.bindings.length) := by
  refine ⟨⟨?_, ?_, ?_⟩, ⟨?_, ?_, ?_⟩⟩
  · exact ⟨by decide, by decide, by decide, by decide⟩
  · decide
  · decide
  · exact ⟨by decide, by decide, by decide, by decide⟩
  · decide
  · decide

end SqlGrammar
