import SqlGrammar.Proofs.Mapping
import SqlGrammar.Proofs.Placeholder

/-!
A statement with its values written in. `fill` replaces the question marks of a text, the i-th by the
i-th of the given texts, all at once. Filling a statement with its own values gives the text of the
query whose values are raw expressions (`Query.filled`): so the values stand in the order of their
placeholders, through joins, groups, lists and raw predicates.

The proof compares the two statements piece by piece. Two things could go wrong at the ends of a text.
A fragment could become empty, or a value could be cut by the trim; neither happens, because the text of
a bound value is not empty and has no blank at its ends (`Text.Solid`).
-/

namespace SqlGrammar

open CommandLine (DialectName)

/-! ## Filling a text -/

/-- The text with its question marks replaced, the i-th by the i-th of the given texts. -/
def fill : List Char → List (List Char) → List Char
  | [], _ => []
  | c :: r, ts =>
    if c = '?' then
      match ts with
      | [] => c :: fill r []
      | t :: ts => t ++ fill r ts
    else c :: fill r ts

theorem fill_of_count_eq_zero {s : List Char} (h : s.count '?' = 0) (ts : List (List Char)) :
    fill s ts = s := by
  induction s with
  | nil => rfl
  | cons c r ih =>
    have hc : c ≠ '?' := by
      rintro rfl
      simp at h
    have rest := ih (by rwa [List.count_cons_of_ne hc] at h)
    simp [fill, hc, rest]

/-- Texts are filled one after another, each with as many texts as it has question marks. -/
theorem fill_append {s : List Char} {us : List (List Char)} (h : us.length = s.count '?')
    (t : List Char) (vs : List (List Char)) : fill (s ++ t) (us ++ vs) = fill s us ++ fill t vs := by
  induction s generalizing us with
  | nil =>
    rw [List.length_eq_zero_iff.1 h]
    rfl
  | cons c r ih =>
    by_cases hc : c = '?'
    · subst hc
      rw [List.count_cons_self] at h
      cases us with
      | nil => simp at h
      | cons u us =>
        have matched : us.length = r.count '?' := by simpa using h
        have rest := ih matched
        simp [fill, rest]
    · rw [List.count_cons_of_ne hc] at h
      simp [fill, hc, ih h]

theorem fill_between {a m b : List Char} {ts : List (List Char)} (ha : a.count '?' = 0)
    (hm : ts.length = m.count '?') (hb : b.count '?' = 0) :
    fill (a ++ m ++ b) ts = a ++ fill m ts ++ b := by
  have none : ([] : List (List Char)).length = a.count '?' := ha.symm
  have left := fill_append none (m ++ b) ts
  have right := fill_append hm b []
  rw [List.append_nil] at right
  rw [List.append_assoc, ← List.nil_append ts, left, List.nil_append, right, fill_of_count_eq_zero ha,
    fill_of_count_eq_zero hb, List.append_assoc]

theorem fill_eq_nil_iff {s : List Char} {ts : List (List Char)} (h : ts.length = s.count '?')
    (ht : ∀ t ∈ ts, t ≠ []) : fill s ts = [] ↔ s = [] := by
  cases s with
  | nil => simp [fill]
  | cons c r =>
    by_cases hc : c = '?'
    · subst hc
      cases ts with
      | nil => simp at h
      | cons t ts =>
        have := ht t List.mem_cons_self
        simp [fill, this]
    · simp [fill, hc]

/-! ## Blanks at the ends -/

/-- A text with something in it and no blank at its ends. -/
def Text.Solid (t : List Char) : Prop := t ≠ [] ∧ Trimmed t

theorem Text.solid_of_all {t : List Char} (hne : t ≠ []) (h : (t.all fun c => !isBlank c) = true) :
    Solid t := ⟨hne, trimmed_of_all h⟩

theorem trimmed_fill {s : List Char} {ts : List (List Char)} (h : ts.length = s.count '?')
    (ht : ∀ t ∈ ts, Text.Solid t) (hs : Text.Trimmed s) : Text.Trimmed (fill s ts) := by
  constructor
  · intro x hx
    cases s with
    | nil => simp [fill] at hx
    | cons c r =>
      -- a question mark at the start makes room for the start of the first text
      by_cases hc : c = '?'
      · subst hc
        cases ts with
        | nil => simp at h
        | cons t ts =>
          obtain ⟨hne, trimmed⟩ := ht t List.mem_cons_self
          refine trimmed.1 x ?_
          simpa [fill, List.head?_append, List.head?_eq_some_head hne] using hx
      · refine hs.1 x ?_
        simpa [fill, hc] using hx
  · intro x hx
    rcases List.eq_nil_or_concat s with rfl | ⟨r, c, rfl⟩
    · simp [fill] at hx
    · rw [List.concat_eq_append] at h hs hx
      -- the last character has its own text, if any: the last of all
      have hlen : (ts.take (r.count '?')).length = r.count '?' := by
        rw [List.length_take, h, List.count_append]
        omega
      have cut := fill_append hlen [c] (ts.drop (r.count '?'))
      rw [List.take_append_drop] at cut
      rw [cut, List.getLast?_append] at hx
      by_cases hc : c = '?'
      · subst hc
        have hdrop : (ts.drop (r.count '?')).length = 1 := by
          rw [List.length_drop, h, List.count_append]
          simp
        obtain ⟨t, hd⟩ := List.length_eq_one_iff.1 hdrop
        obtain ⟨hne, trimmed⟩ := ht t (List.mem_of_mem_drop (hd ▸ List.mem_singleton_self t))
        refine trimmed.2 x ?_
        simpa [hd, fill, List.getLast?_eq_some_getLast hne] using hx
      · refine hs.2 x ?_
        simpa [fill, hc] using hx

/-- Trimming and filling go in any order. -/
theorem trimList_fill {s : List Char} {ts : List (List Char)} (h : ts.length = s.count '?')
    (ht : ∀ t ∈ ts, Text.Solid t) : Text.trimList (fill s ts) = fill (Text.trimList s) ts := by
  obtain ⟨a, b, hs, ha, hb⟩ := Text.exists_trimList s
  have none {r : List Char} (hr : ∀ c ∈ r, Text.isBlank c = true) : r.count '?' = 0 := by
    rw [List.count_eq_zero]
    intro hm
    have := hr _ hm
    revert this
    decide
  have inner : ts.length = (Text.trimList s).count '?' := by
    rw [h, Text.count_trimList (by decide)]
  have filled := fill_between (none ha) inner (none hb)
  rw [← hs] at filled
  rw [filled, Text.trimList_eq ha hb (trimmed_fill inner ht (Text.trimmed_trimList s))]

/-! ## The text of a value -/

theorem Text.solid_quoted (r : List Char) : Solid (['\''] ++ r ++ ['\'']) := by
  refine ⟨by simp, fun c hc => ?_, fun c hc => ?_⟩
  · cases hc
    decide
  · rw [List.getLast?_concat] at hc
    cases hc
    decide

theorem Text.solid_natural (n : Nat) : Solid (natural n).toList := by
  refine solid_of_all ?_ ?_
  · rw [toList_natural]
    exact Nat.toDigits_ne_nil
  · rw [List.all_eq_true]
    intro c hc
    rw [toList_natural] at hc
    rw [isBlank_of_isDigit (Nat.isDigit_of_mem_toDigits (by decide) (by decide) hc)]
    rfl

theorem Text.Solid.minus {t : List Char} (h : Solid t) : Solid ('-' :: t) := by
  obtain ⟨hne, trimmed⟩ := h
  refine ⟨by simp, fun c hc => ?_, fun c hc => trimmed.2 c ?_⟩
  · cases hc
    decide
  · simpa [List.getLast?_cons, List.getLast?_eq_some_getLast hne] using hc

theorem Layout.solid_plain {digits : List Char} (hne : digits ≠ []) (h : ∀ c ∈ digits, c.isDigit)
    (p : Int) : Text.Solid (plain "" digits p).toList := by
  have chars : ∀ c ∈ (plain "" digits p).toList, c.isDigit ∨ c = '.' := by
    intro c hc
    unfold plain at hc
    split at hc
    · simp only [String.toList_append, String.toList_ofList, List.mem_append, List.mem_replicate] at hc
      rcases hc with hc | ⟨-, rfl⟩ | hc
      · have : c = '0' ∨ c = '.' := by simpa using hc
        rcases this with rfl | rfl
        · exact Or.inl (by decide)
        · exact Or.inr rfl
      · exact Or.inl (by decide)
      · exact Or.inl (h c hc)
    · split at hc
      · simp only [String.toList_append, String.toList_ofList, List.mem_append, List.mem_replicate] at hc
        rcases hc with (hc | ⟨-, rfl⟩) | hc
        · exact Or.inl (h c hc)
        · exact Or.inl (by decide)
        · simp at hc
      · simp only [String.toList_ofList, List.mem_append, List.mem_cons] at hc
        rcases hc with hc | rfl | hc
        · exact Or.inl (h c (List.mem_of_mem_take hc))
        · exact Or.inr rfl
        · exact Or.inl (h c (List.mem_of_mem_drop hc))
  refine Text.solid_of_all ?_ (List.all_eq_true.2 fun c hc => ?_)
  · unfold plain
    split
    · simp
    · split
      · simp [hne]
      · simp
  · rcases chars c hc with hd | rfl
    · rw [Text.isBlank_of_isDigit hd]
      rfl
    · decide

theorem Double.solid_text (d : Double) : Text.Solid (d.text Value.floatLayout).toList := by
  have decimal (e : Decimal) : Text.Solid (Value.floatLayout.decimal e).toList := by
    refine Layout.solid_plain ?_ (fun c hc => ?_) _
    · exact (Text.solid_natural _).1
    · rw [Text.toList_natural] at hc
      exact Nat.isDigit_of_mem_toDigits (by decide) (by decide) hc
  have magnitude : Text.Solid (if !d.isFinite then Value.floatLayout.infinity
      else if d.mantissa = 0 then "0" ++ Value.floatLayout.whole
      else Value.floatLayout.decimal (d.shortest Value.floatLayout.tie)).toList := by
    split
    · exact Text.solid_of_all (by decide) (by decide)
    · split
      · exact Text.solid_of_all (by decide) (by decide)
      · exact decimal _
  unfold Double.text
  split
  · exact Text.solid_of_all (by decide) (by decide)
  · dsimp only
    split
    · rw [String.toList_append]
      exact magnitude.minus
    · exact magnitude

theorem Value.solid_display {v : Value} (h : v.isRaw = false) : Text.Solid v.display.toList := by
  cases v with
  | null => exact Text.solid_of_all (by decide) (by decide)
  | bool b => cases b <;> exact Text.solid_of_all (by decide) (by decide)
  | int n =>
    rw [display]
    cases n.toInt with
    | ofNat k => exact Text.solid_natural k
    | negSucc k =>
      rw [Text.integer, String.toList_append]
      exact (Text.solid_natural _).minus
  | float d => exact d.solid_text
  | string s =>
    rw [display, quoted, String.toList_ofList]
    exact Text.solid_quoted _
  | date d =>
    rw [display, String.toList_append, String.toList_append]
    exact Text.solid_quoted _
  | timestamp t =>
    rw [display, String.toList_append, String.toList_append]
    exact Text.solid_quoted _
  | raw sql => cases h

/-! ## Filling a query -/

/-- The text with its question marks replaced by values, the i-th by the i-th. -/
def fillText (sql : String) (values : List Value) : String :=
  String.ofList (fill sql.toList (values.map fun v => v.display.toList))

def Statement.filled (st : Statement) : String := fillText st.sql st.bindings

/-- The value as a raw expression; a raw expression stays as it is. -/
def Value.inlined (v : Value) : Value := .raw v.display

def Test.filled : Test → Test
  | compare column operator v => compare column operator v.inlined
  | columns first operator second => columns first operator second
  | oneOf column vs negated => oneOf column (vs.map Value.inlined) negated
  | isNull column negated => isNull column negated
  | between column low high negated => between column low.inlined high.inlined negated
  | raw sql vs => raw (fillText sql vs) []

def Query.filled (q : Query) : Query := q.mapTexts id id Test.filled

def Piece.filled : Piece → Piece
  | bound v => verbatim v.display
  | sql t vs => sql (fillText t vs) []
  | p => p

theorem filled_valuePiece (v : Value) : valuePiece v.inlined = (valuePiece v).filled := by
  cases v <;> rfl

theorem bound_of_unbound {sql : String} {vs : List Value} (h : (Test.raw sql vs).unbound = []) :
    ∀ v ∈ vs, v.isRaw = false := by
  intro v hv
  have := List.filter_eq_nil_iff.1 h v hv
  simpa using this

theorem fillText_eq_empty_iff {sql : String} {vs : List Value} (hm : (Test.raw sql vs).Matched)
    (hu : (Test.raw sql vs).unbound = []) : fillText sql vs = "" ↔ sql = "" := by
  have solid : ∀ t ∈ vs.map fun v => v.display.toList, t ≠ [] := by
    intro t ht
    obtain ⟨v, hv, rfl⟩ := List.mem_map.1 ht
    exact (Value.solid_display (bound_of_unbound hu v hv)).1
  have matched : (vs.map fun v => v.display.toList).length = sql.toList.count '?' := by
    rw [List.length_map]
    exact hm.symm
  rw [fillText, ← String.toList_eq_nil_iff, String.toList_ofList, fill_eq_nil_iff matched solid,
    String.toList_eq_nil_iff]

theorem testPieces_filled {t : Test} (hm : t.Matched) (hu : t.unbound = []) :
    testPieces t.filled = (testPieces t).map Piece.filled := by
  have column (s : String) : (columnPieces s).map Piece.filled = columnPieces s :=
    columnPieces_fixed (fun _ => rfl) (fun _ => rfl) s
  cases t with
  | compare c operator v => simp [Test.filled, testPieces, column, filled_valuePiece, Piece.filled]
  | columns first operator second => simp [Test.filled, testPieces, column, Piece.filled]
  | oneOf c vs negated =>
    cases vs with
    | nil => rfl
    | cons v vs =>
      have all := valuePieces_map (fun _ => rfl) filled_valuePiece (v :: vs)
      simp only [List.map_cons, List.map_map] at all
      simp [Test.filled, testPieces, column, all, Piece.filled]
  | isNull c negated => simp [Test.filled, testPieces, column, Piece.filled]
  | between c low high negated =>
    simp [Test.filled, testPieces, column, filled_valuePiece, Piece.filled]
  | raw sql vs =>
    have empty := fillText_eq_empty_iff hm hu
    simp only [Test.filled, testPieces, empty]
    split
    · rfl
    · rfl

theorem Test.placed_eq_cleanBindings {t : Test} (h : t.unbound = []) :
    t.placed = cleanBindings t.bindings := by
  cases t with
  | raw sql vs =>
    have bound := bound_of_unbound h
    refine (List.filter_eq_self.2 fun v hv => ?_).symm
    rw [bound v hv]
    rfl
  | _ => rfl

theorem Query.placed_of_printed {q : Query} (hr : ∀ t ∈ q.tests, t.unbound = []) :
    ∀ t ∈ Predicate.listTests q.printed, t.placed = cleanBindings t.bindings :=
  fun t ht => Test.placed_eq_cleanBindings (hr t (Predicate.listTests_subset q.printed_subset ht))

theorem Query.bound_of_mem_placed {q : Query} (hr : ∀ t ∈ q.tests, t.unbound = []) {v : Value}
    (hv : v ∈ q.placed) : v.isRaw = false := by
  obtain ⟨t, ht, hv⟩ := List.mem_flatMap.1 hv
  rw [placed_of_printed hr t ht] at hv
  have := (List.mem_filter.1 hv).2
  simpa using this

/-- Where nothing is left over, the values bound are those with a placeholder, in the same order. -/
theorem Query.bindings_eq_placed {q : Query} (hu : q.unwritten = [])
    (hr : ∀ t ∈ q.tests, t.unbound = []) : q.bindings = q.placed := by
  have joins : ∀ js : List Join,
      cleanBindings ((js.filter fun j => j.kind = .cross).flatMap fun j =>
        Predicate.listBindings j.conditions) = [] →
      cleanBindings (Predicate.listBindings (js.flatMap Join.conditions)) =
        cleanBindings (Predicate.listBindings (js.flatMap Join.printed)) := by
    intro js
    simp only [Predicate.listBindings_eq_flatMap]
    induction js with
    | nil => exact fun _ => rfl
    | cons j js ih =>
      intro hjs
      -- a cross join is not written, and by assumption it binds nothing either
      by_cases hc : j.kind = .cross
      · simp only [List.filter_cons, hc, decide_true, if_true, List.flatMap_cons, cleanBindings_append,
          List.append_eq_nil_iff] at hjs
        simp only [List.flatMap_cons, List.flatMap_append, cleanBindings_append, Join.printed, hc, if_true,
          hjs.1, ih hjs.2]
        rfl
      · simp only [List.filter_cons, hc, decide_false, Bool.false_eq_true, if_false] at hjs
        simp only [List.flatMap_cons, List.flatMap_append, cleanBindings_append, Join.printed, hc, if_false,
          ih hjs]
  calc q.bindings = cleanBindings (Predicate.listBindings q.printed) := by
        simp only [bindings, predicates, printed, List.flatMap_append, cleanBindings_append,
          Predicate.listBindings_eq_flatMap] at joins ⊢
        rw [joins q.joins (by simpa [unwritten, Predicate.listBindings_eq_flatMap] using hu)]
    _ = cleanBindings ((Predicate.listTests q.printed).flatMap Test.bindings) := by
        rw [Predicate.listBindings_eq_flatMap_tests]
    _ = q.placed := by
        rw [Query.placed, List.flatMap_congr (placed_of_printed hr)]
        induction Predicate.listTests q.printed with
        | nil => rfl
        | cons t ts ih => rw [List.flatMap_cons, List.flatMap_cons, cleanBindings_append, ih]

section Fill

variable {n : DialectName} {s : Settings} {q : Query}

theorem fill_written {ps : List Piece} (h : q.OwnPlaceholders s.tablePrefix)
    (hp : ∀ p ∈ ps, p.FromQuery s.tablePrefix q) :
    fill (written (n.dialect s) ps) ((ps.flatMap Piece.values).map fun v => v.display.toList) =
      written (n.dialect s) (ps.map Piece.filled) := by
  induction ps with
  | nil => rfl
  | cons p ps ih =>
    have count := count_text (n := n) h (hp p List.mem_cons_self)
    have rest := ih fun p hm => hp p (List.mem_cons_of_mem _ hm)
    have first : fill (p.text (n.dialect s)) (p.values.map fun v => v.display.toList) =
        p.filled.text (n.dialect s) := by
      cases p with
      | bound v => simp [Piece.text, Piece.filled, Piece.values, fill]
      | sql t vs => simp [Piece.text, Piece.filled, Piece.values, fillText]
      | _ => exact fill_of_count_eq_zero count _
    -- the first piece takes as many texts as it has placeholders, the others take the rest
    rw [written_cons, List.flatMap_cons, List.map_append, fill_append (by rw [List.length_map, count]),
      first, rest, List.map_cons, written_cons]

theorem piecewise_filled (h : q.OwnPlaceholders s.tablePrefix) (hr : ∀ t ∈ q.tests, t.unbound = []) :
    Piecewise Piece.filled (n.dialect s) (n.dialect s) id id Test.filled q where
  word _ := rfl
  verbatim _ := rfl
  column c := (columnPieces_fixed (fun _ => rfl) (fun _ => rfl) c).symm
  star := rfl
  table t := (tablePieces_fixed (fun _ => rfl) (fun _ => rfl) _ t).symm
  table_ne _ ht := ht
  test t ht := testPieces_filled (h.raws t ht) (hr t ht)
  all cs := by
    rw [columnListPieces_fixed (fun _ => rfl) (fun _ => rfl)]
  empty p hp := by
    cases p with
    | bound v =>
      have solid := Value.solid_display (v := v) hp
      simp [Piece.filled, Piece.text, solid.1]
    | sql t vs =>
      have empty := fillText_eq_empty_iff (h.raws _ hp.2) (hr _ hp.2)
      simp only [Piece.filled, Piece.text, String.toList_eq_nil_iff, empty]
    | _ => exact Iff.rfl

/-- **A select that is filled with its values is the select of the query with its values written in.** -/
theorem fillText_select (h : q.OwnPlaceholders s.tablePrefix) (hr : ∀ t ∈ q.tests, t.unbound = []) :
    fillText ((n.dialect s).select q) q.placed = (n.dialect s).select q.filled := by
  have pieces : ∀ p ∈ selectPieces (n.dialect s) n q, p.FromQuery s.tablePrefix q :=
    fun p hp => fromQuery_of_mem_select hp
  have placed := values_select (n := n) h
  have filled : selectPieces (n.dialect s) n q.filled =
      (selectPieces (n.dialect s) n q).map Piece.filled :=
    selectPieces_mapTexts (piecewise_filled h hr) n
  have matched : (q.placed.map fun v => v.display.toList).length =
      (written (n.dialect s) (selectPieces (n.dialect s) n q)).count '?' := by
    rw [List.length_map, count_written h pieces, placed]
  have solid : ∀ t ∈ q.placed.map fun v => v.display.toList, Text.Solid t := by
    intro t ht
    obtain ⟨v, hv, rfl⟩ := List.mem_map.1 ht
    exact Value.solid_display (Query.bound_of_mem_placed hr hv)
  rw [← String.toList_inj, toList_select (n.follows_dialect s), filled, ← fill_written h pieces, placed,
    trimList_fill matched solid, fillText, String.toList_ofList, toList_select (n.follows_dialect s)]

theorem fillText_exists? (h : q.OwnPlaceholders s.tablePrefix) (hr : ∀ t ∈ q.tests, t.unbound = []) :
    fillText ((n.dialect s).exists? q) q.placed = (n.dialect s).exists? q.filled := by
  cases n with
  | firebird => exact fillText_select (n := .firebird) h.counted hr
  | generic =>
    have select := fillText_select (n := .generic) h hr
    have count := count_select (n := .generic) h
    have label : ((DialectName.generic.dialect s).column "exists").toList.count '?' = 0 :=
      count_column_exists
    have matched : (q.placed.map fun v => v.display.toList).length =
        ((DialectName.generic.dialect s).select q).toList.count '?' := by
      rw [List.length_map, count]
    have closing : (") as " ++ (DialectName.generic.dialect s).column "exists").toList.count '?' = 0 := by
      rw [String.toList_append, List.count_append, label]
      rfl
    have whole := fill_between (a := "select exists(".toList) (by rfl) matched closing
    rw [← String.toList_inj, fillText, String.toList_ofList] at select
    show fillText ("select exists(" ++ (DialectName.generic.dialect s).select q ++ ") as " ++
      (DialectName.generic.dialect s).column "exists") q.placed =
        "select exists(" ++ (DialectName.generic.dialect s).select q.filled ++ ") as " ++
          (DialectName.generic.dialect s).column "exists"
    rw [select] at whole
    rw [← String.toList_inj, fillText, String.toList_ofList]
    simpa only [String.toList_append, List.append_assoc] using whole

end Fill

/-- **The i-th value belongs to the i-th placeholder.** A statement whose placeholders are replaced by
its own values, all at once and in order, is the statement of the query with its values written in; so
it is for a select and for an existence check. -/
theorem filled_statements (n : DialectName) (s : Settings) (q : Query)
    (h : q.OwnPlaceholders s.tablePrefix) (hr : ∀ t ∈ q.tests, t.unbound = []) (hu : q.unwritten = []) :
    ((n.dialect s).selectStatement q).filled = (n.dialect s).select q.filled ∧
      ((n.dialect s).existsStatement q).filled = (n.dialect s).exists? q.filled := by
  have bindings := Query.bindings_eq_placed hu hr
  constructor
  · rw [Statement.filled, Dialect.selectStatement, bindings]
    exact fillText_select h hr
  · rw [Statement.filled, Dialect.existsStatement, bindings]
    exact fillText_exists? h hr

/-- Values of a group, a list and a raw predicate, with a question mark and a blank in a value. -/
theorem filled_statements_of_nested :
    let q : Query :=
      { table := "users"
        filters := [.test .and (.oneOf "id" [.int 1, .raw "now()", .string "? "] false),
          .group .or [.test .and (.raw "a = ? or b = ?" [.int 2, .null])]] }
    (((DialectName.firebird.dialect {}).selectStatement q).filled =
        (DialectName.firebird.dialect {}).select q.filled ∧
      ((DialectName.firebird.dialect {}).existsStatement q).filled =
        (DialectName.firebird.dialect {}).exists? q.filled) ∧
    (DialectName.firebird.dialect {}).select q.filled =
      "select * from \"users\" where \"id\" in (1, now(), '? ') or (a = 2 or b = NULL)" := by
  intro q
  constructor
  · exact filled_statements .firebird {} q ⟨by decide, by decide, by decide, by decide⟩ (by decide)
      (by decide)
  · decide

end SqlGrammar
