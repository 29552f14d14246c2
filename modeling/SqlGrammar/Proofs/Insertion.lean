import Mathlib.Data.List.Basic
import SqlGrammar.Proofs.Masking

/-!
What an insert says of its records. The values to insert are a table of cells, a row for each record with the
value under each of its columns (`InsertValues.cells`).

1. The text of an insert has a tuple for each row of cells, with an entry for each cell; where there is no
   column, it takes the default values of one row instead (`sql_insertStatement`).
2. The bindings are the cells in row-major order, less the raw ones. So the binding of a cell is the one whose
   number is that of the placeholders before it (`getElem?_placeholdersBefore`).
3. As many rows are created as there are records, unless several records without columns share the default
   values of one row (`insertStatement_created_iff`, `created_of_records_without_columns`).
-/

namespace SqlGrammar

/-! ## Cells -/

/-- The values to insert as a table: a row for each record, with the value under each of the columns. -/
def InsertValues.cells (v : InsertValues) (columns : List String) : List (List Value) :=
  v.records.map fun r => columns.map fun c => (r.fields.lookup c).getD .null

/-- The number of placeholders before a cell, row by row. -/
def placeholdersBefore (cells : List (List Value)) (row place : Nat) : Nat :=
  ((cells.take row).flatten ++ (cells.getD row []).take place).countP fun v => !v.isRaw

theorem lookup_keys {fields : List (String × Value)} (h : (fields.map (·.1)).Nodup) :
    (fields.map (·.1)).map (fun c => (fields.lookup c).getD .null) = fields.map (·.2) := by
  induction fields with
  | nil => rfl
  | cons f rest ih =>
    obtain ⟨c, v⟩ := f
    obtain ⟨hc, hrest⟩ := List.nodup_cons.1 h
    have later : (rest.map (·.1)).map (fun k => (((c, v) :: rest).lookup k).getD .null) =
        (rest.map (·.1)).map fun k => (rest.lookup k).getD .null := by
      refine List.map_congr_left fun k hk => ?_
      -- the first column does not come again
      have other : (k == c) = false := beq_false_of_ne fun e => hc (e ▸ hk)
      rw [List.lookup_cons, other]
    have first : ((c, v) :: rest).lookup c = some v := List.lookup_cons_self
    rw [List.map_cons, List.map_cons, List.map_cons, later, ih hrest, first]
    rfl

section Cells

variable {v : InsertValues} {columns : List String}

theorem cells_eq_values (h : ∀ r ∈ v.records, r.columns = columns) :
    v.cells columns = v.records.map Record.values := by
  refine List.map_congr_left fun r hr => ?_
  rw [← h r hr]
  exact lookup_keys r.nodup

theorem length_of_mem_cells {row : List Value} (h : row ∈ v.cells columns) : row.length = columns.length := by
  obtain ⟨r, -, rfl⟩ := List.mem_map.1 h
  exact List.length_map _

theorem flatten_cells (h : ∀ r ∈ v.records, r.columns = columns) : (v.cells columns).flatten = v.flatten := by
  rw [cells_eq_values h, InsertValues.flatten, List.flatMap_def]

theorem exists_cell (h : ∀ r ∈ v.records, r.columns = columns) {i j : Nat} (hi : i < v.records.length)
    (hj : j < columns.length) :
    ∃ value, ((v.cells columns)[i]?.bind fun row => row[j]?) = some value ∧
      (columns[j], value) ∈ v.records[i].fields := by
  have shape := h v.records[i] (List.getElem_mem hi)
  have bound : j < v.records[i].fields.length := by
    have columns : v.records[i].columns.length = columns.length := congrArg List.length shape
    rw [Record.columns, List.length_map] at columns
    omega
  have column : columns[j] = v.records[i].fields[j].1 := by
    simp only [← shape, Record.columns, List.getElem_map]
  refine ⟨v.records[i].fields[j].2, ?_, ?_⟩
  · rw [cells_eq_values h, List.getElem?_map, List.getElem?_eq_getElem hi]
    show v.records[i].values[j]? = _
    rw [Record.values, List.getElem?_map, List.getElem?_eq_getElem bound]
    rfl
  · rw [column]
    exact List.getElem_mem bound

end Cells

/-- **The binding of a cell is the one whose number is that of the placeholders before it.** -/
theorem getElem?_placeholdersBefore {cells : List (List Value)} {i j : Nat} {value : Value}
    (h : (cells[i]?.bind fun row => row[j]?) = some value) (hv : value.isRaw = false) :
    (cleanBindings cells.flatten)[placeholdersBefore cells i j]? = some value := by
  obtain ⟨row, hrow, hvalue⟩ := Option.bind_eq_some_iff.1 h
  obtain ⟨hi, rfl⟩ := List.getElem?_eq_some_iff.1 hrow
  obtain ⟨hj, rfl⟩ := List.getElem?_eq_some_iff.1 hvalue
  -- the cells before this one, the cell, and the cells after it
  have rows : cells = cells.take i ++ cells[i] :: cells.drop (i + 1) := by
    rw [List.getElem_cons_drop, List.take_append_drop]
  have places : cells[i] = cells[i].take j ++ cells[i][j] :: cells[i].drop (j + 1) := by
    rw [List.getElem_cons_drop, List.take_append_drop]
  have split : cells.flatten = ((cells.take i).flatten ++ cells[i].take j) ++
      cells[i][j] :: (cells[i].drop (j + 1) ++ (cells.drop (i + 1)).flatten) := by
    conv_lhs => rw [rows, List.flatten_append, List.flatten_cons]
    conv_lhs => rw [places]
    simp only [List.append_assoc, List.cons_append]
  have row : cells.getD i [] = cells[i] := by simp [hi]
  have own : cleanBindings (cells[i][j] :: (cells[i].drop (j + 1) ++ (cells.drop (i + 1)).flatten)) =
      cells[i][j] :: cleanBindings (cells[i].drop (j + 1) ++ (cells.drop (i + 1)).flatten) := by
    rw [cleanBindings, List.filter_cons_of_pos (by simp [hv])]
    rfl
  have before : placeholdersBefore cells i j =
      (cleanBindings ((cells.take i).flatten ++ cells[i].take j)).length := by
    rw [placeholdersBefore, row, List.countP_eq_length_filter, cleanBindings]
  rw [split, cleanBindings_append, own, before, List.getElem?_append_right (Nat.le_refl _), Nat.sub_self]
  rfl

/-! ## The text of an insert -/

/-- What an insert writes for a value: a raw expression itself, a placeholder for any other value. -/
def Dialect.entry (d : Dialect) : Value → String
  | .raw sql => sql
  | _ => d.placeholder

/-- The two forms of an insert: default values, or columns with a tuple of values for each row. -/
inductive InsertForm
  | defaults
  | tuples (columns : List String) (rows : List (List Value))

namespace InsertForm

def text (d : Dialect) (table : String) : InsertForm → String
  | defaults => "insert into " ++ d.table table ++ " default values"
  | tuples columns rows =>
    "insert into " ++ d.table table ++ " (" ++ d.columnList columns ++ ") values " ++
      commaList (rows.map fun row => "(" ++ commaList (row.map d.entry) ++ ")")

/-- How many rows a form creates: default values are those of one row. -/
def created : InsertForm → Nat
  | defaults => 1
  | tuples _ rows => rows.length

theorem append_parenthesis_ne (start rest : String) :
    start ++ " (" ++ rest ≠ start ++ " default values" := by
  intro h
  have texts := congrArg String.toList h
  rw [String.toList_append, String.toList_append, String.toList_append, List.append_assoc] at texts
  have tails : ' ' :: '(' :: _ = ' ' :: 'd' :: _ := List.append_cancel_left texts
  exact absurd (List.cons.inj (List.cons.inj tails).2).1 (by decide)

theorem eq_defaults {d : Dialect} {table : String} {form : InsertForm}
    (h : form.text d table = defaults.text d table) : form = defaults := by
  cases form with
  | defaults => rfl
  | tuples columns rows =>
    let start := "insert into " ++ d.table table
    let values := commaList (rows.map fun row => "(" ++ commaList (row.map d.entry) ++ ")")
    have texts : start ++ " (" ++ d.columnList columns ++ ") values " ++ values =
        start ++ " default values" := h
    rw [String.append_assoc, String.append_assoc] at texts
    exact absurd texts (append_parenthesis_ne start _)

end InsertForm

section Text

variable {d : Dialect} (hd : d.Standard) {v : InsertValues} {columns : List String}

include hd

theorem Dialect.Standard.parameters_eq (vs : List Value) : d.parameters vs = commaList (vs.map d.entry) := by
  obtain ⟨n, h⟩ := hd.exists_follows
  have parameter : d.parameter = d.entry := by
    funext v
    rw [h.parameter]
    rfl
  rw [h.parameters, parameter]

/-- **The text of an insert** has a tuple for each record, or takes the default values of one row where there
is no column. -/
theorem sql_insertStatement (q : Query) (hv : v.records ≠ [])
    (h : ∀ r ∈ v.records, r.columns = columns) :
    (d.insertStatement q v).sql =
      (if columns = [] then InsertForm.defaults else .tuples columns (v.cells columns)).text d q.table := by
  obtain ⟨first, rest, records⟩ := List.exists_cons_of_ne_nil hv
  have shape : first.columns = columns := h first (records ▸ List.mem_cons_self)
  show d.insert q v = _
  rw [hd.insert_eq]
  by_cases hc : columns = []
  · have empty : v.isEmpty = true := by
      refine List.all_eq_true.2 fun r hr => ?_
      have none : r.fields.map (·.1) = [] := (h r hr).trans hc
      rw [Record.isEmpty, List.map_eq_nil_iff.1 none]
      rfl
    rw [insertText, empty, if_pos hc]
    rfl
  · have full : v.isEmpty = false := by
      rw [InsertValues.isEmpty, records, List.all_cons]
      have some : first.fields ≠ [] := fun e => hc (by rw [← shape, Record.columns, e]; rfl)
      rw [Record.isEmpty, List.isEmpty_eq_false_iff.2 some]
      rfl
    have tuples : (first :: rest).map (fun r => "(" ++ d.parameters r.values ++ ")") =
        (v.cells columns).map fun row => "(" ++ commaList (row.map d.entry) ++ ")" := by
      rw [cells_eq_values h, records, List.map_map]
      exact List.map_congr_left fun r _ => by rw [hd.parameters_eq]; rfl
    rw [if_neg hc, insertText, full, records]
    show "insert into " ++ d.table q.table ++ " (" ++ d.columnList first.columns ++ ") values " ++
      commaList ((first :: rest).map fun r => "(" ++ d.parameters r.values ++ ")") = _
    rw [tuples, shape]
    rfl

theorem insertStatement_single (q : Query) (r : Record) :
    d.insertStatement q (.single r) = d.insertStatement q (.batch [r]) := by
  rw [Dialect.insertStatement, Dialect.insertStatement, hd.insert_eq]
  rfl

/-- **Every value is inserted under its own column.** -/
theorem insertStatement_cells (q : Query) (hc : columns ≠ []) (hv : v.records ≠ [])
    (h : ∀ r ∈ v.records, r.columns = columns) :
    let st := d.insertStatement q v
    let cells := v.cells columns
    st.sql = "insert into " ++ d.table q.table ++ " (" ++ d.columnList columns ++ ") values " ++
      commaList (cells.map fun row => "(" ++ commaList (row.map d.entry) ++ ")") ∧
    cells.length = v.records.length ∧ (∀ row ∈ cells, row.length = columns.length) ∧
    (∀ i j, (hi : i < v.records.length) → (hj : j < columns.length) →
      ∃ value, (cells[i]?.bind fun row => row[j]?) = some value ∧
        (columns[j], value) ∈ v.records[i].fields ∧
        (value.isRaw = false → st.bindings[placeholdersBefore cells i j]? = some value)) ∧
    st.bindings.length = cells.flatten.countP (fun value => !value.isRaw) ∧
    (∀ r, d.insertStatement q (.single r) = d.insertStatement q (.batch [r])) ∧
    ∀ settings column, let firebird := Dialect.firebird settings
      firebird.insertReturningStatement q v (some column) =
        .ok ⟨(firebird.insertStatement q v).sql ++ " returning " ++ column,
          (firebird.insertStatement q v).bindings⟩ := by
  intro st cells
  have bindings : st.bindings = cleanBindings cells.flatten := by
    rw [flatten_cells h]
    rfl
  have sql := sql_insertStatement hd q hv h
  rw [if_neg hc] at sql
  refine ⟨sql, List.length_map _, fun row => length_of_mem_cells, fun i j hi hj => ?_, ?_,
    insertStatement_single hd q, fun settings column => rfl⟩
  · obtain ⟨value, place, own⟩ := exists_cell h hi hj
    refine ⟨value, place, own, fun bound => ?_⟩
    rw [bindings]
    exact getElem?_placeholdersBefore place bound
  · rw [bindings, cleanBindings, List.countP_eq_length_filter]

end Text

/-- Two records in Firebird, with raw expressions in different columns. -/
theorem insertStatement_cells_of_raw :
    let d := Dialect.firebird {}
    let v : InsertValues := .batch
      [⟨[("u.id", .raw "gen_id(g, 1)"), ("name", .string "Ann"), ("at", .null)], by simp⟩,
        ⟨[("u.id", .int 7), ("name", .raw "?"), ("at", .string "?")], by simp⟩]
    let st := d.insertStatement { table := "users" } v
    let cells := v.cells ["u.id", "name", "at"]
    st.sql = "insert into \"users\" (\"u\".\"id\", \"name\", \"at\") " ++
      "values (gen_id(g, 1), ?, ?), (?, ?, ?)" ∧
    st.bindings = [.string "Ann", .null, .int 7, .string "?"] ∧
    cells.length = 2 ∧ placeholdersBefore cells 1 2 = 3 ∧
    st.bindings.length = cells.flatten.countP (fun value => !value.isRaw) := by
  intro d v st cells
  have columns : ∀ r ∈ v.records, r.columns = ["u.id", "name", "at"] := by decide
  obtain ⟨-, rows, -, -, total, -⟩ :=
    insertStatement_cells (.firebird {}) { table := "users" } (by decide) (by decide) columns
  exact ⟨by decide, by decide, rows, by decide, total⟩

section Rows

variable {d : Dialect} (hd : d.Standard) {v : InsertValues} {columns : List String}

include hd

/-- **As many rows are created as there are records**, unless several records without columns share one row
of default values. -/
theorem insertStatement_created_iff (q : Query) (hv : v.records ≠ [])
    (h : ∀ r ∈ v.records, r.columns = columns) :
    let st := d.insertStatement q v
    st.sql = (if columns = [] then InsertForm.defaults else .tuples columns (v.cells columns)).text d q.table ∧
    ((∃ form : InsertForm, form.text d q.table = st.sql ∧ form.created = v.records.length) ↔
      columns ≠ [] ∨ v.records.length = 1) := by
  intro st
  have sql := sql_insertStatement hd q hv h
  refine ⟨sql, ⟨?_, ?_⟩⟩
  · rintro ⟨form, text, created⟩
    by_cases hc : columns = []
    · rw [sql, if_pos hc] at text
      rw [InsertForm.eq_defaults text] at created
      exact Or.inr created.symm
    · exact Or.inl hc
  · intro counted
    refine ⟨_, sql.symm, ?_⟩
    by_cases hc : columns = []
    · rw [if_pos hc]
      exact (counted.resolve_left (not_not_intro hc)).symm
    · rw [if_neg hc]
      exact List.length_map _

end Rows

/-- One record without columns creates one row, and two records with a column create two. -/
theorem insertStatement_created_iff_of_empty :
    let d := Dialect.firebird {}
    let q : Query := { table := "t" }
    let v : InsertValues := .single .empty
    let w : InsertValues := .batch [⟨[("a", .int 1)], by simp⟩, ⟨[("a", .raw "now()")], by simp⟩]
    (d.insertStatement q v).sql = "insert into \"t\" default values" ∧
    (∃ form : InsertForm, form.text d q.table = (d.insertStatement q v).sql ∧ form.created = 1) ∧
    (d.insertStatement q w).sql = "insert into \"t\" (\"a\") values (?), (now())" ∧
    ∃ form : InsertForm, form.text d q.table = (d.insertStatement q w).sql ∧ form.created = 2 := by
  intro d q v w
  have empty : ∀ r ∈ v.records, r.columns = [] := by decide
  have columns : ∀ r ∈ w.records, r.columns = ["a"] := by decide
  obtain ⟨-, one⟩ := insertStatement_created_iff (.firebird {}) q (by decide) empty
  obtain ⟨-, two⟩ := insertStatement_created_iff (.firebird {}) q (by decide) columns
  exact ⟨by decide, one.2 (Or.inr rfl), by decide, two.2 (Or.inl (by decide))⟩

/-- Two records without columns create one row only. -/
theorem created_of_records_without_columns :
    let d := Dialect.firebird {}
    let q : Query := { table := "t" }
    let v : InsertValues := .batch [.empty, .empty]
    let st := d.insertStatement q v
    v.records.length = 2 ∧ (∀ r ∈ v.records, r.columns = []) ∧
    st.sql = "insert into \"t\" default values" ∧ InsertForm.defaults.text d q.table = st.sql ∧
    ¬ ∃ form : InsertForm, form.text d q.table = st.sql ∧ form.created = v.records.length := by
  intro d q v st
  have defaults : InsertForm.defaults.text d q.table = st.sql := by decide
  refine ⟨rfl, by decide, by decide, defaults, ?_⟩
  rintro ⟨form, text, created⟩
  rw [InsertForm.eq_defaults (text.trans defaults.symm)] at created
  cases created

end SqlGrammar
