import Mathlib.Data.List.Basic
import SqlGrammar.Proofs.Mapping

/-!
Bound values never reach the text of a statement. Masked, a query and the values of an insert keep their
raw expressions and forget all other values. A statement is written from the masked query alone
(`select_masked`, `insertText_masked`): the piece of a bound value has the placeholder for its text,
whichever value it is. So any two queries that agree when masked have the same text in every dialect, and
their bindings are the values at the same places (`Statement.Alike`).
-/

namespace SqlGrammar

open CommandLine (DialectName)

/-! ## Forgetting bound values -/

/-- The value with nothing said of it unless it is a raw expression. -/
def Value.masked (v : Value) : Value := if v.isRaw then v else .null

/-- The query without its bound values. Two queries agree when masked if they differ only in values that
are bound in both. -/
def Query.masked (q : Query) : Query := q.mapValues Value.masked

def Record.mapValues (f : Value → Value) (r : Record) : Record where
  fields := r.fields.map fun p => (p.1, f p.2)
  nodup := by
    rw [List.map_map]
    exact r.nodup

def InsertValues.masked : InsertValues → InsertValues
  | single r => single (r.mapValues Value.masked)
  | batch rs => batch (rs.map (Record.mapValues Value.masked))

def Piece.masked : Piece → Piece
  | bound v => bound v.masked
  | sql t vs => sql t (vs.map Value.masked)
  | p => p

@[simp] theorem Value.isRaw_masked (v : Value) : v.masked.isRaw = v.isRaw := by
  cases v <;> rfl

theorem Value.isRaw_of_masked_eq {v w : Value} (h : w.masked = v.masked) : w.isRaw = v.isRaw := by
  rw [← isRaw_masked w, h, isRaw_masked]

theorem masked_valuePiece (v : Value) : valuePiece v.masked = (valuePiece v).masked := by
  cases v <;> rfl

theorem text_masked (d : Dialect) (p : Piece) : p.masked.text d = p.text d := by
  cases p <;> rfl

/-! ## The text of a select -/

section Select

variable {d : Dialect} {n : DialectName}

theorem piecewise_masked (d : Dialect) (q : Query) :
    Piecewise Piece.masked d d id id (Test.mapValues Value.masked) q where
  word _ := rfl
  verbatim _ := rfl
  column c := (columnPieces_fixed (fun _ => rfl) (fun _ => rfl) c).symm
  star := rfl
  table t := (tablePieces_fixed (fun _ => rfl) (fun _ => rfl) _ t).symm
  table_ne _ ht := ht
  test t _ := testPieces_mapValues (fun _ => rfl) (fun _ => rfl) (fun _ => rfl) masked_valuePiece
    (fun _ _ => rfl) t
  all cs := by rw [columnListPieces_fixed (fun _ => rfl) (fun _ => rfl)]
  empty p _ := by rw [text_masked]

/-- **A select is written from the masked query.** -/
theorem select_masked (h : d.Follows n) (q : Query) : d.select q.masked = d.select q := by
  have pieces : selectPieces d n q.masked = (selectPieces d n q).map Piece.masked := by
    rw [Query.masked, Query.mapValues_eq_mapTexts]
    exact selectPieces_mapTexts (piecewise_masked d q) n
  have text (ps : List Piece) : written d (ps.map Piece.masked) = written d ps := by
    unfold written
    rw [List.flatMap_map]
    exact List.flatMap_congr fun p _ => text_masked d p
  rw [← String.toList_inj, toList_select h, toList_select h, pieces, text]

end Select

/-! ## The text of an insert -/

section Insert

theorem values_mapValues (f : Value → Value) (r : Record) : (r.mapValues f).values = r.values.map f := by
  unfold Record.mapValues Record.values
  simp

theorem records_masked (v : InsertValues) :
    v.masked.records = v.records.map (Record.mapValues Value.masked) := by
  cases v <;> rfl

theorem isEmpty_masked (v : InsertValues) : v.masked.isEmpty = v.isEmpty := by
  unfold InsertValues.isEmpty
  rw [records_masked, List.all_map]
  congr 1
  funext r
  simp [Record.mapValues, Record.isEmpty]

theorem columns_mapValues (f : Value → Value) (r : Record) : (r.mapValues f).columns = r.columns := by
  unfold Record.mapValues Record.columns
  simp

/-- **An insert is written from the masked values and the table**, if a list of parameters is. -/
theorem insertText_masked {parameters : List Value → String}
    (h : ∀ vs, parameters (vs.map Value.masked) = parameters vs) (table : String → String)
    (columnList : List String → String) {q q' : Query} (same : q'.table = q.table) (v : InsertValues) :
    insertText table columnList parameters q' v.masked = insertText table columnList parameters q v := by
  unfold insertText
  rw [isEmpty_masked, records_masked, same]
  cases v.records with
  | nil => rfl
  | cons first rest =>
    cases v.isEmpty
    · simp only [List.map_cons, List.map_map, columns_mapValues, values_mapValues, h, Function.comp_def]
    · rfl

end Insert

/-! ## All statements -/

/-- The mainstream dialect over any settings, any quotes and any placeholder. -/
def Dialect.mainstream (s : Settings) (quote : String → String) (placeholder : String) : Dialect :=
  { settings := s, quote := quote, placeholder := placeholder }

/-- The dialects: Firebird, and those that have only settings, quotes and placeholder of their own. -/
inductive Dialect.Standard : Dialect → Prop
  | firebird (s : Settings) : Standard (firebird s)
  | mainstream (s : Settings) (quote : String → String) (placeholder : String) :
    Standard (mainstream s quote placeholder)

theorem Dialect.standard_generic (s : Settings) : (Dialect.generic s).Standard :=
  .mainstream s (quoteBy s) "?"

section Statements

variable {d : Dialect}

theorem Dialect.Standard.exists_follows (hd : d.Standard) : ∃ n, d.Follows n := by
  cases hd with
  | firebird s => exact ⟨.firebird, DialectName.firebird.follows_dialect s⟩
  | mainstream s quote placeholder => exact ⟨.generic, Dialect.follows_generic s quote placeholder⟩

/-- Firebird counts the rows, which is a select; the mainstream writes the select in parentheses. -/
theorem exists?_masked (hd : d.Standard) (q : Query) : d.exists? q.masked = d.exists? q := by
  obtain ⟨n, h⟩ := hd.exists_follows
  have select := select_masked h
  cases hd with
  | firebird s => exact select { q with aggregate := some .count }
  | mainstream s quote placeholder =>
    exact congrArg (fun t => "select exists(" ++ t ++ ") as " ++
      (Dialect.mainstream s quote placeholder).column "exists") (select q)

theorem Dialect.Standard.insert_eq (hd : d.Standard) :
    d.insert = insertText d.table d.columnList d.parameters := by
  cases hd <;> rfl

theorem insert_masked (hd : d.Standard) {q q' : Query} (same : q'.table = q.table) (v : InsertValues) :
    d.insert q' v.masked = d.insert q v := by
  obtain ⟨n, h⟩ := hd.exists_follows
  have parameter (v : Value) : d.parameter v.masked = d.parameter v := by
    rw [h.parameter, h.parameter]
    cases v <;> rfl
  rw [hd.insert_eq]
  refine insertText_masked (fun vs => ?_) _ _ same v
  rw [h.parameters, h.parameters, List.map_map]
  exact congrArg commaList (List.map_congr_left fun v _ => parameter v)

theorem insertReturning_masked (hd : d.Standard) {q q' : Query} (same : q'.table = q.table)
    (v : InsertValues) (returned : Option String) :
    d.insertReturning q' v.masked returned = d.insertReturning q v returned := by
  have insert := insert_masked hd same v
  cases hd with
  | firebird s =>
    cases returned with
    | none => rfl
    | some column => exact congrArg (fun t => Except.ok (t ++ " returning " ++ column)) insert
  | mainstream s quote placeholder =>
    exact congrArg (fun t => Except.ok (t ++ " returning " ++
      (Dialect.mainstream s quote placeholder).column (returned.getD "id"))) insert

end Statements

/-! ## The values of a statement -/

/-- All values of the predicates of a query, raw expressions too, in the order of `Query.bindings`. -/
def Query.values (q : Query) : List Value := q.predicates.flatMap Predicate.bindings

/-- Two statements with one text, whose i-th values stand at one and the same place of two lists of
values of which they are the bound ones. -/
structure Statement.Alike (values values' : List Value) (st st' : Statement) : Prop where
  sql : st'.sql = st.sql
  places : values'.length = values.length
  length : st'.bindings.length = st.bindings.length
  bindings : st.bindings.zip st'.bindings = (values.zip values').filter fun p => !p.1.isRaw

theorem Test.bindings_mapValues (f : Value → Value) (t : Test) :
    (t.mapValues f).bindings = t.bindings.map f := by
  cases t <;> rfl

namespace Predicate

mutual

theorem bindings_mapTests (f : Value → Value) : ∀ p : Predicate,
    (p.mapTests (Test.mapValues f)).bindings = p.bindings.map f
  | test _ t => t.bindings_mapValues f
  | group _ ps => listBindings_mapListTests f ps

theorem listBindings_mapListTests (f : Value → Value) : ∀ ps : List Predicate,
    listBindings (mapListTests (Test.mapValues f) ps) = (listBindings ps).map f
  | [] => rfl
  | p :: ps => by
    rw [mapListTests, listBindings, listBindings, bindings_mapTests f p, listBindings_mapListTests f ps,
      List.map_append]

end

end Predicate

theorem Query.values_mapValues (f : Value → Value) (q : Query) : (q.mapValues f).values = q.values.map f := by
  have list (ps : List Predicate) :
      (Predicate.mapListTests (Test.mapValues f) ps).flatMap Predicate.bindings =
        (ps.flatMap Predicate.bindings).map f := by
    rw [← Predicate.listBindings_eq_flatMap, ← Predicate.listBindings_eq_flatMap,
      Predicate.listBindings_mapListTests]
  have joins : ((q.mapValues f).joins.flatMap Join.conditions).flatMap Predicate.bindings =
      ((q.joins.flatMap Join.conditions).flatMap Predicate.bindings).map f := by
    show ((q.joins.map _).flatMap _).flatMap _ = _
    rw [List.flatMap_map, List.flatMap_assoc, List.flatMap_assoc, List.map_flatMap]
    exact List.flatMap_congr fun j _ => list j.conditions
  unfold values predicates
  rw [List.flatMap_append, List.flatMap_append, joins]
  simp only [List.flatMap_append, List.map_append]
  exact congrArg₂ _ (congrArg _ (list q.filters)) (list q.havings)

theorem InsertValues.flatten_of_records {f : Value → Value} {v v' : InsertValues}
    (h : v'.records = v.records.map (Record.mapValues f)) : v'.flatten = v.flatten.map f := by
  unfold flatten
  rw [h, List.flatMap_map, List.map_flatMap]
  exact List.flatMap_congr fun r _ => values_mapValues f r

/-- Lists that agree when masked have their bound values at the same places. -/
theorem alike_of_masked_eq {values values' : List Value} {sql : String}
    (h : values'.map Value.masked = values.map Value.masked) :
    Statement.Alike values values' ⟨sql, cleanBindings values⟩ ⟨sql, cleanBindings values'⟩ := by
  have lengths : values'.length = values.length := by simpa using congrArg List.length h
  have places : (cleanBindings values').length = (cleanBindings values).length ∧
      (cleanBindings values).zip (cleanBindings values') =
        (values.zip values').filter fun p => !p.1.isRaw := by
    induction values generalizing values' with
    | nil =>
      rw [List.length_eq_zero_iff.1 lengths]
      exact ⟨rfl, rfl⟩
    | cons v vs ih =>
      cases values' with
      | nil => cases lengths
      | cons w ws =>
        obtain ⟨heads, tails⟩ := List.cons.inj h
        obtain ⟨count, rest⟩ := ih tails (Nat.succ.inj lengths)
        -- raw expressions stand at the same places in both lists, so the filter drops the same places
        have kind := Value.isRaw_of_masked_eq heads
        unfold cleanBindings at count rest ⊢
        cases hv : v.isRaw
        · simp [hv, kind, count, rest]
        · simp [hv, kind, count, rest]
  exact ⟨rfl, lengths, places.1, places.2⟩

/-- **Bound values never reach the text of a statement.** Take two queries that differ only in values that
are bound in both, and two lists of records that do. Every dialect writes the same text for both, whether
it selects, checks for rows or inserts, and the bindings differ only where the values do. -/
theorem statements_alike {d : Dialect} (hd : d.Standard) {q q' : Query} (hq : q'.masked = q.masked)
    {v v' : InsertValues} (hv : v'.masked = v.masked) :
    Statement.Alike q.values q'.values (d.selectStatement q) (d.selectStatement q') ∧
    Statement.Alike q.values q'.values (d.existsStatement q) (d.existsStatement q') ∧
    Statement.Alike v.flatten v'.flatten (d.insertStatement q v) (d.insertStatement q' v') ∧
    ∀ column : Option String,
      match d.insertReturningStatement q v column, d.insertReturningStatement q' v' column with
      | .ok st, .ok st' => Statement.Alike v.flatten v'.flatten st st'
      | .error e, .error e' => e' = e
      | _, _ => False := by
  obtain ⟨n, h⟩ := hd.exists_follows
  have values : q'.values.map Value.masked = q.values.map Value.masked := by
    rw [← Query.values_mapValues, ← Query.values_mapValues]
    exact congrArg Query.values hq
  have flat : v'.flatten.map Value.masked = v.flatten.map Value.masked := by
    rw [← InsertValues.flatten_of_records (records_masked v'), ← InsertValues.flatten_of_records (records_masked v), hv]
  have table : q'.table = q.table := by
    show q'.masked.table = q.masked.table
    rw [hq]
  have select : d.select q' = d.select q := by rw [← select_masked h q', hq, select_masked h]
  have existence : d.exists? q' = d.exists? q := by rw [← exists?_masked hd q', hq, exists?_masked hd]
  have insert : d.insert q' v' = d.insert q v := by
    rw [← insert_masked hd rfl v', hv, insert_masked hd table]
  have returning (column : Option String) : d.insertReturning q' v' column = d.insertReturning q v column := by
    rw [← insertReturning_masked hd rfl v', hv, insertReturning_masked hd table]
  refine ⟨?_, ?_, ?_, fun column => ?_⟩
  · rw [Dialect.selectStatement, Dialect.selectStatement, select]
    exact alike_of_masked_eq values
  · rw [Dialect.existsStatement, Dialect.existsStatement, existence]
    exact alike_of_masked_eq values
  · rw [Dialect.insertStatement, Dialect.insertStatement, insert]
    exact alike_of_masked_eq flat
  · rw [Dialect.insertReturningStatement, Dialect.insertReturningStatement, returning column]
    cases d.insertReturning q v column with
    | error e => rfl
    | ok sql => exact alike_of_masked_eq flat

/-- SQL in a value, and null in the place of a number, in a join, a group and a raw predicate. -/
theorem statements_alike_of_injection :
    let q (v w : Value) : Query :=
      { table := "users"
        joins := [{ table := "posts", conditions := [.test .and (.compare "kind" "=" v)] }]
        filters := [.group .or [.test .and (.oneOf "id" [v, .raw "now()", w] false)],
          .test .and (.raw "a = ?" [w])] }
    let v (w : Value) : InsertValues := .single ⟨[("name", w), ("at", .raw "now()")], by simp⟩
    let a : Value := .string "x'; drop table users"
    let st := (Dialect.firebird {}).selectStatement (q a .null)
    let st' := (Dialect.firebird {}).selectStatement (q (.int 1) (.bool true))
    st.sql = "select * from \"users\" inner join \"posts\" on \"kind\" = ? " ++
      "where (\"id\" in (?, now(), ?)) and a = ?" ∧
    st.bindings = [a, a, .null, .null] ∧ st'.bindings = [.int 1, .int 1, .bool true, .bool true] ∧
    Statement.Alike (q a .null).values (q (.int 1) (.bool true)).values st st' ∧
    Statement.Alike (v a).flatten (v .null).flatten ((Dialect.firebird {}).insertStatement (q a .null) (v a))
      ((Dialect.firebird {}).insertStatement (q (.int 1) (.bool true)) (v .null)) := by
  intro q v a st st'
  have queries : (q (.int 1) (.bool true)).masked = (q a .null).masked := by decide
  have records : (v .null).masked = (v a).masked := by decide
  obtain ⟨select, -, insert, -⟩ := statements_alike (.firebird {}) queries records
  exact ⟨by decide, by decide, by decide, select, insert⟩

end SqlGrammar
