import SqlGrammar.Proofs.Lookup
import SqlGrammar.Proofs.RoundTrip

/-!
Values to insert survive their JSON form. Without doubles, their text is read as one record or a batch, as it was
written, with the same columns in the same order; dates and timestamps come back as strings, and every other value
as it was (`insertValues_toJson`). A key cannot be mistaken: a record of columns is told from a raw expression by
where it stands, not by its keys. What comes back differs only in values that are bound, so the statements have the
same text (`masked_restored`).
-/

namespace SqlGrammar

open Json

/-! ## What is read back -/

theorem Record.eq_of_fields {r r' : Record} (h : r.fields = r'.fields) : r = r' := by
  cases r
  cases r'
  cases h
  rfl

/-- What values to insert are read back as: in the same shape, each value restored. -/
def InsertValues.restored : InsertValues → InsertValues
  | single r => single (r.mapValues Value.restored)
  | batch rs => batch (rs.map (Record.mapValues Value.restored))

theorem Value.isRaw_restored (v : Value) : v.restored.isRaw = v.isRaw := by
  cases v <;> rfl

theorem Value.masked_restored (v : Value) : v.restored.masked = v.masked := by
  cases v <;> rfl

namespace InsertValues

theorem records_restored (v : InsertValues) :
    v.restored.records = v.records.map (Record.mapValues Value.restored) := by
  cases v <;> rfl

theorem masked_restored (v : InsertValues) : v.restored.masked = v.masked := by
  have record (r : Record) : (r.mapValues Value.restored).mapValues Value.masked = r.mapValues Value.masked := by
    simp [Record.mapValues, Value.masked_restored]
  cases v with
  | single r => exact congrArg single (record r)
  | batch rs => simp [restored, masked, record]

end InsertValues

/-! ## Reading -/

namespace Schema

theorem columnValues_toJson {fields : List (String × Value)} (h : ∀ f ∈ fields, f.2.isExact) :
    columnValues (fields.map fun f => (f.1, f.2.toJson)) = .ok (fields.map fun f => (f.1, f.2.restored)) := by
  induction fields with
  | nil => rfl
  | cons f fields ih =>
    rw [List.map_cons, columnValues, value_toJson (h f List.mem_cons_self),
      ih fun x hx => h x (List.mem_cons_of_mem _ hx)]
    rfl

/-- A record has distinct columns, so none is read over another one. -/
theorem record_toJson {r : Record} (h : ∀ w ∈ r.values, w.isExact) :
    record r.toJson = .ok (r.mapValues Value.restored) := by
  have fields := columnValues_toJson fun f hf => h f.2 (List.mem_map_of_mem hf)
  have distinct : ((r.fields.map fun f => (f.1, f.2.restored)).map (·.1)).Nodup := (r.mapValues Value.restored).nodup
  have built : Record.ofList (r.fields.map fun f => (f.1, f.2.restored)) = r.mapValues Value.restored :=
    Record.eq_of_fields (Record.fields_ofList distinct)
  rw [Record.toJson, record, fields, ← built]
  rfl

/-- **Values to insert are read back in their shape.** -/
theorem insertValues_toJson {v : InsertValues} (h : ∀ w ∈ v.flatten, w.isExact) :
    insertValues v.toJson = .ok v.restored := by
  cases v with
  | single r =>
    have read : record r.toJson = .ok (r.mapValues Value.restored) :=
      record_toJson fun w hw => h w (List.mem_flatMap.2 ⟨r, List.mem_cons_self, hw⟩)
    rw [Record.toJson] at read
    simp only [InsertValues.toJson, Record.toJson, insertValues, read]
    rfl
  | batch rs =>
    have read : readAll record (rs.map Record.toJson) = .ok (rs.map (Record.mapValues Value.restored)) :=
      readAll_map fun r hr => record_toJson fun w hw => h w (List.mem_flatMap.2 ⟨r, hr, hw⟩)
    simp only [InsertValues.toJson, insertValues, read]
    rfl

end Schema

/-! ## The text -/

theorem whole_record {r : Record} (h : ∀ w ∈ r.values, w.isExact) : r.toJson.Whole := by
  refine (membersWhole_iff _).2 fun m hm => ?_
  obtain ⟨f, hf, rfl⟩ := List.mem_map.1 hm
  exact whole_value (h f.2 (List.mem_map_of_mem hf))

theorem whole_insertValues {v : InsertValues} (h : ∀ w ∈ v.flatten, w.isExact) : v.toJson.Whole := by
  cases v with
  | single r => exact whole_record fun w hw => h w (List.mem_flatMap.2 ⟨r, List.mem_cons_self, hw⟩)
  | batch rs => exact whole_list fun r hr => whole_record fun w hw => h w (List.mem_flatMap.2 ⟨r, hr, hw⟩)

theorem depth_value_le (v : Value) : v.toJson.depth ≤ 1 := by
  cases v with
  | float d =>
    rw [Value.toJson]
    split <;> exact Nat.zero_le 1
  | raw sql => exact Nat.le_refl 1
  | _ => exact Nat.zero_le 1

theorem depth_record_le (r : Record) : r.toJson.depth ≤ 2 := by
  refine Nat.succ_le_succ ((membersDepth_le _).2 fun m hm => ?_)
  obtain ⟨f, -, rfl⟩ := List.mem_map.1 hm
  exact depth_value_le f.2

/-- At most three levels are nested: a raw expression in a record of a batch. -/
theorem depth_insertValues_le (v : InsertValues) : v.toJson.depth ≤ 3 := by
  cases v with
  | single r => exact Nat.le_succ_of_le (depth_record_le r)
  | batch rs =>
    refine Nat.succ_le_succ ((itemsDepth_le _).2 fun j hj => ?_)
    obtain ⟨r, -, rfl⟩ := List.mem_map.1 hj
    exact depth_record_le r

theorem ofText_insertValues {v : InsertValues} (h : ∀ w ∈ v.flatten, w.isExact) :
    InsertValues.ofText v.toJson.text = .ok v.restored := by
  have scanned := outline_chars (whole_insertValues h)
  have enough : v.toJson.depth ≤ Outline.maxDepth := Nat.le_trans (depth_insertValues_le v) (by decide)
  have read := (Schema.weighs_whole (Schema.insertValues_toJson h)).reads Outline.maxDepth (Nat.le_refl _) enough
  rw [InsertValues.ofText, Schema.readText, Json.text, String.toList_ofList, scanned]
  simp only [read]
  rfl

/-! ## The statements -/

section Statements

variable {d : Dialect} (hd : d.Standard) (q : Query) (v : InsertValues)

include hd

theorem insert_restored : d.insert q v.restored = d.insert q v := by
  rw [← insert_masked hd rfl v.restored, v.masked_restored, insert_masked hd rfl]

theorem insertReturning_restored (returned : Option String) :
    d.insertReturning q v.restored returned = d.insertReturning q v returned := by
  rw [← insertReturning_masked hd rfl v.restored, v.masked_restored, insertReturning_masked hd rfl]

end Statements

theorem cleanBindings_restored (vs : List Value) :
    cleanBindings (vs.map Value.restored) = (cleanBindings vs).map Value.restored := by
  simp only [cleanBindings, List.filter_map, Function.comp_def, Value.isRaw_restored]

/-- **Values to insert survive their JSON form.** Without doubles their text is read, in its shape, as as many records
with the same columns in the same order, with dates and timestamps as strings and all other values as they were. In
every dialect and for every query they are inserted by the same SQL, with the restored values bound. -/
theorem insertValues_survive {v : InsertValues} (hv : ∀ w ∈ v.flatten, w.isFloat = false) :
    InsertValues.ofText v.toJson.text = .ok v.restored ∧
    v.restored.records.map Record.columns = v.records.map Record.columns ∧
    v.restored.records.map Record.values = v.records.map (fun r => r.values.map Value.restored) ∧
    ∀ (d : Dialect) (q : Query), d.Standard →
      d.insertStatement q v.restored = ⟨(d.insertStatement q v).sql,
        (d.insertStatement q v).bindings.map Value.restored⟩ ∧
      ∀ returned, d.insertReturning q v.restored returned = d.insertReturning q v returned := by
  refine ⟨ofText_insertValues fun w hw => Value.isExact_of_isFloat (hv w hw), ?_, ?_, fun d q hd => ⟨?_, ?_⟩⟩
  · rw [v.records_restored, List.map_map]
    exact List.map_congr_left fun r _ => columns_mapValues Value.restored r
  · rw [v.records_restored, List.map_map]
    exact List.map_congr_left fun r _ => values_mapValues Value.restored r
  · have flat := InsertValues.flatten_of_records v.records_restored
    rw [Dialect.insertStatement, insert_restored hd, flat, cleanBindings_restored]
    rfl
  · exact insertReturning_restored hd q v

/-- A batch with a date, a raw expression, a column that is called as a raw expression is, and a record without
columns. -/
theorem insertValues_survive_of_batch :
    let v (w : Value) : InsertValues :=
      .batch [⟨[("$raw", w), ("\"é\n", .raw "now()"), ("n", .int (-9223372036854775808))], by simp⟩, .empty]
    InsertValues.ofText (v (.date ⟨2024, 2, 29⟩)).toJson.text = .ok (v (.string "2024-02-29")) ∧
    ((Dialect.firebird {}).insertStatement { table := "t" } (v (.string "2024-02-29"))).sql =
      ((Dialect.firebird {}).insertStatement { table := "t" } (v (.date ⟨2024, 2, 29⟩))).sql := by
  intro v
  have restored : (v (.date ⟨2024, 2, 29⟩)).restored = v (.string "2024-02-29") := by decide
  obtain ⟨read, -, -, statements⟩ := insertValues_survive (v := v (.date ⟨2024, 2, 29⟩)) (by decide)
  rw [restored] at read statements
  refine ⟨read, ?_⟩
  rw [(statements (.firebird {}) { table := "t" } (.firebird {})).1]

end SqlGrammar
