import Mathlib.Data.List.Nodup
import SqlGrammar.Row

/-!
Look-up of a column. `Answers` says what a look-up in a list of entries has to answer: the first entry with
the very name, else the first one with the name up to letter case, else nothing. Both ways to look a column
up, by its place (`Row.get?`, `Record.get?`) and by its entry (`entryOf?`), answer so (`answers_iff`,
`Row.get?_eq_entryOf?`). Rows and records are listed in the order in which they were built and so answer
alike. A map without an order of its own answers by whatever order it comes in, which shows only where
several names are equal to the column up to letter case and none is the column itself (`lookups_alike`).
-/

namespace SqlGrammar

/-! ## What a look-up answers -/

/-- The first entry whose column is of some kind holds this value. -/
def FirstEntry (kind : String → Prop) (entries : List (String × Value)) (v : Value) : Prop :=
  ∃ before name after, entries = before ++ (name, v) :: after ∧ kind name ∧ ∀ e ∈ before, ¬ kind e.1

/-- The answer to a look-up in entries in this order. -/
inductive Answers (entries : List (String × Value)) (column : String) : Option Value → Prop
  | exact {v : Value} (first : FirstEntry (· = column) entries v) : Answers entries column (some v)
  | folded {v : Value} (other : ∀ e ∈ entries, e.1 ≠ column)
      (first : FirstEntry (fun name => Text.fold name = Text.fold column) entries v) :
      Answers entries column (some v)
  | missing (other : ∀ e ∈ entries, Text.fold e.1 ≠ Text.fold column) : Answers entries column none

theorem FirstEntry.exists_mem {kind : String → Prop} {entries : List (String × Value)} {v : Value}
    (h : FirstEntry kind entries v) : ∃ name, (name, v) ∈ entries ∧ kind name := by
  obtain ⟨before, name, after, rfl, hname, -⟩ := h
  exact ⟨name, by simp, hname⟩

section First

variable (kind : String → Prop) [DecidablePred kind] (entries : List (String × Value))

def firstValue? : Option Value := (entries.find? fun e => kind e.1).map (·.2)

theorem firstValue?_eq_some_iff {v : Value} :
    firstValue? kind entries = some v ↔ FirstEntry kind entries v := by
  simp only [firstValue?, Option.map_eq_some_iff, List.find?_eq_some_iff_append, FirstEntry]
  constructor
  · rintro ⟨⟨name, v⟩, ⟨hname, before, after, rfl, first⟩, rfl⟩
    exact ⟨before, name, after, rfl, by simpa using hname, by simpa using first⟩
  · rintro ⟨before, name, after, rfl, hname, first⟩
    exact ⟨(name, v), ⟨by simpa using hname, before, after, rfl, by simpa using first⟩, rfl⟩

theorem firstValue?_eq_none_iff : firstValue? kind entries = none ↔ ∀ e ∈ entries, ¬ kind e.1 := by
  simp only [firstValue?, Option.map_eq_none_iff, List.find?_eq_none, decide_eq_true_eq]

theorem bind_findIdx? : ((entries.map (·.1)).findIdx? fun n => kind n).bind
    (fun i => (entries.map (·.2))[i]?) = firstValue? kind entries := by
  unfold firstValue?
  induction entries with
  | nil => rfl
  | cons e r ih =>
    rw [List.map_cons, List.map_cons, List.findIdx?_cons, List.find?_cons]
    cases decide (kind e.1) with
    | true => rfl
    | false => simpa [Option.bind_map, Function.comp_def] using ih

end First

section Entries

variable (entries : List (String × Value)) (column : String)

theorem sameLetters_eq_decide (a b : String) :
    Text.sameLetters a b = decide (Text.fold a = Text.fold b) := by
  rw [Bool.eq_iff_iff, Text.sameLetters_iff, decide_eq_true_iff]

theorem entryOf?_eq : entryOf? entries column = (firstValue? (· = column) entries).or
    (firstValue? (fun name => Text.fold name = Text.fold column) entries) := by
  unfold entryOf? firstValue?
  simp only [sameLetters_eq_decide]
  cases entries.find? fun e => e.1 = column <;> rfl

theorem columnIndex?_eq : (columnIndex? (entries.map (·.1)) column).bind
    (fun i => (entries.map (·.2))[i]?) = entryOf? entries column := by
  rw [entryOf?_eq, ← bind_findIdx?, ← bind_findIdx?]
  unfold columnIndex?
  simp only [sameLetters_eq_decide]
  cases found : (entries.map (·.1)).findIdx? fun n => n = column with
  | none => rfl
  | some i =>
    -- a place that was found is one of a value
    obtain ⟨bound, -⟩ := List.findIdx?_eq_some_iff_getElem.1 found
    rw [List.length_map] at bound
    simp [bound]

/-- **A look-up by entry answers as it has to, and there is one answer only.** -/
theorem answers_iff {entries : List (String × Value)} {column : String} {a : Option Value} :
    Answers entries column a ↔ entryOf? entries column = a := by
  rw [entryOf?_eq]
  constructor
  · intro h
    cases h with
    | exact first => rw [(firstValue?_eq_some_iff _ _).2 first, Option.some_or]
    | folded other first =>
      rw [(firstValue?_eq_none_iff _ _).2 other, (firstValue?_eq_some_iff _ _).2 first, Option.none_or]
    | missing other =>
      have inexact : ∀ e ∈ entries, ¬ e.1 = column := fun e he same => other e he (by rw [same])
      rw [(firstValue?_eq_none_iff _ _).2 inexact, (firstValue?_eq_none_iff _ _).2 other, Option.none_or]
  · rintro rfl
    cases exact : firstValue? (· = column) entries with
    | some v =>
      rw [Option.some_or]
      exact .exact ((firstValue?_eq_some_iff _ _).1 exact)
    | none =>
      have other := (firstValue?_eq_none_iff _ _).1 exact
      rw [Option.none_or]
      cases folded : firstValue? (fun name => Text.fold name = Text.fold column) entries with
      | some v => exact .folded other ((firstValue?_eq_some_iff _ _).1 folded)
      | none => exact .missing ((firstValue?_eq_none_iff _ _).1 folded)

end Entries

theorem Row.get?_eq_entryOf? (r : Row) (column : String) : r.get? column = entryOf? r.fields column :=
  columnIndex?_eq r.fields column

theorem Record.get?_eq_entryOf? (r : Record) (column : String) :
    r.get? column = entryOf? r.fields column :=
  columnIndex?_eq r.fields column

/-! ## Rows, records and maps -/

section Built

variable {pairs entries : List (String × Value)} {column : String}

theorem Row.fields_ofList (pairs : List (String × Value)) : (Row.ofList pairs).fields = pairs := by
  have added (r : Row) : (pairs.foldl (fun r p => r.push p.1 p.2) r).fields = r.fields ++ pairs := by
    induction pairs generalizing r with
    | nil => simp
    | cons p rest ih => rw [List.foldl_cons, ih, Row.push, List.append_assoc]; rfl
  exact added {}

theorem assign_of_not_mem {value : Value} (h : column ∉ entries.map (·.1)) :
    assign column value entries = entries ++ [(column, value)] := by
  induction entries with
  | nil => rfl
  | cons e r ih =>
    rw [List.map_cons, List.mem_cons, not_or] at h
    rw [assign, if_neg (Ne.symm h.1), ih h.2, List.cons_append]

theorem Record.fields_ofList (distinct : (pairs.map (·.1)).Nodup) : (Record.ofList pairs).fields = pairs := by
  have added (r : Record) (new : ((r.fields ++ pairs).map (·.1)).Nodup) :
      (pairs.foldl (fun r p => r.set p.1 p.2) r).fields = r.fields ++ pairs := by
    clear distinct
    induction pairs generalizing r with
    | nil => simp
    | cons p rest ih =>
      have absent : p.1 ∉ r.fields.map (·.1) := by
        rw [List.map_append, List.nodup_append] at new
        exact fun mem => new.2.2 _ mem p.1 (by simp) rfl
      have set : (r.set p.1 p.2).fields = r.fields ++ [p] := assign_of_not_mem absent
      have next : r.fields ++ p :: rest = (r.set p.1 p.2).fields ++ rest := by
        rw [set, List.append_assoc, List.singleton_append]
      rw [next] at new
      rw [List.foldl_cons, ih _ new, next]
  exact added Record.empty distinct

/-- Several names are equal to the column up to letter case, and none is the column itself. -/
def Ambiguous (entries : List (String × Value)) (column : String) : Prop :=
  (∀ e ∈ entries, e.1 ≠ column) ∧ ∃ a ∈ entries, ∃ b ∈ entries, a.1 ≠ b.1 ∧
    Text.fold a.1 = Text.fold column ∧ Text.fold b.1 = Text.fold column

theorem value_unique (distinct : (pairs.map (·.1)).Nodup) {name : String} {v w : Value}
    (hv : (name, v) ∈ pairs) (hw : (name, w) ∈ pairs) : v = w := by
  have same := List.inj_on_of_nodup_map distinct hv hw rfl
  exact congrArg Prod.snd same

/-- The order of entries shows only where the column is ambiguous. -/
theorem Answers.perm {a : Option Value} (h : Answers entries column a) (order : entries.Perm pairs)
    (distinct : (pairs.map (·.1)).Nodup) (plain : ¬ Ambiguous pairs column) : Answers pairs column a := by
  obtain ⟨b, hb⟩ : ∃ b, Answers pairs column b := ⟨_, answers_iff.2 rfl⟩
  suffices a = b by rwa [this]
  cases h with
  | exact first =>
    obtain ⟨name, mem, rfl⟩ := first.exists_mem
    have listed := order.subset mem
    cases hb with
    | exact first' =>
      obtain ⟨_, mem', rfl⟩ := first'.exists_mem
      rw [value_unique distinct listed mem']
    | folded other => exact absurd rfl (other _ listed)
    | missing other => exact absurd rfl (other _ listed)
  | folded other first =>
    obtain ⟨name, mem, folded⟩ := first.exists_mem
    have listed := order.subset mem
    have inexact : ∀ e ∈ pairs, e.1 ≠ column := fun e he => other e (order.mem_iff.2 he)
    cases hb with
    | exact first' =>
      obtain ⟨_, mem', same⟩ := first'.exists_mem
      exact absurd same (inexact _ mem')
    | folded _ first' =>
      obtain ⟨name', mem', folded'⟩ := first'.exists_mem
      have same : name = name' := by
        by_contra differ
        exact plain ⟨inexact, _, listed, _, mem', differ, folded, folded'⟩
      subst same
      rw [value_unique distinct listed mem']
    | missing other' => exact absurd folded (other' _ listed)
  | missing other =>
    have none : ∀ e ∈ pairs, Text.fold e.1 ≠ Text.fold column := fun e he => other e (order.mem_iff.2 he)
    exact (answers_iff.1 (.missing none)).symm.trans (answers_iff.1 hb)

/-- **All look-ups alike.** A row and a record that were built from the same pairs give the answer by the
order of the pairs. A map gives the answer by the order in which it comes, which is the same one unless the
column is ambiguous. -/
theorem lookups_alike (distinct : (pairs.map (·.1)).Nodup) (order : entries.Perm pairs) (column : String) :
    Answers pairs column ((Row.ofList pairs).get? column) ∧
    (Record.ofList pairs).get? column = (Row.ofList pairs).get? column ∧
    Answers entries column (entryOf? entries column) ∧
    (¬ Ambiguous pairs column → entryOf? entries column = (Row.ofList pairs).get? column) := by
  have row : (Row.ofList pairs).get? column = entryOf? pairs column := by
    rw [Row.get?_eq_entryOf?, Row.fields_ofList]
  have record : (Record.ofList pairs).get? column = entryOf? pairs column := by
    rw [Record.get?_eq_entryOf?, Record.fields_ofList distinct]
  have map : Answers entries column (entryOf? entries column) := answers_iff.2 rfl
  refine ⟨answers_iff.2 row.symm, record.trans row.symm, map, fun plain => ?_⟩
  rw [row]
  exact (answers_iff.1 (map.perm order distinct plain)).symm

end Built

/-- A map that comes in another order, with a name in two letter cases and one with a letter whose case does
not count. -/
theorem lookups_alike_of_reverse :
    let pairs := [("Id", Value.int 1), ("É", .int 2), ("ID", .int 3)]
    let entries := [("ID", Value.int 3), ("É", .int 2), ("Id", .int 1)]
    entryOf? entries "ID" = some (.int 3) ∧ (Row.ofList pairs).get? "ID" = some (.int 3) ∧
      entryOf? entries "é" = none ∧ (Row.ofList pairs).get? "é" = none := by
  intro pairs entries
  have distinct : (pairs.map (·.1)).Nodup := by decide
  have order : entries.Perm pairs := by decide
  have exact : ¬ Ambiguous pairs "ID" := fun h => h.1 ("ID", .int 3) (by decide) rfl
  have absent : ¬ Ambiguous pairs "é" := by
    rintro ⟨-, a, ha, -, -, -, folded, -⟩
    revert a
    decide
  have first := (lookups_alike distinct order "ID").2.2.2 exact
  have second := (lookups_alike distinct order "é").2.2.2 absent
  have row : (Row.ofList pairs).get? "ID" = some (.int 3) := by decide
  have none : (Row.ofList pairs).get? "é" = none := by decide
  exact ⟨first.trans row, row, second.trans none, none⟩

/-- A map need not give the first of two names that differ in letter case only. -/
theorem lookups_differ :
    ¬ ∀ (pairs entries : List (String × Value)) (column : String), (pairs.map (·.1)).Nodup →
      entries.Perm pairs → entryOf? entries column = (Row.ofList pairs).get? column := by
  intro h
  have alike := h [("Id", .int 1), ("ID", .int 2)] [("ID", .int 2), ("Id", .int 1)] "id" (by decide) (by decide)
  have row : (Row.ofList [("Id", .int 1), ("ID", .int 2)]).get? "id" = some (.int 1) := by decide
  have map : entryOf? [("ID", .int 2), ("Id", .int 1)] "id" = some (.int 2) := by decide
  rw [row, map] at alike
  cases alike

end SqlGrammar
