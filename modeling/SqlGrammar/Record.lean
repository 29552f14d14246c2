import SqlGrammar.Value

/-!
Records to insert: columns with values, in the order in which the columns were first given. Main
statements: the columns of a record are distinct, and setting a column twice keeps the place of the
first and the value of the last.
-/

namespace SqlGrammar

/-- Gives a column a value: in place if the column is there, else at the end. -/
def assign (column : String) (value : Value) : List (String × Value) → List (String × Value)
  | [] => [(column, value)]
  | (c, v) :: r => if c = column then (c, value) :: r else (c, v) :: assign column value r

theorem map_fst_assign (column : String) (value : Value) (fields : List (String × Value)) :
    (assign column value fields).map (·.1) =
      if column ∈ fields.map (·.1) then fields.map (·.1) else fields.map (·.1) ++ [column] := by
  induction fields with
  | nil => simp [assign]
  | cons f r ih =>
    obtain ⟨c, v⟩ := f
    by_cases h : c = column
    · simp [assign, h]
    · have : ¬ column = c := fun e => h e.symm
      simp only [assign, h, if_false, List.map_cons, ih, List.mem_cons, this, false_or]
      split <;> simp

theorem nodup_assign {column : String} {value : Value} {fields : List (String × Value)}
    (h : (fields.map (·.1)).Nodup) : ((assign column value fields).map (·.1)).Nodup := by
  rw [map_fst_assign]
  split
  · exact h
  · next hc => exact List.nodup_append.2 ⟨h, by simp, by rintro a ha b hb rfl; simp_all⟩

/-- One row to insert: distinct columns with their values. -/
structure Record where
  fields : List (String × Value)
  nodup : (fields.map (·.1)).Nodup
  deriving DecidableEq

namespace Record

def empty : Record := ⟨[], by simp⟩

/-- The record with one more column, or with another value for a column that is there. -/
def set (r : Record) (column : String) (value : Value) : Record :=
  ⟨assign column value r.fields, nodup_assign r.nodup⟩

def ofList (pairs : List (String × Value)) : Record :=
  pairs.foldl (fun r p => r.set p.1 p.2) empty

def columns (r : Record) : List String := r.fields.map (·.1)

def values (r : Record) : List Value := r.fields.map (·.2)

def isEmpty (r : Record) : Bool := r.fields.isEmpty

end Record

/-- What is inserted: one record, or a batch. The records of a batch are meant to have the columns
of the first one, in its order. -/
inductive InsertValues
  | single (record : Record)
  | batch (records : List Record)
  deriving DecidableEq

namespace InsertValues

def none : InsertValues := batch []

/-- Either shape as a list of records. -/
def records : InsertValues → List Record
  | single r => [r]
  | batch rs => rs

/-- There is no column to insert at all. -/
def isEmpty (v : InsertValues) : Bool := v.records.all Record.isEmpty

/-- The values of all records, in the order of their placeholders. -/
def flatten (v : InsertValues) : List Value := v.records.flatMap Record.values

end InsertValues

end SqlGrammar
