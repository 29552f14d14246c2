import SqlGrammar.Json.Printer
import SqlGrammar.Record
import SqlGrammar.Schema.Plain

/-!
Values and records as JSON. A raw expression is a record with the one key `$raw`; dates and
timestamps are written as text and read back as strings; an infinity or NaN is written as `null`.
-/

namespace SqlGrammar

/-- The key of a raw expression. -/
def rawKey : String := "$raw"

def Value.toJson : Value → Json
  | null => .null
  | bool b => .bool b
  | int n => .integer n.toInt
  | float d => if d.isFinite then .number (.float d) else .null
  | string s => .string s
  | date d => .string d.text
  | timestamp t => .string t.text
  | raw sql => .record [(rawKey, .string sql)]

/-- A record as JSON, its members in the order of its columns. -/
def Record.toJson (r : Record) : Json := .record (r.fields.map fun f => (f.1, f.2.toJson))

/-- Values to insert as JSON: a record by itself, or a list of records. -/
def InsertValues.toJson : InsertValues → Json
  | single r => r.toJson
  | batch rs => .list (rs.map Record.toJson)

namespace Schema

/-- A raw expression from the members of a record: all keys are `$raw`, and the last one is a text.
-/
def rawExpression? (members : List (String × Json)) : Option String :=
  match members.getLast? with
  | some (_, .string sql) => if members.all fun m => m.1 = rawKey then some sql else none
  | _ => none

/-- A value. Integers from `2 ^ 63` on are doubles. -/
def value : Json → Except ReadError Value
  | .null => .ok .null
  | .bool b => .ok (.bool b)
  | .number (.integer n) =>
    if n < 0x8000000000000000 then .ok (.int (.ofInt n)) else .ok (.float (.nearest n.toNat 1))
  | .number (.float d) => .ok (.float d)
  | .string s => .ok (.string s)
  | .list _ => .error (.mismatch .unbindableList)
  | .record members =>
    match rawExpression? members with
    | some sql => .ok (.raw sql)
    | none => .error (.mismatch .unbindableRecord)

def columnValues : List (String × Json) → Except ReadError (List (String × Value))
  | [] => .ok []
  | (k, j) :: ms => do
    let v ← value j
    let vs ← columnValues ms
    return (k, v) :: vs

/-- A record of columns; a column that comes twice keeps its first place and its last value. -/
def record : Json → Except ReadError Record
  | .record members => (columnValues members).map Record.ofList
  | j => mistyped "a map" j

def insertValues (j : Json) : Except ReadError InsertValues :=
  let read : Except ReadError InsertValues := match j with
    | .list items => (readAll record items).map .batch
    | j => (record j).map .single
  match read with
  | .ok v => .ok v
  | .error _ => .error (.mismatch (.noShape "InsertValues"))

end Schema

end SqlGrammar
