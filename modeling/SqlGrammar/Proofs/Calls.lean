import SqlGrammar.Proofs.Masking
import SqlGrammar.Session

/-!
What an executor is told over a whole run of requests. `Served` lists the ways in which one request can
end: for each the response, and what it adds to the journal. `serve` ends in one of them (`served_serve`), so
everything below is read off these nine cases.

1. A request makes at most one call, the one it asks for (`Served.calls_eq`), and a run makes the calls its
   requests ask for, once each and in their order (`calls_serveAll`).
2. A write flags the modification before its call. So the write calls of a run know of 1, 2, 3, … of them, and
   the journal ends with as many as there are write calls (`flagged_serveAll`).
3. Where the executor answers a call with an error, that error is the response (`Served.error?_eq`).
-/

namespace SqlGrammar

/-! ## One request -/

namespace Journal

/-- The call of a statement on the write connection. The modification is flagged before it. -/
def writeCall (j : Journal) (s : Statement) : Call := ⟨.write, s.sql, s.bindings, j.modified + 1⟩

def readCall (j : Journal) (s : Statement) : Call := ⟨.read, s.sql, s.bindings, j.modified⟩

def writes (j : Journal) : List Call := j.calls.filter fun c => c.connection = .write

end Journal

/-- The ways in which a request can end, with the response and the journal after it. -/
inductive Served (d : Dialect) (executor : Executor) (j : Journal) : Request → Response → Journal → Prop
  /-- A select is compiled and not run. -/
  | compiled (q : Query) : Served d executor j (.selectSql q) (.sql (d.select q)) j
  /-- An insert names no column to return. -/
  | unnamed (q : Query) (values : InsertValues) :
    Served d executor j (.insertGetId q values none) (.identifier (.error .missingReturningColumn)) j
  /-- The dialect has no statement for the insert. -/
  | unwritten {q : Query} {values : InsertValues} {column : String} {e : Error} :
    d.insertReturningStatement q values (some column) = .error e →
    Served d executor j (.insertGetId q values (some column)) (.identifier (.error e)) j
  /-- The executor fails to insert. -/
  | notInserted {q : Query} {values : InsertValues} {column : String} {s : Statement} {e : Error} :
    d.insertReturningStatement q values (some column) = .ok s →
    executor (j.writeCall s) = .error e →
    Served d executor j (.insertGetId q values (some column)) (.identifier (.error e))
      ⟨j.calls ++ [j.writeCall s], j.modified + 1⟩
  /-- The insert returns no row. -/
  | noRow {q : Query} {values : InsertValues} {column : String} {s : Statement} :
    d.insertReturningStatement q values (some column) = .ok s →
    executor (j.writeCall s) = .ok [] →
    Served d executor j (.insertGetId q values (some column)) (.identifier (.error .emptyResult))
      ⟨j.calls ++ [j.writeCall s], j.modified + 1⟩
  /-- The insert returns a row without the column. -/
  | noColumn {q : Query} {values : InsertValues} {column : String} {s : Statement} {row : Row}
      {rows : List Row} :
    d.insertReturningStatement q values (some column) = .ok s →
    executor (j.writeCall s) = .ok (row :: rows) → row.get? column = none →
    Served d executor j (.insertGetId q values (some column))
      (.identifier (.error (.missingColumn column))) ⟨j.calls ++ [j.writeCall s], j.modified + 1⟩
  /-- The insert returns the column. -/
  | inserted {q : Query} {values : InsertValues} {column : String} {s : Statement} {row : Row}
      {rows : List Row} {v : Value} :
    d.insertReturningStatement q values (some column) = .ok s →
    executor (j.writeCall s) = .ok (row :: rows) → row.get? column = some v →
    Served d executor j (.insertGetId q values (some column))
      (.identifier (.ok (normalizeIdentifier v))) ⟨j.calls ++ [j.writeCall s], j.modified + 1⟩
  /-- The executor fails to look for rows. -/
  | notChecked {q : Query} {e : Error} :
    executor (j.readCall (d.existsStatement q)) = .error e →
    Served d executor j (.exists q) (.existence (.error e))
      ⟨j.calls ++ [j.readCall (d.existsStatement q)], j.modified⟩
  /-- The rows say whether there are any. -/
  | checked {q : Query} {rows : List Row} :
    executor (j.readCall (d.existsStatement q)) = .ok rows →
    Served d executor j (.exists q) (.existence (.ok (saysYes rows)))
      ⟨j.calls ++ [j.readCall (d.existsStatement q)], j.modified⟩

/-- The call that a request asks for, if any: its connection and its statement. -/
def Request.call? (d : Dialect) : Request → Option (Connection × Statement)
  | .selectSql _ => none
  | .insertGetId _ _ none => none
  | .insertGetId q values (some column) =>
    match d.insertReturningStatement q values (some column) with
    | .ok s => some (.write, s)
    | .error _ => none
  | .exists q => some (.read, d.existsStatement q)

def Call.about (c : Call) : Connection × Statement := (c.connection, ⟨c.sql, c.bindings⟩)

def Response.error? : Response → Option Error
  | .identifier (.error e) => some e
  | .existence (.error e) => some e
  | _ => none

section Step

variable {d : Dialect} {executor : Executor} {j j' : Journal} {request : Request} {response : Response}

theorem serve_insertGetId {q : Query} {column : String} {values : InsertValues} {s : Statement}
    (h : d.insertReturningStatement q values (some column) = .ok s) (executor : Executor) (j : Journal) :
    serve d executor j (.insertGetId q values (some column)) =
      (.identifier (executor (j.writeCall s) >>= identifierOf column),
        ⟨j.calls ++ [j.writeCall s], j.modified + 1⟩) := by
  rw [serve, insertGetId, h]
  rfl

theorem serve_exists (d : Dialect) (executor : Executor) (j : Journal) (q : Query) :
    serve d executor j (.exists q) =
      (.existence ((executor (j.readCall (d.existsStatement q))).map saysYes),
        ⟨j.calls ++ [j.readCall (d.existsStatement q)], j.modified⟩) := rfl

/-- **Every request ends in one of the listed ways.** -/
theorem served_serve (d : Dialect) (executor : Executor) (j : Journal) (request : Request) :
    Served d executor j request (serve d executor j request).1 (serve d executor j request).2 := by
  obtain q | ⟨q, values, _ | column⟩ | q := request
  · exact .compiled q
  · exact .unnamed q values
  · cases statement : d.insertReturningStatement q values (some column) with
    | error e =>
      rw [serve, insertGetId, statement]
      exact .unwritten statement
    | ok s =>
      rw [serve_insertGetId statement]
      rcases answer : executor (j.writeCall s) with e | (_ | ⟨row, rows⟩)
      · exact .notInserted statement answer
      · exact .noRow statement answer
      · cases value : row.get? column with
        | none =>
          have missing : identifierOf column (row :: rows) = .error (.missingColumn column) := by
            rw [identifierOf, value]
          show Served d executor j _ (.identifier (identifierOf column (row :: rows))) _
          rw [missing]
          exact .noColumn statement answer value
        | some v =>
          have found : identifierOf column (row :: rows) = .ok (normalizeIdentifier v) := by
            rw [identifierOf, value]
          show Served d executor j _ (.identifier (identifierOf column (row :: rows))) _
          rw [found]
          exact .inserted statement answer value
  · rw [serve_exists]
    cases answer : executor (j.readCall (d.existsStatement q)) with
    | error e => exact .notChecked answer
    | ok rows => exact .checked answer

/-- **A request makes the call that it asks for, and no other.** -/
theorem Served.calls_eq (h : Served d executor j request response j') :
    j'.calls.map Call.about = j.calls.map Call.about ++ (request.call? d).toList := by
  cases h with
  | compiled q => simp [Request.call?]
  | unnamed q values => simp [Request.call?]
  | unwritten statement => simp [Request.call?, statement]
  | notInserted statement _ | noRow statement _ | noColumn statement _ _ | inserted statement _ _ =>
    simp [Request.call?, statement, Journal.writeCall, Call.about]
  | notChecked _ | checked _ => simp [Request.call?, Journal.readCall, Call.about]

/-- The write calls know of 1, 2, 3, … modifications, one for each of them. -/
def Journal.Flagged (j : Journal) : Prop := j.writes.map Call.modified = List.range' 1 j.modified

theorem Journal.Flagged.write (h : j.Flagged) (s : Statement) :
    Journal.Flagged ⟨j.calls ++ [j.writeCall s], j.modified + 1⟩ := by
  have writes : Journal.writes ⟨j.calls ++ [j.writeCall s], j.modified + 1⟩ = j.writes ++ [j.writeCall s] := by
    simp [Journal.writes, Journal.writeCall]
  rw [Flagged, writes, List.map_append, h, List.range'_concat]
  simp [Journal.writeCall, Nat.add_comm]

theorem Journal.Flagged.read (h : j.Flagged) (s : Statement) :
    Journal.Flagged ⟨j.calls ++ [j.readCall s], j.modified⟩ := by
  have writes : Journal.writes ⟨j.calls ++ [j.readCall s], j.modified⟩ = j.writes := by
    simp [Journal.writes, Journal.readCall]
  rw [Flagged, writes]
  exact h

theorem Served.flagged (h : Served d executor j request response j') (hj : j.Flagged) : j'.Flagged := by
  cases h with
  | compiled _ | unnamed _ _ | unwritten _ => exact hj
  | notInserted _ _ | noRow _ _ | noColumn _ _ _ | inserted _ _ _ => exact hj.write _
  | notChecked _ | checked _ => exact hj.read _

/-- **A failure of the executor is the response, unchanged.** -/
theorem Served.error?_eq (h : Served d executor j request response j') {c : Call} {e : Error}
    (made : j'.calls = j.calls ++ [c]) (fails : executor c = .error e) : response.error? = some e := by
  cases h with
  | compiled _ | unnamed _ _ | unwritten _ =>
    -- no call was made
    simp at made
  | notInserted _ answer | notChecked answer =>
    obtain rfl := List.singleton_inj.1 (List.append_cancel_left made)
    rw [answer] at fails
    exact congrArg some (Except.error.inj fails)
  | noRow _ answer | noColumn _ answer _ | inserted _ answer _ | checked answer =>
    -- the executor did not fail
    obtain rfl := List.singleton_inj.1 (List.append_cancel_left made)
    rw [answer] at fails
    cases fails

end Step

/-! ## A run of requests -/

section Run

variable (d : Dialect)

def journalAfter (run : List (Executor × Request)) (j : Journal) (n : Nat) : Journal :=
  (serveAll d (run.take n) j).2

/-- **Each request of a run is served with the journal of those before it.** -/
theorem served_serveAll {run : List (Executor × Request)} {i : Nat} {executor : Executor} {request : Request}
    (h : run[i]? = some (executor, request)) (j : Journal) :
    ∃ response, (serveAll d run j).1[i]? = some response ∧
      Served d executor (journalAfter d run j i) request response (journalAfter d run j (i + 1)) := by
  induction run generalizing i j with
  | nil => simp at h
  | cons first rest ih =>
    cases i with
    | zero =>
      obtain rfl : first = (executor, request) := by simpa using h
      exact ⟨(serve d executor j request).1, rfl, served_serve d executor j request⟩
    | succ i => exact ih h (serve d first.1 j first.2).2

theorem length_serveAll (run : List (Executor × Request)) (j : Journal) :
    (serveAll d run j).1.length = run.length := by
  induction run generalizing j with
  | nil => rfl
  | cons first rest ih => exact congrArg (· + 1) (ih (serve d first.1 j first.2).2)

/-- **A run makes the calls that its requests ask for**, once each and in their order. -/
theorem calls_serveAll (run : List (Executor × Request)) (j : Journal) :
    (serveAll d run j).2.calls.map Call.about =
      j.calls.map Call.about ++ run.filterMap fun step => step.2.call? d := by
  induction run generalizing j with
  | nil => simp [serveAll]
  | cons first rest ih =>
    have step := (served_serve d first.1 j first.2).calls_eq
    have later := ih (serve d first.1 j first.2).2
    show (serveAll d rest (serve d first.1 j first.2).2).2.calls.map Call.about = _
    rw [later, step, List.append_assoc, List.filterMap_cons]
    cases first.2.call? d <;> rfl

theorem flagged_serveAll (run : List (Executor × Request)) {j : Journal} (h : j.Flagged) :
    (serveAll d run j).2.Flagged := by
  induction run generalizing j with
  | nil => exact h
  | cons first rest ih => exact ih ((served_serve d first.1 j first.2).flagged h)

theorem Dialect.bindings_insertReturningStatement {d : Dialect} {q : Query} {values : InsertValues}
    {returned : Option String} {s : Statement} (h : d.insertReturningStatement q values returned = .ok s) :
    s.bindings = cleanBindings values.flatten := by
  rw [Dialect.insertReturningStatement] at h
  cases sql : d.insertReturning q values returned with
  | error e =>
    rw [sql] at h
    cases h
  | ok text =>
    rw [sql] at h
    obtain rfl := Except.ok.inj h
    rfl

theorem Dialect.Standard.exists_insertReturningStatement {d : Dialect} (hd : d.Standard) (q : Query)
    (values : InsertValues) (column : String) :
    ∃ s, d.insertReturningStatement q values (some column) = .ok s := by
  cases hd with
  | firebird settings => exact ⟨_, rfl⟩
  | mainstream settings quote placeholder => exact ⟨_, rfl⟩

/-- **What an executor is told over a whole run**, in any dialect and whatever it answers. Each request ends
in one of the ways of `Served`, and a failure of the executor is its response. The modified count is the
number of write calls, the n-th of which knows of n, and each request makes only the call that it asks for,
once. An insert that names a column asks for one where its dialect has a statement for it, as every standard
dialect has; the bindings of the call are the values to insert, less the raw ones. -/
theorem serveAll_protocol (run : List (Executor × Request)) :
    let journal := (serveAll d run {}).2
    (serveAll d run {}).1.length = run.length ∧
    (∀ i executor request, run[i]? = some (executor, request) →
      ∃ response, (serveAll d run {}).1[i]? = some response ∧
        Served d executor (journalAfter d run {} i) request response (journalAfter d run {} (i + 1)) ∧
        ∀ c e, (journalAfter d run {} (i + 1)).calls = (journalAfter d run {} i).calls ++ [c] →
          executor c = .error e → response.error? = some e) ∧
    journal.modified = journal.writes.length ∧
    (∀ n c, journal.writes[n]? = some c → c.modified = n + 1) ∧
    journal.calls.map Call.about = (run.filterMap fun step => step.2.call? d) ∧
    (∀ q values column s, d.insertReturningStatement q values (some column) = .ok s →
      s.bindings = cleanBindings values.flatten) ∧
    (d.Standard → ∀ q values column, ∃ s, d.insertReturningStatement q values (some column) = .ok s) := by
  intro journal
  have flagged : journal.writes.map Call.modified = List.range' 1 journal.modified :=
    flagged_serveAll d run rfl
  have count : journal.modified = journal.writes.length := by simpa using (congrArg List.length flagged).symm
  refine ⟨length_serveAll d run {}, fun i executor request h => ?_, count, fun n c h => ?_,
    calls_serveAll d run {}, fun q values column s => Dialect.bindings_insertReturningStatement,
    fun hd q values column => hd.exists_insertReturningStatement q values column⟩
  · obtain ⟨response, answered, served⟩ := served_serveAll d h {}
    exact ⟨response, answered, served, fun c e made fails => served.error?_eq made fails⟩
  · obtain ⟨bound, -⟩ := List.getElem?_eq_some_iff.1 h
    have place : (List.range' 1 journal.modified)[n]? = some c.modified := by
      rw [← flagged, List.getElem?_map, h]
      rfl
    rw [List.getElem?_range' (count ▸ bound)] at place
    have known := Option.some.inj place
    omega

end Run

/-- Four requests in the mainstream dialect, which would return `id` by itself: an insert without a column
is refused all the same, one insert fails, the next one is answered, and a check finds a row. -/
theorem serveAll_protocol_of_failure :
    let d := Dialect.generic {}
    let refuses : Executor := fun _ => .error (.execution "no such table")
    let answers : Executor := fun c => .ok [⟨[("ID", .string "7"), ("exists", .int c.modified.toInt64)]⟩]
    let q : Query := { table := "t" }
    let v : InsertValues := .single ⟨[("name", .string "Ann"), ("at", .raw "now()")], by simp⟩
    let run : List (Executor × Request) :=
      [(refuses, .insertGetId q v none), (refuses, .insertGetId q v (some "id")),
        (answers, .insertGetId q v (some "id")), (answers, .exists q)]
    let insert := "insert into \"t\" (\"name\", \"at\") values (?, now()) returning \"id\""
    let check := "select exists(select * from \"t\") as \"exists\""
    let journal := (serveAll d run {}).2
    d.insertReturning q v none = .ok insert ∧
    (serveAll d run {}).1.map Response.error? =
      [some .missingReturningColumn, some (.execution "no such table"), none, none] ∧
    journal.calls = [⟨.write, insert, [.string "Ann"], 1⟩, ⟨.write, insert, [.string "Ann"], 2⟩,
      ⟨.read, check, [], 2⟩] ∧
    journal.modified = journal.writes.length ∧
    ∃ s, d.insertReturningStatement q v (some "id") = .ok s ∧ s.bindings = cleanBindings v.flatten := by
  intro d refuses answers q v run insert check journal
  obtain ⟨-, -, count, -, -, bindings, statement⟩ := serveAll_protocol d run
  obtain ⟨s, statement⟩ := statement (Dialect.standard_generic {}) q v "id"
  exact ⟨by decide, by decide, by decide, count, s, statement, bindings q v "id" s statement⟩

/-- A dialect that refuses to return a column. Its error is the response, and nothing is flagged or called,
though a column is named: not every dialect makes a call for such an insert. -/
theorem serveAll_of_refusal :
    let e : Error := .configuration "no returning clause"
    let d : Dialect := { Dialect.generic {} with insertReturning := fun _ _ _ => .error e }
    let answers : Executor := fun _ => .ok [⟨[("id", .int 7)]⟩]
    let v : InsertValues := .single ⟨[("name", .string "Ann")], by simp⟩
    let run : List (Executor × Request) := [(answers, .insertGetId { table := "t" } v (some "id"))]
    (serveAll d run {}).1.map Response.error? = [some e] ∧
    (serveAll d run {}).2 = {} ∧
    ¬ ∀ (d : Dialect) (executor : Executor) (j : Journal) (q : Query) (values : InsertValues) (column : String),
      ∃ c, (serve d executor j (.insertGetId q values (some column))).2 =
        ⟨j.calls ++ [c], j.modified + 1⟩ := by
  intro e d answers v run
  have refused : (serveAll d run {}).1.map Response.error? = [some e] := by decide
  have silent : (serveAll d run {}).2 = {} := by decide
  refine ⟨refused, silent, fun calls => ?_⟩
  obtain ⟨c, call⟩ := calls d answers {} { table := "t" } v "id"
  have flagged : (serveAll d run {}).2.modified = 1 := congrArg Journal.modified call
  rw [silent] at flagged
  cases flagged

end SqlGrammar
