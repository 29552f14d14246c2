import Mathlib.Data.List.Basic
import SqlGrammar.Query.Build
import SqlGrammar.Schema.Query
import SqlGrammar.Sql.Statement

/-!
What a list of steps builds. Each step speaks of one clause of the query (`Step.clause`), and a clause is of
one of two kinds:

1. joins, filters, groups, havings and sort keys are kept, all of them in the order of their steps
   (`Clause.Kept`, `appended_build`);
2. columns, limit, offset and aggregate are replaced, so the last step wins (`Clause.Replaced`,
   `replaced_build`).

Both are inductions on the list from what one step does. Together they give the whole query
(`built_build`), each clause from the steps that speak of it. So two lists that differ only in how the
clauses are interleaved build one query (`build_of_sameOrder`).
-/

namespace SqlGrammar.Query

inductive Clause
  | columns
  | distinct
  | limit
  | offset
  | aggregate
  | joins
  | filters
  | groups
  | havings
  | orders
  deriving DecidableEq

/-- What one step says of a clause. -/
def Clause.Content : Clause → Type
  | columns => List String
  | distinct => Unit
  | limit => UInt64
  | offset => UInt64
  | aggregate => Aggregate
  | joins => Join
  | filters => Predicate
  | groups => String
  | havings => Predicate
  | orders => Order

namespace Step

def clause : Step → Clause
  | columns _ => .columns
  | distinct => .distinct
  | limit _ => .limit
  | offset _ => .offset
  | aggregate _ => .aggregate
  | join _ => .joins
  | filter _ => .filters
  | groupBy _ => .groups
  | having _ => .havings
  | orderBy _ => .orders

def content : (s : Step) → s.clause.Content
  | columns cs => cs
  | distinct => ()
  | limit n => n
  | offset n => n
  | aggregate a => a
  | join j => j
  | filter p => p
  | groupBy c => c
  | having p => p
  | orderBy o => o

/-- What a step says of a clause, if it speaks of it. -/
def said (c : Clause) (s : Step) : Option c.Content :=
  if h : s.clause = c then some (h ▸ s.content) else none

theorem said_of_ne {c : Clause} {s : Step} (h : s.clause ≠ c) : s.said c = none := dif_neg h

end Step

def Clause.said (c : Clause) (steps : List Step) : List c.Content := steps.filterMap (Step.said c)

/-! ## One step -/

/-- What a step says of the clause goes to its end. -/
def Clause.Kept (c : Clause) (get : Query → List c.Content) : Prop :=
  ∀ (q : Query) (s : Step), get (q.step s) = get q ++ (s.said c).toList

/-- What a step says of the clause takes its place. -/
def Clause.Replaced (c : Clause) (get : Query → Option c.Content) : Prop :=
  ∀ (q : Query) (s : Step), get (q.step s) = (s.said c).or (get q)

theorem kept_clauses : Clause.joins.Kept joins ∧ Clause.filters.Kept filters ∧ Clause.groups.Kept groups ∧
    Clause.havings.Kept havings ∧ Clause.orders.Kept orders := by
  refine ⟨?_, ?_, ?_, ?_, ?_⟩
  all_goals
    intro q s
    cases s
    all_goals first | rfl | exact (List.append_nil _).symm

theorem replaced_clauses : Clause.columns.Replaced (fun q => some q.columns) ∧ Clause.limit.Replaced limit ∧
    Clause.offset.Replaced offset ∧ Clause.aggregate.Replaced aggregate := by
  refine ⟨?_, ?_, ?_, ?_⟩
  all_goals
    intro q s
    cases s <;> rfl

/-! ## From one step to all of them -/

section Runs

variable {c : Clause}

theorem build_cons (q : Query) (s : Step) (steps : List Step) :
    q.build (s :: steps) = (q.step s).build steps := rfl

theorem appended_build {get : Query → List c.Content} (h : c.Kept get) (q : Query) (steps : List Step) :
    get (q.build steps) = get q ++ c.said steps := by
  induction steps generalizing q with
  | nil => exact (List.append_nil _).symm
  | cons s rest ih =>
    have added : (s.said c).toList ++ c.said rest = c.said (s :: rest) := by
      rw [Clause.said, Clause.said, List.filterMap_cons]
      cases s.said c <;> rfl
    calc get (q.build (s :: rest)) = get (q.step s) ++ c.said rest := by rw [build_cons, ih]
      _ = get q ++ ((s.said c).toList ++ c.said rest) := by rw [h, List.append_assoc]
      _ = get q ++ c.said (s :: rest) := by rw [added]

theorem replaced_build {get : Query → Option c.Content} (h : c.Replaced get) (q : Query)
    (steps : List Step) : get (q.build steps) = (c.said steps).getLast?.or (get q) := by
  induction steps generalizing q with
  | nil => rfl
  | cons s rest ih =>
    have last : (c.said (s :: rest)).getLast? = (c.said rest).getLast?.or (s.said c) := by
      rw [Clause.said, List.filterMap_cons]
      cases s.said c with
      | none => exact Option.or_none.symm
      | some x => exact List.getLast?_cons.trans Option.or_some.symm
    calc get (q.build (s :: rest)) = (c.said rest).getLast?.or (get (q.step s)) := by rw [build_cons, ih]
      _ = ((c.said rest).getLast?.or (s.said c)).or (get q) := by rw [h, Option.or_assoc]
      _ = (c.said (s :: rest)).getLast?.or (get q) := by rw [last]

end Runs

theorem table_build (q : Query) (steps : List Step) : (q.build steps).table = q.table := by
  induction steps generalizing q with
  | nil => rfl
  | cons s rest ih =>
    rw [build_cons, ih]
    cases s <;> rfl

theorem distinct_build (q : Query) (steps : List Step) :
    (q.build steps).distinct = true ↔ q.distinct = true ∨ Step.distinct ∈ steps := by
  induction steps generalizing q with
  | nil => simp [build]
  | cons s rest ih =>
    rw [build_cons, ih, List.mem_cons]
    cases s <;> simp [step]

/-- A query as steps make it from a table alone, clause by clause. -/
structure Built (table : String) (steps : List Step) (q : Query) : Prop where
  table : q.table = table
  columns : q.columns = (Clause.columns.said steps).getLast?.getD []
  distinct : q.distinct = true ↔ Step.distinct ∈ steps
  limit : q.limit = (Clause.limit.said steps).getLast?
  offset : q.offset = (Clause.offset.said steps).getLast?
  aggregate : q.aggregate = (Clause.aggregate.said steps).getLast?
  joins : q.joins = Clause.joins.said steps
  filters : q.filters = Clause.filters.said steps
  groups : q.groups = Clause.groups.said steps
  havings : q.havings = Clause.havings.said steps
  orders : q.orders = Clause.orders.said steps

section Built

variable (table : String) (steps : List Step)

theorem kept_build {c : Clause} {get : Query → List c.Content} (h : c.Kept get)
    (empty : get { table := table } = []) :
    get (({ table := table } : Query).build steps) = c.said steps := by
  rw [appended_build h, empty, List.nil_append]

theorem last_build {c : Clause} {get : Query → Option c.Content} (h : c.Replaced get)
    (empty : get { table := table } = none) :
    get (({ table := table } : Query).build steps) = (c.said steps).getLast? := by
  rw [replaced_build h, empty, Option.or_none]

/-- **Every clause is built from the steps that speak of it.** -/
theorem built_build : Built table steps (({ table := table } : Query).build steps) := by
  obtain ⟨joins, filters, groups, havings, orders⟩ := kept_clauses
  obtain ⟨columns, limit, offset, aggregate⟩ := replaced_clauses
  exact
  { table := table_build _ steps
    columns := Option.some.inj ((replaced_build columns { table := table } steps).trans Option.or_some)
    distinct := by simp [distinct_build]
    limit := last_build table steps limit rfl
    offset := last_build table steps offset rfl
    aggregate := last_build table steps aggregate rfl
    joins := kept_build table steps joins rfl
    filters := kept_build table steps filters rfl
    groups := kept_build table steps groups rfl
    havings := kept_build table steps havings rfl
    orders := kept_build table steps orders rfl }

end Built

/-! ## Interleaving -/

/-- For each clause the steps that speak of it are the same in both lists, in the same order. -/
def SameOrder (a b : List Step) : Prop :=
  ∀ c : Clause, a.filter (fun s => s.clause = c) = b.filter fun s => s.clause = c

theorem said_filter (c : Clause) (steps : List Step) :
    c.said (steps.filter fun s => s.clause = c) = c.said steps := by
  rw [Clause.said, List.filterMap_filter]
  apply List.filterMap_congr
  intro s _
  by_cases hc : s.clause = c
  · rw [if_pos (decide_eq_true hc)]
  · rw [if_neg (by simpa using hc), Step.said_of_ne hc]

section SameOrder

variable {a b : List Step} (h : SameOrder a b)

include h

theorem SameOrder.said_eq (c : Clause) : c.said b = c.said a := by
  rw [← said_filter c b, ← h c, said_filter]

theorem SameOrder.mem_iff (s : Step) : s ∈ b ↔ s ∈ a := by
  have own (steps : List Step) : s ∈ steps.filter (fun t => t.clause = s.clause) ↔ s ∈ steps := by
    rw [List.mem_filter]
    simp
  rw [← own b, ← h s.clause, own a]

end SameOrder

attribute [ext] Query

theorem Built.eq {table : String} {a b : List Step} {q q' : Query} (hq : Built table a q)
    (hq' : Built table b q') (h : SameOrder a b) : q' = q := by
  apply Query.ext
  · rw [hq'.table, hq.table]
  · rw [hq'.columns, hq.columns, h.said_eq]
  · rw [hq'.aggregate, hq.aggregate, h.said_eq]
  · rw [Bool.eq_iff_iff, hq'.distinct, hq.distinct, h.mem_iff]
  · rw [hq'.limit, hq.limit, h.said_eq]
  · rw [hq'.offset, hq.offset, h.said_eq]
  · rw [hq'.joins, hq.joins, h.said_eq]
  · rw [hq'.filters, hq.filters, h.said_eq]
  · rw [hq'.groups, hq.groups, h.said_eq]
  · rw [hq'.havings, hq.havings, h.said_eq]
  · rw [hq'.orders, hq.orders, h.said_eq]

/-- **Only the order within a clause matters.** Two lists of steps that agree on each clause build one query,
however the clauses are interleaved, so it has one text and one list of bindings in every dialect and one
JSON text. Its joins, filters, groups, havings and sort keys are all that the steps say of them, in order; of
its columns, limit, offset and aggregate the last one said. -/
theorem build_of_sameOrder (table : String) {a b : List Step} (h : SameOrder a b) :
    let q := ({ table := table } : Query).build a
    let q' := ({ table := table } : Query).build b
    q' = q ∧
    (∀ d : Dialect,
      d.selectStatement q' = d.selectStatement q ∧ d.existsStatement q' = d.existsStatement q) ∧
    q'.toJson.text = q.toJson.text ∧ Built table a q := by
  intro q q'
  have built : Built table a q := built_build table a
  have same : q' = q := built.eq (built_build table b) h
  refine ⟨same, fun d => ⟨?_, ?_⟩, ?_, built⟩
  · rw [same]
  · rw [same]
  · rw [same]

/-- A having before the filters, paging and columns said twice, and the same steps in another order. -/
theorem build_of_sameOrder_of_shuffle :
    let big : Predicate := .test .and (.compare "total" ">" (.int 3))
    let active : Predicate := .test .and (.compare "active" "=" (.bool true))
    let absent : Predicate := .test .or (.isNull "gone" false)
    let a : List Step := [.having big, .limit 5, .filter active, .columns ["a"], .distinct, .filter absent,
      .limit 7, .columns ["b", "c"], .orderBy (.raw "1")]
    let b : List Step := [.columns ["a"], .columns ["b", "c"], .distinct, .filter active, .filter absent,
      .having big, .orderBy (.raw "1"), .limit 5, .limit 7]
    let q := ({ table := "t" } : Query).build a
    SameOrder a b ∧ ({ table := "t" } : Query).build b = q ∧
      q.bindings = [.bool true, .int 3] ∧ q.columns = ["b", "c"] ∧ q.limit = some 7 ∧
      q.filters = [active, absent] := by
  intro big active absent a b q
  have order : SameOrder a b := by
    intro c
    cases c <;> rfl
  obtain ⟨same, -, -, built⟩ := build_of_sameOrder "t" order
  exact ⟨order, same, by decide, built.columns, built.limit, built.filters⟩

end SqlGrammar.Query
