import SqlGrammar.Value

/-!
Predicates: tests joined by connectives, and groups of predicates. `Predicate.bindings` lists what a
predicate binds, in the order of its placeholders.
-/

namespace SqlGrammar

/-- How a predicate joins the one before it. -/
inductive Connective
  | and
  | or
  deriving DecidableEq, Inhabited

def Connective.word : Connective → String
  | .and => "and"
  | .or => "or"

inductive Test
  /-- `column operator value` -/
  | compare (column operator : String) (value : Value)
  /-- `first operator second`, both columns. -/
  | columns (first operator second : String)
  /-- `column [not] in (values)` -/
  | oneOf (column : String) (values : List Value) (negated : Bool)
  /-- `column is [not] null` -/
  | isNull (column : String) (negated : Bool)
  /-- `column [not] between low and high` -/
  | between (column : String) (low high : Value) (negated : Bool)
  /-- SQL as it stands, with the values of its own placeholders. -/
  | raw (sql : String) (bindings : List Value)
  deriving DecidableEq

namespace Test

/-- The values of a test, in the order of its placeholders. -/
def bindings : Test → List Value
  | compare _ _ v => [v]
  | columns .. => []
  | oneOf _ vs _ => vs
  | isNull .. => []
  | between _ low high _ => [low, high]
  | raw _ vs => vs

/-- The opposite test, for the tests that have one; the others stay as they are. -/
def negate : Test → Test
  | oneOf c vs n => oneOf c vs (!n)
  | isNull c n => isNull c (!n)
  | between c low high n => between c low high (!n)
  | t => t

end Test

/-- A predicate of a where, having or on clause. -/
inductive Predicate
  | test (connective : Connective) (test : Test)
  | group (connective : Connective) (members : List Predicate)

namespace Predicate

def connective : Predicate → Connective
  | test c _ => c
  | group c _ => c

def or : Predicate → Predicate
  | test _ t => test .or t
  | group _ ps => group .or ps

/-- The predicate with its test negated; a group stays as it is. -/
def not : Predicate → Predicate
  | test c t => test c t.negate
  | group c ps => group c ps

mutual

def bindings : Predicate → List Value
  | test _ t => t.bindings
  | group _ ps => listBindings ps

def listBindings : List Predicate → List Value
  | [] => []
  | p :: ps => p.bindings ++ listBindings ps

end

theorem listBindings_eq_flatMap (ps : List Predicate) : listBindings ps = ps.flatMap bindings := by
  induction ps with
  | nil => rfl
  | cons p ps ih => simp [listBindings, ih]

mutual

def same : Predicate → Predicate → Bool
  | test c t, test c' t' => c == c' && t == t'
  | group c ps, group c' ps' => c == c' && sameList ps ps'
  | _, _ => false

def sameList : List Predicate → List Predicate → Bool
  | [], [] => true
  | p :: ps, q :: qs => p.same q && sameList ps qs
  | _, _ => false

end

mutual

theorem same_iff : ∀ p q : Predicate, p.same q ↔ p = q
  | test c t, test c' t' => by simp [same]
  | group c ps, group c' ps' => by simp [same, sameList_iff ps ps']
  | test .., group .. => by simp [same]
  | group .., test .. => by simp [same]

theorem sameList_iff : ∀ ps qs : List Predicate, sameList ps qs ↔ ps = qs
  | [], [] => by simp [sameList]
  | p :: ps, q :: qs => by simp [sameList, same_iff p q, sameList_iff ps qs]
  | [], _ :: _ => by simp [sameList]
  | _ :: _, [] => by simp [sameList]

end

instance : DecidableEq Predicate := fun p q => decidable_of_iff (p.same q) (same_iff p q)

end Predicate

end SqlGrammar
