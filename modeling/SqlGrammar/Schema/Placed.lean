import SqlGrammar.Json.Outline
import SqlGrammar.Schema.Mismatch

/-!
Readings of which the first fault counts. The members of a record may come in any order and each is
read by itself; when several of them are at fault, the one that stands first in the text is
reported. A reading therefore says at which place its fault stands, and of two faulty readings the
earlier fault wins. Main statement: two readings together succeed exactly when both do.
-/

namespace SqlGrammar.Schema

open Json

/-- A reading, or a fault at a place of the text. -/
inductive Placed (α : Type) where
  | ok (a : α)
  | fault (place : Nat) (error : ReadError)

namespace Placed

variable {α β γ : Type}

def map (f : α → β) : Placed α → Placed β
  | ok a => ok (f a)
  | fault i e => fault i e

/-- Two readings: the earlier fault wins, of two faults at one place that of the first reading. -/
def both : Placed α → Placed β → Placed (α × β)
  | ok a, ok b => ok (a, b)
  | ok _, fault j f => fault j f
  | fault i e, ok _ => fault i e
  | fault i e, fault j f => if j < i then fault j f else fault i e

instance : Applicative Placed where
  pure := ok
  map := map
  seq f x := (both f (x ())).map fun (g, a) => g a

def result : Placed α → Except ReadError α
  | ok a => .ok a
  | fault _ e => .error e

def here (i : Nat) : Except ReadError α → Placed α
  | .ok a => ok a
  | .error e => fault i e

/-- A look at the text at a place. -/
def look (i : Nat) : Except Fault α → Placed α
  | .ok a => ok a
  | .error f => fault i (.malformed f)

theorem both_eq_ok_iff {x : Placed α} {y : Placed β} {a : α} {b : β} :
    both x y = ok (a, b) ↔ x = ok a ∧ y = ok b := by
  cases x <;> cases y <;> simp [both]
  split <;> simp

end Placed

/-- The members of a record or the items of a list that stands for one. -/
inductive Source (ρ : Type)
  | named (members : List (String × ρ))
  /-- The items in the order of the fields; `form` names what the list stands for. -/
  | listed (items : List ρ) (form : String)

/-- The first member with a name, and its place. -/
def firstNamed? {ρ : Type} (name : String) : List (String × ρ) → Option (Nat × ρ)
  | [] => none
  | (k, v) :: r =>
    if k = name then some (0, v) else (firstNamed? name r).map fun (i, v) => (i + 1, v)

/-- Reads the field with a number and a name. A field that is absent takes its default, if it has
one; a field that is given twice is at fault where it stands the second time. -/
def field {ρ α : Type} (number : Nat) (name : String) (read : ρ → Except ReadError α)
    (default? : Option α) : Source ρ → Placed α
  | .named members =>
    match firstNamed? name members with
    | none => match default? with
      | some a => .ok a
      | none => .fault (members.length + 1) (.mismatch (.missing name))
    | some (i, v) =>
      match firstNamed? name (members.drop (i + 1)), Placed.here i (read v) with
      | some (j, _), .ok _ => .fault (i + 1 + j) (.mismatch (.duplicate name))
      | _, x => x
  | .listed items form =>
    match items[number]? with
    | some v => Placed.here number (read v)
    | none => match default? with
      | some a => .ok a
      | none => .fault (items.length + 1) (.mismatch (.length number form))

/-- Reads all values of a list, up to the first fault. -/
def readAll {ρ α : Type} (read : ρ → Except ReadError α) : List ρ → Except ReadError (List α)
  | [] => .ok []
  | x :: xs => do
    let a ← read x
    let as ← readAll read xs
    return a :: as

end SqlGrammar.Schema
