import SqlGrammar.Double.Basic

/-!
TOML data, and how a document of it grows. A table remembers how it came to be, since that decides
what may be added to it: a table with a header of its own or between braces is complete, one that
was only passed through on the way to another may still get its header, and one made by a dotted key
may get more dotted keys. Entries keep the order in which they were added.
-/

namespace SqlGrammar

/-- How a table came to be. -/
inductive Toml.Origin
  /-- By a header of its own. -/
  | header
  /-- On the way to a table with a longer header. -/
  | passed
  /-- By a dotted key. -/
  | dotted
  /-- Between braces. -/
  | braces
  deriving DecidableEq

/-- TOML data. Of a date or a time only that it is one is kept. -/
inductive Toml
  | string (s : String)
  | integer (n : Int)
  | float (d : Double)
  | boolean (b : Bool)
  | moment
  | array (items : List Toml)
  | table (origin : Toml.Origin) (entries : List (String × Toml))
  /-- Tables that each have a header in double brackets. -/
  | tables (items : List Toml)

namespace Toml

abbrev Entries := List (String × Toml)

namespace Entries

def replace (key : String) (value : Toml) : Entries → Entries
  | [] => []
  | (k, v) :: r => if k = key then (k, value) :: r else (k, v) :: replace key value r

/-- Adds a key that is not there yet. -/
def add? (key : String) (value : Toml) (entries : Entries) : Option Entries :=
  if (entries.lookup key).isSome then none else some (entries ++ [(key, value)])

/-- Changes the table at the end of a path, making the tables that are not there. Of tables in
double brackets the path leads into the last one. Dotted keys lead only into tables that are still
open to them. -/
def change? (byDots : Bool) (f : Origin → Entries → Option Entries) (origin : Origin)
    (entries : Entries) : List String → Option Entries
  | [] => f origin entries
  | key :: path =>
    match entries.lookup key with
    | none => do
      let made : Origin := if byDots then .dotted else .passed
      let inner ← change? byDots f made [] path
      return entries ++ [(key, .table made inner)]
    | some (.table o inner) =>
      if o = .braces ∨ (byDots ∧ o = .header) then none
      else do
        let inner ← change? byDots f o inner path
        return entries.replace key (.table o inner)
    | some (.tables items) =>
      match items.reverse with
      | .table o inner :: earlier => do
        let inner ← change? byDots f o inner path
        return entries.replace key (.tables (earlier.reverse ++ [.table o inner]))
      | _ => none
    | some _ => none

/-- Gives a dotted key a value. The table that the dots lead to must have been made by dots. -/
def assign? (path : List String) (key : String) (value : Toml) (entries : Entries) :
    Option Entries :=
  change? true
    (fun origin inner =>
      if path ≠ [] ∧ origin ≠ .dotted then none else inner.add? key value)
    .header entries path

/-- Opens the table of a header. A table that was only passed through so far moves to the end. -/
def openTable? (key : String) (entries : Entries) : Option Entries :=
  match entries.lookup key with
  | none => some (entries ++ [(key, .table .header [])])
  | some (.table .passed inner) =>
    some (entries.filter (fun e => e.1 ≠ key) ++ [(key, .table .header inner)])
  | some _ => none

/-- Opens one more table of a header in double brackets. -/
def pushTable? (key : String) (entries : Entries) : Option Entries :=
  match entries.lookup key with
  | none => some (entries ++ [(key, .tables [.table .header []])])
  | some (.tables items) => some (entries.replace key (.tables (items ++ [.table .header []])))
  | some _ => none

end Entries

end Toml

end SqlGrammar
