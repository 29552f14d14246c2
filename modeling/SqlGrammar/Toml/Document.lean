import SqlGrammar.Toml.Token

/-!
TOML documents: values, key-value lines and table headers, one after the other, put together into
one table.
-/

namespace SqlGrammar.Toml

/-! ## Values -/

mutual

/-- A value, with `room` levels of brackets left. The fuel bounds the steps. -/
def value? (room : Nat) : Nat → List Char → Option (Toml × List Char)
  | 0, _ => none
  | fuel + 1, s =>
    match s with
    | '[' :: r =>
      match room with
      | 0 => none
      | room + 1 =>
        match skipLines r.length r with
        | ']' :: r => some (.array [], r)
        | r => (items? room fuel r).map fun (vs, r) => (.array vs, r)
    | '\x7b' :: r =>
      match room with
      | 0 => none
      | room + 1 =>
        match skipBlanks r with
        | '\x7d' :: r => some (.table .braces [], r)
        | r => (pairs? room fuel [] r).map fun (es, r) => (.table .braces es, r)
    | 't' :: 'r' :: 'u' :: 'e' :: r => some (.boolean true, r)
    | 'f' :: 'a' :: 'l' :: 's' :: 'e' :: r => some (.boolean false, r)
    | 'i' :: 'n' :: 'f' :: r => some (.float .infinity, r)
    | 'n' :: 'a' :: 'n' :: r => some (.float .nan, r)
    | c :: r =>
      if c = '"' ∨ c = '\'' then (string? (c :: r)).map fun (s, r) => (.string s, r)
      else if c = '+' ∨ c = '-' ∨ c.isDigit then numeric? (c :: r)
      else none
    | [] => none

/-- The values of an array from a value on up to the end, a comma allowed after the last one. -/
def items? (room : Nat) : Nat → List Char → Option (List Toml × List Char)
  | 0, _ => none
  | fuel + 1, s => do
    let (v, r) ← value? room fuel s
    match skipLines r.length r with
    | ']' :: r => return ([v], r)
    | ',' :: r =>
      match skipLines r.length r with
      | ']' :: r => return ([v], r)
      | r => do
        let (vs, r) ← items? room fuel r
        return (v :: vs, r)
    | _ => none

/-- The pairs between braces up to the end, added to the entries that there are. -/
def pairs? (room : Nat) : Nat → Entries → List Char → Option (Entries × List Char)
  | 0, _, _ => none
  | fuel + 1, entries, s => do
    let (path, r) ← path? s
    let r ← expect? '=' r
    let (v, r) ← value? room fuel (skipBlanks r)
    let entries ← entries.assign? path.dropLast (path.getLastD "") v
    match skipBlanks r with
    | '\x7d' :: r => return (entries, r)
    | ',' :: r => pairs? room fuel entries r
    | _ => none

end

/-! ## Lines -/

/-- A document read so far: its tables, and the path of the table that is open. -/
structure Draft where
  root : Entries := []
  path : List String := []

namespace Draft

def assign? (d : Draft) (path : List String) (v : Toml) : Option Draft := do
  let root ← Entries.change? false
    (fun _ es => es.assign? path.dropLast (path.getLastD "") v) .header d.root d.path
  return { d with root := root }

/-- Opens a table with the given way to make it. -/
def open? (d : Draft) (make : String → Entries → Option Entries) (path : List String) :
    Option Draft := do
  let root ← Entries.change? false (fun _ es => make (path.getLastD "") es) .header d.root
    path.dropLast
  return ⟨root, path⟩

end Draft

/-- Reads one line, or a value that runs over several lines. -/
def line? (d : Draft) (s : List Char) : Option (Draft × List Char) :=
  match s with
  | '#' :: _ => (lineEnd? s).map fun r => (d, r)
  | '\n' :: r => some (d, r)
  | '\r' :: r => (newLine? ('\r' :: r)).map fun r => (d, r)
  | '[' :: '[' :: r => do
    let (path, r) ← path? r
    let r ← expect? ']' r
    let r ← expect? ']' r
    let r ← lineEnd? r
    let d ← d.open? Entries.pushTable? path
    return (d, r)
  | '[' :: r => do
    let (path, r) ← path? r
    let r ← expect? ']' r
    let r ← lineEnd? r
    let d ← d.open? Entries.openTable? path
    return (d, r)
  | s => do
    let (path, r) ← path? s
    let r ← expect? '=' r
    let r := skipBlanks r
    let (v, r) ← value? (maxNesting - 1) (2 * r.length + 2) r
    let r ← lineEnd? r
    let d ← d.assign? path v
    return (d, r)

/-- Reads lines to the end. The fuel bounds their number. -/
def lines? : Nat → Draft → List Char → Option Draft
  | 0, _, _ => none
  | fuel + 1, d, s =>
    match skipBlanks s with
    | [] => some d
    | s => do
      let (d, r) ← line? d s
      lines? fuel d r

/-- The entries of a document; none if it is not TOML. A byte-order mark in front is no part of it.
-/
def document? (s : String) : Option Entries :=
  let text := match s.toList with
    | '\uFEFF' :: r => r
    | r => r
  (lines? (text.length + 1) {} text).map Draft.root

end SqlGrammar.Toml
