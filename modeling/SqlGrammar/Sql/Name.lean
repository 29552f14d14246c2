import SqlGrammar.Text.Blank

/-!
Names of tables and columns as they are written in a statement. A reference is a name of dotted
segments with an optional alias after ` as `; every segment is quoted by itself, only `*` stands
bare. Main statement: a text that is cut is its name, ` as ` and its alias, nothing lost.
-/

namespace SqlGrammar.Name

/-- What follows ` as `, in any letter case, at the start of a text. -/
def afterAs? : List Char → Option (List Char)
  | ' ' :: a :: s :: ' ' :: r => if a.toLower = 'a' ∧ s.toLower = 's' then some r else none
  | _ => none

/-- A text cut at its first ` as `: what stands before it and what stands after it. -/
def splitAlias? : List Char → Option (List Char × List Char)
  | [] => none
  | c :: r =>
    match afterAs? (c :: r) with
    | some label => some ([], label)
    | none => (splitAlias? r).map fun (name, label) => (c :: name, label)

theorem splitAlias?_eq_some {s name label : List Char} (h : splitAlias? s = some (name, label)) :
    ∃ a b, s = name ++ ' ' :: a :: b :: ' ' :: label ∧ a.toLower = 'a' ∧ b.toLower = 's' := by
  induction s generalizing name with
  | nil => simp [splitAlias?] at h
  | cons c r ih =>
    simp only [splitAlias?] at h
    split at h
    · next found hs =>
      obtain ⟨rfl, rfl⟩ : name = [] ∧ found = label := by simpa [eq_comm] using h
      unfold afterAs? at hs
      split at hs
      · next a b rest heq =>
        split at hs
        · next hab => cases hs; cases heq; exact ⟨a, b, rfl, hab⟩
        · cases hs
      · cases hs
    · obtain ⟨⟨n, x⟩, hn, he⟩ := Option.map_eq_some_iff.1 h
      cases he
      obtain ⟨a, b, rfl, hab⟩ := ih hn
      exact ⟨a, b, rfl, hab⟩

/-- The parts of a reference: the segments of its name and its alias. -/
structure Reference where
  segments : List String
  aliasName : Option String
  deriving DecidableEq

namespace Reference

/-- The reference in a text. Blanks around the alias are no part of it. -/
def ofText (s : String) : Reference :=
  match splitAlias? s.toList with
  | none => ⟨(s.toList.splitOn '.').map String.ofList, none⟩
  | some (name, label) =>
    ⟨(name.splitOn '.').map String.ofList, some (String.ofList (Text.trimList label))⟩

/-- A reference written with the given spelling of a segment. -/
def render (segment : String → String) (r : Reference) : String :=
  let name := String.intercalate "." (r.segments.map segment)
  match r.aliasName with
  | none => name
  | some a => name ++ " as " ++ segment a

end Reference

/-- A name between double quotes, each quote inside written twice. -/
def doubleQuoted (name : String) : String :=
  String.ofList
    ('"' :: name.toList.flatMap (fun c => if c = '"' then ['"', '"'] else [c]) ++ ['"'])

/-- One segment of a name; `*` is never quoted. -/
def segment (quote : String → String) (s : String) : String :=
  if s = "*" then s else quote s

/-- A column reference: `t.col`, `col as alias` and `*` are told apart. -/
def column (segment : String → String) (s : String) : String :=
  (Reference.ofText s).render segment

/-- A table reference. The text in front of every table name belongs to the name, so it is put there
after the alias is cut off. -/
def table (column segment : String → String) (tablePrefix : String) (s : String) : String :=
  match splitAlias? s.toList with
  | none => column (tablePrefix ++ s)
  | some (name, label) =>
    column (tablePrefix ++ String.ofList name) ++ " as " ++
      segment (String.ofList (Text.trimList label))

end SqlGrammar.Name
