/-!
Comparison of texts without regard to letter case. Only the letters `a` to `z` have two cases here:
`É` and `é` stay different.
-/

namespace SqlGrammar.Text

/-- All letters `A` to `Z` in lower case. -/
def fold (s : String) : List Char := s.toList.map Char.toLower

/-- Equal up to the case of the letters `a` to `z`. -/
def sameLetters (a b : String) : Bool := fold a == fold b

theorem sameLetters_iff {a b : String} : sameLetters a b ↔ fold a = fold b := by
  simp [sameLetters]

end SqlGrammar.Text
