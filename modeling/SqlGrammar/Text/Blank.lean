/-!
White space of texts. `isBlank` is the Unicode property White_Space, 25 characters in ten ranges;
`trim` cuts blanks at both ends.
-/

namespace SqlGrammar.Text

/-- The ranges of White_Space, first and last code point of each. -/
def blankRanges : List (Nat × Nat) :=
  [(0x9, 0xD), (0x20, 0x20), (0x85, 0x85), (0xA0, 0xA0), (0x1680, 0x1680), (0x2000, 0x200A),
   (0x2028, 0x2029), (0x202F, 0x202F), (0x205F, 0x205F), (0x3000, 0x3000)]

/-- A character with the property White_Space. -/
def isBlank (c : Char) : Bool :=
  blankRanges.any fun r => r.1 ≤ c.toNat && c.toNat ≤ r.2

def trimEndList : List Char → List Char
  | [] => []
  | c :: r =>
    match trimEndList r with
    | [] => if isBlank c then [] else [c]
    | t => c :: t

/-- Without the blanks at both ends. -/
def trimList (s : List Char) : List Char := trimEndList (s.dropWhile isBlank)

def trim (s : String) : String := String.ofList (trimList s.toList)

@[simp] theorem toList_trim (s : String) : (trim s).toList = trimList s.toList := by
  simp [trim]

end SqlGrammar.Text
