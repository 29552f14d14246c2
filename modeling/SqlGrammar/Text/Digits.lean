/-!
Whole numbers as decimal text. A numeral is one or more digits `0` to `9`; leading zeros count for
nothing. `natural?` and `integer?` read, `natural` and `integer` write the shortest form.
-/

namespace SqlGrammar.Text

/-- Reads a non-empty run of digits that is the whole text. -/
def natural? (s : List Char) : Option Nat :=
  if s ≠ [] ∧ s.all Char.isDigit then some (Nat.ofDigitChars 10 s 0) else none

/-- Reads a numeral with an optional sign of either kind. -/
def integer? : List Char → Option Int
  | '+' :: r => (natural? r).map Int.ofNat
  | '-' :: r => (natural? r).map fun n => -Int.ofNat n
  | s => (natural? s).map Int.ofNat

/-- Reads a numeral with an optional `+`; a `-` is refused, also before a zero. -/
def unsigned? : List Char → Option Nat
  | '+' :: r => natural? r
  | s => natural? s

/-- The shortest numeral of a natural number. -/
def natural (n : Nat) : String := n.repr

/-- The shortest numeral of an integer, with a `-` below zero. -/
def integer : Int → String
  | .ofNat n => natural n
  | .negSucc n => "-" ++ natural (n + 1)

/-- A numeral with zeros in front up to the given width. -/
def padded (width n : Nat) : String :=
  String.ofList (List.replicate (width - (natural n).length) '0') ++ natural n

@[simp] theorem toList_natural (n : Nat) : (natural n).toList = Nat.toDigits 10 n := by
  simp [natural]

end SqlGrammar.Text
