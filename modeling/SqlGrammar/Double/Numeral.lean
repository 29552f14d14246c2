import SqlGrammar.Double.Rounding
import SqlGrammar.Text.Digits

/-!
Doubles read from text. A numeral is an optional sign, digits with at most one point before, among
or after them, and an optional exponent; `inf`, `infinity` and `nan` in any letter case are numbers
too. The result is the nearest double. Nothing else may stand in the text.
-/

namespace SqlGrammar.Double

/-- Reads an exponent with an optional sign. Beyond 65536 further digits change nothing. -/
def power? (s : List Char) : Option Int :=
  let magnitude? (ds : List Char) : Option Nat :=
    if ds ≠ [] ∧ ds.all Char.isDigit then
      some (ds.foldl (fun n c => if n < 65536 then 10 * n + (c.toNat - '0'.toNat) else n) 0)
    else none
  match s with
  | '+' :: ds => (magnitude? ds).map Int.ofNat
  | '-' :: ds => (magnitude? ds).map fun n => -Int.ofNat n
  | ds => (magnitude? ds).map Int.ofNat

/-- The double nearest to `digits * 10 ^ power`, without writing out a power of ten that is far
beyond the doubles' range. -/
def ofDecimalText (digits : List Char) (power : Int) : Double :=
  let significant := digits.dropWhile (· = '0')
  let place := (significant.length : Int) + power
  if significant = [] ∨ place < -400 then zero
  else if 400 < place then infinity
  else ofDecimal (Nat.ofDigitChars 10 significant 0) power

/-- The digits after a point, where a text goes on with one, and what follows. -/
def splitPlaces : List Char → List Char × List Char
  | '.' :: r => (r.takeWhile Char.isDigit, r.dropWhile Char.isDigit)
  | r => ([], r)

/-- Reads the exponent that a text ends with, if with anything. -/
def lastPower? : List Char → Option Int
  | [] => some 0
  | c :: r => if c.toLower = 'e' then power? r else none

def unsignedNumeral? (s : List Char) : Option Double :=
  let whole := s.takeWhile Char.isDigit
  let (places, rest) := splitPlaces (s.dropWhile Char.isDigit)
  if whole ++ places = [] then none
  else (lastPower? rest).map fun n => ofDecimalText (whole ++ places) (n - places.length)

/-- Reads a number without sign, a numeral or a name. -/
def unsigned? (s : List Char) : Option Double :=
  let name := s.map Char.toLower
  if name = ['i', 'n', 'f'] ∨ name = ['i', 'n', 'f', 'i', 'n', 'i', 't', 'y'] then some infinity
  else if name = ['n', 'a', 'n'] then some nan
  else unsignedNumeral? s

def ofText? : List Char → Option Double
  | '+' :: r => unsigned? r
  | '-' :: r => (unsigned? r).map neg
  | s => unsigned? s

end SqlGrammar.Double
