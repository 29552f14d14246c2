import SqlGrammar.Text.Digits

/-!
Calendar dates and times of day without zone, and their text. Years 0 to 9999 have four digits;
other years carry a sign and at least four. The fraction of a second is written in groups of three
digits, as few as are exact.
-/

namespace SqlGrammar

/-- A day of the proleptic Gregorian calendar. -/
structure Date where
  year : Int
  month : Nat
  day : Nat
  deriving DecidableEq

/-- A day and a time of day. A leap second is second 59 with a billion nanoseconds or more. -/
structure Timestamp where
  date : Date
  hour : Nat
  minute : Nat
  second : Nat
  nanosecond : Nat
  deriving DecidableEq

namespace Date

def yearText : Int → String
  | .ofNat y => if y ≤ 9999 then Text.padded 4 y else "+" ++ Text.natural y
  | .negSucc y => "-" ++ Text.padded 4 (y + 1)

/-- The text of a date: `2024-02-29`. -/
def text (d : Date) : String :=
  yearText d.year ++ "-" ++ Text.padded 2 d.month ++ "-" ++ Text.padded 2 d.day

end Date

namespace Timestamp

/-- The text of a fraction of a second, given in nanoseconds. -/
def fractionText (n : Nat) : String :=
  if n = 0 then ""
  else if n % 1000000 = 0 then "." ++ Text.padded 3 (n / 1000000)
  else if n % 1000 = 0 then "." ++ Text.padded 6 (n / 1000)
  else "." ++ Text.padded 9 n

/-- The text of a timestamp: `2024-02-29 12:00:00`. A leap second is written as second 60. -/
def text (t : Timestamp) : String :=
  let billion := 1000000000
  t.date.text ++ " " ++ Text.padded 2 t.hour ++ ":" ++ Text.padded 2 t.minute ++ ":" ++
    Text.padded 2 (t.second + t.nanosecond / billion) ++ fractionText (t.nanosecond % billion)

end Timestamp

end SqlGrammar
