import SqlGrammar.Double.Numeral
import SqlGrammar.Json.Scan
import SqlGrammar.Toml.Tree

/-!
The tokens of TOML: blanks, comments and line ends, strings of four kinds, keys, numbers, dates and
times. Each reader gives what it read and what is left; `none` is a text that is not TOML.
-/

namespace SqlGrammar.Toml

/-! ## Blanks and lines -/

/-- A blank within a line. -/
def isBlank (c : Char) : Bool := c = ' ' || c = '\t'

/-- A character that may stand in a comment or in a string: no control character but the tab. -/
def isPrinting (c : Char) : Bool := c = '\t' || (0x20 ≤ c.toNat && c.toNat ≠ 0x7F)

def skipBlanks (s : List Char) : List Char := s.dropWhile isBlank

/-- Past the end of a line. -/
def newLine? : List Char → Option (List Char)
  | '\n' :: r => some r
  | '\r' :: '\n' :: r => some r
  | _ => none

def skipComment : List Char → List Char
  | '#' :: r => r.dropWhile isPrinting
  | s => s

/-- Past the rest of a line on which nothing more is said. -/
def lineEnd? (s : List Char) : Option (List Char) :=
  match skipComment (skipBlanks s) with
  | [] => some []
  | s => newLine? s

/-- Past blanks, comments and line ends. The fuel bounds the number of lines. -/
def skipLines : Nat → List Char → List Char
  | 0, s => s
  | fuel + 1, s =>
    let s := skipComment (skipBlanks s)
    match newLine? s with
    | some r => skipLines fuel r
    | none => s

/-! ## Strings -/

def escapeChar? : Char → Option Char
  | 'b' => some '\x08'
  | 't' => some '\t'
  | 'n' => some '\n'
  | 'f' => some '\x0c'
  | 'r' => some '\r'
  | '"' => some '"'
  | '\\' => some '\\'
  | _ => none

/-- The character with a code point in hexadecimal digits; surrogates have none. -/
def codePoint? (digits : List Char) : Option Char := do
  let ns ← digits.mapM Json.hexDigit?
  let n := ns.foldl (fun n d => 16 * n + d) 0
  if n.isValidChar then some (.ofNat n) else none

def push (c : Char) (r : Option (List Char × List Char)) : Option (List Char × List Char) :=
  r.map fun (s, rest) => (c :: s, rest)

/-- A string on one line, after its opening quote. -/
def basicString : List Char → Option (List Char × List Char)
  | [] => none
  | '"' :: r => some ([], r)
  | '\\' :: 'u' :: a :: b :: c :: d :: r => do
    let ch ← codePoint? [a, b, c, d]
    push ch (basicString r)
  | '\\' :: 'U' :: a :: b :: c :: d :: e :: f :: g :: h :: r => do
    let ch ← codePoint? [a, b, c, d, e, f, g, h]
    push ch (basicString r)
  | '\\' :: c :: r => do
    let ch ← escapeChar? c
    push ch (basicString r)
  | c :: r => if isPrinting c then push c (basicString r) else none

/-- A string without escapes on one line, after its opening quote. -/
def literalString : List Char → Option (List Char × List Char)
  | [] => none
  | '\'' :: r => some ([], r)
  | c :: r => if isPrinting c then push c (literalString r) else none

/-- The end of a string over several lines, after three of its quotes: one or two more quotes belong
to the string. -/
def longEnd (quote : Char) : List Char → List Char × List Char
  | a :: b :: r =>
    if a = quote ∧ b = quote then ([quote, quote], r)
    else if a = quote then ([quote], b :: r)
    else ([], a :: b :: r)
  | [a] => if a = quote then ([quote], []) else ([], [a])
  | [] => ([], [])

/-- A line end is read as `'\n'`. -/
def pushLine (r : Option (List Char × List Char)) : Option (List Char × List Char) := push '\n' r

/-- A string over several lines, after its opening. Where `gap` is set, blanks and line ends are
passed over: a backslash at the end of a line starts such a gap. -/
def longBasicString (gap : Bool) : List Char → Option (List Char × List Char)
  | [] => none
  | '\n' :: r => if gap then longBasicString true r else pushLine (longBasicString false r)
  | '\r' :: '\n' :: r => if gap then longBasicString true r else pushLine (longBasicString false r)
  | '"' :: '"' :: '"' :: r => some (longEnd '"' r)
  | '\\' :: 'u' :: a :: b :: c :: d :: r => do
    let ch ← codePoint? [a, b, c, d]
    push ch (longBasicString false r)
  | '\\' :: 'U' :: a :: b :: c :: d :: e :: f :: g :: h :: r => do
    let ch ← codePoint? [a, b, c, d, e, f, g, h]
    push ch (longBasicString false r)
  | '\\' :: c :: r =>
    if (newLine? (skipBlanks (c :: r))).isSome then
      match c, r with
      | '\r', _ :: r => longBasicString true r
      | _, r => longBasicString true r
    else do
      let ch ← escapeChar? c
      push ch (longBasicString false r)
  | c :: r =>
    if gap ∧ isBlank c then longBasicString true r
    else if isPrinting c then push c (longBasicString false r)
    else none

/-- A string without escapes over several lines, after its opening. -/
def longLiteralString : List Char → Option (List Char × List Char)
  | [] => none
  | '\n' :: r => pushLine (longLiteralString r)
  | '\r' :: '\n' :: r => pushLine (longLiteralString r)
  | '\'' :: '\'' :: '\'' :: r => some (longEnd '\'' r)
  | c :: r => if isPrinting c then push c (longLiteralString r) else none

/-- A line end right after the opening of a string is no part of it. -/
def skipFirstLine (s : List Char) : List Char := (newLine? s).getD s

def string? : List Char → Option (String × List Char)
  | '"' :: '"' :: '"' :: r =>
    (longBasicString false (skipFirstLine r)).map fun (s, rest) => (String.ofList s, rest)
  | '\'' :: '\'' :: '\'' :: r =>
    (longLiteralString (skipFirstLine r)).map fun (s, rest) => (String.ofList s, rest)
  | '"' :: r => (basicString r).map fun (s, rest) => (String.ofList s, rest)
  | '\'' :: r => (literalString r).map fun (s, rest) => (String.ofList s, rest)
  | _ => none

/-! ## Keys -/

/-- A character of a key without quotes. -/
def isBare (c : Char) : Bool :=
  ('a' ≤ c && c ≤ 'z') || ('A' ≤ c && c ≤ 'Z') || c.isDigit || c = '_' || c = '-'

/-- One key: bare, or a string on one line. -/
def simpleKey? : List Char → Option (String × List Char)
  | '"' :: r => (basicString r).map fun (s, rest) => (String.ofList s, rest)
  | '\'' :: r => (literalString r).map fun (s, rest) => (String.ofList s, rest)
  | s =>
    if s.takeWhile isBare = [] then none
    else some (String.ofList (s.takeWhile isBare), s.dropWhile isBare)

/-- Keys with points and blanks between them. The fuel bounds their number. -/
def keys? : Nat → List Char → Option (List String × List Char)
  | 0, _ => none
  | fuel + 1, s => do
    let (k, r) ← simpleKey? (skipBlanks s)
    match skipBlanks r with
    | '.' :: r => do
      let (ks, r) ← keys? fuel r
      return (k :: ks, r)
    | r => return ([k], r)

/-- The number of keys in a path, and of brackets around a value, that are too many. -/
def maxNesting : Nat := 80

def path? (s : List Char) : Option (List String × List Char) := keys? (maxNesting - 1) s

/-! ## Numbers -/

/-- A run of digits in which single underscores may stand between digits; without them. -/
def digitRun (isDigit : Char → Bool) : List Char → List Char × List Char
  | [] => ([], [])
  | '_' :: c :: r =>
    if isDigit c then
      let (ds, rest) := digitRun isDigit r
      (c :: ds, rest)
    else ([], '_' :: c :: r)
  | c :: r =>
    if isDigit c then
      let (ds, rest) := digitRun isDigit r
      (c :: ds, rest)
    else ([], c :: r)

/-- A run of digits that starts with one. -/
def digits? (isDigit : Char → Bool) : List Char → Option (List Char × List Char)
  | c :: r => if isDigit c then some (digitRun isDigit (c :: r)) else none
  | [] => none

def sign : List Char → List Char × List Char
  | '+' :: r => (['+'], r)
  | '-' :: r => (['-'], r)
  | s => ([], s)

/-- A whole number with its sign: a zero by itself, or digits that do not start with one. -/
def wholeNumber? (s : List Char) : Option (List Char × List Char) :=
  let (sg, r) := sign s
  match r with
  | '0' :: r => some (sg ++ ['0'], r)
  | r => (digits? Char.isDigit r).map fun (ds, r) => (sg ++ ds, r)

def power? : List Char → Option (List Char × List Char)
  | c :: r =>
    if c = 'e' ∨ c = 'E' then
      let (sg, r) := sign r
      (digits? Char.isDigit r).map fun (ds, r) => ('e' :: sg ++ ds, r)
    else none
  | [] => none

/-- A float with a point or a power of ten, as text. -/
def floatText? (s : List Char) : Option (List Char × List Char) := do
  let (whole, r) ← wholeNumber? s
  match r with
  | '.' :: r => do
    let (places, r) ← digits? Char.isDigit r
    match power? r with
    | some (power, r) => return (whole ++ '.' :: places ++ power, r)
    | none => return (whole ++ '.' :: places, r)
  | r => do
    let (power, r) ← power? r
    return (whole ++ power, r)

/-- A float: a decimal, an infinity or a NaN. A decimal beyond the doubles is refused, but only a
positive one. -/
def float? (s : List Char) : Option (Double × List Char) :=
  match floatText? s with
  | some (text, r) =>
    match Double.ofText? text with
    | some d => if d = .infinity then none else some (d, r)
    | none => none
  | none =>
    let (sg, r) := sign s
    let signed (d : Double) : Double := if sg = ['-'] then d.neg else d
    match r with
    | 'i' :: 'n' :: 'f' :: r => some (signed .infinity, r)
    | 'n' :: 'a' :: 'n' :: r => some (signed .nan, r)
    | _ => none

def based? (base : Nat) (s : List Char) : Option (Int × List Char) := do
  let isDigit (c : Char) : Bool := match Json.hexDigit? c with
    | some n => n < base
    | none => false
  let (ds, r) ← digits? isDigit s
  let n := ds.foldl (fun n c => base * n + (Json.hexDigit? c).getD 0) 0
  if n < 0x8000000000000000 then some (n, r) else none

def integer? : List Char → Option (Int × List Char)
  | '0' :: 'x' :: r => based? 16 r
  | '0' :: 'o' :: r => based? 8 r
  | '0' :: 'b' :: r => based? 2 r
  | s => do
    let (text, r) ← wholeNumber? s
    let n ← Text.integer? text
    if -0x8000000000000000 ≤ n ∧ n < 0x8000000000000000 then some (n, r) else none

/-! ## Dates and times -/

def two? (low high : Nat) : List Char → Option (Nat × List Char)
  | a :: b :: r =>
    let n := 10 * (a.toNat - '0'.toNat) + (b.toNat - '0'.toNat)
    if a.isDigit ∧ b.isDigit ∧ low ≤ n ∧ n ≤ high then some (n, r) else none
  | _ => none

def expect? (c : Char) : List Char → Option (List Char)
  | d :: r => if c = d then some r else none
  | [] => none

def daysOf (year month : Nat) : Nat :=
  if month = 2 then
    if year % 4 = 0 ∧ (year % 100 ≠ 0 ∨ year % 400 = 0) then 29 else 28
  else if month = 4 ∨ month = 6 ∨ month = 9 ∨ month = 11 then 30
  else 31

def date? (s : List Char) : Option (List Char) := do
  let (century, r) ← two? 0 99 s
  let (year, r) ← two? 0 99 r
  let r ← expect? '-' r
  let (month, r) ← two? 1 12 r
  let r ← expect? '-' r
  let (_, r) ← two? 1 (daysOf (100 * century + year) month) r
  return r

def time? (s : List Char) : Option (List Char) := do
  let (_, r) ← two? 0 23 s
  let r ← expect? ':' r
  let (_, r) ← two? 0 59 r
  let r ← expect? ':' r
  let (_, r) ← two? 0 60 r
  match r with
  | '.' :: c :: r => if c.isDigit then return r.dropWhile Char.isDigit else return '.' :: c :: r
  | r => return r

def offset? : List Char → Option (List Char)
  | c :: r =>
    if c = 'Z' ∨ c = 'z' then some r
    else if c = '+' ∨ c = '-' then do
      let (_, r) ← two? 0 23 r
      let r ← expect? ':' r
      let (_, r) ← two? 0 59 r
      return r
    else none
  | [] => none

/-- Past a date, a time, or both with or without an offset. -/
def moment? (s : List Char) : Option (List Char) :=
  match date? s with
  | none => time? s
  | some r =>
    match r with
    | c :: t =>
      if c = 'T' ∨ c = 't' ∨ c = ' ' then
        match time? t with
        | some t => some ((offset? t).getD t)
        | none => some r
      else some r
    | [] => some r

/-- A number, a date or a time. -/
def numeric? (s : List Char) : Option (Toml × List Char) :=
  match moment? s, float? s, integer? s with
  | some r, _, _ => some (.moment, r)
  | _, some (d, r), _ => some (.float d, r)
  | _, _, some (n, r) => some (.integer n, r)
  | _, _, _ => none

end SqlGrammar.Toml
