import SqlGrammar.Json.Number
import SqlGrammar.Json.Outline

/-!
From a JSON text to its outline. Nothing after the first place where the text breaks off is read.
-/

namespace SqlGrammar.Json

def isSpace (c : Char) : Bool := c = ' ' || c = '\t' || c = '\n' || c = '\r'

def skipSpace (s : List Char) : List Char := s.dropWhile isSpace

/-! ## Strings -/

/-- A string, read up to its closing quote or up to where the text breaks off. -/
inductive StringScan
  | closed (content : Except Fault (List Char)) (rest : List Char)
  | broken (strict lax : Fault)

namespace StringScan

def push (c : Char) : StringScan → StringScan
  | closed s rest => closed (s.map (c :: ·)) rest
  | broken f g => broken f g

/-- The string with a fault in front that only a strict look minds. -/
def fault (f : Fault) : StringScan → StringScan
  | closed _ rest => closed (.error f) rest
  | broken _ g => broken f g

end StringScan

def hexDigit? (c : Char) : Option Nat :=
  if '0' ≤ c ∧ c ≤ '9' then some (c.toNat - '0'.toNat)
  else if 'a' ≤ c ∧ c ≤ 'f' then some (c.toNat - 'a'.toNat + 10)
  else if 'A' ≤ c ∧ c ≤ 'F' then some (c.toNat - 'A'.toNat + 10)
  else none

def hex4? (a b c d : Char) : Option Nat := do
  let a ← hexDigit? a
  let b ← hexDigit? b
  let c ← hexDigit? c
  let d ← hexDigit? d
  return ((a * 16 + b) * 16 + c) * 16 + d

def isHighSurrogate (n : Nat) : Bool := 0xD800 ≤ n && n ≤ 0xDBFF

def isLowSurrogate (n : Nat) : Bool := 0xDC00 ≤ n && n ≤ 0xDFFF

def pairChar (high low : Nat) : Char :=
  .ofNat (0x10000 + (high - 0xD800) * 0x400 + (low - 0xDC00))

def escapeChar? : Char → Option Char
  | '"' => some '"'
  | '\\' => some '\\'
  | '/' => some '/'
  | 'b' => some '\x08'
  | 'f' => some '\x0c'
  | 'n' => some '\n'
  | 'r' => some '\r'
  | 't' => some '\t'
  | _ => none

/-- The fault of four hexadecimal digits for which there are fewer than four characters left: the
text is too short if it is less than four bytes. -/
def shortHexFault (rest : List Char) : Fault :=
  if (String.ofList rest).utf8ByteSize < 4 then .endInString else .badEscape

/-- A string after its opening quote. -/
def scanString : List Char → StringScan
  | [] => .broken .endInString .endInString
  | '"' :: r => .closed (.ok []) r
  | '\\' :: r =>
    match r with
    | [] => .broken .endInString .endInString
    | 'u' :: a :: b :: c :: d :: r =>
      match hex4? a b c d with
      | none => .broken .badEscape .badEscape
      | some n =>
        if isLowSurrogate n then (scanString r).fault .loneSurrogate
        else if !isHighSurrogate n then (scanString r).push (.ofNat n)
        else
          match r with
          | [] | ['\\'] => .broken .endInString .endInString
          | '\\' :: 'u' :: a :: b :: c :: d :: r =>
            match hex4? a b c d with
            | none => .broken .badEscape .badEscape
            | some m =>
              if isLowSurrogate m then (scanString r).push (pairChar n m)
              else (scanString r).fault .loneSurrogate
          | '\\' :: 'u' :: short => .broken (shortHexFault short) (shortHexFault short)
          | r => (scanString r).fault .cutSurrogate
    | 'u' :: short => .broken (shortHexFault short) (shortHexFault short)
    | c :: r =>
      match escapeChar? c with
      | none => .broken .badEscape .badEscape
      | some c => (scanString r).push c
  | c :: r =>
    if c.toNat < 0x20 then .broken .controlCharacter .controlCharacter
    else (scanString r).push c

/-! ## Numerals -/

/-- A numeral, read to its end or up to where the text breaks off. -/
inductive NumeralScan
  | read (n : Numeral) (rest : List Char)
  | broken (strict lax : Fault)

/-- A numeral that lacks a digit: the text ends there, or something else stands there. -/
def missingDigit (rest : List Char) : NumeralScan :=
  .broken (if rest = [] then .endInNumeral else .badNumber) .badNumber

/-- A numeral from its power of ten on. -/
def scanPower (negative : Bool) (whole places : List Char) (s : List Char) : NumeralScan :=
  let digits (up : Bool) (r : List Char) :=
    let power := r.takeWhile Char.isDigit
    if power = [] then missingDigit r
    else .read ⟨negative, whole, places, some (up, power)⟩ (r.dropWhile Char.isDigit)
  match s with
  | c :: r =>
    if c = 'e' ∨ c = 'E' then
      match r with
      | '+' :: r => digits true r
      | '-' :: r => digits false r
      | r => digits true r
    else .read ⟨negative, whole, places, none⟩ (c :: r)
  | [] => .read ⟨negative, whole, places, none⟩ []

/-- A numeral from its point on. -/
def scanPlaces (negative : Bool) (whole : List Char) : List Char → NumeralScan
  | '.' :: r =>
    if r.takeWhile Char.isDigit = [] then missingDigit r
    else scanPower negative whole (r.takeWhile Char.isDigit) (r.dropWhile Char.isDigit)
  | r => scanPower negative whole [] r

/-- A numeral after its sign. It starts with a zero only if that is all before the point. -/
def scanWhole (negative : Bool) (s : List Char) : NumeralScan :=
  match s with
  | '0' :: c :: r =>
    if c.isDigit then .broken .badNumber .badNumber else scanPlaces negative ['0'] (c :: r)
  | s =>
    if s.takeWhile Char.isDigit = [] then missingDigit s
    else scanPlaces negative (s.takeWhile Char.isDigit) (s.dropWhile Char.isDigit)

def scanNumeral : List Char → NumeralScan
  | '-' :: r => scanWhole true r
  | s => scanWhole false s

/-! ## Words -/

/-- A word, given what should follow its first letter. -/
def scanWord (value : Outline) : List Char → List Char → Outline × List Char
  | [], s => (value, s)
  | _ :: _, [] => (.broken .endInWord .endInWord, [])
  | c :: cs, d :: s =>
    if c = d then scanWord value cs s else (.broken .expectedWord .expectedWord, [])

/-! ## Values -/

mutual

/-- The outline of a value and what follows it. The fuel bounds the steps. -/
def scanValue : Nat → List Char → Outline × List Char
  | 0, _ => (.broken .endInValue .endInValue, [])
  | fuel + 1, s =>
    match skipSpace s with
    | [] => (.broken .endInValue .endInValue, [])
    | 'n' :: r => scanWord .null ['u', 'l', 'l'] r
    | 't' :: r => scanWord (.bool true) ['r', 'u', 'e'] r
    | 'f' :: r => scanWord (.bool false) ['a', 'l', 's', 'e'] r
    | '"' :: r =>
      match scanString r with
      | .closed s rest => (.string (s.map String.ofList), rest)
      | .broken f g => (.broken f g, [])
    | '[' :: r =>
      match skipSpace r with
      | [] => (.list [] .endOfText, [])
      | ']' :: r => (.list [] .closed, r)
      | r =>
        let (items, stop, rest) := scanItems fuel r
        (.list items stop, rest)
    | '\x7b' :: r =>
      match skipSpace r with
      | [] => (.record [] (.broken .endInObject .endInObject), [])
      | '\x7d' :: r => (.record [] .closed, r)
      | r =>
        let (members, stop, rest) := scanMembers fuel r
        (.record members stop, rest)
    | c :: r =>
      if c = '-' ∨ c.isDigit then
        match scanNumeral (c :: r) with
        | .read n rest => (.number n.number, rest)
        | .broken f g => (.broken f g, [])
      else (.broken .expectedValue .expectedValue, [])

/-- The items of a list from an item on, how the list ends, and what follows it. -/
def scanItems : Nat → List Char → List Outline × ListStop × List Char
  | 0, _ => ([], .endOfText, [])
  | fuel + 1, s =>
    let (item, rest) := scanValue fuel s
    match skipSpace rest with
    | [] => ([item], .endOfText, [])
    | ']' :: r => ([item], .closed, r)
    | ',' :: r =>
      match skipSpace r with
      | [] => ([item, .broken .endInValue .endInValue], .endOfText, [])
      | ']' :: _ => ([item], .trailingComma, [])
      | r =>
        let (items, stop, rest) := scanItems fuel r
        (item :: items, stop, rest)
    | _ => ([item], .noSeparator, [])

/-- The members of a record from a key on, how the record ends, and what follows it. -/
def scanMembers : Nat → List Char → List (Key × Outline) × RecordStop × List Char
  | 0, _ => ([], .broken .endInObject .endInObject, [])
  | fuel + 1, s =>
    match s with
    | '"' :: r =>
      match scanString r with
      | .broken f g => ([], .broken f g, [])
      | .closed content rest =>
        let key : Key := content.map String.ofList
        match skipSpace rest with
        | [] => ([(key, .broken .endInObject .endInObject)], .closed, [])
        | ':' :: r =>
          let (value, rest) := scanValue fuel r
          match skipSpace rest with
          | [] => ([(key, value)], .broken .endInObject .endInObject, [])
          | '\x7d' :: r => ([(key, value)], .closed, r)
          | ',' :: r =>
            match skipSpace r with
            | [] => ([(key, value)], .broken .endInValue .endInObject, [])
            | '\x7d' :: _ => ([(key, value)], .broken .trailingComma .keyNotString, [])
            | r =>
              let (members, stop, rest) := scanMembers fuel r
              ((key, value) :: members, stop, rest)
          | _ => ([(key, value)], .broken .expectedObjectEnd .expectedObjectEnd, [])
        | _ => ([(key, .broken .expectedColon .expectedColon)], .closed, [])
    | _ => ([], .broken .keyNotString .keyNotString, [])

end

/-- The outline of a text and what follows the value in it. Every two steps get past a character. -/
def outline (s : List Char) : Outline × List Char := scanValue (2 * s.length + 2) s

end SqlGrammar.Json
