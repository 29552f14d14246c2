import SqlGrammar.Json.Number

/-!
JSON data as text: compact, or laid out over lines. Quotes, backslashes and the control characters
below the space are escaped, all other characters stand as they are.
-/

namespace SqlGrammar.Json

/-- A digit of a code point, in lower case. -/
def hexDigit (n : Nat) : Char := (n % 16).digitChar

def escape (c : Char) : List Char :=
  if c = '"' then ['\\', '"']
  else if c = '\\' then ['\\', '\\']
  else if c = '\x08' then ['\\', 'b']
  else if c = '\x0c' then ['\\', 'f']
  else if c = '\n' then ['\\', 'n']
  else if c = '\r' then ['\\', 'r']
  else if c = '\t' then ['\\', 't']
  else if c.toNat < 0x20 then ['\\', 'u', '0', '0', hexDigit (c.toNat / 16), hexDigit c.toNat]
  else [c]

def quoted (s : String) : List Char := '"' :: s.toList.flatMap escape ++ ['"']

mutual

/-- The compact text of data. -/
def chars : Json → List Char
  | null => ['n', 'u', 'l', 'l']
  | bool true => ['t', 'r', 'u', 'e']
  | bool false => ['f', 'a', 'l', 's', 'e']
  | number n => n.text.toList
  | string s => quoted s
  | list [] => ['[', ']']
  | list (j :: js) => '[' :: (chars j ++ itemChars js)
  | record [] => ['\x7b', '\x7d']
  | record ((k, j) :: ms) => '\x7b' :: (quoted k ++ ':' :: (chars j ++ memberChars ms))

/-- The items of a list after the first one, and its end. -/
def itemChars : List Json → List Char
  | [] => [']']
  | j :: js => ',' :: (chars j ++ itemChars js)

def memberChars : List (String × Json) → List Char
  | [] => ['\x7d']
  | (k, j) :: ms => ',' :: (quoted k ++ ':' :: (chars j ++ memberChars ms))

end

def text (j : Json) : String := String.ofList j.chars

/-- A new line, indented by two blanks for each level. -/
def newLine (level : Nat) : List Char := '\n' :: List.replicate (2 * level) ' '

mutual

/-- Data laid out over lines, from the given level on. -/
def lines (level : Nat) : Json → List Char
  | list (j :: js) => '[' :: (newLine (level + 1) ++ lines (level + 1) j ++ itemLines level js)
  | record ((k, j) :: ms) =>
    '\x7b' :: (newLine (level + 1) ++ quoted k ++ ':' :: ' ' :: lines (level + 1) j ++
      memberLines level ms)
  | j => chars j

def itemLines (level : Nat) : List Json → List Char
  | [] => newLine level ++ [']']
  | j :: js => ',' :: (newLine (level + 1) ++ lines (level + 1) j ++ itemLines level js)

def memberLines (level : Nat) : List (String × Json) → List Char
  | [] => newLine level ++ ['\x7d']
  | (k, j) :: ms =>
    ',' :: (newLine (level + 1) ++ quoted k ++ ':' :: ' ' :: lines (level + 1) j ++
      memberLines level ms)

end

def pretty (j : Json) : String := String.ofList (j.lines 0)

end SqlGrammar.Json
