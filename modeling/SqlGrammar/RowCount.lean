import SqlGrammar.Text.Blank
import SqlGrammar.Text.Digits

/-!
Row counts, the numbers of a limit or an offset clause, read from text. One grammar serves every
place where a count is given as text: blanks around it, an optional `+`, digits, below `2 ^ 64`.
-/

namespace SqlGrammar

/-- The two clauses that hold a row count. -/
inductive PagingClause
  | limit
  | offset
  deriving DecidableEq, Inhabited

def PagingClause.name : PagingClause → String
  | .limit => "limit"
  | .offset => "offset"

def rowCount? (s : String) : Option UInt64 :=
  match Text.unsigned? (Text.trimList s.toList) with
  | some n => if n < UInt64.size then some (.ofNat n) else none
  | none => none

end SqlGrammar
