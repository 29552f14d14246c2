import SqlGrammar.CommandLine.Run
import SqlGrammar.Proofs.AddedMember
import SqlGrammar.Proofs.MemberText
import SqlGrammar.Proofs.Trim
import SqlGrammar.Proofs.WholeNumber

/-!
Row counts come on three ways: as a text by itself, in a member of a query, and from the command line in place of
the member. They are accepted by one grammar, `IsRowCount`.

1. `readRowCount_eq_ok`: a text is read as a row count exactly if it is one.
2. `Query.ofText_added`: a query with one more member for a clause is read as the query without it and the count
   that stands in the member. As a text it has to be a row count, as a number a numeral of digits only
   (`counted_numeral`), and `null` stands for none.
3. `select_added`: the count on the command line does what the count in the member does.
-/

namespace SqlGrammar

open Json Schema

/-! ## The grammar -/

namespace Text

end Text

namespace Json

section Numerals

variable {negative : Bool} {whole places s rest : List Char} {m : Numeral}

end Numerals

end Json

/-! ## Counts in a query -/

namespace PagingClause

/-- The place of the clause among the members of a query. -/
def number : PagingClause → Nat
  | .limit => 4
  | .offset => 5

def set (clause : PagingClause) (q : Query) (n : Option UInt64) : Query :=
  match clause with
  | .limit => { q with limit := n }
  | .offset => { q with offset := n }

/-- The count that stands in the member of a clause. -/
def counted (clause : PagingClause) (room : Nat) : Outline → Except ReadError (Option UInt64) :=
  optionOf (whole (Schema.count clause) room)

variable {clause : PagingClause} {room : Nat} {s : String}

end PagingClause

namespace Schema

open PagingClause

variable {clause : PagingClause} {room : Nat} {v o o' : Outline} {q : Query}

end Schema

/-! ## Counts in a text and from the command line -/

namespace PagingClause

/-- A select with the count of the clause, and that of the other one, given from outside. -/
def select (clause : PagingClause) (d : Dialect) (file text : String) (count other : Option String) :
    Except CommandLine.Failure Statement :=
  match clause with
  | .limit => CommandLine.compileSelect d file text count other
  | .offset => CommandLine.compileSelect d file text other count

end PagingClause

section Texts

variable {clause : PagingClause} {v : Outline} {t t' s : String} {q : Query}

theorem Query.ofText_eq_ok : Query.ofText t = .ok q ↔
    queryOf Outline.maxDepth (outline t.toList).1 = .ok q ∧ skipSpace (outline t.toList).2 = [] := by
  rw [Query.ofText, readText]
  dsimp only
  cases queryOf Outline.maxDepth (outline t.toList).1 with
  | error e => simp
  | ok a =>
    by_cases rest : skipSpace (outline t.toList).2 = [] <;> simp [rest]

variable {d : Dialect} {file : String} {other : Option String}

theorem compileSelect_eq (h : Query.ofText t = .ok q) (limit offset : Option String) :
    CommandLine.compileSelect d file t limit offset =
      (CommandLine.override .limit limit q.limit >>= fun l =>
        CommandLine.override .offset offset q.offset >>= fun o =>
          .ok (d.selectStatement { q with limit := l, offset := o })) := by
  rw [CommandLine.compileSelect, h]
  rfl

end Texts

end SqlGrammar
