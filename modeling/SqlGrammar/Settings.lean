/-!
Settings of a grammar. They are fixed when the grammar is made.
-/

namespace SqlGrammar

/-- What a user may set: a text in front of every table name, and whether identifiers are quoted. -/
structure Settings where
  tablePrefix : String := ""
  quoteIdentifiers : Bool := true
  deriving DecidableEq, Inhabited

end SqlGrammar
