import SqlGrammar.Dialect.Firebird
import SqlGrammar.Main
import SqlGrammar.Query.Build
import SqlGrammar.Schema.Query
import SqlGrammar.Session
import SqlGrammar.Proofs.Piece
import SqlGrammar.Proofs.Spelling
import SqlGrammar.Proofs.Source
import SqlGrammar.Proofs.Apart
import SqlGrammar.Proofs.Canonical
import SqlGrammar.Proofs.Collect
import SqlGrammar.Proofs.Filling
import SqlGrammar.Proofs.Identifiers
import SqlGrammar.Proofs.Paging
import SqlGrammar.Proofs.Keyword
import SqlGrammar.Proofs.Masking
import SqlGrammar.Proofs.Reading
import SqlGrammar.Proofs.RoundTrip
import SqlGrammar.Proofs.Calls
import SqlGrammar.Proofs.Insertion
import SqlGrammar.Proofs.Accepting
import SqlGrammar.Proofs.Nesting
import SqlGrammar.Proofs.Storing
import SqlGrammar.Proofs.Building
import SqlGrammar.Proofs.Unquoting
import SqlGrammar.Proofs.Qualifying
import SqlGrammar.Proofs.Rounding
import SqlGrammar.Proofs.WholeNumber
import SqlGrammar.Proofs.Lookup
import SqlGrammar.Proofs.ExactValue
import SqlGrammar.Proofs.Nearest
import SqlGrammar.Proofs.Numeral
import SqlGrammar.Proofs.DecimalIdentifier
import SqlGrammar.Proofs.Existence
import SqlGrammar.Proofs.Pruning
import SqlGrammar.Proofs.Unwrapping
import SqlGrammar.Proofs.AliasOffset
import SqlGrammar.Proofs.AddedMember
import SqlGrammar.Proofs.Counting
import SqlGrammar.Proofs.MemberText
import SqlGrammar.Proofs.RecordText
import SqlGrammar.Proofs.Editing
import SqlGrammar.Proofs.JsonGrammar
import SqlGrammar.Proofs.MemberOrder
import SqlGrammar.Proofs.EditedData
