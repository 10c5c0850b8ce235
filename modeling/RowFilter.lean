import RowFilter.Builder
import RowFilter.Decimal.Reader
import RowFilter.Json.Decode
import RowFilter.Predicate.Printer
import RowFilter.Predicate.Visitor
import RowFilter.Session
import RowFilter.Proofs.Grammar.Leaf
import RowFilter.Proofs.Parser.Reads
import RowFilter.Proofs.Parser.Rejects
import RowFilter.Proofs.Grammar.LeafReading
import RowFilter.Proofs.Grammar.Phrase
import RowFilter.Proofs.Grammar.Reading
import RowFilter.Proofs.Literal.Order
import RowFilter.Proofs.Literal.Set
import RowFilter.Proofs.Session.Outcome
import RowFilter.Proofs.Grammar.Exactness
import RowFilter.Proofs.Grammar.Viable
import RowFilter.Proofs.Predicate.WellFormed
import RowFilter.Proofs.Predicate.Buildable
import RowFilter.Proofs.Token.Word
import RowFilter.Proofs.Token.Number
import RowFilter.Proofs.Token.Quoted
import RowFilter.Proofs.Token.Writing
import RowFilter.Proofs.Token.Tiling
import RowFilter.Proofs.Token.Seam
import RowFilter.Proofs.RoundTrip.Column
import RowFilter.Proofs.Predicate.Parts
import RowFilter.Proofs.RoundTrip.Leaf
import RowFilter.Proofs.RoundTrip.Tree
import RowFilter.Proofs.RoundTrip.Meaning
import RowFilter.Proofs.RoundTrip.Scales
import RowFilter.Proofs.RoundTrip.Reparse
import RowFilter.Proofs.Decimal.Encoded
import RowFilter.Proofs.Json.RoundTrip
import RowFilter.Proofs.Json.Places
import RowFilter.Proofs.Session.Limit
import RowFilter.Proofs.Machine.Basic
import RowFilter.Proofs.Machine.Leaf
import RowFilter.Proofs.Machine.Expression
import RowFilter.Proofs.Machine.Calls
import RowFilter.Proofs.Session.Cut
import RowFilter.Proofs.Session.Respelling
import RowFilter.Proofs.Session.Composition
import RowFilter.Proofs.RoundTrip.Lines
import RowFilter.Proofs.RoundTrip.Growth
import RowFilter.Proofs.Grammar.Violations
import RowFilter.Proofs.Grammar.MeaningError
import RowFilter.Proofs.Json.Rebuild
import RowFilter.Proofs.Session.Log
import RowFilter.Proofs.Evaluation.Basic
import RowFilter.Proofs.Evaluation.Complement
import RowFilter.Proofs.Pattern.Units
import RowFilter.Proofs.Pattern.Matching
import RowFilter.Proofs.Literal.Canonical
import RowFilter.Proofs.Predicate.Nodes
import RowFilter.Proofs.RoundTrip.Reflected
import RowFilter.Proofs.RoundTrip.Negation
import RowFilter.Proofs.Predicate.Visitor
import RowFilter.Proofs.Grammar.DocumentOrder
import RowFilter.Proofs.Token.NumberText
import RowFilter.Proofs.Token.StringToken
import RowFilter.Proofs.RoundTrip.BareName
