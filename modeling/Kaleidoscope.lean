import Kaleidoscope.Main
import Kaleidoscope.Proofs.Grammar.Acceptance
import Kaleidoscope.Proofs.Grammar.Derivation
import Kaleidoscope.Proofs.Grammar.Entity
import Kaleidoscope.Proofs.Grammar.Links
import Kaleidoscope.Proofs.Grammar.Descent
import Kaleidoscope.Proofs.Grammar.Climbing
import Kaleidoscope.Proofs.Grammar.Calls
import Kaleidoscope.Proofs.Grammar.Unwinding
import Kaleidoscope.Proofs.Grammar.Precedence
import Kaleidoscope.Proofs.Grammar.Program
import Kaleidoscope.Proofs.Grammar.Readers
import Kaleidoscope.Proofs.Grammar.Reading
import Kaleidoscope.Proofs.Grammar.Recognition
import Kaleidoscope.Proofs.Number.Rounding
import Kaleidoscope.Proofs.Number.Spelling
import Kaleidoscope.Proofs.Operator.Table
import Kaleidoscope.Proofs.Session.Calls
import Kaleidoscope.Proofs.Session.Reformatting
import Kaleidoscope.Proofs.Session.Run
import Kaleidoscope.Proofs.Token.Decomposition
import Kaleidoscope.Proofs.Tree.Canonical
import Kaleidoscope.Proofs.Tree.LongChain
import Kaleidoscope.Proofs.Tree.Printer
import Kaleidoscope.Proofs.Tree.Provenance
import Kaleidoscope.Proofs.Tree.Rereading
import Kaleidoscope.Proofs.Tree.RoundTrip
import Kaleidoscope.Proofs.Tree.Vocabulary
import Kaleidoscope.Source.Stream
import Kaleidoscope.Tree.Node
import Kaleidoscope.Proofs.Token.LongestMatch
import Kaleidoscope.Proofs.Grammar.Locality
import Kaleidoscope.Proofs.Grammar.Viability
import Kaleidoscope.Proofs.Grammar.Nesting
import Kaleidoscope.Proofs.Grammar.Relocation
import Kaleidoscope.Proofs.Token.Joining
import Kaleidoscope.Proofs.Grammar.Recovery
import Kaleidoscope.Proofs.Session.Recovery
import Kaleidoscope.Proofs.Session.Trace
import Kaleidoscope.Proofs.Session.ErrorLimit
import Kaleidoscope.Proofs.Session.Filtering
import Kaleidoscope.Proofs.Token.Layout
import Kaleidoscope.Proofs.Session.Layout
import Kaleidoscope.Proofs.Token.Streaming
import Kaleidoscope.Proofs.Token.Lookahead
import Kaleidoscope.Proofs.Grammar.Lookahead
import Kaleidoscope.Proofs.Session.Lookahead
import Kaleidoscope.Proofs.Tree.Occurrence
import Kaleidoscope.Proofs.Session.Arity
import Kaleidoscope.Proofs.Token.Numeral
import Kaleidoscope.Proofs.Source.Answers
import Kaleidoscope.Proofs.Session.Account
import Kaleidoscope.Proofs.Session.Dialogue
import Kaleidoscope.Proofs.Number.Midpoint
import Kaleidoscope.Proofs.Number.Nearest
import Kaleidoscope.Proofs.Token.Denotation
import Kaleidoscope.Proofs.Source.Lines
import Kaleidoscope.Proofs.Token.Placement
import Kaleidoscope.Proofs.Grammar.Position
import Kaleidoscope.Proofs.Grammar.Excerpt
import Kaleidoscope.Proofs.Tree.Marks
import Kaleidoscope.Proofs.Grammar.SourceOrder
import Kaleidoscope.Proofs.Grammar.WellFormed
import Kaleidoscope.Proofs.Operator.Listing
import Kaleidoscope.Proofs.Command.OperatorLists
import Kaleidoscope.Proofs.Session.Extension
import Kaleidoscope.Proofs.Grammar.Priming
import Kaleidoscope.Proofs.Session.SoleExpression
import Kaleidoscope.Proofs.Command.Overriding
import Kaleidoscope.Proofs.Command.Responses
import Kaleidoscope.Proofs.Operator.Building
import Kaleidoscope.Proofs.Token.LoneCharacters
import Kaleidoscope.Proofs.Operator.Validation
