import ShortForm.Tree.Build
import ShortForm.Tree.Alike
import ShortForm.Tree.Read
import ShortForm.Printer
import ShortForm.Options.Json
import ShortForm.Proofs.Named
import ShortForm.Proofs.Json.WrittenNumber
import ShortForm.Proofs.Json.Nesting
import ShortForm.Proofs.Json.Listed
import ShortForm.Proofs.Json.SpelledNumber
import ShortForm.Proofs.Json.SpelledString
import ShortForm.Proofs.Json.Spelled
import ShortForm.Proofs.Json.RoundTrip
import ShortForm.Proofs.Json.CutShort
import ShortForm.Proofs.Binary64
import ShortForm.Proofs.Decimal
import ShortForm.Proofs.Json.WrittenDecimal
import ShortForm.Proofs.Json.Injective
import ShortForm.Proofs.Kind
import ShortForm.Proofs.Tree.Kept
import ShortForm.Proofs.Json.Accord
import ShortForm.Proofs.Tree.RoundTrip
import ShortForm.Proofs.Json.Pass
import ShortForm.Proofs.Json.Expect
import ShortForm.Proofs.Tree.OfJson
import ShortForm.Proofs.Tree.Streaming
import ShortForm.Proofs.Tree.Shape
import ShortForm.Proofs.Tree.Spelled
import ShortForm.Proofs.Tree.Presented
import ShortForm.Proofs.Tree.Recognised
import ShortForm.Proofs.Tree.Listing
import ShortForm.Proofs.Tree.Alike
import ShortForm.Proofs.Tree.Reencoded
import ShortForm.Proofs.Tree.Injective
import ShortForm.Proofs.Printer.Piece
import ShortForm.Proofs.Printer.Skeleton
import ShortForm.Proofs.Printer.WellShaped
import ShortForm.Proofs.Printer.Context
import ShortForm.Proofs.Printer.Hidden
import ShortForm.Proofs.Printer.SingleLine
import ShortForm.Proofs.Printer.Entries
import ShortForm.Proofs.Printer.Expand
import ShortForm.Proofs.Printer.Alike
import ShortForm.Proofs.Printer.Termination
import ShortForm.Proofs.Printer.Parts
import ShortForm.Proofs.Literal
import ShortForm.Proofs.Printer.Unambiguous
import ShortForm.Proofs.Json.CutValue
import ShortForm.Proofs.Json.CutNumber
import ShortForm.Proofs.Tree.CutShort
import ShortForm.Proofs.Literal.Segments
import ShortForm.Proofs.Json.Bounded
import ShortForm.Proofs.Tree.Finite
import ShortForm.Proofs.Tree.ExactFloat
import ShortForm.Proofs.Literal.Float
import ShortForm.Proofs.Decimal.Tie
import ShortForm.Proofs.Literal.Notations
import ShortForm.Proofs.Registry
import ShortForm.Proofs.Registry.Order
