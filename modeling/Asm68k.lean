import Asm68k.Command.Run
import Asm68k.Main
import Asm68k.Proofs.Listing.Leaves
import Asm68k.Proofs.Resolver.Run
import Asm68k.Proofs.Resolver.Moments
import Asm68k.Proofs.Resolver.Walk
import Asm68k.Proofs.Bytes
import Asm68k.Proofs.Resolver.Agreement
import Asm68k.Proofs.Resolver.Replacement
import Asm68k.Proofs.Expression.Sorting
import Asm68k.Proofs.Rune
import Asm68k.Proofs.Expression.Literal
import Asm68k.Proofs.Expression.Rendering
import Asm68k.Proofs.Resolver.Unrolling
import Asm68k.Proofs.Resolver.Inlining
import Asm68k.Proofs.Expression.Grammar
import Asm68k.Proofs.Expression.Acceptance
import Asm68k.Proofs.Expression.Lookups
import Asm68k.Proofs.Statement.Evaluated
import Asm68k.Proofs.Resolver.Execution
import Asm68k.Proofs.Resolver.Congruence
import Asm68k.Proofs.Resolver.Log
import Asm68k.Proofs.Resolver.Transfer
import Asm68k.Proofs.Resolver.SecondPass
import Asm68k.Proofs.Resolver.Thresholds
import Asm68k.Proofs.Resolver.Constants
import Asm68k.Proofs.Resolver.Lagging
import Asm68k.Proofs.Resolver.Moving
import Asm68k.Proofs.Resolver.Bounds
import Asm68k.Proofs.Cancellation
import Asm68k.Proofs.Listing.Times
import Asm68k.Proofs.Resolver.Timings
import Asm68k.Proofs.Lexeme
import Asm68k.Proofs.Token.Layout
import Asm68k.Proofs.Token.Classification
import Asm68k.Proofs.Token.Spans
import Asm68k.Proofs.Token.Grammar
import Asm68k.Proofs.Token.Quotation
import Asm68k.Proofs.Statement.Data
import Asm68k.Proofs.Pattern
import Asm68k.Proofs.Expression.Characters
import Asm68k.Proofs.Mode.Forms
import Asm68k.Proofs.Mode.Names
import Asm68k.Proofs.Mode.Indexed
import Asm68k.Proofs.Mode.Displaced
import Asm68k.Proofs.Mode.Absolute
import Asm68k.Proofs.Statement.Alike
import Asm68k.Proofs.Timing.Key
import Asm68k.Proofs.Timing.Forms
import Asm68k.Proofs.Timing.Range
import Asm68k.Proofs.Timing.Calculation
import Asm68k.Proofs.Decimal
import Asm68k.Proofs.Resolver.Labels
import Asm68k.Proofs.Statement.Fragment
import Asm68k.Proofs.Statement.Reservation
import Asm68k.Proofs.Statement.Substitution
import Asm68k.Proofs.Letters
import Asm68k.Proofs.Statement.Letters
import Asm68k.Proofs.Statement.Comment
import Asm68k.Proofs.Expression.Names
import Asm68k.Proofs.LineEnds
import Asm68k.Proofs.Listing.Totals
import Asm68k.Proofs.Register
import Asm68k.Proofs.Report.Color
import Asm68k.Proofs.Json
import Asm68k.Proofs.Timing.Json
