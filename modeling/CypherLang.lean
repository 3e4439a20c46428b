import CypherLang.Binary64
import CypherLang.Binary64.Text
import CypherLang.CommandLine
import CypherLang.CommandLine.Arguments
import CypherLang.CommandLine.DefaultProgram
import CypherLang.CommandLine.Files
import CypherLang.Console
import CypherLang.Decimal
import CypherLang.Diagnostic
import CypherLang.Diagnostic.Json
import CypherLang.Eval
import CypherLang.Failure
import CypherLang.Host
import CypherLang.Json
import CypherLang.JsonLibrary
import CypherLang.Listing
import CypherLang.Machine
import CypherLang.Machine.Event
import CypherLang.Main
import CypherLang.Proofs.Binary64.Nearest
import CypherLang.Proofs.Binary64.Order
import CypherLang.Proofs.Binary64.ReadBack
import CypherLang.Proofs.Binary64.Rounding
import CypherLang.Proofs.Diagnostic.ReadBack
import CypherLang.Proofs.Eval.Alive
import CypherLang.Proofs.Eval.Batches
import CypherLang.Proofs.Eval.Closing
import CypherLang.Proofs.Eval.Counters
import CypherLang.Proofs.Eval.Depths
import CypherLang.Proofs.Eval.Discipline
import CypherLang.Proofs.Eval.EntryPoint
import CypherLang.Proofs.Eval.Hygiene
import CypherLang.Proofs.Eval.Interruption
import CypherLang.Proofs.Eval.Limits
import CypherLang.Proofs.Eval.Mirroring
import CypherLang.Proofs.Eval.Moments
import CypherLang.Proofs.Eval.Output
import CypherLang.Proofs.Eval.Points
import CypherLang.Proofs.Eval.Provenance
import CypherLang.Proofs.Eval.Renumbering
import CypherLang.Proofs.Eval.Simulation
import CypherLang.Proofs.Eval.Steps
import CypherLang.Proofs.Eval.Termination
import CypherLang.Proofs.Failure.Position
import CypherLang.Proofs.Json.ReadBack
import CypherLang.Proofs.Listing.Lines
import CypherLang.Proofs.Store.Collection
import CypherLang.Proofs.Store.Lookup
import CypherLang.Proofs.Store.Release
import CypherLang.Proofs.Syntax.Blame
import CypherLang.Proofs.Syntax.BlankLines
import CypherLang.Proofs.Syntax.Completeness
import CypherLang.Proofs.Syntax.Completion
import CypherLang.Proofs.Syntax.CorrectPrefix
import CypherLang.Proofs.Syntax.EndOfFile
import CypherLang.Proofs.Syntax.Joining
import CypherLang.Proofs.Syntax.Laws
import CypherLang.Proofs.Syntax.Levels
import CypherLang.Proofs.Syntax.Likeness
import CypherLang.Proofs.Syntax.Locality
import CypherLang.Proofs.Syntax.NumberTokens
import CypherLang.Proofs.Syntax.Numbers
import CypherLang.Proofs.Syntax.PrintedTokens
import CypherLang.Proofs.Syntax.Progress
import CypherLang.Proofs.Syntax.Reading
import CypherLang.Proofs.Syntax.RoundTrip
import CypherLang.Proofs.Syntax.Rules
import CypherLang.Proofs.Syntax.Soundness
import CypherLang.Proofs.Syntax.Written
import CypherLang.Proofs.Syntax.Yield
import CypherLang.Proofs.Token.Joining
import CypherLang.Proofs.Token.Lexing
import CypherLang.Proofs.Token.Partition
import CypherLang.Proofs.Token.Positions
import CypherLang.Proofs.Token.Quoted
import CypherLang.Proofs.Value.Arithmetic
import CypherLang.Proofs.Value.Equality
import CypherLang.Proofs.Value.Ordering
import CypherLang.Session
import CypherLang.Store
import CypherLang.Store.Collect
import CypherLang.Syntax
import CypherLang.Syntax.Cursor
import CypherLang.Syntax.Grammar
import CypherLang.Syntax.Printer
import CypherLang.Syntax.SyntaxError
import CypherLang.Text.Letter
import CypherLang.Text.Numeral
import CypherLang.Text.Quoted
import CypherLang.Text.Ranges
import CypherLang.Text.Shapeless
import CypherLang.Token
import CypherLang.Token.Lexer
import CypherLang.Value
import CypherLang.Value.Operator
import CypherLang.Value.RuntimeError
