import FrontEnd.Main
import FrontEnd.Proofs.Parsing.Change
import FrontEnd.Proofs.Parsing.Regular
import FrontEnd.Proofs.Syntax.Grouping
import FrontEnd.Proofs.Scope.Frames
import FrontEnd.Proofs.Checking.Checker
import FrontEnd.Proofs.Syntax.Reads
import FrontEnd.Proofs.Checking.Tracks
import FrontEnd.Proofs.Parsing.Takes
import FrontEnd.Proofs.Parsing.Sound.Expression
import FrontEnd.Proofs.Parsing.Sound.Signature
import FrontEnd.Proofs.Parsing.Sound.Statement
import FrontEnd.Proofs.Parsing.Sound.File
import FrontEnd.Proofs.Token.Stream
import FrontEnd.Proofs.Checking.Agreement
import FrontEnd.Proofs.Parsing.Yields
import FrontEnd.Proofs.Parsing.Complete.Expression
import FrontEnd.Proofs.Syntax.ReadsFile
import FrontEnd.Proofs.Parsing.Complete.Signature
import FrontEnd.Proofs.Parsing.Complete.Statement
import FrontEnd.Proofs.Parsing.Complete.File
import FrontEnd.Proofs.Syntax.Longest
import FrontEnd.Proofs.Syntax.LongestFile
import FrontEnd.Proofs.Parsing.Acceptance
import FrontEnd.Proofs.Parsing.Precedence
import FrontEnd.Proofs.Token.Lexemes
import FrontEnd.Proofs.Token.Spelled
import FrontEnd.Proofs.Tree.Source
import FrontEnd.Proofs.Syntax.ReadsBack
import FrontEnd.Proofs.Tree.Scans
import FrontEnd.Proofs.Parsing.RoundTrip
import FrontEnd.Proofs.Parsing.Fuel
import FrontEnd.Proofs.Parsing.Rounds
import FrontEnd.Proofs.Parsing.Recovery
import FrontEnd.Proofs.Parsing.Ending
import FrontEnd.Proofs.Parsing.Counting
import FrontEnd.Proofs.Parsing.Entered
import FrontEnd.Proofs.Parsing.Alongside
import FrontEnd.Proofs.Parsing.Past
import FrontEnd.Proofs.Parsing.Continuation
import FrontEnd.Proofs.Parsing.Alone
import FrontEnd.Proofs.Parsing.Isolation
import FrontEnd.Proofs.Token.Extended
import FrontEnd.Proofs.Parsing.Extension
import FrontEnd.Proofs.Token.Places
import FrontEnd.Proofs.Diagnostic.Excerpt
import FrontEnd.Proofs.Parsing.Oblivious
import FrontEnd.Proofs.Scope.Stack
import FrontEnd.Proofs.Token.LineEnds
import FrontEnd.Proofs.Parsing.Balanced
import FrontEnd.Proofs.Parsing.Layout
import FrontEnd.Proofs.Parsing.EntryPoint
import FrontEnd.Proofs.Parsing.Located
import FrontEnd.Proofs.Parsing.Misplaced
import FrontEnd.Proofs.Parsing.Truncation
import FrontEnd.Proofs.Token.Lexer
import FrontEnd.Proofs.Token.Munch
import FrontEnd.Proofs.Token.Word
import FrontEnd.Proofs.Token.Comment
import FrontEnd.Proofs.Decimal.Positional
import FrontEnd.Proofs.Token.Number
import FrontEnd.Proofs.Text.Quoted
import FrontEnd.Proofs.Tree.Sexp
import FrontEnd.Proofs.Tree.Phrases
import FrontEnd.Proofs.Tree.Unambiguous
import FrontEnd.Proofs.Parsing.Named
import FrontEnd.Proofs.Source.Normalized
import FrontEnd.Proofs.Diagnostic.Colours
import FrontEnd.Proofs.Token.Literal
import FrontEnd.Proofs.Parsing.Literal
import FrontEnd.Proofs.Token.Listed
import FrontEnd.Proofs.Parsing.Characters
import FrontEnd.Proofs.CommandLine
