import FxLang.Text.Ranges
import FxLang.Text.Alphabetic
import FxLang.Text.Numeric
import FxLang.Text.Blank
import FxLang.Text.Extending
import FxLang.Text.Printable
import FxLang.Text.Quoted
import FxLang.Text.Cursor
import FxLang.Text.Reader
import FxLang.Text.Lines
import FxLang.Token.Kind
import FxLang.Token.Basic
import FxLang.Error
import FxLang.Token.Number
import FxLang.Token.Lexeme
import FxLang.Token.Stream
import FxLang.Token.Lexer
import FxLang.Expr.Basic
import FxLang.Expr.Eval
import FxLang.Expr.Bindings
import FxLang.Program
import FxLang.Session.Diagnostic
import FxLang.Session.Event
import FxLang.Session.Basic
import FxLang.Expr.Climbing
import FxLang.Grammar.Context
import FxLang.Grammar.Statement
import FxLang.Grammar.Function
import FxLang.Report
import FxLang.Cli
import FxLang.SourceTree
import FxLang.Main
import FxLang.Proofs.Token.Upcoming
import FxLang.Proofs.Session.Moves
import FxLang.Proofs.Session.Keeps
import FxLang.Proofs.Session.Yields
import FxLang.Proofs.Expr.Phrase
import FxLang.Proofs.Grammar.Derivation
import FxLang.Proofs.Grammar.Language
import FxLang.Proofs.Grammar.Verdict
import FxLang.Proofs.Grammar.Blame
import FxLang.Proofs.Grammar.Omission
import FxLang.Proofs.Grammar.Reading
import FxLang.Proofs.Grammar.Recovery
import FxLang.Proofs.Grammar.Junk
import FxLang.Proofs.Token.Segments
import FxLang.Proofs.Session.Fate
import FxLang.Proofs.Expr.Standalone
import FxLang.Proofs.Grammar.Outcome
import FxLang.Proofs.Grammar.Kept
import FxLang.Proofs.Token.Lookahead
import FxLang.Proofs.Token.Boundary
import FxLang.Proofs.Token.Relexing
import FxLang.Proofs.Token.Places
import FxLang.Proofs.Token.Horizon
import FxLang.Proofs.Session.Tally
import FxLang.Proofs.Grammar.Endings
import FxLang.Proofs.Session.Twins
import FxLang.Proofs.Grammar.Layout
import FxLang.Proofs.Expr.Alike
import FxLang.Proofs.Report
import FxLang.Proofs.Session.Tandem
import FxLang.Proofs.Session.Course
import FxLang.Proofs.Grammar.Abort
import FxLang.Proofs.Session.Trail
import FxLang.Proofs.Grammar.Braces
import FxLang.Proofs.Grammar.Parameters
import FxLang.Proofs.Grammar.Order
import FxLang.Proofs.Expr.Offending
import FxLang.Proofs.Grammar.Headers
import FxLang.Proofs.Expr.Evaluation
import FxLang.Proofs.Expr.Display
import FxLang.Proofs.Token.Numerals
import FxLang.Proofs.Token.Lexer
import FxLang.Proofs.Token.Failures
import FxLang.Proofs.Session.Recursion
import FxLang.Proofs.Expr.Rounds
import FxLang.Proofs.Expr.Safety
import FxLang.Proofs.Grammar.Rounds
import FxLang.Proofs.Text.Undo
