import FxLang.Error
import FxLang.Expr.Basic
import FxLang.Expr.Bindings
import FxLang.Session.Diagnostic

/-!
# Events of a session

The log of a session records each token taken, each rule entered, each step of the expression
parser, each diagnostic and each return to step. An event is data; `Event.level` and `Event.message`
say how a log shows it.
-/

namespace FxLang

/-- How much attention an event deserves. -/
inductive Level where
  | trace | debug | info | warn
deriving DecidableEq, Repr

/-- The name a level is shown under. -/
def Level.name : Level → String
  | .trace => "TRACE"
  | .debug => "DEBUG"
  | .info => "INFO"
  | .warn => "WARN"

/-- Something that happened in a session. -/
inductive Event where
  /-- A token was taken from the stream. -/
  | taken (token : Token)
  /-- A token was read as the start of an operand, under a minimal binding power. -/
  | operand (token : Token) (min : BindingPower)
  /-- An operator was read behind a complete left operand. -/
  | operator (token : Token) (left : Expr)
  /-- A diagnostic was recorded. -/
  | reported (diagnostic : Diagnostic)
  /-- Skipping tokens stopped in front of a token. -/
  | synchronized (token : Token) (context : String)
  /-- A grammar rule was entered. -/
  | entering (rule : String)
  /-- A session started on a source. -/
  | started (file : String)
  /-- A session came to the end of a source. -/
  | finished (file : String) (functions diagnostics : Nat)
  /-- A session was given up. -/
  | aborted (file : String) (error : Error)
deriving DecidableEq, Repr

namespace Event

/-- The level of an event. -/
def level : Event → Level
  | .taken _ | .operand .. | .operator .. => .trace
  | .synchronized .. | .entering _ => .debug
  | .started _ | .finished .. | .aborted .. => .info
  | .reported _ => .warn

/-- The event in words. -/
def message : Event → String
  | .taken token => "lex " ++ token.describe
  | .operand token min =>
    "nud " ++ token.describe ++ " (min BindingPower(" ++ toString min.toInt ++ "))"
  | .operator token left => "led " ++ token.describe ++ " over " ++ left.render
  | .reported diagnostic => diagnostic.text
  | .synchronized token context => "synchronized on " ++ token.describe ++ " in " ++ context
  | .entering rule => "entering " ++ rule
  | .started file => "parsing " ++ file
  | .finished file functions diagnostics =>
    "parsed " ++ file ++ ": " ++ toString functions ++ " function(s), " ++ toString diagnostics
      ++ " diagnostic(s)"
  | .aborted file error => "parsing " ++ file ++ " aborted: " ++ error.message

/-- Level and message, as a line of a log. -/
def line (e : Event) : String :=
  e.level.name ++ " " ++ e.message

end Event

end FxLang
