import FxLang.Text.Quoted
import FxLang.Token.Basic

/-!
# Errors

An error is a cause and a position. The cause is data; its name, its category and every wording
(`detail`, `expected`, `tip`) are functions of it, all of them in this module.

Lexical and fatal errors end a parse session. A syntax error inside a program is turned into a
diagnostic, for which `expected` and `found` provide the words and the token.
-/

namespace FxLang

open Text (quoted)

/-- Broad classes of failure. -/
inductive Category where
  | lexical | syntactic | fatal | evaluation
deriving DecidableEq, Repr

/-- The name a category is shown under. -/
def Category.name : Category → String
  | .lexical => "Lexical"
  | .syntactic => "Syntax"
  | .fatal => "Fatal"
  | .evaluation => "Evaluation"

/-- What went wrong. -/
inductive Cause where
  /-- A character that starts no token. -/
  | unrecognised (text : String)
  | badOperator (text : String)
  | badSeparator (text : String)
  /-- `0x` without a hexadecimal digit after it. -/
  | malformedNumber (text : String)
  /-- An integer above the 64-bit limit. -/
  | numberTooLarge (text : String)
  /-- A token that cannot start an expression. -/
  | cannotStart (found : Token)
  /-- A token that cannot follow an operand. -/
  | cannotFollow (found : Token)
  | missingOperand (operator found : Token)
  /-- A group that is not closed where it should be. -/
  | unmatchedParenthesis (found : Token)
  | emptyExpression (found : Token)
  /-- More input after a complete expression. -/
  | trailingInput (found : Token)
  /-- The session gave up after so many diagnostics. -/
  | tooManyErrors (count : Nat)
  /-- The input ended while tokens were skipped to get back in step. -/
  | unexpectedEof (context : String)
  | unboundIdentifier (name : String)
  /-- A token without a numeric meaning. -/
  | notNumeric (text : String)
deriving DecidableEq, Repr

namespace Cause

/-- The name a cause is shown under. Mirrors `get_error_name`. -/
def name : Cause → String
  | .unrecognised _ => "UnrecognisedToken"
  | .badOperator _ => "BadOperator"
  | .badSeparator _ => "BadSeparator"
  | .malformedNumber _ => "MalformedNumber"
  | .numberTooLarge _ => "NumberParseError"
  | .cannotStart _ => "NotAPrefixForm"
  | .cannotFollow _ => "NotAnInfixForm"
  | .missingOperand .. => "MissingOperand"
  | .unmatchedParenthesis _ => "UnmatchedParenthesis"
  | .emptyExpression _ => "EmptyExpression"
  | .trailingInput _ => "TrailingInput"
  | .tooManyErrors _ => "TooManyErrors"
  | .unexpectedEof _ => "UnexpectedEof"
  | .unboundIdentifier _ => "UnboundIdentifier"
  | .notNumeric _ => "NotNumeric"

/-- The class a cause belongs to. Mirrors `category`. -/
def category : Cause → Category
  | .unrecognised _ | .badOperator _ | .badSeparator _ | .malformedNumber _
  | .numberTooLarge _ => .lexical
  | .cannotStart _ | .cannotFollow _ | .missingOperand .. | .unmatchedParenthesis _
  | .emptyExpression _ | .trailingInput _ => .syntactic
  | .tooManyErrors _ | .unexpectedEof _ => .fatal
  | .unboundIdentifier _ | .notNumeric _ => .evaluation

/-- The cause in words. Texts from the source are quoted. -/
def detail : Cause → String
  | .unrecognised text => "unrecognised token: " ++ quoted text
  | .badOperator text => "bad operator: " ++ quoted text
  | .badSeparator text => "bad separator: " ++ quoted text
  | .malformedNumber text => "malformed number: " ++ quoted text
  | .numberTooLarge text => "error parsing number: " ++ quoted text
  | .cannotStart found => quoted found.text ++ " is not a valid prefix form"
  | .cannotFollow found => quoted found.text ++ " is not a valid infix form"
  | .missingOperand operator _ => "missing operand for " ++ quoted operator.text
  | .unmatchedParenthesis found => "unmatched parenthesis, found " ++ quoted found.text
  | .emptyExpression _ => "empty expression"
  | .trailingInput found => "unexpected " ++ quoted found.text ++ " after expression"
  | .tooManyErrors count => "too many syntax errors (" ++ toString count ++ ")"
  | .unexpectedEof context => "unexpected end of input while recovering " ++ context
  | .unboundIdentifier name => "identifier " ++ quoted name ++ " is not bound"
  | .notNumeric text => quoted text ++ " is not numeric"

/-- What was wanted in place of what was found. Mirrors `expected`. -/
def expected : Cause → String
  | .cannotStart _ => "an operand"
  | .cannotFollow _ => "an operator"
  | .missingOperand operator _ => "an operand after `" ++ operator.text ++ "`"
  | .unmatchedParenthesis _ => "')'"
  | .emptyExpression _ => "an expression"
  | .trailingInput _ => "end of input"
  | cause => cause.detail

/-- The token that a syntax error tripped over. Mirrors `found`. -/
def found : Cause → Option Token
  | .cannotStart found | .cannotFollow found | .missingOperand _ found
  | .unmatchedParenthesis found | .emptyExpression found | .trailingInput found => some found
  | _ => none

/-- A hint for the reader of a report. Texts from the source stand as they are. Mirrors
`get_tip`. -/
def tip : Cause → Option String
  | .unrecognised _ => none
  | .badOperator text => some ("`" ++ text ++ "` is not an operator")
  | .badSeparator text => some ("`" ++ text ++ "` is not a separator")
  | .malformedNumber text => some ("Malformed number: `" ++ text
      ++ "`, hexadecimal literals need at least one digit after `0x`")
  | .numberTooLarge text => some ("Invalid number: `" ++ text
      ++ "`, is it above the integer limit?")
  | .cannotStart found => some ("`" ++ found.text ++ "` cannot start an expression")
  | .cannotFollow found => some ("`" ++ found.text ++ "` cannot follow an operand")
  | .missingOperand operator _ => some ("Operator `" ++ operator.text
      ++ "` is missing its right operand")
  | .unmatchedParenthesis _ => some "Unmatched parenthesis, did you miss a `)`?"
  | .emptyExpression _ => some "Expected an expression"
  | .trailingInput found => some ("Unexpected `" ++ found.text
      ++ "` after the end of the expression")
  | .tooManyErrors count => some ("Parsing stopped after " ++ toString count ++ " syntax errors")
  | .unexpectedEof context => some ("Reached end of file while recovering " ++ context)
  | .unboundIdentifier name => some ("Identifier `" ++ name ++ "` has no value")
  | .notNumeric text => some ("`" ++ text ++ "` is not a number")

/-- The syntax errors are exactly those that carry the token they tripped over. -/
theorem isSome_found_iff (cause : Cause) :
    cause.found.isSome ↔ cause.category = .syntactic := by
  cases cause <;> simp [found, category]

end Cause

/-- A failure at a place. -/
structure Error where
  cause : Cause
  position : Position
deriving DecidableEq, Repr

namespace Error

/-- A syntax error stands at the token it tripped over. -/
def atToken (cause : Token → Cause) (found : Token) : Error :=
  { cause := cause found, position := found.position }

/-- The class of the cause. -/
def category (e : Error) : Category :=
  e.cause.category

/-- The errors that end a session instead of becoming a diagnostic. Mirrors `is_fatal`. -/
def isFatal (e : Error) : Bool :=
  e.category = .lexical || e.category = .fatal

/-- Position and cause in words. -/
def message (e : Error) : String :=
  e.position.text ++ ": " ++ e.cause.detail

end Error

end FxLang
