import FxLang.Error
import FxLang.Expr.Basic

/-!
# Values of expressions

Expressions have floating-point values. Integer literals are rounded to the nearest `Float`, and an
identifier has the value that the environment gives it. A missing operand counts as zero, so that
`-x` is `0 - x`. The left operand is evaluated before the right one, and both before the operator is
looked at, so the first failure in source order is the one reported.
-/

namespace FxLang

/-- The values of identifiers. -/
abbrev Environment := String → Option Float

/-- No identifier has a value. -/
def Environment.empty : Environment := fun _ => none

namespace Expr

/-- A token without a numeric meaning. Mirrors `not_numeric`. -/
def notNumeric (token : Token) : Error :=
  { cause := .notNumeric token.text, position := token.position }

/-- The value of a leaf. Mirrors `eval_leaf`. -/
def leafValue (env : Environment) (token : Token) : Except Error Float :=
  match token.kind, token.literal with
  | .integer, .integer value => .ok (Float.ofInt value.toInt)
  | .float, .float value => .ok value
  | .identifier, _ =>
    match env token.text with
    | some value => .ok value
    | none => .error { cause := .unboundIdentifier token.text, position := token.position }
  | _, _ => .error (notNumeric token)

/-- The value of an operator on two operands. -/
def operatorValue (operator : Token) (left right : Float) : Except Error Float :=
  match operator.kind with
  | .plus => .ok (left + right)
  | .dash => .ok (left - right)
  | .star => .ok (left * right)
  | .caret => .ok (Float.pow left right)
  | _ => .error (notNumeric operator)

/-- The value of an expression in an environment. Mirrors `eval_in`. -/
def evalIn (env : Environment) : Expr → Except Error Float
  | .leaf token => leafValue env token
  | .unary operator operand => do
    let right ← operand.evalIn env
    operatorValue operator 0.0 right
  | .trailing operator operand => do
    let left ← operand.evalIn env
    operatorValue operator left 0.0
  | .binary operator left right => do
    let left ← left.evalIn env
    let right ← right.evalIn env
    operatorValue operator left right

/-- The value of an expression without identifiers. Mirrors `eval`. -/
def eval (e : Expr) : Except Error Float :=
  e.evalIn .empty

end Expr

end FxLang
