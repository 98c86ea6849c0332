import FxLang.Token.Basic

/-!
# Expression trees

A tree has a token at every node. Reading an expression builds leaves, operators with one operand on
their right and operators with two operands. A tree that is put together by hand may also have an
operator with an operand on its left only.
-/

namespace FxLang

/-- An expression. -/
inductive Expr where
  /-- A literal or an identifier. -/
  | leaf (token : Token)
  /-- An operator in front of its operand. -/
  | unary (operator : Token) (operand : Expr)
  /-- An operator behind its operand. -/
  | trailing (operator : Token) (operand : Expr)
  | binary (operator : Token) (left right : Expr)
deriving DecidableEq, Repr

namespace Expr

/-- The token at the root. -/
def token : Expr → Token
  | .leaf token => token
  | .unary operator _ | .trailing operator _ | .binary operator _ _ => operator

/-- The tree in full parentheses, each operator in front of its operands. -/
def render : Expr → String
  | .leaf token => token.text
  | .unary operator operand | .trailing operator operand =>
    "(" ++ operator.text ++ " " ++ operand.render ++ ")"
  | .binary operator left right =>
    "(" ++ operator.text ++ " " ++ left.render ++ " " ++ right.render ++ ")"

/-- The leaves from left to right. -/
def leaves : Expr → List Token
  | .leaf token => [token]
  | .unary _ operand | .trailing _ operand => operand.leaves
  | .binary _ left right => left.leaves ++ right.leaves

end Expr

end FxLang
