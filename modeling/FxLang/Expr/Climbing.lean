import FxLang.Session.Basic

/-!
# Reading expressions by precedence climbing

An expression starts with an operand. Operators behind it take it over as their left operand for as
long as they bind tighter than the minimum that the caller set. What a token does where an operand
is expected, and which tokens are operators, is the table's to say.

The end of the input and `)` never belong to an expression that is open around them, so they end it
whatever the table says. A token that does not fit stays in the stream.

Every call inside an expression comes after a token was taken, so the depth of the calls and the
rounds of each climb are bounded by the tokens left.
-/

namespace FxLang

open Session

/-- A token that ends an expression in every table. Mirrors `ends_expression`. -/
def Token.endsExpression (t : Token) : Bool :=
  t.kind = .eof || t.kind = .closeParen

namespace Expr

/-- A parser of expressions above a minimal binding power; `none` where there is no expression. -/
abbrev Reader := BindingPower → ParseM (Option Expr)

/-- The operand of an operator, which must be there. Mirrors the operands of `parse_prefix_expr` and
`parse_binary_expr`. -/
def operandOf (read : Reader) (operator : Token) (min : BindingPower) : ParseM Expr := do
  match ← read min with
  | some operand => pure operand
  | none =>
    let found ← peek
    throw (.atToken (.missingOperand operator) found)

/-- A group, after its opening token: an expression and `)`. Mirrors `parse_grouping_expr`. -/
def group (read : Reader) : ParseM Expr := do
  let inner ← read .lowest
  let close ← peek
  if close.kind = .closeParen then
    let _ ← advance
    match inner with
    | some e => pure e
    | none => throw (.atToken .emptyExpression close)
  else
    throw (.atToken .unmatchedParenthesis close)

/-- The operand that starts with a token of a role. -/
def operandFrom (table : Bindings) (read : Reader) : Nud → Token → ParseM Expr
  | .primary, token => pure (.leaf token)
  | .unary, operator => do
    let operand ← operandOf read operator (table.power operator.kind)
    pure (.unary operator operand)
  | .grouping, _ => group read

/-- Extends a left operand by at most `n` operators that bind tighter than `min`. Mirrors the loop
of `parse_expr`. -/
def climb (table : Bindings) (read : Reader) (min : BindingPower) : Nat → Expr → ParseM Expr
  | 0, left => pure left
  | n + 1, left => do
    let next ← peek
    if next.endsExpression || table.power next.kind ≤ min then
      pure left
    else if table.led next.kind then
      let operator ← advance
      emit (.operator operator left)
      let right ← operandOf read operator (table.rightPower operator.kind)
      climb table read min n (.binary operator left right)
    else
      throw (.atToken .cannotFollow next)

/-- Reads an expression whose operands are nested at most `n` deep. Mirrors `parse_expr`. -/
def readWithin (table : Bindings) : Nat → Reader
  | 0, _ => pure none
  | n + 1, min => do
    let first ← peek
    if first.endsExpression then
      pure none
    else
      match table.nud first.kind with
      | none => throw (.atToken .cannotStart first)
      | some role =>
        let token ← advance
        emit (.operand token min)
        let left ← operandFrom table (readWithin table n) role token
        let e ← climb table (readWithin table n) min n left
        pure (some e)

/-- Reads an expression of operators that bind tighter than `min`. Where the next token ends
expressions there is none, and nothing is taken. -/
def read (table : Bindings) : Reader := fun min => do
  let n ← rounds
  readWithin table n min

/-- Reads an expression that uses up the input. Mirrors `parse`. -/
def readWhole : ParseM Expr := do
  let e ← read .standard .lowest
  let next ← peek
  match e with
  | none => throw (.atToken .emptyExpression next)
  | some e => if next.isEof then pure e else throw (.atToken .trailingInput next)

/-- The expression that a source consists of. Mirrors `parse_expression_source`. -/
def ofSource (file source : String) : Except Error Expr :=
  match readWhole (.ofSource file source) with
  | .ok e _ => .ok e
  | .error e _ => .error e

end Expr

end FxLang
