import FxLang.Expr.Climbing
import FxLang.Grammar.Context
import FxLang.Program

/-!
# Statements

The rules for statements and the blocks around them:

```text
Block := '{' Stmnt* '}'
Stmnt := Id '(' [Expr (',' Expr)*] ')' ';'
       | Id '=' Expr ';'
       | Type Id ';'
       | 'iter' '(' Id ':=' Expr ';' Expr ',' Expr ')' Block
```

A statement that does not follow its rule is reported and left out; reading goes on behind it. What
was reported inside a statement is told by the number of diagnostics before and after it.
-/

namespace FxLang

open Session

/-- The token that an error is about: the one it carries, or else the next. -/
def offendingToken (e : Error) : ParseM Token :=
  match e.cause.found with
  | some found => pure found
  | none => peek

/-- Reads an expression inside a construct. A syntax error becomes a diagnostic and gives `none`;
the caller gets back in step. Mirrors `parse_expression`. -/
def expression (context : String) : ParseM (Option Expr) := do
  match ← attempt (Expr.read .standard .lowest) with
  | .ok (some e) => pure (some e)
  | .ok none =>
    reportNext "an expression" context
    pure none
  | .error e =>
    if e.isFatal then
      throw e
    else
      let found ← offendingToken e
      report e.cause.expected context found
      pure none

namespace Stmt

/-- The construct, unless diagnostics were recorded since there were `errors` of them. -/
def unlessReported {α : Type} (errors : Nat) (construct : α) : ParseM (Option α) := do
  let now ← countErrors
  pure (if now = errors then some construct else none)

/-! ## Calls -/

/-- The tokens in front of which a broken argument ends. A `;` is skipped, so that `f(;);` is back
in step at its `)`. -/
def argumentMarkers : List Kind := [.comma, .closeParen, .closeCurly]

/-- An argument. A broken one is skipped. -/
def argument : ParseM (Option Expr) := do
  match ← expression Context.call with
  | some e => pure (some e)
  | none =>
    let _ ← synchronize argumentMarkers Context.call
    pure none

/-- At most `n` arguments, separated by commas. Broken ones are left out. Mirrors the loop of
`parse_fargs`. -/
def argumentsWithin : Nat → ParseM (List Expr)
  | 0 => pure []
  | n + 1 => do
    let argument ← argument
    if ← nextIs .comma then
      let _ ← advance
      let rest ← argumentsWithin n
      pure (argument.toList ++ rest)
    else
      pure argument.toList

/-- The arguments of a call, up to its `)`. Mirrors `parse_fargs`. -/
def arguments : ParseM (List Expr) := do
  if ← nextIs .closeParen then
    pure []
  else
    let n ← rounds
    argumentsWithin n

/-- Something was reported since there were `errors` diagnostics, and `)` is not next: the arguments
ran into something that ends the statement. -/
def argumentsLost (errors : Nat) : ParseM Bool := do
  let now ← countErrors
  if now = errors then
    pure false
  else
    let closed ← nextIs .closeParen
    pure (!closed)

/-- A call, after its name and `(`. Mirrors `parse_rfuncall`. -/
def readCall (callee : Token) : ParseM (Option Stmt) := do
  emit (.entering ("call to " ++ callee.text))
  let errors ← countErrors
  let args ← arguments
  if ← argumentsLost errors then
    recoverStatement Context.call
    pure none
  else
    match ← expect .closeParen "')'" Context.call with
    | none =>
      recoverStatement Context.call
      pure none
    | some _ =>
      let _ ← expect .semicolon "';'" Context.call
      unlessReported errors (.call callee.text args callee.position)

/-! ## Assignments and declarations -/

/-- An assignment, after its name and `=`. Mirrors `parse_assignment`. -/
def readAssignment (target : Token) : ParseM (Option Stmt) := do
  emit (.entering ("assignment to " ++ target.text))
  let errors ← countErrors
  match ← expression Context.assignment with
  | none =>
    recoverStatement Context.assignment
    pure none
  | some value =>
    let _ ← expect .semicolon "';'" Context.assignment
    unlessReported errors (.assign target.text value target.position)

/-- A declaration; the next token is its type. Mirrors `parse_declaration`. -/
def readDeclaration : ParseM (Option Stmt) := do
  emit (.entering "declaration")
  let errors ← countErrors
  let type ← advance
  match ← expect .identifier "Id" Context.declaration with
  | none =>
    recoverStatement Context.declaration
    pure none
  | some name =>
    let _ ← expect .semicolon "';'" Context.declaration
    unlessReported errors
      (.declare (if type.kind = .bool then .bool else .int) name.text name.position)

/-! ## Loops -/

/-- The tokens that open the pieces of a loop header behind its `(`, in order, then the `{` of the
body and the `}` of the block around the loop. -/
def headerMarkers : List Kind :=
  [.identifier, .define, .semicolon, .comma, .closeParen, .openCurly, .closeCurly]

/-- Reports the next token unless the piece before it was `lost` as well. -/
def reportUnless (lost : Bool) (expected : String) : ParseM Unit :=
  if lost then pure () else reportNext expected Context.iter

/-- A token of a loop header. If it is missing, tokens are skipped up to one that opens a later
piece; this is reported unless the piece before was `lost` as well. Mirrors `header_token`. -/
def headerToken (kind : Kind) (expected : String) (markers : List Kind) (lost : Bool) :
    ParseM (Option Token) := do
  if ← nextIs kind then
    let token ← advance
    pure (some token)
  else
    reportUnless lost expected
    let _ ← synchronize markers Context.iter
    pure none

/-- A piece of a loop header that consists of a token and an expression. Mirrors
`header_section`. -/
def headerSection (lead : Kind) (expected : String) (markers : List Kind) (lost : Bool) :
    ParseM (Option Expr) := do
  match ← headerToken lead expected markers lost with
  | none => pure none
  | some _ =>
    match ← expression Context.iter with
    | some e => pure (some e)
    | none =>
      let _ ← synchronize markers Context.iter
      pure none

/-- The pieces of a loop header; `none` for those that were lost. -/
structure Header where
  counter : Option Token
  start : Option Expr
  stop : Option Expr
  step : Option Expr
  closed : Option Token
deriving DecidableEq, Repr

/-- The header of a loop, after its keyword. Each piece gets back in step at those behind it. -/
def header : ParseM Header := do
  let opened ← headerToken .openParen "'('" headerMarkers false
  let counter ← headerToken .identifier "Id" (headerMarkers.drop 1) opened.isNone
  let start ← headerSection .define "':='" (headerMarkers.drop 2) counter.isNone
  let stop ← headerSection .semicolon "';'" (headerMarkers.drop 3) start.isNone
  let step ← headerSection .comma "','" (headerMarkers.drop 4) stop.isNone
  let closed ← headerToken .closeParen "')'" (headerMarkers.drop 5) step.isNone
  pure { counter, start, stop, step, closed }

/-- The loop that a header and a body make, if no piece was lost. -/
def ofHeader? (h : Header) (body : List Stmt) (position : Position) : Option Stmt :=
  match h.counter, h.start, h.stop, h.step with
  | some counter, some start, some stop, some step =>
    some (.iter counter.text start stop step body position)
  | _, _, _, _ => none

/-- The header ended at the `}` of the block around the loop. -/
def abandoned (h : Header) : ParseM Bool := do
  if h.closed.isSome then
    pure false
  else
    let opened ← nextIs .openCurly
    pure (!opened)

/-- A loop; the next token is its keyword. Mirrors `parse_iter`. -/
def readLoop (block : String → ParseM (List Stmt)) : ParseM (Option Stmt) := do
  emit (.entering "iter")
  let errors ← countErrors
  let keyword ← advance
  let h ← header
  if ← abandoned h then
    pure none
  else
    let body ← block Context.iter
    let loop ← unlessReported errors (ofHeader? h body keyword.position)
    pure loop.join

/-! ## Statements and blocks -/

/-- A statement, given how to read the block of a loop. Mirrors `parse_stmt`. -/
def rule (block : String → ParseM (List Stmt)) : ParseM (Option Stmt) := do
  emit (.entering "statement")
  match ← peekKind with
  | .identifier =>
    let name ← advance
    match ← peekKind with
    | .openParen =>
      let _ ← advance
      readCall name
    | .assignment =>
      let _ ← advance
      readAssignment name
    | _ =>
      reportNext "'(' or '='" Context.statement
      recoverStatement Context.statement
      pure none
  | .int | .bool => readDeclaration
  | .iter => readLoop block
  | _ =>
    reportNext "statement" Context.functionBody
    recoverStatement Context.statement
    pure none

/-- At most `n` statements, up to the `}` of the block. The end of the input is reported, and there
is no way on. Mirrors the loop of `parse_body`. -/
def bodyWithin (stmt : ParseM (Option Stmt)) (context : String) : Nat → ParseM (List Stmt)
  | 0 => pure []
  | n + 1 => do
    match ← peekKind with
    | .closeCurly => pure []
    | .eof =>
      reportNext "'\x7d'" context
      let _ ← synchronize [.closeCurly] context
      bodyWithin stmt context n
    | _ =>
      let first ← stmt
      let rest ← bodyWithin stmt context n
      pure (first.toList ++ rest)

/-- The statements up to the `}` of a block. -/
def bodyOf (stmt : ParseM (Option Stmt)) (context : String) : ParseM (List Stmt) := do
  emit (.entering ("body of " ++ context))
  let n ← rounds
  bodyWithin stmt context n

/-- A block. If its `{` is missing, that is reported and the statements are read all the same. -/
def blockOf (stmt : ParseM (Option Stmt)) (context : String) : ParseM (List Stmt) := do
  let _ ← expect .openCurly "'\x7b'" context
  let body ← bodyOf stmt context
  let _ ← expect .closeCurly "'\x7d'" context
  pure body

/-- A statement with loops nested at most `n` deep. -/
def readWithin : Nat → ParseM (Option Stmt)
  | 0 => pure none
  | n + 1 => rule (blockOf (readWithin n))

/-- A statement, or `none` if it had to be reported. -/
def read : ParseM (Option Stmt) := do
  let n ← rounds
  readWithin n

/-- The statements up to the `}` of a block. Mirrors `parse_body`. -/
def body (context : String) : ParseM (List Stmt) :=
  bodyOf read context

/-- A block. Mirrors `parse_block`. -/
def block (context : String) : ParseM (List Stmt) :=
  blockOf read context

end Stmt

end FxLang
