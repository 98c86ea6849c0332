import FxLang.Grammar.Statement

/-!
# Functions and programs

The rules above statements:

```text
Prog := Func*
Func := 'func' (Id | 'main') '(' [Type Id (',' Type Id)*] ')' Block
Type := 'int' | 'bool'
```

A function whose signature had to be reported is left out, although its body is still read.
`Program.ofSource` reads a whole source and returns what was understood together with the
diagnostics.
-/

namespace FxLang

open Session

namespace Func

/-! ## Parameters -/

/-- Where a broken parameter list ends. -/
def parameterMarkers : List Kind := [.closeParen, .openCurly]

/-- Gives up a parameter list: reports the next token and skips to the end of the list. -/
def abandonParameters (expected : String) : ParseM (Option (List Param)) := do
  reportNext expected Context.parameters
  let _ ← synchronize parameterMarkers Context.parameters
  pure none

/-- The type that a kind names. -/
def typeName? : Kind → Option TypeName
  | .int => some .int
  | .bool => some .bool
  | _ => none

/-- At most `n` parameters. Of the `,`, the type and the name of one parameter, the first that is
missing is reported. A missing `,` in front of a type spoils the list, which is then read on from
this type to its end, so that a missing name of the type is reported as well. Mirrors the loop of
`parse_fdecargs`. -/
def parametersWithin : Nat → ParseM (Option (List Param))
  | 0 => pure (some [])
  | n + 1 => do
    match typeName? (← peekKind) with
    | none => abandonParameters "type"
    | some type =>
      let _ ← advance
      match ← expect .identifier "Id" Context.parameters with
      | none =>
        let _ ← synchronize parameterMarkers Context.parameters
        pure none
      | some name =>
        match ← peekKind with
        | .comma =>
          let _ ← advance
          let rest ← parametersWithin n
          pure (rest.map ({ type, name := name.text } :: ·))
        | .int | .bool =>
          reportNext "','" Context.parameters
          let _ ← parametersWithin n
          pure none
        | .identifier => abandonParameters "','"
        | _ => pure (some [{ type, name := name.text }])

/-- The parameters of a non-empty list, up to its `)`; `none` if something was reported. Mirrors
`parse_fdecargs`. -/
def parameters : ParseM (Option (List Param)) := do
  emit (.entering "parameter declarations")
  let n ← rounds
  parametersWithin n

/-- The parameter list was given up in front of a `{`. -/
def listLost (params : Option (List Param)) : ParseM Bool := do
  if params.isSome then
    pure false
  else
    let closed ← nextIs .closeParen
    pure (!closed)

/-- The parameter list and its `)`, after the `(`. Mirrors `parse_finside`. -/
def parameterList : ParseM (Option (List Param)) := do
  emit (.entering "function parameters")
  if ← nextIs .closeParen then
    let _ ← advance
    pure (some [])
  else
    let params ← parameters
    if ← listLost params then
      pure none
    else
      match ← expect .closeParen "')'" Context.functionDeclaration with
      | some _ => pure params
      | none =>
        let _ ← synchronize [.openCurly] Context.functionDeclaration
        pure none

/-! ## Signatures -/

/-- What stands in front of a function's body. -/
structure Signature where
  name : String
  params : List Param
  position : Position
deriving DecidableEq, Repr

/-- The rest of a signature, from its `(` on; a missing `name` was reported. -/
def signatureFrom (position : Position) (name : Option Token) : ParseM (Option Signature) := do
  match ← expect .openParen "'('" Context.functionDeclaration with
  | none =>
    let marker ← synchronize [.closeParen, .openCurly] Context.functionDeclaration
    takeMarker marker .closeParen
    pure none
  | some _ =>
    let params ← parameterList
    match name, params with
    | some name, some params => pure (some { name := name.text, params, position })
    | _, _ => pure none

/-- The signature of a function, up to its body; `none` if something was reported. Mirrors
`parse_fsig`. -/
def signature : ParseM (Option Signature) := do
  emit (.entering "function signature")
  let first ← peek
  match ← expect .func "'func'" Context.functionDeclaration with
  | none =>
    let _ ← synchronize [.openCurly] Context.functionDeclaration
    pure none
  | some _ =>
    match ← peekKind with
    | .identifier | .mainWord =>
      let name ← advance
      signatureFrom first.position (some name)
    | _ =>
      reportNext "main or function id" Context.functionDeclaration
      let marker ← synchronize [.openParen, .openCurly] Context.functionDeclaration
      if marker.kind = .openCurly then
        pure none
      else
        signatureFrom first.position none

/-! ## Functions -/

/-- A function, or `none` if its signature had to be reported. Mirrors `parse_func`. -/
def read : ParseM (Option Func) := do
  emit (.entering "function")
  let signature ← signature
  let body ← Stmt.block Context.function
  pure (signature.map fun s =>
    { name := s.name, params := s.params, body, position := s.position })

end Func

namespace Program

/-- At most `n` functions, up to the end of the input. What stands between them is reported and
skipped. Mirrors the loop of `parse_prog`. -/
def functionsWithin : Nat → ParseM (List Func)
  | 0 => pure []
  | n + 1 => do
    match ← peekKind with
    | .eof => pure []
    | .func =>
      let first ← Func.read
      let rest ← functionsWithin n
      pure (first.toList ++ rest)
    | _ =>
      reportNext "'func'" Context.program
      let _ ← synchronize [.func] Context.program
      functionsWithin n

/-- A program, up to the end of the input. Mirrors `parse_prog`. -/
def read : ParseM Program := do
  emit (.entering "program")
  let n ← rounds
  let functions ← functionsWithin n
  pure { functions }

end Program

/-- The session in which a program was read, and the program unless the session was given up. -/
structure Parsed where
  session : Session
  outcome : Except Error Program

/-- The diagnostics of the session. -/
def Parsed.diagnostics (p : Parsed) : List Diagnostic :=
  p.session.diagnostics

/-- Reads the rest of a session as a program. Mirrors `parse_program`. -/
def Session.parseProgram (s : Session) : Parsed :=
  let file := s.stream.file
  let started := { s with log := s.log.push (.started file) }
  match Program.read started with
  | .ok program s =>
    let ending := Event.finished file program.functions.length s.errorCount
    { session := { s with log := s.log.push ending }, outcome := .ok program }
  | .error e s =>
    { session := { s with log := s.log.push (.aborted file e) }, outcome := .error e }

/-- Reads a whole source as a program. Mirrors `parse`. -/
def Program.ofSource (file source : String) : Parsed :=
  (Session.ofSource file source).parseProgram

end FxLang
