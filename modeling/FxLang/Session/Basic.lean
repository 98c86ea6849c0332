import FxLang.Session.Event
import FxLang.Token.Stream

/-!
# Parse sessions

A session is a token stream with the diagnostics recorded so far and the log of what happened. A
parser is a state transformer on sessions that may fail; a failure keeps the state it left behind.

A syntax error is recorded by `report` and does not by itself end a parser. The session ends early
only at a lexical error, at the fifth diagnostic, and where the input ends while `synchronize` skips
tokens.

* `report_apply`: a report adds one diagnostic, and fails exactly from the fifth on.
-/

namespace FxLang

/-- The number of diagnostics at which a session is given up. -/
def maxErrors : Nat := 5

/-- The state of a session. -/
structure Session where
  stream : TokenStream
  diagnostics : List Diagnostic
  /-- How many diagnostics have been recorded. -/
  errorCount : Nat
  log : Array Event
deriving DecidableEq, Repr

/-- A session that starts at a stream. -/
def Session.ofStream (stream : TokenStream) : Session :=
  { stream, diagnostics := [], errorCount := 0, log := #[] }

/-- A session that starts at the beginning of a source. -/
def Session.ofSource (file source : String) : Session :=
  .ofStream (.ofSource file source)

/-- Parsers that read a session. -/
abbrev ParseM := EStateM Error Session

namespace Session

/-! ## Reading -/

/-- Runs a reader of the token stream. -/
def onStream {α : Type} (read : EStateM Error TokenStream α) : ParseM α := fun s =>
  match read s.stream with
  | .ok a stream => .ok a { s with stream }
  | .error e stream => .error e { s with stream }

/-- Adds an event to the log. -/
def emit (event : Event) : ParseM Unit :=
  modify fun s => { s with log := s.log.push event }

/-- Shows the next token without taking it. Mirrors `peek`. -/
def peek : ParseM Token :=
  onStream TokenStream.peek

/-- Takes the next token. Mirrors `advance`. -/
def advance : ParseM Token := do
  let token ← onStream TokenStream.next
  emit (.taken token)
  pure token

/-- The kind of the next token. Mirrors `peek_kind`. -/
def peekKind : ParseM Kind := do
  let token ← peek
  pure token.kind

/-- The next token is of a kind. Mirrors `at`. -/
def nextIs (kind : Kind) : ParseM Bool := do
  let next ← peekKind
  pure (next = kind)

/-- The diagnostics recorded so far. Mirrors `error_count`. -/
def countErrors : ParseM Nat := do
  let s ← get
  pure s.errorCount

/-- More steps than there are tokens before the end. A loop that takes a token in every round comes
to its own end before this many rounds. -/
def rounds : ParseM Nat := do
  let s ← get
  pure (s.stream.remaining + 1)

/-- Runs a parser and hands over its failure as a value. -/
def attempt {α : Type} (x : ParseM α) : ParseM (Except Error α) := fun s =>
  match x s with
  | .ok a s => .ok (.ok a) s
  | .error e s => .ok (.error e) s

/-! ## Diagnostics -/

/-- The session with one more diagnostic. -/
def record (s : Session) (d : Diagnostic) : Session :=
  { s with diagnostics := s.diagnostics ++ [d], errorCount := s.errorCount + 1 }

/-- Records a diagnostic about a token. The diagnostic that reaches `maxErrors` is kept, and the
session is given up at its token. Mirrors `report`. -/
def report (expected context : String) (found : Token) : ParseM Unit := do
  let diagnostic : Diagnostic := { expected, context, found, position := found.position }
  emit (.reported diagnostic)
  modify (·.record diagnostic)
  let count ← countErrors
  if maxErrors ≤ count then
    throw { cause := .tooManyErrors count, position := diagnostic.position }

/-- Records a diagnostic about the next token, which stays in the stream. Mirrors `report_found`. -/
def reportNext (expected context : String) : ParseM Unit := do
  let found ← peek
  report expected context found

/-- Takes the next token if it is of the kind; otherwise reports it and leaves it. Mirrors
`expect`. -/
def expect (kind : Kind) (expected context : String) : ParseM (Option Token) := do
  if ← nextIs kind then
    let token ← advance
    pure (some token)
  else
    reportNext expected context
    pure none

/-! ## Getting back in step -/

/-- Skips at most `n` tokens that are no markers. Mirrors the loop of `synchronize`. -/
def skipTo (markers : List Kind) (context : String) : Nat → ParseM Token
  | 0 => peek
  | n + 1 => do
    let token ← peek
    if token.kind ∈ markers then
      emit (.synchronized token context)
      pure token
    else if token.isEof then
      throw { cause := .unexpectedEof context, position := token.position }
    else
      let _ ← advance
      skipTo markers context n

/-- Skips tokens up to the first marker, which is returned and stays in the stream. The end of the
input is an error unless it is a marker itself. Mirrors `synchronize`. -/
def synchronize (markers : List Kind) (context : String) : ParseM Token := do
  let n ← rounds
  skipTo markers context n

/-- Takes the marker that skipping stopped at, if it is of a kind. -/
def takeMarker (marker : Token) (kind : Kind) : ParseM Unit := do
  if marker.kind = kind then
    let _ ← advance

/-- Skips the rest of a broken statement: through its `;`, or up to the `}` around it. Mirrors
`recover_statement`. -/
def recoverStatement (context : String) : ParseM Unit := do
  let marker ← synchronize [.semicolon, .closeCurly] context
  takeMarker marker .semicolon

/-! ## What the small steps do -/

@[simp] theorem emit_apply (event : Event) (s : Session) :
    emit event s = .ok () { s with log := s.log.push event } := rfl

@[simp] theorem countErrors_apply (s : Session) : countErrors s = .ok s.errorCount s := rfl

@[simp] theorem rounds_apply (s : Session) : rounds s = .ok (s.stream.remaining + 1) s := rfl

theorem report_apply (expected context : String) (found : Token) (s : Session) :
    report expected context found s =
      let d : Diagnostic := { expected, context, found }
      let s' := { s.record d with log := s.log.push (.reported d) }
      if maxErrors ≤ s.errorCount + 1 then
        .error { cause := .tooManyErrors (s.errorCount + 1), position := found.position } s'
      else .ok () s' := by
  by_cases h : maxErrors ≤ s.errorCount + 1
  · rw [if_pos h]
    exact congrArg (fun x : ParseM Unit => x _) (if_pos h)
  · rw [if_neg h]
    exact congrArg (fun x : ParseM Unit => x _) (if_neg h)

end Session

end FxLang
