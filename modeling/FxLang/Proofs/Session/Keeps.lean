import FxLang.Grammar.Function
import FxLang.Proofs.Session.Moves

/-!
# What every parser keeps

A relation between the session before, the session after and the failure, if there was one, that
holds of every small step, and of two steps in a row if it holds of each, holds of every parser of
the library. `Lasting` collects what has to be checked about the relation, `Lasting.program` and the
lemmas before it draw the conclusion, one rule at a time.

* `grows_lasting`: diagnostics are only ever added at the end.
-/

namespace FxLang

open Session

/-- The error that a parser failed with, if it failed. -/
def failure {α : Type} : EStateM.Result Error Session α → Option Error
  | .ok _ _ => none
  | .error e _ => some e

/-- The parser relates every session to its failure and to the session it leaves behind. -/
def Keeps {α : Type} (ρ : Session → Option Error → Session → Prop) (x : ParseM α) : Prop :=
  ∀ s, ρ s (failure (x s)) (final (x s))

/-- The errors that parsers raise on their own: about the syntax of an expression, and where the
input ends while tokens are skipped. -/
def Error.IsRaised (e : Error) : Prop :=
  e.category = .syntactic ∨ ∃ context, e.cause = .unexpectedEof context

/-- The relation holds of the small steps and goes on from step to step. A failure that is caught is
an error about an expression, after which the session goes on. -/
structure Lasting (ρ : Session → Option Error → Session → Prop) : Prop where
  refl : ∀ s, ρ s none s
  trans : ∀ {s₁ s₂ s₃ e}, ρ s₁ none s₂ → ρ s₂ e s₃ → ρ s₁ e s₃
  emit : ∀ event, Keeps ρ (emit event)
  peek : Keeps ρ peek
  advance : Keeps ρ advance
  report : ∀ expected context found, Keeps ρ (report expected context found)
  raised : ∀ {e} s, e.IsRaised → ρ s (some e) s
  caught : ∀ {s s' e}, e.isFatal = false → ρ s (some e) s' → ρ s none s'

namespace Lasting

-- With the rules below, `grind` shows of whatever is put together from the parsers of the library
-- that it keeps a lasting relation.
attribute [grind ←] emit peek advance report

variable {ρ : Session → Option Error → Session → Prop} {α β : Type} {x : ParseM α}
  {f : α → ParseM β}

/-! ## Sequences and choices -/

@[grind ←] theorem pure (h : Lasting ρ) (a : α) : Keeps ρ (Pure.pure a : ParseM α) :=
  fun s => h.refl s

theorem throw (h : Lasting ρ) {e : Error} (he : e.IsRaised) :
    Keeps ρ (MonadExcept.throw e : ParseM α) :=
  fun s => h.raised s he

@[grind ←] theorem bind (h : Lasting ρ) (hx : Keeps ρ x) (hf : ∀ a, Keeps ρ (f a)) :
    Keeps ρ (x >>= f) := by
  intro s
  have hs := hx s
  cases hr : x s with
  | ok a s' =>
    rw [hr] at hs
    rw [bind_of_ok hr]
    exact h.trans hs (hf a s')
  | error e s' =>
    rw [hr] at hs
    rw [bind_of_error hr]
    exact hs

theorem ite (p : Prop) [Decidable p] {x y : ParseM α} (hx : Keeps ρ x) (hy : Keeps ρ y) :
    Keeps ρ (if p then x else y) := by
  split
  · exact hx
  · exact hy

/-! ## Steps of a session -/

section
variable (h : Lasting ρ)
include h

@[grind ←] theorem peekKind : Keeps ρ peekKind := h.bind h.peek fun _ => h.pure _

@[grind ←] theorem nextIs (k : Kind) : Keeps ρ (nextIs k) := h.bind h.peekKind fun _ => h.pure _

@[grind ←] theorem countErrors : Keeps ρ countErrors := fun s => h.refl s

@[grind ←] theorem rounds : Keeps ρ rounds := fun s => h.refl s

@[grind ←] theorem reportNext (expected context : String) : Keeps ρ (reportNext expected context) :=
  h.bind h.peek fun _ => h.report _ _ _

@[grind ←] theorem expect (k : Kind) (expected context : String) :
    Keeps ρ (expect k expected context) :=
  h.bind (h.nextIs k) fun _ => ite _ (h.bind h.advance fun _ => h.pure _)
    (h.bind (h.reportNext _ _) fun _ => h.pure _)

@[grind ←] theorem skipTo (markers : List Kind) (context : String) (n : Nat) :
    Keeps ρ (skipTo markers context n) := by
  induction n with
  | zero => exact h.peek
  | succ n ih =>
    exact h.bind h.peek fun _ => ite _ (h.bind (h.emit _) fun _ => h.pure _)
      (ite _ (h.throw (.inr ⟨_, rfl⟩)) (h.bind h.advance fun _ => ih))

@[grind ←] theorem synchronize (markers : List Kind) (context : String) :
    Keeps ρ (synchronize markers context) :=
  h.bind h.rounds fun _ => h.skipTo _ _ _

@[grind ←] theorem takeMarker (marker : Token) (k : Kind) : Keeps ρ (takeMarker marker k) :=
  ite _ (h.bind h.advance fun _ => h.pure _) (h.pure _)

@[grind ←] theorem recoverStatement (context : String) : Keeps ρ (recoverStatement context) :=
  h.bind (h.synchronize _ _) fun _ => h.takeMarker _ _

/-! ## Expressions -/

@[grind ←] theorem operandOf {read : Expr.Reader} (hr : ∀ m, Keeps ρ (read m)) (o : Token)
    (m : BindingPower) : Keeps ρ (Expr.operandOf read o m) := by
  refine h.bind (hr m) fun e => ?_
  cases e with
  | some e => exact h.pure _
  | none => exact h.bind h.peek fun _ => h.throw (.inl rfl)

@[grind ←] theorem group {read : Expr.Reader} (hr : ∀ m, Keeps ρ (read m)) :
    Keeps ρ (Expr.group read) := by
  refine h.bind (hr _) fun e => h.bind h.peek fun c => ite _ (h.bind h.advance fun _ => ?_)
    (h.throw (.inl rfl))
  cases e with
  | some e => exact h.pure _
  | none => exact h.throw (.inl rfl)

@[grind ←] theorem operandFrom (table : Bindings) {read : Expr.Reader} (hr : ∀ m, Keeps ρ (read m))
    (role : Nud) (t : Token) : Keeps ρ (Expr.operandFrom table read role t) := by
  cases role with
  | primary => exact h.pure _
  | unary => exact h.bind (h.operandOf hr _ _) fun _ => h.pure _
  | grouping => exact h.group hr

@[grind ←] theorem climb (table : Bindings) {read : Expr.Reader} (hr : ∀ m, Keeps ρ (read m))
    (m : BindingPower) (n : Nat) (e : Expr) : Keeps ρ (Expr.climb table read m n e) := by
  induction n generalizing e with
  | zero => exact h.pure _
  | succ n ih =>
    exact h.bind h.peek fun _ => ite _ (h.pure _)
      (ite _ (h.bind h.advance fun _ => h.bind (h.emit _) fun _ =>
        h.bind (h.operandOf hr _ _) fun _ => ih _) (h.throw (.inl rfl)))

@[grind ←] theorem readWithin (table : Bindings) (n : Nat) (m : BindingPower) :
    Keeps ρ (Expr.readWithin table n m) := by
  induction n generalizing m with
  | zero => exact h.pure _
  | succ n ih =>
    refine h.bind h.peek fun t => ite _ (h.pure _) ?_
    split
    · exact h.throw (.inl rfl)
    · exact h.bind h.advance fun _ => h.bind (h.emit _) fun _ =>
        h.bind (h.operandFrom table ih _ _) fun _ => h.bind (h.climb table ih _ _ _) fun _ =>
          h.pure _

@[grind ←] theorem read (table : Bindings) (m : BindingPower) : Keeps ρ (Expr.read table m) :=
  h.bind h.rounds fun _ => h.readWithin _ _ _

@[grind ←] theorem offendingToken (e : Error) : Keeps ρ (offendingToken e) := by
  unfold FxLang.offendingToken
  split
  · exact h.pure _
  · exact h.peek

@[grind ←] theorem expression (context : String) : Keeps ρ (expression context) := by
  intro s
  have hs := h.read .standard .lowest s
  cases hr : Expr.read .standard .lowest s with
  | ok r s₁ =>
    rw [hr] at hs
    rw [FxLang.expression, bind_of_ok (attempt_of_ok hr)]
    refine h.trans hs ?_
    cases r with
    | some e => exact h.refl s₁
    | none =>
      have hreport : Keeps ρ (Session.reportNext "an expression" context >>= fun _ =>
          (Pure.pure none : ParseM (Option Expr))) := h.bind (h.reportNext _ _) fun _ => h.pure _
      exact hreport s₁
  | error e s₁ =>
    rw [hr] at hs
    rw [FxLang.expression, bind_of_ok (attempt_of_error hr)]
    by_cases he : e.isFatal = true
    · simp only [he, if_true]
      exact hs
    · -- The error is caught and reported.
      simp only [he]
      have hreport : Keeps ρ (FxLang.offendingToken e >>= fun found =>
          Session.report e.cause.expected context found >>= fun _ =>
            (Pure.pure none : ParseM (Option Expr))) :=
        h.bind (h.offendingToken e) fun _ => h.bind (h.report _ _ _) fun _ => h.pure _
      exact h.trans (h.caught (by simpa using he) hs) (hreport s₁)

/-! ## Statements -/

@[grind ←] theorem unlessReported (errors : Nat) (a : α) : Keeps ρ (Stmt.unlessReported errors a) :=
  h.bind h.countErrors fun _ => h.pure _

@[grind ←] theorem argument : Keeps ρ Stmt.argument := by
  refine h.bind (h.expression _) fun e => ?_
  cases e with
  | some e => exact h.pure _
  | none => exact h.bind (h.synchronize _ _) fun _ => h.pure _

@[grind ←] theorem argumentsWithin (n : Nat) : Keeps ρ (Stmt.argumentsWithin n) := by
  induction n with
  | zero => exact h.pure _
  | succ n ih =>
    exact h.bind h.argument fun _ => h.bind (h.nextIs _) fun _ => ite _
      (h.bind h.advance fun _ => h.bind ih fun _ => h.pure _) (h.pure _)

@[grind ←] theorem arguments : Keeps ρ Stmt.arguments :=
  h.bind (h.nextIs _) fun _ => ite _ (h.pure _) (h.bind h.rounds fun _ => h.argumentsWithin _)

@[grind ←] theorem argumentsLost (errors : Nat) : Keeps ρ (Stmt.argumentsLost errors) :=
  h.bind h.countErrors fun _ => ite _ (h.pure _) (h.bind (h.nextIs _) fun _ => h.pure _)

@[grind ←] theorem readCall (callee : Token) : Keeps ρ (Stmt.readCall callee) := by
  refine h.bind (h.emit _) fun _ => h.bind h.countErrors fun _ => h.bind h.arguments fun _ =>
    h.bind (h.argumentsLost _) fun _ => ite _ (h.bind (h.recoverStatement _) fun _ => h.pure _)
      (h.bind (h.expect _ _ _) fun c => ?_)
  cases c with
  | some c => exact h.bind (h.expect _ _ _) fun _ => h.unlessReported _ _
  | none => exact h.bind (h.recoverStatement _) fun _ => h.pure _

@[grind ←] theorem readAssignment (target : Token) : Keeps ρ (Stmt.readAssignment target) := by
  refine h.bind (h.emit _) fun _ => h.bind h.countErrors fun _ =>
    h.bind (h.expression _) fun e => ?_
  cases e with
  | some e => exact h.bind (h.expect _ _ _) fun _ => h.unlessReported _ _
  | none => exact h.bind (h.recoverStatement _) fun _ => h.pure _

@[grind ←] theorem readDeclaration : Keeps ρ Stmt.readDeclaration := by
  refine h.bind (h.emit _) fun _ => h.bind h.countErrors fun _ => h.bind h.advance fun _ =>
    h.bind (h.expect _ _ _) fun c => ?_
  cases c with
  | some c => exact h.bind (h.expect _ _ _) fun _ => h.unlessReported _ _
  | none => exact h.bind (h.recoverStatement _) fun _ => h.pure _

@[grind ←] theorem headerToken (k : Kind) (expected : String) (markers : List Kind) (lost : Bool) :
    Keeps ρ (Stmt.headerToken k expected markers lost) :=
  h.bind (h.nextIs _) fun _ => ite _ (h.bind h.advance fun _ => h.pure _)
    (h.bind (ite _ (h.pure _) (h.reportNext _ _)) fun _ => h.bind (h.synchronize _ _) fun _ =>
      h.pure _)

@[grind ←] theorem headerSection (k : Kind) (expected : String) (markers : List Kind)
    (lost : Bool) :
    Keeps ρ (Stmt.headerSection k expected markers lost) := by
  refine h.bind (h.headerToken _ _ _ _) fun c => ?_
  cases c with
  | none => exact h.pure _
  | some c =>
    refine h.bind (h.expression _) fun e => ?_
    cases e with
    | some e => exact h.pure _
    | none => exact h.bind (h.synchronize _ _) fun _ => h.pure _

@[grind ←] theorem header : Keeps ρ Stmt.header :=
  h.bind (h.headerToken _ _ _ _) fun _ => h.bind (h.headerToken _ _ _ _) fun _ =>
    h.bind (h.headerSection _ _ _ _) fun _ => h.bind (h.headerSection _ _ _ _) fun _ =>
      h.bind (h.headerSection _ _ _ _) fun _ => h.bind (h.headerToken _ _ _ _) fun _ => h.pure _

@[grind ←] theorem abandoned (header : Stmt.Header) : Keeps ρ (Stmt.abandoned header) :=
  ite _ (h.pure _) (h.bind (h.nextIs _) fun _ => h.pure _)

@[grind ←] theorem readLoop {block : String → ParseM (List Stmt)} (hb : ∀ c, Keeps ρ (block c)) :
    Keeps ρ (Stmt.readLoop block) :=
  h.bind (h.emit _) fun _ => h.bind h.countErrors fun _ => h.bind h.advance fun _ =>
    h.bind h.header fun _ => h.bind (h.abandoned _) fun _ => ite _ (h.pure _)
      (h.bind (hb _) fun _ => h.bind (h.unlessReported _ _) fun _ => h.pure _)

@[grind ←] theorem rule {block : String → ParseM (List Stmt)} (hb : ∀ c, Keeps ρ (block c)) :
    Keeps ρ (Stmt.rule block) := by
  refine h.bind (h.emit _) fun _ => h.bind h.peekKind fun k => ?_
  split
  · refine h.bind h.advance fun _ => h.bind h.peekKind fun k => ?_
    split
    · exact h.bind h.advance fun _ => h.readCall _
    · exact h.bind h.advance fun _ => h.readAssignment _
    · exact h.bind (h.reportNext _ _) fun _ => h.bind (h.recoverStatement _) fun _ => h.pure _
  · exact h.readDeclaration
  · exact h.readDeclaration
  · exact h.readLoop hb
  · exact h.bind (h.reportNext _ _) fun _ => h.bind (h.recoverStatement _) fun _ => h.pure _

@[grind ←] theorem bodyWithin {stmt : ParseM (Option Stmt)} (hs : Keeps ρ stmt) (context : String)
    (n : Nat) : Keeps ρ (Stmt.bodyWithin stmt context n) := by
  induction n with
  | zero => exact h.pure _
  | succ n ih =>
    refine h.bind h.peekKind fun k => ?_
    split
    · exact h.pure _
    · exact h.bind (h.reportNext _ _) fun _ => h.bind (h.synchronize _ _) fun _ => ih
    · exact h.bind hs fun _ => h.bind ih fun _ => h.pure _

@[grind ←] theorem bodyOf {stmt : ParseM (Option Stmt)} (hs : Keeps ρ stmt) (context : String) :
    Keeps ρ (Stmt.bodyOf stmt context) :=
  h.bind (h.emit _) fun _ => h.bind h.rounds fun _ => h.bodyWithin hs _ _

@[grind ←] theorem blockOf {stmt : ParseM (Option Stmt)} (hs : Keeps ρ stmt) (context : String) :
    Keeps ρ (Stmt.blockOf stmt context) :=
  h.bind (h.expect _ _ _) fun _ => h.bind (h.bodyOf hs _) fun _ => h.bind (h.expect _ _ _) fun _ =>
    h.pure _

@[grind ←] theorem stmtWithin (n : Nat) : Keeps ρ (Stmt.readWithin n) := by
  induction n with
  | zero => exact h.pure _
  | succ n ih => exact h.rule fun _ => h.blockOf ih _

@[grind ←] theorem stmt : Keeps ρ Stmt.read :=
  h.bind h.rounds fun _ => h.stmtWithin _

@[grind ←] theorem body (context : String) : Keeps ρ (Stmt.body context) :=
  h.bodyOf h.stmt _

@[grind ←] theorem block (context : String) : Keeps ρ (Stmt.block context) :=
  h.blockOf h.stmt _

/-! ## Functions -/

@[grind ←] theorem abandonParameters (expected : String) :
    Keeps ρ (Func.abandonParameters expected) :=
  h.bind (h.reportNext _ _) fun _ => h.bind (h.synchronize _ _) fun _ => h.pure _

@[grind ←] theorem parametersWithin (n : Nat) : Keeps ρ (Func.parametersWithin n) := by
  induction n with
  | zero => exact h.pure _
  | succ n ih =>
    refine h.bind h.peekKind fun k => ?_
    split
    · exact h.abandonParameters _
    · refine h.bind h.advance fun _ => h.bind (h.expect _ _ _) fun name => ?_
      cases name with
      | none => exact h.bind (h.synchronize _ _) fun _ => h.pure _
      | some name =>
        refine h.bind h.peekKind fun k => ?_
        split
        · exact h.bind h.advance fun _ => h.bind ih fun _ => h.pure _
        · exact h.bind (h.reportNext _ _) fun _ => h.bind ih fun _ => h.pure _
        · exact h.bind (h.reportNext _ _) fun _ => h.bind ih fun _ => h.pure _
        · exact h.abandonParameters _
        · exact h.pure _

@[grind ←] theorem parameters : Keeps ρ Func.parameters :=
  h.bind (h.emit _) fun _ => h.bind h.rounds fun _ => h.parametersWithin _

@[grind ←] theorem listLost (params : Option (List Param)) : Keeps ρ (Func.listLost params) :=
  ite _ (h.pure _) (h.bind (h.nextIs _) fun _ => h.pure _)

@[grind ←] theorem parameterList : Keeps ρ Func.parameterList := by
  refine h.bind (h.emit _) fun _ => h.bind (h.nextIs _) fun _ => ite _
    (h.bind h.advance fun _ => h.pure _) (h.bind h.parameters fun _ => h.bind (h.listLost _)
      fun _ => ite _ (h.pure _) (h.bind (h.expect _ _ _) fun c => ?_))
  cases c with
  | some c => exact h.pure _
  | none => exact h.bind (h.synchronize _ _) fun _ => h.pure _

@[grind ←] theorem signatureFrom (position : Position) (name : Option Token) :
    Keeps ρ (Func.signatureFrom position name) := by
  refine h.bind (h.expect _ _ _) fun c => ?_
  cases c with
  | none => exact h.bind (h.synchronize _ _) fun _ => h.bind (h.takeMarker _ _) fun _ => h.pure _
  | some c =>
    refine h.bind h.parameterList fun params => ?_
    split
    · exact h.pure _
    · exact h.pure _

@[grind ←] theorem signature : Keeps ρ Func.signature := by
  refine h.bind (h.emit _) fun _ => h.bind h.peek fun _ => h.bind (h.expect _ _ _) fun c => ?_
  cases c with
  | none => exact h.bind (h.synchronize _ _) fun _ => h.pure _
  | some c =>
    refine h.bind h.peekKind fun k => ?_
    split
    · exact h.bind h.advance fun _ => h.signatureFrom _ _
    · exact h.bind h.advance fun _ => h.signatureFrom _ _
    · exact h.bind (h.reportNext _ _) fun _ => h.bind (h.synchronize _ _) fun _ => ite _
        (h.pure _) (h.signatureFrom _ _)

@[grind ←] theorem func : Keeps ρ Func.read :=
  h.bind (h.emit _) fun _ => h.bind h.signature fun _ => h.bind (h.block _) fun _ => h.pure _

@[grind ←] theorem functionsWithin (n : Nat) : Keeps ρ (Program.functionsWithin n) := by
  induction n with
  | zero => exact h.pure _
  | succ n ih =>
    refine h.bind h.peekKind fun k => ?_
    split
    · exact h.pure _
    · exact h.bind h.func fun _ => h.bind ih fun _ => h.pure _
    · exact h.bind (h.reportNext _ _) fun _ => h.bind (h.synchronize _ _) fun _ => ih

@[grind ←] theorem program : Keeps ρ Program.read :=
  h.bind (h.emit _) fun _ => h.bind h.rounds fun _ => h.bind (h.functionsWithin _) fun _ => h.pure _

end

end Lasting

/-! ## Diagnostics are only added -/

/-- The later session has the diagnostics of the earlier one and perhaps more behind them. -/
def Grows (s : Session) (_ : Option Error) (s' : Session) : Prop :=
  s.diagnostics <+: s'.diagnostics

@[grind ←] theorem grows_throw {α : Type} (e : Error) :
    Keeps Grows (MonadExcept.throw e : ParseM α) :=
  fun _ => List.prefix_rfl

theorem grows_onStream {α : Type} (read : EStateM Error TokenStream α) :
    Keeps Grows (onStream read) := by
  intro s
  unfold onStream
  cases read s.stream <;> exact List.prefix_rfl

@[grind ←] theorem grows_lasting : Lasting Grows where
  refl _ := List.prefix_rfl
  trans h₁ h₂ := h₁.trans h₂
  emit _ _ := List.prefix_rfl
  peek := grows_onStream _
  advance s := by
    have hs := grows_onStream TokenStream.next s
    rw [advance]
    cases hr : onStream TokenStream.next s with
    | ok t s' => rw [hr] at hs; rw [bind_of_ok hr]; exact hs
    | error e s' => rw [hr] at hs; rw [bind_of_error hr]; exact hs
  report expected context found s := by
    have := (report_moves expected context found s).diagnostics_eq
    exact ⟨_, this.symm⟩
  raised _ _ := List.prefix_rfl
  caught _ h := h

/-! ## Whole sources -/

/-- Reading a session as a program only adds to the log what reading the program does not. -/
theorem Session.parseProgram_moves (s : Session) :
    ∃ s₁, s.Moves [] [] s₁ ∧ (final (Program.read s₁)).Moves [] [] s.parseProgram.session ∧
      s.parseProgram.outcome = match Program.read s₁ with
        | .ok p _ => .ok p
        | .error e _ => .error e := by
  refine ⟨_, .log s (s.log.push (.started s.stream.file)), ?_⟩
  unfold parseProgram
  dsimp only
  cases Program.read { s with log := s.log.push (.started s.stream.file) } with
  | ok p s' => exact ⟨.log s' _, rfl⟩
  | error e s' => exact ⟨.log s' _, rfl⟩

namespace Program

/-- A source is read from its first token on, with no diagnostics yet. -/
theorem ofSource_eq (file source : String) :
    ∃ s, (Session.ofSource file source).Moves [] [] s ∧
      (ofSource file source).diagnostics = (final (read s)).diagnostics ∧
      (ofSource file source).outcome = match read s with
        | .ok p _ => .ok p
        | .error e _ => .error e := by
  obtain ⟨s, hm, hend, hout⟩ := (Session.ofSource file source).parseProgram_moves
  exact ⟨s, hm, hend.diagnostics_eq.trans (List.append_nil _), hout⟩

theorem diagnostics_of_moves {file source : String} {s : Session}
    (h : (Session.ofSource file source).Moves [] [] s) : s.diagnostics = [] := by
  simpa [Session.ofSource, Session.ofStream] using h.diagnostics_eq

end Program

end FxLang
