import FxLang.Proofs.Grammar.Outcome
import FxLang.Proofs.Session.Trail

/-!
# The `}` of a block stays where it is

Whatever is wrong with a statement, what is skipped to get over it ends in front of the `}` around
it. A `}` is taken by the block of a loop alone, as the last of its tokens, and only after the
keyword of the loop was taken.

`Stmt.StmtLog` tells which events the reading of a statement leaves behind: none of them takes a
`}`, or they are those of a loop, with the events of its statements one behind the other.

* `Expr.read_only`: an expression takes no token that has no role in expressions.
* `expression_trace`: an expression inside a construct records one diagnostic at most, behind
  everything else.
* `Stmt.bodyWithin_trace`, `Stmt.blockOf_trace`: a block takes its braces and its statements and
  nothing else, and it never misses its `}`.
* `Stmt.rule_trace`, `Stmt.readWithin_isStatement`: the events of a statement.
* `Stmt.StmtLog.count_le`: there are no more `}` than keywords of loops.
* `Stmt.read_spares_outer_brace`: all of this for the rules as they are called.
-/

namespace FxLang

open Session

/-! ## Expressions -/

namespace Expr

variable {table : Bindings} {reader : Reader} {s : Session} {m : BindingPower}

/-- What is logged while an expression is read: operands, operators, and tokens that have a role in
expressions. -/
def IsStep (table : Bindings) : Event → Prop
  | .taken t => (table.nud t.kind).isSome = true ∨ table.led t.kind = true ∨ t.kind = .closeParen
  | .operand .. | .operator .. => True
  | _ => False

/-- Whatever the minimum and wherever it starts, the reader logs nothing but such steps. -/
def Steps (table : Bindings) (reader : Reader) : Prop :=
  ∀ m s, Only (IsStep table) s (fun _ _ => True) (reader m s)

theorem operandOf_only (h : Steps table reader) (o : Token) :
    Only (IsStep table) s (fun _ _ => True) (operandOf reader o m s) := by
  refine (h m s).bind fun r s₁ _ _ => ?_
  cases r with
  | some e => exact .pure trivial
  | none => exact .peek_bind fun _ _ _ => .throw

theorem group_only (h : Steps table reader) :
    Only (IsStep table) s (fun _ _ => True) (group reader s) := by
  refine (h .lowest s).bind fun r s₁ _ _ => .peek_bind fun close s₂ hf => ?_
  by_cases hk : close.kind = .closeParen
  · rw [if_pos hk]
    refine .advance_bind hf (by simp [hk]) (.inr (.inr hk)) fun s₃ => ?_
    cases r with
    | some e => exact .pure trivial
    | none => exact .throw
  · rw [if_neg hk]
    exact .throw

theorem operandFrom_only (h : Steps table reader) (role : Nud) (t : Token) :
    Only (IsStep table) s (fun _ _ => True) (operandFrom table reader role t s) := by
  cases role with
  | primary => exact .pure trivial
  | unary => exact (operandOf_only h t).bind fun _ _ _ _ => .pure trivial
  | grouping => exact group_only h

theorem climb_only (h : Steps table reader) (n : Nat) (left : Expr) :
    Only (IsStep table) s (fun _ _ => True) (climb table reader m n left s) := by
  induction n generalizing s left with
  | zero => exact .pure trivial
  | succ n ih =>
    refine .peek_bind fun next s₁ hf => ?_
    split
    · exact .pure trivial
    next hends =>
      have hk : next.kind ≠ .eof := by
        intro hk
        simp [Token.endsExpression, hk] at hends
      split
      next hled =>
        refine .advance_bind hf hk (.inr (.inl hled)) fun s₂ => .emit_bind trivial fun s₃ _ => ?_
        exact (operandOf_only h next).bind fun right s₄ _ _ => ih _
      · exact .throw

theorem readWithin_only (table : Bindings) (n : Nat) : Steps table (readWithin table n) := by
  induction n with
  | zero => exact fun _ _ => .pure trivial
  | succ n ih =>
    intro m s
    refine .peek_bind fun first s₁ hf => ?_
    split
    · exact .pure trivial
    next hends =>
      have hk : first.kind ≠ .eof := by
        intro hk
        simp [Token.endsExpression, hk] at hends
      cases hnud : table.nud first.kind with
      | none => exact .throw
      | some role =>
        refine .advance_bind hf hk (.inl (by simp [hnud])) fun s₂ =>
          .emit_bind trivial fun s₃ _ => ?_
        refine (operandFrom_only ih role first).bind fun left s₄ _ _ => ?_
        exact (climb_only ih n left).bind fun _ _ _ _ => .pure trivial

/-- An expression takes no token that has no role in expressions, and it records nothing. -/
theorem read_only (table : Bindings) : Steps table (read table) :=
  fun m s => readWithin_only table (s.stream.remaining + 1) m s

end Expr

/-! ## Steps that take no `}` -/

/-- The event takes no `}`. -/
def Event.SparesCurly (e : Event) : Prop :=
  ∀ t, e = .taken t → t.kind ≠ .closeCurly

/-- The parser takes no `}`. -/
def SparesCurly {α : Type} (x : ParseM α) : Prop :=
  ∀ s, Only Event.SparesCurly s (fun _ _ => True) (x s)

section
variable {α β : Type} {x : ParseM α} {f : α → ParseM β} {k : Kind} {expected context : String}
  {markers : List Kind} {s : Session} {t : Token}

theorem Event.sparesCurly_of_token? {e : Event} (h : e.token? = none) : e.SparesCurly := by
  rintro t rfl
  cases h

theorem Event.sparesCurly_taken (h : t.kind ≠ .closeCurly) : (Event.taken t).SparesCurly := by
  rintro _ ⟨⟩
  exact h

theorem SparesCurly.bind (hx : SparesCurly x) (hf : ∀ a, SparesCurly (f a)) :
    SparesCurly (x >>= f) :=
  fun s => (hx s).bind fun a s₁ _ _ => hf a s₁

theorem SparesCurly.pure (a : α) : SparesCurly (Pure.pure a : ParseM α) :=
  fun _ => .pure trivial

theorem SparesCurly.ite {p : Prop} [Decidable p] {y : ParseM α} (hx : SparesCurly x)
    (hy : SparesCurly y) : SparesCurly (if p then x else y) := by
  split
  · exact hx
  · exact hy

theorem nextIs_spares (k : Kind) : SparesCurly (nextIs k) :=
  fun _ => .nextIs k

theorem countErrors_spares : SparesCurly countErrors :=
  fun s => .goes (.refl s) ⟨by simp, trivial⟩

theorem rounds_spares : SparesCurly rounds :=
  fun s => .goes (.refl s) ⟨by simp, trivial⟩

theorem reportNext_spares (expected context : String) :
    SparesCurly (reportNext expected context) := by
  have h : SparesCurly (reportNext expected context >>= Pure.pure) := fun s =>
    .reportNext_bind (fun _ => Event.sparesCurly_of_token? rfl) fun _ => .pure trivial
  simpa only [bind_pure] using h

theorem expect_spares (hk : k ≠ .eof) (hcurly : k ≠ .closeCurly) (expected context : String) :
    SparesCurly (expect k expected context) := fun _ =>
  .expect hk (fun _ ht => Event.sparesCurly_taken (by rwa [ht]))
    fun _ => Event.sparesCurly_of_token? rfl

/-- Skipping to markers of which `}` is one. -/
theorem synchronize_spares (hcurly : .closeCurly ∈ markers) (context : String) :
    SparesCurly (synchronize markers context) := by
  intro s
  refine (Only.synchronize (fun t ht => Event.sparesCurly_taken ?_)
    fun _ _ => Event.sparesCurly_of_token? rfl).imp (fun _ h => h) fun _ _ _ => trivial
  rintro hk
  exact ht (hk ▸ hcurly)

theorem recoverStatement_spares (context : String) : SparesCurly (recoverStatement context) :=
  fun _ => .recoverStatement (fun _ ht => Event.sparesCurly_taken ht)
    fun _ _ => Event.sparesCurly_of_token? rfl

theorem emit_bind_spares {g : Unit → ParseM α} {event : Event} (h : SparesCurly (g ()))
    (he : event.IsRemark := by exact ⟨rfl, rfl⟩) : SparesCurly (emit event >>= g) :=
  fun _ => .emit_bind (Event.sparesCurly_of_token? he.1) (fun s₁ _ => h s₁) he

end

/-- The number of tokens of a kind that were taken. -/
def Event.countTaken (k : Kind) (l : List Event) : Nat :=
  (Event.tokens l).countP (·.kind = k)

namespace Event

variable {k k' : Kind} {l l' : List Event}

theorem countTaken_append : countTaken k (l ++ l') = countTaken k l + countTaken k l' := by
  simp [countTaken]

theorem countTaken_taken {t : Token} :
    countTaken k (.taken t :: l) = countTaken k l + if t.kind = k then 1 else 0 := by
  simp [countTaken, List.countP_cons]

theorem countTaken_entering {rule : String} :
    countTaken k (.entering rule :: l) = countTaken k l := by
  simp [countTaken]

theorem countTaken_flatten_le {ls : List (List Event)}
    (h : ∀ l ∈ ls, countTaken k l ≤ countTaken k' l) :
    countTaken k ls.flatten ≤ countTaken k' ls.flatten := by
  induction ls with
  | nil => simp [countTaken]
  | cons l ls ih =>
    obtain ⟨hl, hls⟩ := List.forall_mem_cons.1 h
    have hrest := ih hls
    simp only [List.flatten_cons, countTaken_append]
    omega

theorem countTaken_of_spares (h : ∀ e ∈ l, e.SparesCurly) : countTaken .closeCurly l = 0 := by
  simp only [countTaken, List.countP_eq_zero, decide_eq_true_eq]
  exact fun t ht => h _ (mem_tokens.1 ht) t rfl

end Event

/-- No `}` has a role in expressions. -/
theorem Expr.IsStep.sparesCurly {e : Event} (h : IsStep .standard e) : e.SparesCurly := by
  rintro t rfl hk
  simp [IsStep, hk, Bindings.standard] at h

/-- What an expression inside a construct logs: its steps, and behind them a report if there is
one. -/
def ExpressionLog (reported : Option Diagnostic) (l : List Event) : Prop :=
  ∃ steps, (∀ e ∈ steps, Expr.IsStep .standard e) ∧ l = steps ++ (reported.map .reported).toList

section
variable {steps : List Event} (hsteps : ∀ e ∈ steps, Expr.IsStep .standard e)
include hsteps

theorem ExpressionLog.of_steps : ExpressionLog none (steps ++ []) :=
  ⟨steps, hsteps, rfl⟩

/-- The report that ends an expression, behind its steps. -/
theorem expressionReport_trace (expected context : String) (t : Token) (s : Session) :
    Trace s (fun l => ∃ d, ExpressionLog d (steps ++ l))
      (fun l (r : Option Expr) _ => ∃ d, ExpressionLog d (steps ++ l) ∧ d.isSome = r.isNone)
      ((report expected context t >>= fun _ => pure none) s) := by
  have hlog : ExpressionLog (some { expected, context, found := t })
      (steps ++ [.reported { expected, context, found := t }]) := ⟨steps, hsteps, rfl⟩
  exact .report_bind ⟨_, hlog⟩ fun _ _ => .pure ⟨_, hlog, rfl⟩

end

/-- An expression records one diagnostic if it is not there or fails, and otherwise none. -/
theorem expression_trace (context : String) (s : Session) :
    Trace s (fun l => ∃ d, ExpressionLog d l)
      (fun l r _ => ∃ d, ExpressionLog d l ∧ d.isSome = r.isNone) (expression context s) := by
  have hread := Expr.read_only .standard .lowest s
  unfold expression
  generalize hr : Expr.read .standard .lowest s = r at hread
  cases hread with
  | @goes steps r s₁ h hq =>
    rw [bind_of_ok (attempt_of_ok hr)]
    refine .of_trail h ?_
    cases r with
    | some e => exact .pure ⟨none, .of_steps hq.1, rfl⟩
    | none =>
      simp only [reportNext, bind_assoc]
      exact .peek_bind ⟨none, .of_steps hq.1⟩ fun t s₂ _ _ =>
        expressionReport_trace hq.1 _ context t s₂
  | @fails steps e s₁ s' h hs hp =>
    rw [bind_of_ok (attempt_of_error hr)]
    by_cases he : e.isFatal = true
    · simp only [he, if_true]
      exact .fails h hs ⟨none, by simpa using ExpressionLog.of_steps hp⟩
    · obtain rfl := hs.caught (by simpa using he)
      refine .of_trail h ?_
      simp only [he, offendingToken]
      cases e.cause.found with
      | some found => exact expressionReport_trace hp _ context found _
      | none =>
        exact .peek_bind ⟨none, .of_steps hp⟩ fun t s₂ _ _ =>
          expressionReport_trace hp _ context t s₂

theorem ExpressionLog.diagnostics_eq {d : Option Diagnostic} {l : List Event}
    (h : ExpressionLog d l) : Event.diagnostics l = d.toList := by
  obtain ⟨steps, hsteps, rfl⟩ := h
  have hsilent : Event.diagnostics steps = [] := by
    refine List.filterMap_eq_nil_iff.2 fun e he => ?_
    have hstep := hsteps e he
    cases e with
    | reported d => exact hstep.elim
    | _ => rfl
  cases d with
  | none => simp [hsilent]
  | some d => simp [hsilent]

theorem ExpressionLog.sparesCurly {d : Option Diagnostic} {l : List Event}
    (h : ExpressionLog d l) : ∀ e ∈ l, e.SparesCurly := by
  obtain ⟨steps, hsteps, rfl⟩ := h
  rw [List.forall_mem_append]
  refine ⟨fun e he => (hsteps e he).sparesCurly, fun e he => Event.sparesCurly_of_token? ?_⟩
  cases d with
  | none => simp at he
  | some d =>
    obtain rfl : e = .reported d := by simpa using he
    rfl

/-- An expression that fails is reported; either way it takes no `}`. -/
theorem expression_spares (context : String) : SparesCurly (expression context) := by
  intro s
  refine (expression_trace context s).imp ?_ ?_
  · rintro l ⟨d, hl⟩
    exact hl.sparesCurly
  · rintro l _ _ _ ⟨d, hl, -⟩
    exact ⟨hl.sparesCurly, trivial⟩

namespace Stmt

variable {s : Session} {context : String}

/-! ## Calls, assignments and declarations -/

theorem unlessReported_spares {α : Type} (errors : Nat) (a : α) :
    SparesCurly (unlessReported errors a) :=
  countErrors_spares.bind fun _ => .pure _

theorem broken_spares {α : Type} (context : String) :
    SparesCurly (recoverStatement context >>= fun _ => (pure none : ParseM (Option α))) :=
  (recoverStatement_spares context).bind fun _ => .pure none

/-- The last part of a statement, with its `;`. -/
theorem terminated_spares {α : Type} (context : String) (errors : Nat) (a : α) :
    SparesCurly (expect .semicolon "';'" context >>= fun _ => unlessReported errors a) :=
  (expect_spares (by simp) (by simp) _ _).bind fun _ => unlessReported_spares errors a

theorem argument_spares : SparesCurly argument := by
  refine (expression_spares _).bind fun e => ?_
  cases e with
  | some e => exact .pure _
  | none => exact (synchronize_spares (by simp [argumentMarkers]) _).bind fun _ => .pure none

theorem argumentsWithin_spares (n : Nat) : SparesCurly (argumentsWithin n) := by
  induction n with
  | zero => exact .pure []
  | succ n ih =>
    refine argument_spares.bind fun a s => .nextIs_ite (fun t s₁ hf ht => ?_) fun _ s₁ _ _ => ?_
    · refine .advance_bind hf (by simp [ht]) (Event.sparesCurly_taken (by simp [ht])) fun s₂ => ?_
      exact (ih s₂).bind fun _ _ _ _ => .pure trivial
    · exact .pure trivial

theorem arguments_spares : SparesCurly arguments :=
  (nextIs_spares _).bind fun _ => .ite (.pure []) (rounds_spares.bind argumentsWithin_spares)

theorem argumentsLost_spares (errors : Nat) : SparesCurly (argumentsLost errors) :=
  countErrors_spares.bind fun _ => .ite (.pure _) ((nextIs_spares _).bind fun _ => .pure _)

theorem readCall_spares (callee : Token) : SparesCurly (readCall callee) := by
  refine emit_bind_spares (countErrors_spares.bind fun errors => ?_)
  refine arguments_spares.bind fun args => ?_
  refine (argumentsLost_spares errors).bind fun lost => .ite (broken_spares _) ?_
  refine (expect_spares (by simp) (by simp) _ _).bind fun close => ?_
  cases close with
  | some close => exact terminated_spares _ errors _
  | none => exact broken_spares _

theorem readAssignment_spares (target : Token) : SparesCurly (readAssignment target) := by
  refine emit_bind_spares (countErrors_spares.bind fun errors => ?_)
  refine (expression_spares _).bind fun e => ?_
  cases e with
  | some e => exact terminated_spares _ errors _
  | none => exact broken_spares _

/-- The next token is the type that the declaration starts with. -/
theorem readDeclaration_only {type : Token} (hf : s.front = .ok type) (ht : type.kind ≠ .eof)
    (hcurly : type.kind ≠ .closeCurly) :
    Only Event.SparesCurly s (fun _ _ => True) (readDeclaration s) := by
  refine .emit_bind (Event.sparesCurly_of_token? rfl) fun s₁ h₁ => ?_
  have hfront : s₁.front = s.front := Moves.front_eq h₁.moves
  rw [bind_of_ok (countErrors_apply s₁)]
  refine .advance_bind (hfront.trans hf) ht (Event.sparesCurly_taken hcurly) fun s₂ => ?_
  refine (expect_spares (by simp) (by simp) _ _ s₂).bind fun name s₃ _ _ => ?_
  cases name with
  | some name => exact terminated_spares _ _ _ s₃
  | none => exact broken_spares _ s₃

/-! ## Headers of loops -/

section
variable {kind : Kind} {markers : List Kind}

theorem headerToken_spares (hk : kind ≠ .eof) (hcurly : kind ≠ .closeCurly)
    (hmarkers : .closeCurly ∈ markers) (expected : String) (lost : Bool) :
    SparesCurly (headerToken kind expected markers lost) := by
  intro s
  refine .nextIs_ite (fun t s₁ hf ht => ?_) fun _ s₁ _ _ => ?_
  · exact .advance_bind hf (by rwa [ht]) (Event.sparesCurly_taken (by rwa [ht])) fun _ =>
      .pure trivial
  · have hreport : SparesCurly (reportUnless lost expected) :=
      .ite (.pure ()) (reportNext_spares _ _)
    exact hreport.bind (fun _ => (synchronize_spares hmarkers _).bind fun _ => .pure none) s₁

theorem headerSection_spares (hk : kind ≠ .eof) (hcurly : kind ≠ .closeCurly)
    (hmarkers : .closeCurly ∈ markers) (expected : String) (lost : Bool) :
    SparesCurly (headerSection kind expected markers lost) := by
  refine (headerToken_spares hk hcurly hmarkers expected lost).bind fun t => ?_
  cases t with
  | none => exact .pure none
  | some t =>
    refine (expression_spares _).bind fun e => ?_
    cases e with
    | some e => exact .pure _
    | none => exact (synchronize_spares hmarkers _).bind fun _ => .pure none

end

/-- Every piece of a header gets back in step at a `}`, if at nothing else. -/
theorem header_spares : SparesCurly header :=
  (headerToken_spares (by simp) (by simp) (by decide) _ _).bind fun _ =>
  (headerToken_spares (by simp) (by simp) (by decide) _ _).bind fun _ =>
  (headerSection_spares (by simp) (by simp) (by decide) _ _).bind fun _ =>
  (headerSection_spares (by simp) (by simp) (by decide) _ _).bind fun _ =>
  (headerSection_spares (by simp) (by simp) (by decide) _ _).bind fun _ =>
  (headerToken_spares (by simp) (by simp) (by decide) _ _).bind fun _ => .pure _

theorem abandoned_spares (h : Header) : SparesCurly (abandoned h) :=
  .ite (.pure _) ((nextIs_spares _).bind fun _ => .pure _)

/-! ## Blocks -/

section
variable {p : List Event → Prop} {l l' : List Event}

/-- Pieces of the log with the property `p`, one behind the other; nothing else takes a token. -/
def PiecesLog (p : List Event → Prop) (l : List Event) : Prop :=
  ∃ pieces rest, l = List.flatten pieces ++ rest ∧ (∀ piece ∈ pieces, p piece) ∧
    Event.tokens rest = []

theorem PiecesLog.of_tokens (h : Event.tokens l = []) : PiecesLog p l :=
  ⟨[], l, rfl, by simp, h⟩

theorem PiecesLog.cons (hl : p l) (h : PiecesLog p l') : PiecesLog p (l ++ l') := by
  obtain ⟨pieces, rest, rfl, hpieces, hrest⟩ := h
  exact ⟨l :: pieces, rest, by simp, List.forall_mem_cons.2 ⟨hl, hpieces⟩, hrest⟩

/-- What a body logs: that it is entered, and then what its statements log. -/
def BodyLog (p : List Event → Prop) (context : String) (l : List Event) : Prop :=
  ∃ pieces, l = .entering ("body of " ++ context) :: pieces ∧ PiecesLog p pieces

/-- What is logged behind a body: that the `}` of its block is taken, if it was come to. -/
def IsClosing (l : List Event) : Prop :=
  l = [] ∨ ∃ close : Token, close.kind = .closeCurly ∧ l = [.taken close]

/-- What a block logs: what stands in the place of its `{`, and behind it the body and the `}`. -/
def BlockLog (p : List Event → Prop) (context : String) (l : List Event) : Prop :=
  (∀ e ∈ l, e.SparesCurly) ∨
  ∃ opening body closing, l = opening ++ (body ++ closing) ∧ (∀ e ∈ opening, e.SparesCurly) ∧
    BodyLog p context body ∧ IsClosing closing

theorem BlockLog.of_body {opening body closing : List Event}
    (hopening : ∀ e ∈ opening, e.SparesCurly) (hbody : BodyLog p context body)
    (hclosing : IsClosing closing) : BlockLog p context (opening ++ (body ++ closing)) :=
  .inr ⟨opening, body, closing, rfl, hopening, hbody, hclosing⟩

/-- Where no more tokens are to come than at `s`, the statement leaves such a piece of the log
behind, and it does as a statement does. -/
structure IsStatementOf (p : List Event → Prop) (s : Session) (stmt : ParseM (Option Stmt)) :
    Prop where
  trace : ∀ s' : Session, s'.tokens.length ≤ s.tokens.length →
    Trace s' p (fun l _ _ => p l) (stmt s')
  fate : ∀ s' : Session, s'.tokens.length ≤ s.tokens.length →
    Fate False s' (fun w _ r s'' => IsStatement s' w r s'') (stmt s')

variable {stmt : ParseM (Option Stmt)} {s' : Session}

theorem IsStatementOf.mono (h : IsStatementOf p s stmt)
    (hlen : s'.tokens.length ≤ s.tokens.length) : IsStatementOf p s' stmt :=
  ⟨fun s'' h' => h.trace s'' (Nat.le_trans h' hlen),
    fun s'' h' => h.fate s'' (Nat.le_trans h' hlen)⟩

theorem bodyWithin_trace (hstmt : IsStatementOf p s stmt) (n : Nat) :
    Trace s (PiecesLog p) (fun l _ _ => PiecesLog p l) (bodyWithin stmt context n s) := by
  induction n generalizing s with
  | zero => exact .pure (.of_tokens rfl)
  | succ n ih =>
    refine .peekKind_bind (.of_tokens rfl) fun t s₁ h₁ hf => ?_
    have hstmt₁ := hstmt.mono h₁.moves.length_le
    split
    · exact .pure (.of_tokens rfl)
    next hk =>
      refine .reportNext_bind hf (.of_tokens rfl) fun s₂ _ hf₂ => ?_
      refine (Trace.synchronize_of_eof (Q := fun _ _ _ => False) hf₂ hk (by simp) ?_).bind
        fun _ _ _ _ _ h => h.elim
      exact .of_tokens rfl
    next =>
      refine ((hstmt₁.trace s₁ (Nat.le_refl _)).imp (fun l h => ?_) fun _ _ _ _ h => h).bind ?_
      · simpa using PiecesLog.cons h (.of_tokens Event.tokens_nil)
      intro l first s₂ _ h₂ hl
      have hrest := ih (hstmt₁.mono h₂.moves.length_le)
      refine (hrest.imp (fun _ h => h.cons hl) fun _ _ _ _ h => h.cons hl).bind ?_
      intro l' rest s₃ _ _ h
      exact .pure (by simpa using h)

theorem bodyOf_trace (hstmt : IsStatementOf p s stmt) :
    Trace s (BodyLog p context) (fun l _ _ => BodyLog p context l) (bodyOf stmt context s) := by
  refine .emit_bind fun s₁ h₁ => ?_
  rw [bind_of_ok (rounds_apply s₁)]
  refine (bodyWithin_trace (hstmt.mono h₁.moves.length_le) _).imp ?_ ?_
  · exact fun l h => ⟨l, rfl, h⟩
  · exact fun l _ _ _ h => ⟨l, rfl, h⟩

/-- A body that goes on stands in front of a `}`. -/
theorem front_of_bodyOf {stmts : List Stmt} (hstmt : IsStatementOf p s stmt)
    (h : bodyOf stmt context s = .ok stmts s') :
    ∃ close, s'.front = .ok close ∧ close.kind = .closeCurly := by
  have hbody : Fate False s (fun _ _ _ s' => ∃ t, s'.front = .ok t ∧ t.kind = .closeCurly)
      (bodyOf stmt context s) := by
    refine Fate.emit_bind _ fun s₁ m₁ => ?_
    rw [bind_of_ok (rounds_apply s₁)]
    exact bodyWithin_fate _ s₁.length_tokens_lt (hstmt.mono m₁.length_le).fate
  rw [h] at hbody
  obtain ⟨_, _, -, hclose⟩ := hbody.of_ok
  exact hclose

theorem blockOf_trace (hstmt : IsStatementOf p s stmt) :
    Trace s (BlockLog p context) (fun l _ _ => BlockLog p context l) (blockOf stmt context s) := by
  have hopen : Trace s (BlockLog p context) (fun l _ _ => ∀ e ∈ l, e.SparesCurly)
      (expect .openCurly "'\x7b'" context s) :=
    Trace.imp (expect_spares (by simp) (by simp) _ _ s) (fun _ h => .inl h) fun _ _ _ _ h => h.1
  refine hopen.bind ?_
  intro opening _ s₁ _ h₁ hopening
  have hstmt₁ := hstmt.mono h₁.moves.length_le
  refine ((bodyOf_trace hstmt₁).imp (fun l h => ?_) fun _ _ _ _ h => h).bind ?_
  · simpa using BlockLog.of_body hopening h (.inl rfl)
  intro body stmts s₂ hr _ hlog
  obtain ⟨close, hf, hk⟩ := front_of_bodyOf hstmt₁ hr
  -- The `}` is there, so it is taken.
  have hmissing {t : Token} (hf' : s₂.front = .ok t) (ht : t.kind ≠ .closeCurly) : False := by
    rw [hf] at hf'
    cases hf'
    exact ht hk
  refine Trace.bind (Trace.expect (by simp) (.of_body hopening hlog (.inl rfl))
    fun t hf' ht => (hmissing hf' ht).elim) ?_
  rintro _ _ s₃ _ _ (⟨t, -, -, ht, rfl⟩ | ⟨t, -, hf', ht, -, -⟩)
  · have hclosing : IsClosing [.taken t] := .inr ⟨t, ht, rfl⟩
    exact .pure (by simpa using BlockLog.of_body hopening hlog hclosing)
  · exact (hmissing hf' ht).elim

end

/-! ## Statements -/

/-- What a statement logs. Either nothing in it takes a `}`, or it is a loop: behind the keyword and
the header, with what stands in the place of the `{`, come the statements of the body, and then the
`}`, if it was come to. -/
inductive StmtLog : List Event → Prop
  | flat {l : List Event} (h : ∀ e ∈ l, e.SparesCurly) : StmtLog l
  | loop {keyword : Token} {header closing : List Event} {body : List (List Event)}
      (hk : keyword.kind = .iter) (hheader : ∀ e ∈ header, e.SparesCurly)
      (hbody : ∀ l ∈ body, StmtLog l) (hclosing : IsClosing closing) :
      StmtLog (.entering "statement" :: .entering "iter" :: .taken keyword ::
        (header ++ .entering ("body of " ++ Context.iter) :: (body.flatten ++ closing)))

namespace StmtLog

variable {l : List Event}

theorem of_tokens (h : Event.tokens l = []) : StmtLog l := by
  refine .flat fun e he => ?_
  rintro t rfl
  have ht := Event.mem_tokens.2 he
  simp [h] at ht

/-- The events of a block, behind those of a header. -/
theorem of_block {keyword : Token} {header block : List Event} (hk : keyword.kind = .iter)
    (hheader : ∀ e ∈ header, e.SparesCurly) (hblock : BlockLog StmtLog Context.iter block) :
    StmtLog (.entering "statement" :: .entering "iter" :: .taken keyword :: (header ++ block)) := by
  obtain hflat | ⟨opening, _, closing, rfl, hopening, ⟨_, rfl, pieces, rest, rfl, hpieces, hrest⟩,
    hclosing⟩ := hblock
  · refine .flat ?_
    simp only [List.forall_mem_cons, List.forall_mem_append]
    exact ⟨Event.sparesCurly_of_token? rfl, Event.sparesCurly_of_token? rfl,
      Event.sparesCurly_taken (by simp [hk]), hheader, hflat⟩
  · have hbody : ∀ piece ∈ pieces ++ [rest], StmtLog piece := by
      rw [List.forall_mem_append, List.forall_mem_singleton]
      exact ⟨hpieces, of_tokens hrest⟩
    have hall := List.forall_mem_append.2 ⟨hheader, hopening⟩
    simpa using StmtLog.loop hk hall hbody hclosing

/-- Each `}` has a keyword of its own. -/
theorem count_le (h : StmtLog l) :
    Event.countTaken .closeCurly l ≤ Event.countTaken .iter l := by
  induction h with
  | flat h => simp [Event.countTaken_of_spares h]
  | @loop keyword header closing body hk hheader _ hclosing ih =>
    have hbody := Event.countTaken_flatten_le ih
    have hclose : Event.countTaken .closeCurly closing ≤ 1 := by
      obtain rfl | ⟨close, hc, rfl⟩ := hclosing
      · simp [Event.countTaken]
      · simp [Event.countTaken, hc]
    simp only [Event.countTaken_entering, Event.countTaken_taken, Event.countTaken_append,
      Event.countTaken_of_spares hheader, hk, reduceCtorEq, if_false, if_true]
    omega

/-- A `}` was taken in a loop, and the loop starts with its keyword. -/
theorem spares_of_head (h : StmtLog l)
    (hne : ∀ t ts, Event.tokens l = t :: ts → t.kind ≠ .iter) : ∀ e ∈ l, e.SparesCurly := by
  cases h with
  | flat h => exact h
  | loop hk => exact absurd hk (hne _ _ rfl)

end StmtLog

/-- A parser that takes no `}`, behind events of which none takes one. -/
theorem trace_of_spares {α : Type} {x : ParseM α} (hx : SparesCurly x) {before : List Event}
    (hbefore : ∀ e ∈ before, e.SparesCurly) :
    Trace s (fun l => StmtLog (before ++ l)) (fun l _ _ => ∀ e ∈ before ++ l, e.SparesCurly)
      (x s) :=
  Trace.imp (hx s) (fun _ h => .flat (List.forall_mem_append.2 ⟨hbefore, h⟩))
    fun _ _ _ _ h => List.forall_mem_append.2 ⟨hbefore, h.1⟩

/-- Events of which none takes a `}`. -/
theorem trace_of_only {r : EStateM.Result Error Session (Option Stmt)} {before : List Event}
    (hbefore : ∀ e ∈ before, e.SparesCurly) (h : Only Event.SparesCurly s (fun _ _ => True) r) :
    Trace s (fun l => StmtLog (before ++ l)) (fun l _ _ => StmtLog (before ++ l)) r :=
  (Only.append hbefore h).imp (fun _ h => .flat h) fun _ _ _ _ h => .flat h.1

section
variable {block : String → ParseM (List Stmt)} {t : Token}

/-- The next token is the keyword of the loop. The block is one of the tokens behind it. -/
theorem readLoop_trace (hf : s.front = .ok t) (hk : t.kind = .iter)
    (hblock : ∀ s' : Session, s'.tokens.length < s.tokens.length →
      Trace s' (BlockLog StmtLog Context.iter) (fun l _ _ => BlockLog StmtLog Context.iter l)
        (block Context.iter s')) :
    Trace s (fun l => StmtLog (.entering "statement" :: l))
      (fun l _ _ => StmtLog (.entering "statement" :: l)) (readLoop block s) := by
  refine .emit_bind fun s₁ h₁ => ?_
  have hfront : s₁.front = s.front := Moves.front_eq h₁.moves
  rw [bind_of_ok (countErrors_apply s₁)]
  refine .advance_bind (hfront.trans hf) (by simp [hk]) fun s₂ h₂ => ?_
  let start : List Event := [.entering "statement", .entering "iter", .taken t]
  have hstart : ∀ e ∈ start, e.SparesCurly := by
    simp only [start, List.forall_mem_cons]
    exact ⟨Event.sparesCurly_of_token? rfl, Event.sparesCurly_of_token? rfl,
      Event.sparesCurly_taken (by simp [hk]), by simp⟩
  refine Trace.bind (trace_of_spares header_spares hstart) fun l h s₃ _ h₃ hl => ?_
  refine Trace.bind (trace_of_spares (abandoned_spares h) hl) fun l' lost s₄ _ h₄ hl' => ?_
  split
  · exact .pure (.flat (by simpa [start] using hl'))
  · have hlen : s₄.tokens.length < s.tokens.length := by
      have hlen₁ := h₁.moves.length_le
      have hlen₂ := h₂.moves.tokens_length
      have hlen₄ := (h₃.trans h₄).moves.length_le
      simp at hlen₂
      omega
    have hheader : ∀ e ∈ l ++ l', e.SparesCurly := by
      rw [List.append_assoc, List.forall_mem_append] at hl'
      exact hl'.2
    refine ((hblock s₄ hlen).imp (fun b hb => ?_) fun _ _ _ _ hb => hb).bind
      fun b body s₅ _ _ hb => ?_
    · simpa using StmtLog.of_block hk hheader hb
    · rw [unlessReported, bind_assoc, bind_of_ok (countErrors_apply s₅), pure_bind]
      exact .pure (by simpa using StmtLog.of_block hk hheader hb)

/-- The block of a loop starts behind the first token of the statement. -/
theorem rule_trace (hblock : ∀ s' : Session, s'.tokens.length < s.tokens.length →
      Trace s' (BlockLog StmtLog Context.iter) (fun l _ _ => BlockLog StmtLog Context.iter l)
        (block Context.iter s')) :
    Trace s StmtLog (fun l _ _ => StmtLog l) (rule block s) := by
  have hstart : ∀ e ∈ [Event.entering "statement"], e.SparesCurly := by
    simpa using Event.sparesCurly_of_token? rfl
  refine .emit_bind fun s₁ h₁ => .peekKind_bind (.flat hstart) fun t s₂ h₂ hf => ?_
  split
  next hk =>
    refine trace_of_only hstart (.advance_bind hf (by simp [hk])
      (Event.sparesCurly_taken (by simp [hk])) fun s₃ => .peekKind_bind fun o s₄ ho => ?_)
    split
    next hok =>
      exact .advance_bind ho (by simp [hok]) (Event.sparesCurly_taken (by simp [hok]))
        (readCall_spares t)
    next hok =>
      exact .advance_bind ho (by simp [hok]) (Event.sparesCurly_taken (by simp [hok]))
        (readAssignment_spares t)
    next => exact (reportNext_spares _ _).bind (fun _ => broken_spares _) s₄
  next hk => exact trace_of_only hstart (readDeclaration_only hf (by simp [hk]) (by simp [hk]))
  next hk => exact trace_of_only hstart (readDeclaration_only hf (by simp [hk]) (by simp [hk]))
  next hk =>
    have hlen := (h₁.trans h₂).moves.length_le
    exact readLoop_trace hf hk fun s' hs' => hblock s' (by omega)
  next => exact trace_of_only hstart ((reportNext_spares _ _).bind (fun _ => broken_spares _) s₂)

end

theorem readWithin_isStatement (n : Nat) (hn : s.tokens.length < n) :
    IsStatementOf StmtLog s (readWithin n) := by
  refine ⟨?_, fun s' hs' => readWithin_fate n (by omega)⟩
  induction n generalizing s with
  | zero => omega
  | succ n ih =>
    intro s' hs'
    refine rule_trace fun s'' hs'' => blockOf_trace ⟨ih (by omega), fun s₃ hs₃ => ?_⟩
    exact readWithin_fate n (by omega)

theorem read_trace (s : Session) : Trace s StmtLog (fun l _ _ => StmtLog l) (read s) :=
  (readWithin_isStatement _ s.length_tokens_lt).trace s (Nat.le_refl _)

/-- The events of a call of the statement rule. -/
def CallLog (l : List Event) : Prop := StmtLog l ∧ ∃ s : Session, s.Tells l (read s)

theorem read_isStatement (s : Session) : IsStatementOf CallLog s read := by
  refine ⟨fun s' _ => ?_, fun s' _ => read_fate s'⟩
  obtain ⟨l, hl, hlog⟩ := (read_trace s').exists_tells (fun _ h => h) fun _ _ _ h => h
  refine (Trace.of_tells hl).imp ?_ ?_
  · rintro _ rfl
    exact ⟨hlog, s', hl⟩
  · rintro _ _ _ _ rfl
    exact ⟨hlog, s', hl⟩

/-- Getting back in step never goes over the `}` of the block around a statement. Whether it goes on
or fails, a statement takes no more `}` than keywords of loops, each of them at the end of a loop of
its own, and it takes none if it does not start with such a keyword. A body takes a `}` in its
statements alone, and if it goes on, it stands in front of one, so that its block has nothing to
report there. -/
theorem read_spares_outer_brace (s : Session) :
    (∃ l, s.Tells l (read s) ∧ StmtLog l ∧
      Event.countTaken .closeCurly l ≤ Event.countTaken .iter l ∧
      ((∀ t, s.front = .ok t → t.kind ≠ .iter) → ∀ t ∈ Event.tokens l, t.kind ≠ .closeCurly)) ∧
    ∀ context,
      (∃ l, s.Tells l (body context s) ∧ BodyLog CallLog context l) ∧
      (∃ l, s.Tells l (block context s) ∧ BlockLog CallLog context l) ∧
      ∀ stmts s', body context s = .ok stmts s' →
        ∃ close, s'.front = .ok close ∧ close.kind = .closeCurly ∧
          ∀ expected, ∃ s'', expect .closeCurly expected context s' = .ok (some close) s'' ∧
            s'.Moves [close] [] s'' := by
  refine ⟨?_, fun context => ⟨?_, ?_, fun stmts s' h => ?_⟩⟩
  · obtain ⟨l, hl, hlog⟩ := (read_trace s).exists_tells (fun _ h => h) fun _ _ _ h => h
    refine ⟨l, hl, hlog, hlog.count_le, fun hfirst t ht => ?_⟩
    have hspares := hlog.spares_of_head fun u us hus => by
      obtain ⟨rest, hrest⟩ := hl.isPrefix
      exact hfirst u (front_of_tokens (by rw [← hrest, hus]; rfl))
    exact hspares _ (Event.mem_tokens.1 ht) t rfl
  · exact (bodyOf_trace (read_isStatement s)).exists_tells (fun _ h => h) fun _ _ _ h => h
  · exact (blockOf_trace (read_isStatement s)).exists_tells (fun _ h => h) fun _ _ _ h => h
  · obtain ⟨close, hf, hk⟩ := front_of_bodyOf (read_isStatement s) h
    exact ⟨close, hf, hk, fun expected => expect_of_kind hf hk (by simp)⟩

end Stmt

end FxLang
