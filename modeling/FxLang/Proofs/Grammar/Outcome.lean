import FxLang.Proofs.Expr.Standalone

/-!
# What comes of the rules

The fate of every rule of the grammar, whatever the input and whatever was recorded before. A rule
that goes on kept its construct if and only if it recorded nothing. A rule that does not go on ended
the session; in particular a lexical error goes through every rule as it is, and the input never
comes to its end unnoticed.

* `Stmt.read_fate`, `Func.read_fate`: what comes of statements and functions.
* `Program.read_fate`: a program is read only if the input comes to its end.
* `Program.lexical_errors_agree`: reading a source meets the lexical error that its tokens have, if
  it is not given up before.
-/

namespace FxLang

open Session Fate

variable {s s₀ : Session} {context : String} {α : Type}

/-- There is a value if and only if nothing was recorded since `s`. -/
def Kept (s : Session) (r : Option α) (s' : Session) : Prop :=
  r.isSome = true ↔ s'.errorCount = s.errorCount

theorem Kept.of_lt {s' : Session} (h : s.errorCount < s'.errorCount) :
    Kept s (none : Option α) s' :=
  ⟨by simp, fun heq => by omega⟩

theorem Kept.congr {s₁ s' : Session} {r : Option α} (h : Kept s₀ r s₁)
    (h₀ : s₀.errorCount = s.errorCount) (h₁ : s₁.errorCount = s'.errorCount) : Kept s r s' := by
  unfold Kept at h ⊢
  rwa [← h₀, ← h₁]

/-- A construct is given up after something was recorded since `s₀`, and tokens are skipped. -/
theorem skipped_fate {markers : List Kind} (h : s₀.errorCount < s.errorCount) :
    Fate False s (fun _ _ r s' => Kept s₀ r s')
      ((synchronize markers context >>= fun _ => Pure.pure (none : Option α)) s) := by
  refine (Fate.synchronize (by omega)).bind fun _ _ _ s₁ m₁ _ => ?_
  have hle₁ := m₁.count_le
  exact pure (.of_lt (by omega))

/-- An expression is missing if and only if one diagnostic was recorded about it. -/
theorem expression_fate (context : String) (s : Session) :
    Fate False s (fun _ _ r s' => (r.isSome = true → s'.errorCount = s.errorCount) ∧
      (r = none → s'.errorCount = s.errorCount + 1)) (expression context s) := by
  have hfate := Expr.read_fate .standard .lowest s
  generalize hread : Expr.read .standard .lowest s = r at hfate
  cases hfate with
  | @goes w ds a s₁ hm _ hsilent _ =>
    obtain rfl := hsilent trivial
    rw [expression, bind_of_ok (attempt_of_ok hread)]
    refine of_clean hm ?_
    cases a with
    | some e => exact pure ⟨fun _ => hm.count_eq, by simp⟩
    | none =>
      refine reportNext_bind (.of_take (by decide)) fun d s₂ m₂ => pure ⟨by simp, fun _ => ?_⟩
      rw [m₂.count_report, hm.count_eq]
  | ends he hf hsilent =>
    rw [expression_of_lexical hread (isLexical_of_ending (hsilent trivial))]
    exact .ends he hf False.elim
  | trips _ hm hx _ hs =>
    rw [expression_of_syntactic hread hx]
    refine (report hm hs (notLexical_of_found hx)).bind ?_
    rintro _ _ ⟨⟩ s₂ m₂ ⟨-, d, rfl⟩
    exact pure ⟨by simp, fun _ => m₂.count_report⟩

namespace Stmt

/-! ## Calls, assignments and declarations -/

theorem unlessReported_fate (errors : Nat) (a : α) :
    Fate False s (fun _ _ r s' => r = (if s'.errorCount = errors then some a else none) ∧
      s'.errorCount = s.errorCount) (unlessReported errors a s) := by
  rw [unlessReported, bind_of_ok (countErrors_apply s)]
  exact pure ⟨rfl, rfl⟩

/-- The last part of a statement, which is kept unless something was recorded since `s₀`. -/
theorem terminated_fate (s₀ : Session) (a : α) :
    Fate False s (fun _ _ r s' => Kept s₀ r s')
      ((expect .semicolon "';'" context >>= fun _ => unlessReported s₀.errorCount a) s) := by
  refine (Fate.expect (by simp) (.of_take (by decide))).bind fun _ _ _ s₁ _ _ =>
    (unlessReported_fate _ a).imp ?_
  rintro _ _ _ s' _ ⟨rfl, -⟩
  unfold Kept
  split <;> simp [*]

/-- A statement is given up after something was recorded since `s₀`. -/
theorem broken_fate (h : s₀.errorCount < s.errorCount) :
    Fate False s (fun w _ r s' => Kept s₀ r s' ∧
        (w = [] → ∃ t, s.front = .ok t ∧ t.kind = .closeCurly))
      ((recoverStatement context >>= fun _ => Pure.pure (none : Option α)) s) := by
  refine (Fate.recoverStatement (by omega)).bind ?_
  rintro w _ ⟨⟩ s₁ m₁ ⟨rfl, hw⟩
  refine pure ⟨.of_lt (m₁.count_eq ▸ h), fun hnil => hw ?_⟩
  simpa using hnil

theorem argument_fate (s : Session) : Fate False s (fun _ _ _ _ => True) (argument s) := by
  refine (expression_fate Context.call s).bind fun _ _ r s₁ _ hr => ?_
  cases r with
  | some e => exact pure trivial
  | none =>
    have hcount := hr.2 rfl
    exact (Fate.synchronize (by omega)).bind fun _ _ _ _ _ _ => pure trivial

theorem argumentsWithin_fate (n : Nat) (s : Session) :
    Fate False s (fun _ _ _ _ => True) (argumentsWithin n s) := by
  induction n generalizing s with
  | zero => exact pure trivial
  | succ n ih =>
    refine (argument_fate s).bind fun _ _ _ s₁ _ _ => ?_
    refine nextIs_ite (fun t s₂ _ hf ht => ?_) (fun _ _ _ _ _ => pure trivial)
    refine advance_bind hf (by simp [ht]) fun s₃ _ => ?_
    exact (ih s₃).bind fun _ _ _ _ _ _ => pure trivial

theorem arguments_fate (s : Session) : Fate False s (fun _ _ _ _ => True) (arguments s) :=
  nextIs_ite (fun _ _ _ _ _ => pure trivial) fun _ s₁ _ _ _ => argumentsWithin_fate _ s₁

theorem argumentsLost_fate (errors : Nat) :
    Fate False s (fun _ _ lost s' => lost = true → s'.errorCount ≠ errors)
      (argumentsLost errors s) := by
  rw [argumentsLost, bind_of_ok (countErrors_apply s)]
  split
  · exact pure (by simp)
  next h =>
    refine nextIs_bind fun t s₁ m₁ _ => pure fun _ => ?_
    rwa [m₁.count_eq]

theorem readCall_fate (callee : Token) (s : Session) :
    Fate False s (fun _ _ r s' => Kept s r s') (readCall callee s) := by
  refine emit_bind _ fun s₁ m₁ => ?_
  rw [bind_of_ok (countErrors_apply s₁), m₁.count_eq]
  refine (arguments_fate s₁).bind fun _ _ args s₂ m₂ _ => ?_
  refine (argumentsLost_fate _).bind fun _ _ lost s₃ m₃ hlost => ?_
  have hle₁ := m₁.count_le
  have hle₂ := m₂.count_le
  have hle₃ := m₃.count_le
  cases lost with
  | true =>
    have hne := hlost rfl
    exact (broken_fate (by omega)).imp fun _ _ _ _ _ h => h.1
  | false =>
    refine (Fate.expect (by simp) (.of_take (by decide))).bind fun _ _ r s₄ m₄ hr => ?_
    rcases hr with ⟨t, rfl, -, rfl, rfl⟩ | ⟨rfl, rfl, ⟨d, rfl⟩, -⟩
    · exact terminated_fate s _
    · have hcount := m₄.count_report
      exact (broken_fate (by omega)).imp fun _ _ _ _ _ h => h.1

theorem readAssignment_fate (target : Token) (s : Session) :
    Fate False s (fun _ _ r s' => Kept s r s') (readAssignment target s) := by
  refine emit_bind _ fun s₁ m₁ => ?_
  have hcount₁ := m₁.count_eq
  rw [bind_of_ok (countErrors_apply s₁), hcount₁]
  refine (expression_fate Context.assignment s₁).bind fun _ _ r s₂ m₂ hr => ?_
  cases r with
  | some value => exact terminated_fate s _
  | none =>
    have hcount₂ := hr.2 rfl
    exact (broken_fate (by omega)).imp fun _ _ _ _ _ h => h.1

/-- The next token is the type that the declaration starts with. -/
theorem readDeclaration_fate {type : Token} (hf : s.front = .ok type) (ht : type.kind ≠ .eof) :
    Fate False s (fun w _ r s' => Kept s r s' ∧ w ≠ []) (readDeclaration s) := by
  refine emit_bind _ fun s₁ m₁ => ?_
  have hcount₁ := m₁.count_eq
  rw [bind_of_ok (countErrors_apply s₁), hcount₁]
  refine advance_bind (m₁.front_eq.trans hf) ht fun s₂ m₂ => ?_
  have hcount₂ := m₂.count_eq
  refine (Fate.expect (by simp) (.of_take (by decide))).bind fun _ _ r s₃ m₃ hr => ?_
  rcases hr with ⟨name, rfl, -, rfl, rfl⟩ | ⟨rfl, rfl, ⟨d, rfl⟩, -⟩
  · exact (terminated_fate s _).imp fun _ _ _ _ _ h => ⟨h, by simp⟩
  · have hcount₃ := m₃.count_report
    exact (broken_fate (by omega)).imp fun _ _ _ _ _ h => ⟨h.1, by simp⟩

/-! ## Loops -/

/-- A piece of a header is missing only after something was recorded: in its own place, unless the
piece before it was `lost`. -/
structure Piece (lost : Bool) (s : Session) (r : Option α) (s' : Session) : Prop where
  pos : r.isNone = true → 0 < s'.errorCount
  isSome : lost = false → s'.errorCount = s.errorCount → r.isSome = true

theorem headerToken_fate {k : Kind} {expected : String} {markers : List Kind} {lost : Bool}
    (hk : k ≠ .eof) (hlost : lost = true → 0 < s.errorCount)
    (hw : NotLexical expected) :
    Fate False s (fun _ _ r s' => Piece lost s r s') (headerToken k expected markers lost s) := by
  refine nextIs_ite (fun t s₁ _ hf ht => ?_) (fun t s₁ m₁ hf ht => ?_)
  · exact advance_bind hf (by rwa [ht]) fun s₂ _ => pure ⟨by simp, fun _ _ => rfl⟩
  · have hcount₁ := m₁.count_eq
    have hreport : Fate False s₁ (fun _ _ _ s' => 0 < s'.errorCount ∧
        (lost = false → s₁.errorCount < s'.errorCount)) (reportUnless lost expected s₁) := by
      cases lost with
      | true => exact pure ⟨by have := hlost rfl; omega, by simp⟩
      | false =>
        refine (reportNext hw).imp ?_
        rintro _ _ _ _ m₂ ⟨-, d, rfl⟩
        have hcount₂ := m₂.count_report
        exact ⟨by omega, fun _ => by omega⟩
    refine hreport.bind fun _ _ _ s₂ m₂ hs₂ => (Fate.synchronize hs₂.1).bind fun _ _ _ s₃ m₃ _ => ?_
    have hle := m₃.count_le
    refine pure ⟨fun _ => by omega, fun hl heq => ?_⟩
    have hlt := hs₂.2 hl
    omega

theorem headerSection_fate {k : Kind} {expected : String} {markers : List Kind} {lost : Bool}
    (hk : k ≠ .eof) (hlost : lost = true → 0 < s.errorCount)
    (hw : NotLexical expected) :
    Fate False s (fun _ _ r s' => Piece lost s r s')
      (headerSection k expected markers lost s) := by
  refine (headerToken_fate hk hlost hw).bind fun _ _ r s₁ m₁ hr => ?_
  cases r with
  | none => exact pure ⟨fun _ => hr.pos rfl, fun hl heq => by cases hr.isSome hl heq⟩
  | some t =>
    refine (expression_fate Context.iter s₁).bind fun _ _ r s₂ m₂ hr₂ => ?_
    cases r with
    | some e => exact pure ⟨by simp, fun _ _ => rfl⟩
    | none =>
      have hcount₂ := hr₂.2 rfl
      refine (Fate.synchronize (by omega)).bind fun _ _ _ s₃ m₃ _ => ?_
      have hle₁ := m₁.count_le
      have hle₃ := m₃.count_le
      exact pure ⟨fun _ => by omega, fun _ heq => by omega⟩

/-- No piece of the header is missing. -/
structure Header.Whole (h : Header) : Prop where
  counter : h.counter.isSome = true
  start : h.start.isSome = true
  stop : h.stop.isSome = true
  step : h.step.isSome = true
  closed : h.closed.isSome = true

theorem Header.Whole.isSome_ofHeader? {h : Header} (hh : h.Whole) (body : List Stmt)
    (position : Position) : (ofHeader? h body position).isSome = true := by
  obtain ⟨counter, hcounter⟩ := Option.isSome_iff_exists.1 hh.counter
  obtain ⟨start, hstart⟩ := Option.isSome_iff_exists.1 hh.start
  obtain ⟨stop, hstop⟩ := Option.isSome_iff_exists.1 hh.stop
  obtain ⟨step, hstep⟩ := Option.isSome_iff_exists.1 hh.step
  simp [ofHeader?, hcounter, hstart, hstop, hstep]

theorem header_fate (s : Session) :
    Fate False s (fun _ _ h s' => s'.errorCount = s.errorCount → h.Whole) (header s) := by
  refine (headerToken_fate (by simp) (by simp) (.of_take (by decide))).bind
    fun _ _ opened s₁ m₁ h₁ => ?_
  refine (headerToken_fate (by simp) h₁.pos (.of_take (by decide))).bind
    fun _ _ counter s₂ m₂ h₂ => ?_
  refine (headerSection_fate (by simp) h₂.pos (.of_take (by decide))).bind
    fun _ _ start s₃ m₃ h₃ => ?_
  refine (headerSection_fate (by simp) h₃.pos (.of_take (by decide))).bind
    fun _ _ stop s₄ m₄ h₄ => ?_
  refine (headerSection_fate (by simp) h₄.pos (.of_take (by decide))).bind
    fun _ _ step s₅ m₅ h₅ => ?_
  refine (headerToken_fate (by simp) h₅.pos (.of_take (by decide))).bind
    fun _ _ closed s₆ m₆ h₆ => ?_
  refine pure fun heq => ?_
  -- The count is the same all along, so no piece was lost.
  have hle₁ := m₁.count_le
  have hle₂ := m₂.count_le
  have hle₃ := m₃.count_le
  have hle₄ := m₄.count_le
  have hle₅ := m₅.count_le
  have hle₆ := m₆.count_le
  have hopened : opened.isSome = true := h₁.isSome rfl (by omega)
  have hcounter : counter.isSome = true := h₂.isSome (by simpa using hopened) (by omega)
  have hstart : start.isSome = true := h₃.isSome (by simpa using hcounter) (by omega)
  have hstop : stop.isSome = true := h₄.isSome (by simpa using hstart) (by omega)
  have hstep : step.isSome = true := h₅.isSome (by simpa using hstop) (by omega)
  have hclosed : closed.isSome = true := h₆.isSome (by simpa using hstep) (by omega)
  exact ⟨hcounter, hstart, hstop, hstep, hclosed⟩

theorem abandoned_fate (h : Header) :
    Fate False s (fun _ _ b _ => b = true → ¬ h.Whole) (abandoned h s) := by
  unfold abandoned
  split
  · exact pure (by simp)
  next hclosed =>
    exact nextIs_bind fun t s₁ _ _ => pure fun _ hh => hclosed hh.closed

/-- The next token is the keyword of the loop. -/
theorem readLoop_fate {block : String → ParseM (List Stmt)} {keyword : Token}
    (hf : s.front = .ok keyword) (hk : keyword.kind ≠ .eof)
    (hblock : ∀ s' : Session, s'.tokens.length < s.tokens.length →
      Fate False s' (fun _ _ _ _ => True) (block Context.iter s')) :
    Fate False s (fun w _ r s' => Kept s r s' ∧ w ≠ []) (readLoop block s) := by
  refine emit_bind _ fun s₁ m₁ => ?_
  rw [bind_of_ok (countErrors_apply s₁), m₁.count_eq]
  refine advance_bind (m₁.front_eq.trans hf) hk fun s₂ m₂ => ?_
  refine (header_fate s₂).bind fun _ _ h s₃ m₃ hwhole => ?_
  refine (abandoned_fate h).bind fun _ _ b s₄ m₄ hb => ?_
  have hcount₁ := m₁.count_eq
  have hcount₂ := m₂.count_eq
  have hle₃ := m₃.count_le
  have hle₄ := m₄.count_le
  cases b with
  | true =>
    refine pure ⟨.of_lt (Nat.lt_of_not_le fun hle => ?_), by simp⟩
    exact hb rfl (hwhole (by omega))
  | false =>
    have hlen : s₄.tokens.length < s.tokens.length := by
      have h₁ := m₁.tokens_length
      have h₂ := m₂.tokens_length
      have h₃ := m₃.tokens_length
      have h₄ := m₄.tokens_length
      simp only [List.length_nil, List.length_singleton] at h₁ h₂
      omega
    refine (hblock s₄ hlen).bind fun _ _ body s₅ m₅ _ => ?_
    have hle₅ := m₅.count_le
    refine (unlessReported_fate _ _).bind ?_
    rintro _ _ _ s₆ _ ⟨rfl, hcount₆⟩
    refine pure ⟨?_, by simp⟩
    unfold Kept
    by_cases heq : s₆.errorCount = s.errorCount
    · simpa [heq] using (hwhole (by omega)).isSome_ofHeader? body keyword.position
    · simp [heq]

/-! ## Statements and blocks -/

/-- A statement is kept if and only if it recorded nothing, and it takes a token unless it starts at
the `}` around it. -/
def IsStatement (s : Session) (w : List Token) (r : Option Stmt) (s' : Session) : Prop :=
  Kept s r s' ∧ (w = [] → ∃ t, s.front = .ok t ∧ t.kind = .closeCurly)

theorem IsStatement.ne_nil {w : List Token} {r : Option Stmt} {s' : Session} {t : Token}
    (h : IsStatement s w r s') (hf : s.front = .ok t) (ht : t.kind ≠ .closeCurly) : w ≠ [] := by
  intro hnil
  obtain ⟨t', hf', hk⟩ := h.2 hnil
  rw [hf] at hf'
  cases hf'
  exact ht hk

theorem rule_fate {block : String → ParseM (List Stmt)}
    (hblock : ∀ s' : Session, s'.tokens.length < s.tokens.length →
      Fate False s' (fun _ _ _ _ => True) (block Context.iter s')) :
    Fate False s (fun w _ r s' => IsStatement s w r s') (rule block s) := by
  refine emit_bind _ fun s₁ m₁ => peekKind_bind fun t s₂ m₂ hf => ?_
  have m₁₂ := m₁.trans_clean m₂
  have hcount₂ := m₁₂.count_eq
  have hdeclare (ht : t.kind ≠ .eof) :
      Fate False s₂ (fun w _ r s' => IsStatement s w r s') (readDeclaration s₂) := by
    refine (readDeclaration_fate hf ht).imp ?_
    rintro w _ r s' _ ⟨hkept, hw⟩
    exact ⟨hkept.congr hcount₂ rfl, fun h => absurd h hw⟩
  split
  next hk =>
    refine advance_bind hf (by simp [hk]) fun s₃ m₃ => peekKind_bind fun o s₄ m₄ ho => ?_
    have hcount₄ := (m₃.trans_clean m₄).count_eq
    split
    next hok =>
      refine advance_bind ho (by simp [hok]) fun s₅ m₅ => (readCall_fate t s₅).imp ?_
      have hcount₅ := m₅.count_eq
      exact fun _ _ _ _ _ hkept => ⟨hkept.congr (by omega) rfl, by simp⟩
    next hok =>
      refine advance_bind ho (by simp [hok]) fun s₅ m₅ => (readAssignment_fate t s₅).imp ?_
      have hcount₅ := m₅.count_eq
      exact fun _ _ _ _ _ hkept => ⟨hkept.congr (by omega) rfl, by simp⟩
    next =>
      refine reportNext_bind (.of_take (by decide)) fun d s₅ m₅ => ?_
      have hcount₅ := m₅.count_report
      exact (broken_fate (by omega)).imp fun _ _ _ _ _ h => ⟨h.1, by simp⟩
  next hk => exact hdeclare (by simp [hk])
  next hk => exact hdeclare (by simp [hk])
  next hk =>
    have hlen : s₂.tokens.length = s.tokens.length := by
      rw [m₁₂.tokens_length]; simp
    refine (readLoop_fate hf (by simp [hk]) (by rwa [hlen])).imp ?_
    rintro w _ r s' _ ⟨hkept, hw⟩
    exact ⟨hkept.congr hcount₂ rfl, fun h => absurd h hw⟩
  next =>
    refine reportNext_bind (.of_take (by decide)) fun d s₃ m₃ => ?_
    have hcount₃ := m₃.count_report
    have hlt : s.errorCount < s₃.errorCount := by omega
    refine (broken_fate hlt).imp ?_
    rintro w _ r s' _ ⟨hkept, hw⟩
    refine ⟨hkept, fun h => ?_⟩
    obtain ⟨t', ht', hk⟩ := hw h
    exact ⟨t', by rw [← m₁₂.front_eq, ← m₃.front_eq, ht'], hk⟩

/-- A body ends in front of a `}`. -/
theorem bodyWithin_fate {stmt : ParseM (Option Stmt)} (n : Nat) (hn : s.tokens.length < n)
    (hstmt : ∀ s' : Session, s'.tokens.length ≤ s.tokens.length →
      Fate False s' (fun w _ r s'' => IsStatement s' w r s'') (stmt s')) :
    Fate False s (fun _ _ _ s' => ∃ t, s'.front = .ok t ∧ t.kind = .closeCurly)
      (bodyWithin stmt context n s) := by
  induction n generalizing s with
  | zero => omega
  | succ n ih =>
    refine peekKind_bind fun t s₁ m₁ hf => ?_
    have hlen₁ : s₁.tokens.length = s.tokens.length := by
      rw [m₁.tokens_length]; simp
    split
    next hk => exact pure ⟨t, hf, hk⟩
    next hk =>
      -- Nothing but the end of the input is left, so there is no `}` to skip to.
      refine reportNext_bind (.of_take (by decide)) fun d s₂ m₂ => ?_
      have hcount₂ := m₂.count_report
      refine (synchronize_of_eof (by omega) (m₂.front_eq.trans hf) hk (by simp)).bind ?_
      exact fun _ _ _ _ _ h => h.elim
    next hcurly _ =>
      refine (hstmt s₁ (by omega)).bind fun w _ r s₂ m₂ hr => ?_
      have hlen₂ := m₂.tokens_length
      have hpos := List.length_pos_iff.2 (hr.ne_nil hf hcurly)
      refine (ih (by omega) fun s' h => hstmt s' (by omega)).bind fun _ _ _ s₃ _ h₃ => ?_
      exact pure h₃

/-- The `}` of a block is always taken. -/
theorem blockOf_fate {stmt : ParseM (Option Stmt)}
    (hstmt : ∀ s' : Session, s'.tokens.length ≤ s.tokens.length →
      Fate False s' (fun w _ r s'' => IsStatement s' w r s'') (stmt s')) :
    Fate False s (fun w _ _ _ => w ≠ []) (blockOf stmt context s) := by
  refine (Fate.expect (by simp) (.of_take (by decide))).bind fun _ _ _ s₁ m₁ _ => ?_
  have hlen₁ := m₁.tokens_length
  have hbody : Fate False s₁ (fun _ _ _ s' => ∃ t, s'.front = .ok t ∧ t.kind = .closeCurly)
      (bodyOf stmt context s₁) := by
    refine emit_bind _ fun s₂ m₂ => ?_
    have hlen₂ := m₂.tokens_length
    rw [bind_of_ok (rounds_apply s₂)]
    exact bodyWithin_fate _ s₂.length_tokens_lt fun s' h => hstmt s' (by omega)
  refine hbody.bind fun _ _ body s₂ _ hs₂ => ?_
  obtain ⟨t, hf, hk⟩ := hs₂
  refine (Fate.expect (by simp) (.of_take (by decide))).bind fun _ _ r s₃ m₃ hr => ?_
  rcases hr with ⟨closed, rfl, -, rfl, rfl⟩ | ⟨rfl, rfl, -, t', hf', hne⟩
  · exact pure (by simp)
  · rw [m₃.front_eq, hf] at hf'
    cases hf'
    exact absurd hk hne

theorem readWithin_fate (n : Nat) (hn : s.tokens.length < n) :
    Fate False s (fun w _ r s' => IsStatement s w r s') (readWithin n s) := by
  induction n generalizing s with
  | zero => omega
  | succ n ih =>
    refine rule_fate fun s' hs' => ?_
    exact (blockOf_fate fun s'' h => ih (by omega)).imp fun _ _ _ _ _ _ => trivial

theorem read_fate (s : Session) : Fate False s (fun w _ r s' => IsStatement s w r s') (read s) :=
  readWithin_fate _ s.length_tokens_lt

theorem block_fate (context : String) (s : Session) :
    Fate False s (fun w _ _ _ => w ≠ []) (block context s) :=
  blockOf_fate fun s' _ => read_fate s'

end Stmt

/-! ## Functions -/

namespace Func

theorem abandonParameters_fate {expected : String} (hw : NotLexical expected) :
    Fate False s (fun _ _ r s' => Kept s r s') (abandonParameters expected s) := by
  refine reportNext_bind hw fun d s₁ m₁ => ?_
  have hcount₁ := m₁.count_report
  exact skipped_fate (by omega)

theorem parametersWithin_fate (n : Nat) (s : Session) :
    Fate False s (fun _ _ r s' => Kept s r s') (parametersWithin n s) := by
  induction n generalizing s with
  | zero => exact pure ⟨fun _ => rfl, fun _ => rfl⟩
  | succ n ih =>
    refine peekKind_bind fun t s₁ m₁ hf => ?_
    have hcount₁ := m₁.count_eq
    split
    next =>
      exact (abandonParameters_fate (.of_take (by decide))).imp fun _ _ _ _ _ h =>
        h.congr hcount₁ rfl
    next type hty =>
      have hk : t.kind ≠ .eof := by
        intro hk
        rw [hk] at hty
        cases hty
      refine advance_bind hf hk fun s₂ m₂ => ?_
      have hcount₂ := m₂.count_eq
      refine (Fate.expect (by simp) (.of_take (by decide))).bind fun _ _ r s₃ m₃ hr => ?_
      rcases hr with ⟨name, rfl, -, rfl, rfl⟩ | ⟨rfl, rfl, ⟨d, rfl⟩, -⟩
      · have hcount₃ := m₃.count_eq
        refine peekKind_bind fun c s₄ m₄ hc => ?_
        have hcount₄ := m₄.count_eq
        have hspoilt : Fate False s₄ (fun _ _ r s' => Kept s r s')
            ((reportNext "','" Context.parameters >>= fun _ =>
              parametersWithin n >>= fun _ => Pure.pure (none : Option (List Param))) s₄) := by
          refine reportNext_bind (.of_take (by decide)) fun d s₅ m₅ =>
            (ih s₅).bind fun _ _ _ s₆ m₆ _ => ?_
          have hcount₅ := m₅.count_report
          have hle₆ := m₆.count_le
          exact pure (.of_lt (by omega))
        split
        next hk =>
          refine advance_bind hc (by simp [hk]) fun s₅ m₅ => (ih s₅).bind fun _ _ rest s₆ _ h₆ => ?_
          have hcount₅ := m₅.count_eq
          refine pure ?_
          have hrest : Kept s rest s₆ := h₆.congr (by omega) rfl
          unfold Kept at hrest ⊢
          rwa [Option.isSome_map]
        next => exact hspoilt
        next => exact hspoilt
        next =>
          exact (abandonParameters_fate (.of_take (by decide))).imp fun _ _ _ _ _ h =>
            h.congr (by omega) rfl
        next => exact pure ⟨fun _ => by omega, fun _ => rfl⟩
      · have hcount₃ := m₃.count_report
        exact skipped_fate (by omega)

theorem parameters_fate (s : Session) :
    Fate False s (fun _ _ r s' => Kept s r s') (parameters s) := by
  refine emit_bind _ fun s₁ m₁ => ?_
  rw [bind_of_ok (rounds_apply s₁)]
  exact (parametersWithin_fate _ s₁).imp fun _ _ _ _ _ h => h.congr m₁.count_eq rfl

theorem listLost_fate (params : Option (List Param)) (s : Session) :
    Fate False s (fun _ _ lost s' => s'.errorCount = s.errorCount ∧
      (lost = true → params = none)) (listLost params s) := by
  unfold listLost
  cases params with
  | some ps => exact pure ⟨rfl, by simp⟩
  | none => exact nextIs_bind fun t s₁ m₁ _ => pure ⟨m₁.count_eq, fun _ => rfl⟩

theorem parameterList_fate (s : Session) :
    Fate False s (fun _ _ r s' => Kept s r s') (parameterList s) := by
  refine emit_bind _ fun s₁ m₁ => ?_
  refine nextIs_ite (fun t s₂ m₂ hf ht => ?_) (fun t s₂ m₂ _ _ => ?_)
  · refine advance_bind hf (by simp [ht]) fun s₃ m₃ => ?_
    have hcount₃ := (m₁.trans_clean (m₂.trans_clean m₃)).count_eq
    exact pure ⟨fun _ => hcount₃, fun _ => rfl⟩
  · have hcount₂ := (m₁.trans_clean m₂).count_eq
    refine (parameters_fate s₂).bind fun _ _ params s₃ m₃ h₃ => ?_
    have hle₃ := m₃.count_le
    refine (listLost_fate params s₃).bind fun _ _ lost s₄ _ h₄ => ?_
    have hparams : Kept s params s₄ := h₃.congr hcount₂ h₄.1.symm
    cases lost with
    | true =>
      obtain rfl := h₄.2 rfl
      exact pure hparams
    | false =>
      refine (Fate.expect (by simp) (.of_take (by decide))).bind fun _ _ r s₅ m₅ hr => ?_
      rcases hr with ⟨closed, rfl, -, rfl, rfl⟩ | ⟨rfl, rfl, ⟨d, rfl⟩, -⟩
      · exact pure (hparams.congr rfl m₅.count_eq.symm)
      · have hcount₅ := m₅.count_report
        exact skipped_fate (by omega)

/-- The rest of a signature is kept unless something was recorded in it or about its name. -/
theorem signatureFrom_fate (position : Position) (name : Option Token) (s : Session) :
    Fate False s (fun _ _ r s' =>
        r.isSome = true ↔ name.isSome = true ∧ s'.errorCount = s.errorCount)
      (signatureFrom position name s) := by
  refine (Fate.expect (by simp) (.of_take (by decide))).bind fun _ _ r s₁ m₁ hr => ?_
  rcases hr with ⟨opened, rfl, -, rfl, rfl⟩ | ⟨rfl, rfl, ⟨d, rfl⟩, -⟩
  · refine (parameterList_fate s₁).bind fun _ _ params s₂ _ h₂ => ?_
    have hparams : Kept s params s₂ := h₂.congr m₁.count_eq rfl
    unfold Kept at hparams
    cases name with
    | none => exact pure (by simp)
    | some name =>
      cases params with
      | none => exact pure (by simpa using hparams)
      | some ps => exact pure (by simpa using hparams)
  · have hcount₁ := m₁.count_report
    refine (Fate.synchronize (by omega)).bind ?_
    rintro _ _ marker s₂ m₂ ⟨-, -, hf₂⟩
    refine (Fate.takeMarker hf₂ (by simp)).bind fun _ _ _ s₃ m₃ _ => ?_
    have hle₂ := m₂.count_le
    have hle₃ := m₃.count_le
    exact pure ⟨by simp, fun h => by omega⟩

theorem signature_fate (s : Session) :
    Fate False s (fun _ _ r s' => Kept s r s') (signature s) := by
  refine emit_bind _ fun s₁ m₁ => peek_bind fun first s₂ m₂ _ => ?_
  have hcount₂ := (m₁.trans_clean m₂).count_eq
  refine (Fate.expect (by simp) (.of_take (by decide))).bind fun _ _ r s₃ m₃ hr => ?_
  rcases hr with ⟨keyword, rfl, -, rfl, rfl⟩ | ⟨rfl, rfl, ⟨d, rfl⟩, -⟩
  · have hcount₃ := m₃.count_eq
    refine peekKind_bind fun t s₄ m₄ hf => ?_
    have hcount₄ := m₄.count_eq
    have hnamed (hk : t.kind ≠ .eof) : Fate False s₄ (fun _ _ r s' => Kept s r s')
        ((advance >>= fun name => signatureFrom first.position (some name)) s₄) := by
      refine advance_bind hf hk fun s₅ m₅ => (signatureFrom_fate _ _ s₅).imp ?_
      rintro _ _ r s' _ h
      have hcount₅ := m₅.count_eq
      unfold Kept
      rw [h]
      exact ⟨fun h => by omega, fun h => ⟨rfl, by omega⟩⟩
    split
    next hk => exact hnamed (by simp [hk])
    next hk => exact hnamed (by simp [hk])
    next =>
      refine reportNext_bind (.of_take (by decide)) fun d s₅ m₅ => ?_
      have hcount₅ := m₅.count_report
      refine (Fate.synchronize (by omega)).bind fun _ _ marker s₆ m₆ _ => ?_
      have hle₆ := m₆.count_le
      split
      next => exact pure (.of_lt (by omega))
      next =>
        refine (signatureFrom_fate _ none s₆).imp fun _ _ r s' m₇ h => ?_
        have hle₇ := m₇.count_le
        unfold Kept
        rw [h]
        exact ⟨fun h => absurd h.1 (by simp), fun h => by omega⟩
  · have hcount₃ := m₃.count_report
    exact skipped_fate (by omega)

/-- A function takes a token at least, the `}` of its block. -/
theorem read_fate (s : Session) : Fate False s (fun w _ _ _ => w ≠ []) (read s) := by
  refine emit_bind _ fun s₁ _ => (signature_fate s₁).bind fun _ _ sig s₂ _ _ => ?_
  refine (Stmt.block_fate _ s₂).bind fun _ _ body s₃ _ hw => ?_
  exact pure (by simp [hw])

end Func

/-! ## Programs -/

namespace Program

/-- Functions are read up to the end of the input. -/
theorem functionsWithin_fate (n : Nat) (s : Session) (hn : s.tokens.length < n) :
    Fate False s (fun _ _ _ s' => s'.tokens = [] ∧ ∃ t, s'.ending = .ok t)
      (functionsWithin n s) := by
  induction n generalizing s with
  | zero => omega
  | succ n ih =>
    refine peekKind_bind fun t s₁ m₁ hf => ?_
    have hlen₁ := m₁.tokens_length
    split
    next hk =>
      obtain ⟨hnil, hend⟩ := tokens_of_front_eof hf hk
      exact pure ⟨hnil, t, hend⟩
    next =>
      refine (Func.read_fate s₁).bind fun w _ f s₂ m₂ hw => ?_
      have hlen₂ := m₂.tokens_length
      have hpos := List.length_pos_iff.2 hw
      exact (ih s₂ (by omega)).bind fun _ _ _ _ _ h => pure h
    next hne hfunc =>
      refine reportNext_bind (.of_take (by decide)) fun d s₂ m₂ => ?_
      have hcount₂ := m₂.count_report
      have hlen₂ := m₂.tokens_length
      refine (Fate.synchronize (by omega)).bind ?_
      intro w _ marker s₃ m₃ hstop
      have hlen₃ := m₃.tokens_length
      -- The next token is not the `func` that was skipped to, so it was taken.
      have hw := hstop.ne_nil m₃ (m₂.front_eq.trans hf) (by simpa using hfunc)
      have hpos := List.length_pos_iff.2 hw
      exact ih s₃ (by omega)

/-- A program that is read takes all tokens. -/
theorem read_fate_nil (s : Session) :
    Fate False s (fun _ _ _ s' => s'.tokens = [] ∧ ∃ t, s'.ending = .ok t) (read s) := by
  refine emit_bind _ fun s₁ _ => ?_
  rw [bind_of_ok (rounds_apply s₁)]
  exact (functionsWithin_fate _ s₁ s₁.length_tokens_lt).bind fun _ _ _ _ _ h => pure h

theorem read_fate (s : Session) :
    Fate False s (fun _ _ _ s' => ∃ t, s'.ending = .ok t) (read s) :=
  (read_fate_nil s).imp fun _ _ _ _ _ h => h.2

/-! ## Lexical errors -/

/-- Reading and tokenizing agree on lexical errors. One that ends the reading of a program is the one
that the tokens end in. Conversely, where the tokens end in an error, a program ends in the same one
or has too many diagnostics before it; all of these are about tokens in front of the error, and none
is worded like the error. An expression ends in the same error, or in a syntax error before it. -/
theorem lexical_errors_agree (file source : String) :
    (∀ e, (ofSource file source).outcome = .error e → e.category = .lexical →
      tokenize file source = .error e) ∧
    ∀ e, tokenize file source = .error e →
      ((ofSource file source).outcome = .error e ∨
        ∃ e' n, (ofSource file source).outcome = .error e' ∧ e'.cause = .tooManyErrors n) ∧
      (∀ d ∈ (ofSource file source).diagnostics,
        d.found ∈ (TokenStream.ofSource file source).tokens ∧ d.expected ≠ e.cause.expected) ∧
      ∃ e', Expr.ofSource file source = .error e' ∧ (e' = e ∨ e'.category = .syntactic) := by
  obtain ⟨s, hm, hdiag, hout⟩ := ofSource_eq file source
  have hnone := diagnostics_of_moves hm
  have hfate := read_fate s
  rw [hdiag, hout]
  simp only [tokenize_eq_error_iff]
  have hending : s.ending = (TokenStream.ofSource file source).ending := hm.ending_eq
  have htokens : (TokenStream.ofSource file source).tokens = s.tokens := hm.tokens_eq
  rw [← hending, htokens]
  generalize read s = r at hfate
  cases hfate with
  | goes hm' _ _ hq =>
    obtain ⟨t, ht⟩ := hq
    rw [hm'.ending_eq] at ht
    refine ⟨fun e h => ?_, fun e he => ?_⟩
    · cases h
    · rw [ht] at he
      cases he
  | @ends ds e s' he hf _ =>
    refine ⟨?_, fun e₀ he₀ => ⟨?_, ?_, ?_⟩⟩
    · intro e₁ h hlexical
      cases h
      exact he.ending_of_lexical hlexical
    · rcases he.eq_or_tooManyErrors he₀ with rfl | ⟨n, hn⟩
      · exact .inl rfl
      · exact .inr ⟨e, n, rfl, hn⟩
    · intro d hd
      rw [final_error, he.diagnostics_eq, hnone, List.nil_append] at hd
      refine ⟨?_, fun heq => (hf d hd).wording e₀.cause (isLexical_of_ending he₀) heq.symm⟩
      rcases (hf d hd).shows with h | h
      · exact h
      · rw [he₀] at h
        cases h
    · rw [hending] at he₀
      exact Expr.ofSource_of_ending he₀
  | trips hsilent => exact hsilent.elim

/-- In `func g ; @` the reading comes to the `@` behind the diagnostic about the `;`. -/
theorem lexical_errors_agree_behind_diagnostic :
    tokenize "f" "func g ; @" = .error { cause := .unrecognised "@", position := ⟨"f", 1⟩ } ∧
      (ofSource "f" "func g ; @").diagnostics.length = 1 ∧
      ((ofSource "f" "func g ; @").outcome =
          .error { cause := .unrecognised "@", position := ⟨"f", 1⟩ } ∨
        ∃ e' n, (ofSource "f" "func g ; @").outcome = .error e' ∧ e'.cause = .tooManyErrors n) :=
  ⟨rfl, by decide +kernel, ((lexical_errors_agree "f" "func g ; @").2 _ rfl).1⟩

end Program

end FxLang
