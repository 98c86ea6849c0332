import FxLang.Proofs.Expr.Alike
import FxLang.Proofs.Grammar.Outcome
import FxLang.Proofs.Token.Segments

/-!
# Reading does not depend on layout

Every parser of the library is followed on two sessions that differ in positions only, and ends
alike in both: the decisions are made on kinds, and positions are only passed on.

* `expression_alike`, `Stmt.read_alike`, `Func.read_alike`, `Program.read_alike`: the rules.
* `Program.layout_irrelevant`: sources with the same tokens are read alike.
-/

namespace FxLang

open Session Alike

variable {m n₁ n₂ : Nat} {s₁ s₂ : Session} {context : String}

/-! ## Rounds

The loops go on only behind a token that was taken, so that the bound on the tokens left pays for the
next round. Where it is not plain that a token was taken, what is known of the first run tells. -/

/-- A loop goes on behind a step that takes a token, with a round less. -/
theorem taken_alike {α β γ δ : Type} {f : α → β} {g : γ → δ} {x₁ x₂ : ParseM α}
    {g₁ g₂ : α → ParseM γ} (h : Twins (m + 1) s₁ s₂) (hx : Alike f (m + 1) (x₁ s₁) (x₂ s₂))
    (htakes : Fate False s₁ (fun w _ _ _ => w ≠ []) (x₁ s₁))
    (hg : ∀ a₁ a₂ s₁' s₂', f a₁ = f a₂ → Twins m s₁' s₂' → Alike g m (g₁ a₁ s₁') (g₂ a₂ s₂')) :
    Alike g (m + 1) ((x₁ >>= g₁) s₁) ((x₂ >>= g₂) s₂) := by
  refine hx.bind_of_run ?_
  intro a₁ a₂ s₁' s₂' hrun ha h'
  rw [hrun] at htakes
  obtain ⟨w, ds, hm, hne⟩ := htakes.of_ok
  have hpos := List.length_pos_iff.2 hne
  have hlen := hm.tokens_length
  have hlt := h.length_lt
  exact (hg a₁ a₂ s₁' s₂' ha (h'.of_length_lt (by omega))).mono (Nat.le_succ m)

/-- A token that is no marker is reported and skipped, so that fewer tokens are left. -/
theorem length_lt_of_skipped {s s' s'' : Session} {t marker : Token} {markers : List Kind}
    {expected context' : String} (hf : s.front = .ok t) (ht : t.kind ∉ markers)
    (hreport : Session.reportNext expected context s = .ok () s')
    (hskip : Session.synchronize markers context' s' = .ok marker s'')
    (hw : NotLexical expected) : s''.tokens.length < s.tokens.length := by
  have hfate : Fate False s _ (Session.reportNext expected context s) := Fate.reportNext hw
  rw [hreport] at hfate
  obtain ⟨w, ds, hm, rfl, d, rfl⟩ := hfate.of_ok
  have hcount : 0 < s'.errorCount := by
    rw [hm.count_report]
    exact Nat.succ_pos _
  have hstop : Fate False s' (Fate.Stopped markers) (Session.synchronize markers context' s') :=
    Fate.synchronize hcount
  rw [hskip] at hstop
  obtain ⟨w, ds, hm', hstopped⟩ := hstop.of_ok
  have hpos := List.length_pos_iff.2 (hstopped.ne_nil hm' (hm.front_eq.trans hf) ht)
  have hlen := hm.tokens_length
  have hlen' := hm'.tokens_length
  simp only [List.length_nil, Nat.zero_add] at hlen
  omega

/-- A loop goes on behind what is reported and skipped, with a round less. -/
theorem skipped_alike {α β : Type} {f : α → β} {g₁ g₂ : ParseM α} {t₁ t₂ : Token}
    {markers : List Kind} {expected context' : String} (h : Twins (m + 1) s₁ s₂)
    (hn : Next s₁ s₂ t₁ t₂) (ht : t₁.kind ∉ markers)
    (hw : NotLexical expected)
    (hg : ∀ s₁' s₂', Twins m s₁' s₂' → Alike f m (g₁ s₁') (g₂ s₂')) :
    Alike f (m + 1)
      ((Session.reportNext expected context >>= fun _ =>
        Session.synchronize markers context' >>= fun _ => g₁) s₁)
      ((Session.reportNext expected context >>= fun _ =>
        Session.synchronize markers context' >>= fun _ => g₂) s₂) := by
  refine (reportNext h).bind_of_run ?_
  intro _ _ _ _ hreport _ h'
  refine (synchronize h').bind_of_run ?_
  intro _ _ s₁' s₂' hskip _ h''
  have hlt := length_lt_of_skipped hn.left ht hreport hskip hw
  exact (hg s₁' s₂' (h''.of_length_lt (by have := h.length_lt; omega))).mono (Nat.le_succ m)

/-! ## Expressions -/

/-- The same token is to be reported, whether the error carries it or it is next. -/
theorem offendingToken_alike {e₁ e₂ : Error} (h : Twins m s₁ s₂) (he : e₁.bare = e₂.bare) :
    Alike Token.bare m (offendingToken e₁ s₁) (offendingToken e₂ s₂) := by
  have hfound : e₁.cause.found.map Token.bare = e₂.cause.found.map Token.bare := by
    rw [← Cause.found_bare, ← Cause.found_bare, Error.bare_eq_iff.1 he]
  unfold offendingToken
  rcases none_or_some_of_map hfound with ⟨h₁, h₂⟩ | ⟨t₁, t₂, h₁, h₂, ht⟩
  · rw [h₁, h₂]
    exact peek h
  · rw [h₁, h₂]
    exact pure h ht

theorem expression_alike (h : Twins m s₁ s₂) :
    Alike (Option.map Expr.bare) m (expression context s₁) (expression context s₂) := by
  refine attempt_bind (Expr.read_alike .standard .lowest h) ?_ ?_
  · intro o₁ o₂ _ _ ho h
    rcases none_or_some_of_map ho with ⟨rfl, rfl⟩ | ⟨e₁, e₂, rfl, rfl, he⟩
    · exact (reportNext h).bind_same fun _ _ _ h => pure h rfl
    · exact pure h ho
  · intro e₁ e₂ _ _ he h
    have hcause := Error.bare_eq_iff.1 he
    have hfatal : e₁.isFatal = e₂.isFatal := by
      unfold Error.isFatal Error.category
      rw [← Cause.category_bare, hcause, Cause.category_bare]
    have hexpected : e₁.cause.expected = e₂.cause.expected := by
      rw [← Cause.expected_bare, hcause, Cause.expected_bare]
    refine ite (by rw [hfatal]) ?_ ?_
    · intro _
      exact throw h he
    · intro _
      refine (offendingToken_alike h he).bind ?_
      intro t₁ t₂ _ _ ht h
      rw [hexpected]
      exact (report h ht).bind_same fun _ _ _ h => pure h rfl

/-! ## Statements -/

namespace Stmt

mutual

/-- The statement without positions. -/
def bare : Stmt → Stmt
  | .call callee args _ => .call callee (args.map Expr.bare) .nowhere
  | .assign target value _ => .assign target value.bare .nowhere
  | .declare type name _ => .declare type name .nowhere
  | .iter counter start stop step body _ =>
    .iter counter start.bare stop.bare step.bare (bareAll body) .nowhere

/-- The statements without positions. -/
def bareAll : List Stmt → List Stmt
  | [] => []
  | first :: rest => first.bare :: bareAll rest

end

theorem bareAll_eq_map (body : List Stmt) : bareAll body = body.map bare := by
  induction body with
  | nil => rfl
  | cons first rest ih => rw [bareAll, ih, List.map_cons]

variable {α β : Type} {f : α → β} {t₁ t₂ : Token}

theorem unlessReported_alike {a₁ a₂ : α} (h : Twins m s₁ s₂) (errors : Nat) (ha : f a₁ = f a₂) :
    Alike (Option.map f) m (unlessReported errors a₁ s₁) (unlessReported errors a₂ s₂) := by
  refine countErrors_bind h ?_
  intro n _
  refine pure h ?_
  split
  · exact congrArg some ha
  · rfl

/-! ### Calls -/

theorem argument_alike (h : Twins m s₁ s₂) :
    Alike (Option.map Expr.bare) m (argument s₁) (argument s₂) := by
  refine (expression_alike h).bind_option ?_ ?_
  · intro _ _ h
    exact synchronize_pure h
  · intro e₁ e₂ _ _ he h
    exact pure h (congrArg some he)

theorem argumentsWithin_alike (h : Twins m s₁ s₂) (h₁ : m ≤ n₁) (h₂ : m ≤ n₂) :
    Alike (List.map Expr.bare) m (argumentsWithin n₁ s₁) (argumentsWithin n₂ s₂) := by
  induction m generalizing n₁ n₂ s₁ s₂ with
  | zero => exact absurd h.length_lt (Nat.not_lt_zero _)
  | succ m ih =>
    obtain ⟨n₁, rfl, hle₁⟩ := exists_eq_succ h₁
    obtain ⟨n₂, rfl, hle₂⟩ := exists_eq_succ h₂
    refine (argument_alike h).bind ?_
    intro a₁ a₂ _ _ ha h
    refine nextIs_ite h ?_ ?_
    · intro t₁ t₂ _ _ h hn ht
      refine advance_bind h hn (by simp [ht]) ?_
      intro _ _ h
      refine (ih h hle₁ hle₂).bind ?_
      intro rest₁ rest₂ _ _ hrest h
      exact pure h (map_toList_append ha hrest)
    · intro _ _ h
      exact pure h (by rw [← Option.toList_map, ha, Option.toList_map])

theorem arguments_alike (h : Twins m s₁ s₂) :
    Alike (List.map Expr.bare) m (arguments s₁) (arguments s₂) := by
  refine nextIs_ite h ?_ ?_
  · intro _ _ _ _ h _ _
    exact pure h rfl
  · intro _ _ h
    exact rounds_bind h fun _ _ _ _ h₁ h₂ h => argumentsWithin_alike h h₁ h₂

theorem argumentsLost_alike (h : Twins m s₁ s₂) (errors : Nat) :
    Alike id m (argumentsLost errors s₁) (argumentsLost errors s₂) := by
  refine countErrors_bind h ?_
  intro n _
  refine ite Iff.rfl ?_ ?_
  · intro _
    exact pure h rfl
  · intro _
    exact nextIs_bind h fun _ _ _ _ h _ => pure h rfl

theorem readCall_alike (h : Twins m s₁ s₂) (ht : t₁.bare = t₂.bare) :
    Alike (Option.map bare) m (readCall t₁ s₁) (readCall t₂ s₂) := by
  refine emit_bind h _ _ ?_
  intro _ _ h
  refine countErrors_bind h ?_
  intro errors _
  refine (arguments_alike h).bind ?_
  intro args₁ args₂ _ _ hargs h
  refine (argumentsLost_alike h errors).bind_same ?_
  intro lost _ _ h
  refine ite Iff.rfl ?_ ?_
  · intro _
    exact recoverStatement_pure h
  · intro _
    refine (expect h (by simp)).bind_option ?_ ?_
    · intro _ _ h
      exact recoverStatement_pure h
    · intro _ _ _ _ _ h
      refine (expect h (by simp)).bind ?_
      intro _ _ _ _ _ h
      exact unlessReported_alike h errors (by simp [bare, hargs, Token.text_of_bare ht])

/-! ### Assignments and declarations -/

theorem readAssignment_alike (h : Twins m s₁ s₂) (ht : t₁.bare = t₂.bare) :
    Alike (Option.map bare) m (readAssignment t₁ s₁) (readAssignment t₂ s₂) := by
  refine emit_bind h _ _ ?_
  intro _ _ h
  refine countErrors_bind h ?_
  intro errors _
  refine (expression_alike h).bind_option ?_ ?_
  · intro _ _ h
    exact recoverStatement_pure h
  · intro e₁ e₂ _ _ he h
    refine (expect h (by simp)).bind ?_
    intro _ _ _ _ _ h
    exact unlessReported_alike h errors (by simp [bare, he, Token.text_of_bare ht])

theorem readDeclaration_alike (h : Twins m s₁ s₂) (hn : Next s₁ s₂ t₁ t₂) (hk : t₁.kind ≠ .eof) :
    Alike (Option.map bare) m (readDeclaration s₁) (readDeclaration s₂) := by
  refine emit_bind_of_next h hn _ _ ?_
  intro _ _ h hn
  refine countErrors_bind h ?_
  intro errors _
  refine advance_bind h hn hk ?_
  intro _ _ h
  refine (expect h (by simp)).bind_option ?_ ?_
  · intro _ _ h
    exact recoverStatement_pure h
  · intro name₁ name₂ _ _ hname h
    refine (expect h (by simp)).bind ?_
    intro _ _ _ _ _ h
    exact unlessReported_alike h errors (by simp [bare, hn.kind_eq, Token.text_of_bare hname])

/-! ### Loops -/

theorem reportUnless_alike (h : Twins m s₁ s₂) (lost : Bool) (expected : String) :
    Alike id m (reportUnless lost expected s₁) (reportUnless lost expected s₂) := by
  refine ite Iff.rfl ?_ ?_
  · intro _
    exact pure h rfl
  · intro _
    exact reportNext h

theorem headerToken_alike (h : Twins m s₁ s₂) {kind : Kind} (hk : kind ≠ .eof) (expected : String)
    (markers : List Kind) (lost : Bool) :
    Alike (Option.map Token.bare) m (headerToken kind expected markers lost s₁)
      (headerToken kind expected markers lost s₂) := by
  refine nextIs_ite h ?_ ?_
  · intro t₁ t₂ _ _ h hn ht
    refine advance_bind h hn (by rwa [ht]) ?_
    intro _ _ h
    exact pure h (congrArg some hn.bare_eq)
  · intro _ _ h
    refine (reportUnless_alike h lost expected).bind_same ?_
    intro _ _ _ h
    exact synchronize_pure h

theorem headerSection_alike (h : Twins m s₁ s₂) {lead : Kind} (hk : lead ≠ .eof)
    (expected : String) (markers : List Kind) (lost : Bool) :
    Alike (Option.map Expr.bare) m (headerSection lead expected markers lost s₁)
      (headerSection lead expected markers lost s₂) := by
  refine (headerToken_alike h hk expected markers lost).bind_option ?_ ?_
  · intro _ _ h
    exact pure h rfl
  · intro _ _ _ _ _ h
    refine (expression_alike h).bind_option ?_ ?_
    · intro _ _ h
      exact synchronize_pure h
    · intro e₁ e₂ _ _ he h
      exact pure h (congrArg some he)

/-- The header without positions. -/
def Header.bare (h : Header) : Header where
  counter := h.counter.map Token.bare
  start := h.start.map Expr.bare
  stop := h.stop.map Expr.bare
  step := h.step.map Expr.bare
  closed := h.closed.map Token.bare

theorem header_alike (h : Twins m s₁ s₂) : Alike Header.bare m (header s₁) (header s₂) := by
  refine (headerToken_alike h (by simp) _ _ _).bind ?_
  intro opened₁ opened₂ _ _ hopened h
  rw [isNone_eq_of_map hopened]
  refine (headerToken_alike h (by simp) _ _ _).bind ?_
  intro counter₁ counter₂ _ _ hcounter h
  rw [isNone_eq_of_map hcounter]
  refine (headerSection_alike h (by simp) _ _ _).bind ?_
  intro start₁ start₂ _ _ hstart h
  rw [isNone_eq_of_map hstart]
  refine (headerSection_alike h (by simp) _ _ _).bind ?_
  intro stop₁ stop₂ _ _ hstop h
  rw [isNone_eq_of_map hstop]
  refine (headerSection_alike h (by simp) _ _ _).bind ?_
  intro step₁ step₂ _ _ hstep h
  rw [isNone_eq_of_map hstep]
  refine (headerToken_alike h (by simp) _ _ _).bind ?_
  intro closed₁ closed₂ _ _ hclosed h
  exact pure h (by simp [Header.bare, hcounter, hstart, hstop, hstep, hclosed])

theorem ofHeader?_bare (h : Header) (body : List Stmt) (position : Position) :
    (ofHeader? h body position).map bare = ofHeader? h.bare (body.map bare) .nowhere := by
  obtain ⟨counter, start, stop, step, closed⟩ := h
  cases counter with
  | none => rfl
  | some counter =>
    cases start with
    | none => rfl
    | some start =>
      cases stop with
      | none => rfl
      | some stop =>
        cases step with
        | none => rfl
        | some step => simp [ofHeader?, Header.bare, bare, bareAll_eq_map, Token.bare]

theorem abandoned_alike (h : Twins m s₁ s₂) {h₁ h₂ : Header} (hh : h₁.bare = h₂.bare) :
    Alike id m (abandoned h₁ s₁) (abandoned h₂ s₂) := by
  have hclosed : h₁.closed.isSome = h₂.closed.isSome := by
    have := congrArg (fun h => h.closed.isSome) hh
    simpa [Header.bare] using this
  refine ite (by rw [hclosed]) ?_ ?_
  · intro _
    exact pure h rfl
  · intro _
    exact nextIs_bind h fun _ _ _ _ h _ => pure h rfl

theorem readLoop_alike {block₁ block₂ : String → ParseM (List Stmt)} (h : Twins m s₁ s₂)
    (hn : Next s₁ s₂ t₁ t₂) (hk : t₁.kind ≠ .eof)
    (hblock : ∀ context, AlikeBelow (List.map bare) (m - 1) (block₁ context) (block₂ context)) :
    Alike (Option.map bare) m (readLoop block₁ s₁) (readLoop block₂ s₂) := by
  refine emit_bind_of_next h hn _ _ ?_
  intro _ _ h hn
  refine countErrors_bind h ?_
  intro errors _
  refine advance_bind h hn hk ?_
  intro _ _ h
  refine (header_alike h).bind ?_
  intro header₁ header₂ _ _ hheader h
  refine (abandoned_alike h hheader).bind_same ?_
  intro lost _ _ h
  refine ite Iff.rfl ?_ ?_
  · intro _
    exact pure h rfl
  · intro _
    refine (hblock _ (Nat.le_refl _) h).bind ?_
    intro body₁ body₂ _ _ hbody h
    have hloop : (ofHeader? header₁ body₁ t₁.position).map bare =
        (ofHeader? header₂ body₂ t₂.position).map bare := by
      rw [ofHeader?_bare, ofHeader?_bare, hheader, hbody]
    refine (unlessReported_alike h errors hloop).bind ?_
    intro loop₁ loop₂ _ _ hloops h
    refine pure h ?_
    rw [← Option.join_map_eq_map_join, hloops, Option.join_map_eq_map_join]

/-! ### Statements and blocks -/

-- The keyword of a loop is taken before its block is read, hence the bound on the blocks.
theorem rule_alike {block₁ block₂ : String → ParseM (List Stmt)} (h : Twins m s₁ s₂)
    (hblock : ∀ context, AlikeBelow (List.map bare) (m - 1) (block₁ context) (block₂ context)) :
    Alike (Option.map bare) m (rule block₁ s₁) (rule block₂ s₂) := by
  refine emit_bind h _ _ ?_
  intro _ _ h
  refine peekKind_bind h ?_
  intro t₁ t₂ s₁ s₂ h hn
  generalize hk : t₁.kind = k
  split
  · refine advance_bind h hn (by simp [hk]) ?_
    intro _ _ h
    refine peekKind_bind h ?_
    intro o₁ o₂ _ _ h ho
    generalize hok : o₁.kind = k
    split
    · refine advance_bind h ho (by simp [hok]) ?_
      intro _ _ h
      exact readCall_alike h hn.bare_eq
    · refine advance_bind h ho (by simp [hok]) ?_
      intro _ _ h
      exact readAssignment_alike h hn.bare_eq
    · exact (reportNext h).bind_same fun _ _ _ h => recoverStatement_pure h
  · exact readDeclaration_alike h hn (by simp [hk])
  · exact readDeclaration_alike h hn (by simp [hk])
  · exact readLoop_alike h hn (by simp [hk]) hblock
  · exact (reportNext h).bind_same fun _ _ _ h => recoverStatement_pure h

/-- Wherever fewer than `m` tokens are left, the parser of statements does what statements do. -/
def StatesBelow (m : Nat) (stmt : ParseM (Option Stmt)) : Prop :=
  ∀ s : Session, s.tokens.length < m →
    Fate False s (fun w _ r s' => IsStatement s w r s') (stmt s)

theorem StatesBelow.mono {m' : Nat} {stmt : ParseM (Option Stmt)} (h : StatesBelow m' stmt)
    (hm : m ≤ m') : StatesBelow m stmt :=
  fun s hs => h s (Nat.lt_of_lt_of_le hs hm)

theorem bodyWithin_alike {stmt₁ stmt₂ : ParseM (Option Stmt)} (hstates : StatesBelow m stmt₁)
    (hstmt : AlikeBelow (Option.map bare) m stmt₁ stmt₂) (h : Twins m s₁ s₂) (h₁ : m ≤ n₁)
    (h₂ : m ≤ n₂) :
    Alike (List.map bare) m (bodyWithin stmt₁ context n₁ s₁) (bodyWithin stmt₂ context n₂ s₂) := by
  induction m generalizing n₁ n₂ s₁ s₂ with
  | zero => exact absurd h.length_lt (Nat.not_lt_zero _)
  | succ m ih =>
    obtain ⟨n₁, rfl, hle₁⟩ := exists_eq_succ h₁
    obtain ⟨n₂, rfl, hle₂⟩ := exists_eq_succ h₂
    have hstates' := hstates.mono (Nat.le_succ m)
    have hstmt' := hstmt.mono (Nat.le_succ m)
    refine peekKind_bind h ?_
    intro t₁ t₂ s₁ s₂ h hn
    generalize hk : t₁.kind = k
    split
    · exact pure h rfl
    · exact skipped_alike h hn (by simp [hk]) (.of_take (by decide)) fun _ _ h =>
        ih hstates' hstmt' h hle₁ hle₂
    next hne _ =>
      have htakes : Fate False s₁ (fun w _ _ _ => w ≠ []) (stmt₁ s₁) :=
        (hstates s₁ h.length_lt).imp fun _ _ _ _ _ hstatement =>
          hstatement.ne_nil hn.left (by rw [hk]; exact hne)
      refine taken_alike h (hstmt (Nat.le_refl _) h) htakes ?_
      intro first₁ first₂ _ _ hfirst h
      refine (ih hstates' hstmt' h hle₁ hle₂).bind ?_
      intro rest₁ rest₂ _ _ hrest h
      exact pure h (map_toList_append hfirst hrest)

theorem bodyOf_alike {stmt₁ stmt₂ : ParseM (Option Stmt)} (hstates : StatesBelow m stmt₁)
    (hstmt : AlikeBelow (Option.map bare) m stmt₁ stmt₂) (h : Twins m s₁ s₂) :
    Alike (List.map bare) m (bodyOf stmt₁ context s₁) (bodyOf stmt₂ context s₂) := by
  refine emit_bind h _ _ ?_
  intro _ _ h
  exact rounds_bind h fun _ _ _ hk h₁ h₂ h =>
    bodyWithin_alike (hstates.mono hk) (hstmt.mono hk) h h₁ h₂

theorem blockOf_alike {stmt₁ stmt₂ : ParseM (Option Stmt)} (hstates : StatesBelow m stmt₁)
    (hstmt : AlikeBelow (Option.map bare) m stmt₁ stmt₂) (h : Twins m s₁ s₂) :
    Alike (List.map bare) m (blockOf stmt₁ context s₁) (blockOf stmt₂ context s₂) := by
  refine (expect h (by simp)).bind ?_
  intro _ _ _ _ _ h
  refine (bodyOf_alike hstates hstmt h).bind ?_
  intro body₁ body₂ _ _ hbody h
  refine (expect h (by simp)).bind ?_
  intro _ _ _ _ _ h
  exact pure h hbody

/-- Statements with rounds enough for the tokens that are left. -/
theorem readWithin_alike (h₁ : m ≤ n₁) (h₂ : m ≤ n₂) :
    AlikeBelow (Option.map bare) m (readWithin n₁) (readWithin n₂) := by
  induction m generalizing n₁ n₂ with
  | zero =>
    intro k _ _ hk h
    exact absurd h.length_lt (by omega)
  | succ m ih =>
    obtain ⟨n₁, rfl, hle₁⟩ := exists_eq_succ h₁
    obtain ⟨n₂, rfl, hle₂⟩ := exists_eq_succ h₂
    intro k _ _ hk h
    refine rule_alike h ?_
    intro context j _ _ hj h
    have hstates : StatesBelow j (readWithin n₁) := fun s hs => readWithin_fate n₁ (by omega)
    exact blockOf_alike hstates ((ih hle₁ hle₂).mono (by omega)) h

theorem read_alike (h : Twins m s₁ s₂) : Alike (Option.map bare) m (read s₁) (read s₂) :=
  rounds_bind h fun k _ _ _ h₁ h₂ h => readWithin_alike h₁ h₂ (Nat.le_refl k) h

theorem block_alike (h : Twins m s₁ s₂) :
    Alike (List.map bare) m (block context s₁) (block context s₂) :=
  blockOf_alike (fun s _ => read_fate s) (fun _ _ _ _ h => read_alike h) h

end Stmt

/-! ## Functions -/

namespace Func

theorem abandonParameters_alike (h : Twins m s₁ s₂) (expected : String) :
    Alike id m (abandonParameters expected s₁) (abandonParameters expected s₂) := by
  refine (reportNext h).bind_same ?_
  intro _ _ _ h
  exact synchronize_pure h

theorem ne_eof_of_typeName? {k : Kind} {type : TypeName} (h : typeName? k = some type) :
    k ≠ .eof := by
  intro hk
  rw [hk] at h
  cases h

theorem parametersWithin_alike (h : Twins m s₁ s₂) (h₁ : m ≤ n₁) (h₂ : m ≤ n₂) :
    Alike id m (parametersWithin n₁ s₁) (parametersWithin n₂ s₂) := by
  induction m generalizing n₁ n₂ s₁ s₂ with
  | zero => exact absurd h.length_lt (Nat.not_lt_zero _)
  | succ m ih =>
    obtain ⟨n₁, rfl, hle₁⟩ := exists_eq_succ h₁
    obtain ⟨n₂, rfl, hle₂⟩ := exists_eq_succ h₂
    refine peekKind_bind h ?_
    intro t₁ t₂ _ _ h hn
    cases htype : typeName? t₁.kind with
    | none => exact abandonParameters_alike h _
    | some type =>
      refine advance_bind h hn (ne_eof_of_typeName? htype) ?_
      intro _ _ h
      refine (expect h (by simp)).bind_option ?_ ?_
      · intro _ _ h
        exact synchronize_pure h
      · intro name₁ name₂ _ _ hname h
        have htext := Token.text_of_bare hname
        refine peekKind_bind h ?_
        intro o₁ o₂ _ _ h ho
        generalize hk : o₁.kind = k
        split
        · refine advance_bind_same h ho (by simp [hk]) ?_
          intro _ _ h
          refine (ih h hle₁ hle₂).bind_same ?_
          intro rest _ _ h
          exact pure h (by rw [htext])
        · refine (reportNext h).bind_same ?_
          intro _ _ _ h
          exact (ih h hle₁ hle₂).bind_same fun _ _ _ h => pure h rfl
        · refine (reportNext h).bind_same ?_
          intro _ _ _ h
          exact (ih h hle₁ hle₂).bind_same fun _ _ _ h => pure h rfl
        · exact abandonParameters_alike h _
        · exact pure h (by rw [htext])

theorem parameters_alike (h : Twins m s₁ s₂) : Alike id m (parameters s₁) (parameters s₂) := by
  refine emit_bind h _ _ ?_
  intro _ _ h
  exact rounds_bind h fun _ _ _ _ h₁ h₂ h => parametersWithin_alike h h₁ h₂

theorem listLost_alike (h : Twins m s₁ s₂) (params : Option (List Param)) :
    Alike id m (listLost params s₁) (listLost params s₂) := by
  refine ite Iff.rfl ?_ ?_
  · intro _
    exact pure h rfl
  · intro _
    exact nextIs_bind h fun _ _ _ _ h _ => pure h rfl

theorem parameterList_alike (h : Twins m s₁ s₂) :
    Alike id m (parameterList s₁) (parameterList s₂) := by
  refine emit_bind h _ _ ?_
  intro _ _ h
  refine nextIs_ite h ?_ ?_
  · intro t₁ t₂ _ _ h hn ht
    refine advance_bind h hn (by simp [ht]) ?_
    intro _ _ h
    exact pure h rfl
  · intro _ _ h
    refine (parameters_alike h).bind_same ?_
    intro params _ _ h
    refine (listLost_alike h params).bind_same ?_
    intro lost _ _ h
    refine ite Iff.rfl ?_ ?_
    · intro _
      exact pure h rfl
    · intro _
      refine (expect h (by simp)).bind_option ?_ ?_
      · intro _ _ h
        exact synchronize_pure h
      · intro _ _ _ _ _ h
        exact pure h rfl

/-- The signature without its position. -/
def Signature.bare (s : Signature) : Signature :=
  { s with position := .nowhere }

theorem signatureFrom_alike (h : Twins m s₁ s₂) (position₁ position₂ : Position)
    {name₁ name₂ : Option Token} (hname : name₁.map Token.bare = name₂.map Token.bare) :
    Alike (Option.map Signature.bare) m (signatureFrom position₁ name₁ s₁)
      (signatureFrom position₂ name₂ s₂) := by
  refine (expect h (by simp)).bind_option ?_ ?_
  · intro _ _ h
    exact synchronize_takeMarker h (by simp) fun _ _ h => pure h rfl
  · intro _ _ _ _ _ h
    refine (parameterList_alike h).bind_same ?_
    intro params _ _ h
    rcases none_or_some_of_map hname with ⟨rfl, rfl⟩ | ⟨t₁, t₂, rfl, rfl, ht⟩
    · exact pure h rfl
    · have htext := Token.text_of_bare ht
      cases params with
      | none => exact pure h rfl
      | some params => exact pure h (by simp [Signature.bare, htext])

theorem signature_alike (h : Twins m s₁ s₂) :
    Alike (Option.map Signature.bare) m (signature s₁) (signature s₂) := by
  refine emit_bind h _ _ ?_
  intro _ _ h
  refine (peek h).bind ?_
  intro first₁ first₂ _ _ _ h
  refine (expect h (by simp)).bind_option ?_ ?_
  · intro _ _ h
    exact synchronize_pure h
  · intro _ _ _ _ _ h
    refine peekKind_bind h ?_
    intro t₁ t₂ s₁ s₂ h hn
    have hnamed (ht : t₁.kind ≠ .eof) : Alike (Option.map Signature.bare) m
        ((advance >>= fun name => signatureFrom first₁.position (some name)) s₁)
        ((advance >>= fun name => signatureFrom first₂.position (some name)) s₂) := by
      refine advance_bind h hn ht ?_
      intro _ _ h
      exact signatureFrom_alike h _ _ (congrArg some hn.bare_eq)
    generalize hk : t₁.kind = k
    split
    · exact hnamed (by simp [hk])
    · exact hnamed (by simp [hk])
    · refine (reportNext h).bind_same ?_
      intro _ _ _ h
      refine (synchronize h).bind ?_
      intro marker₁ marker₂ _ _ hmarker h
      refine ite (by rw [Token.kind_of_bare hmarker]) ?_ ?_
      · intro _
        exact pure h rfl
      · intro _
        exact signatureFrom_alike h _ _ rfl

/-- The function without positions. -/
def bare (f : Func) : Func :=
  { f with body := f.body.map Stmt.bare, position := .nowhere }

theorem read_alike (h : Twins m s₁ s₂) : Alike (Option.map bare) m (read s₁) (read s₂) := by
  refine emit_bind h _ _ ?_
  intro _ _ h
  refine (signature_alike h).bind ?_
  intro signature₁ signature₂ _ _ hsignature h
  refine (Stmt.block_alike h).bind ?_
  intro body₁ body₂ _ _ hbody h
  refine pure h ?_
  rcases none_or_some_of_map hsignature with ⟨rfl, rfl⟩ | ⟨signature₁, signature₂, rfl, rfl, hbare⟩
  · rfl
  · unfold Signature.bare at hbare
    injection hbare with hname hparams _
    simp [bare, hname, hparams, hbody]

end Func

/-! ## Programs -/

namespace Program

/-- The program without positions. -/
def bare (p : Program) : Program :=
  { functions := p.functions.map Func.bare }

theorem functionsWithin_alike (h : Twins m s₁ s₂) (h₁ : m ≤ n₁) (h₂ : m ≤ n₂) :
    Alike (List.map Func.bare) m (functionsWithin n₁ s₁) (functionsWithin n₂ s₂) := by
  induction m generalizing n₁ n₂ s₁ s₂ with
  | zero => exact absurd h.length_lt (Nat.not_lt_zero _)
  | succ m ih =>
    obtain ⟨n₁, rfl, hle₁⟩ := exists_eq_succ h₁
    obtain ⟨n₂, rfl, hle₂⟩ := exists_eq_succ h₂
    refine peekKind_bind h ?_
    intro t₁ t₂ s₁ s₂ h hn
    generalize hk : t₁.kind = k
    split
    · exact pure h rfl
    · refine taken_alike h (Func.read_alike h) (Func.read_fate s₁) ?_
      intro first₁ first₂ _ _ hfirst h
      refine (ih h hle₁ hle₂).bind ?_
      intro rest₁ rest₂ _ _ hrest h
      exact pure h (map_toList_append hfirst hrest)
    next hne =>
      exact skipped_alike h hn (by simpa [hk] using hne) (.of_take (by decide)) fun _ _ h =>
        ih h hle₁ hle₂

theorem read_alike (h : Twins m s₁ s₂) : Alike bare m (read s₁) (read s₂) := by
  refine emit_bind h _ _ ?_
  intro _ _ h
  refine rounds_bind h ?_
  intro k n₁ n₂ _ h₁ h₂ h
  refine (functionsWithin_alike h h₁ h₂).bind ?_
  intro functions₁ functions₂ _ _ hfunctions h
  exact pure h (congrArg Program.mk hfunctions)

/-! ## Whole sources -/

section
variable {file₁ file₂ source₁ source₂ : String} {T₁ T₂ : List Token}

/-- Sessions on sources with the same tokens are twins. -/
theorem twins_ofSource (h₁ : tokenize file₁ source₁ = .ok T₁) (h₂ : tokenize file₂ source₂ = .ok T₂)
    (h : T₁.map Token.bare = T₂.map Token.bare) :
    ∃ m, Twins m (.ofSource file₁ source₁) (.ofSource file₂ source₂) := by
  obtain ⟨t₁, hend₁, rfl⟩ := (TokenStream.toList_eq_ok_iff _ _).1 h₁
  obtain ⟨t₂, hend₂, rfl⟩ := (TokenStream.toList_eq_ok_iff _ _).1 h₂
  rw [List.map_append, List.map_append] at h
  obtain ⟨htokens, hlast⟩ := List.append_inj' h rfl
  exact ⟨_, htokens, ⟨t₁, t₂, hend₁, hend₂, List.singleton_inj.1 hlast⟩, rfl, rfl,
    Nat.lt_succ_self _⟩

/-- An error that is not about a token is told by its cause. -/
theorem cause_eq_of_bare {e₁ e₂ : Error} (he : e₁.bare = e₂.bare)
    (h : e₁.category ≠ .syntactic) : e₁.cause = e₂.cause := by
  have hbare := Error.bare_eq_iff.1 he
  have hnone : e₁.cause.found = none := by
    rw [← Option.not_isSome_iff_eq_none, Cause.isSome_found_iff]
    exact h
  have hnone₂ : e₂.cause.found = none := by
    rw [← Option.map_eq_none_iff (f := Token.bare), ← Cause.found_bare, ← hbare, Cause.found_bare,
      hnone, Option.map_none]
  rw [← Cause.bare_of_found hnone, hbare, Cause.bare_of_found hnone₂]

theorem ofSource_alike (h : Twins m (.ofSource file₁ source₁) (.ofSource file₂ source₂)) :
    (ofSource file₁ source₁).diagnostics.map Diagnostic.bare =
      (ofSource file₂ source₂).diagnostics.map Diagnostic.bare ∧
    ((ofSource file₁ source₁).outcome.map bare).mapError Error.cause =
      ((ofSource file₂ source₂).outcome.map bare).mapError Error.cause := by
  obtain ⟨s₁, hm₁, hdiag₁, hout₁⟩ := ofSource_eq file₁ source₁
  obtain ⟨s₂, hm₂, hdiag₂, hout₂⟩ := ofSource_eq file₂ source₂
  have hread := read_alike (h.still hm₁ hm₂)
  have hfate := read_fate s₁
  rw [hdiag₁, hdiag₂, hout₁, hout₂]
  generalize read s₁ = r₁ at hread hfate
  generalize read s₂ = r₂ at hread
  cases hread with
  | goes hs ha => exact ⟨hs.diagnostics_eq, congrArg Except.ok ha⟩
  | fails hs he =>
    cases hfate with
    | ends hends =>
      have hcause := cause_eq_of_bare he hends.isReason.category_ne.1
      exact ⟨hs.diagnostics_eq, congrArg Except.error hcause⟩
    | trips hsilent => exact hsilent.elim

theorem exprOfSource_alike (h : Twins m (.ofSource file₁ source₁) (.ofSource file₂ source₂)) :
    ((Expr.ofSource file₁ source₁).map Expr.bare).mapError Error.bare =
      ((Expr.ofSource file₂ source₂).map Expr.bare).mapError Error.bare := by
  have hread := Expr.readWhole_alike h
  unfold Expr.ofSource
  generalize Expr.readWhole (.ofSource file₁ source₁) = r₁ at hread
  generalize Expr.readWhole (.ofSource file₂ source₂) = r₂ at hread
  cases hread with
  | goes hs ha => exact congrArg Except.ok ha
  | fails hs he => exact congrArg Except.error he

end

/-- Sources with the same tokens up to positions are read alike. As programs they have the same
diagnostics up to positions, and both give programs that are the same up to positions, or both end
for the same cause; as expressions both give the same tree or the same error, up to positions. -/
theorem layout_irrelevant (file₁ source₁ file₂ source₂ : String) (T₁ T₂ : List Token)
    (h₁ : tokenize file₁ source₁ = .ok T₁) (h₂ : tokenize file₂ source₂ = .ok T₂)
    (h : T₁.map Token.bare = T₂.map Token.bare) :
    (ofSource file₁ source₁).diagnostics.map Diagnostic.bare =
      (ofSource file₂ source₂).diagnostics.map Diagnostic.bare ∧
    ((ofSource file₁ source₁).outcome.map bare).mapError Error.cause =
      ((ofSource file₂ source₂).outcome.map bare).mapError Error.cause ∧
    ((Expr.ofSource file₁ source₁).map Expr.bare).mapError Error.bare =
      ((Expr.ofSource file₂ source₂).map Expr.bare).mapError Error.bare := by
  obtain ⟨m, htwins⟩ := twins_ofSource h₁ h₂ h
  obtain ⟨hdiagnostics, houtcome⟩ := ofSource_alike htwins
  exact ⟨hdiagnostics, houtcome, exprOfSource_alike htwins⟩

/-- A function with a broken assignment, on one line and spread over two with a comment. -/
theorem layout_irrelevant_spread :
    ∃ T₁ T₂, tokenize "f" "func g(){x=;}" = .ok T₁ ∧
      tokenize "h" "func g ( ) // x\n{ x = ; }" = .ok T₂ ∧
      T₁.map Token.bare = T₂.map Token.bare ∧
      (ofSource "f" "func g(){x=;}").diagnostics.map Diagnostic.bare =
        (ofSource "h" "func g ( ) // x\n{ x = ; }").diagnostics.map Diagnostic.bare ∧
      ((ofSource "f" "func g(){x=;}").outcome.map bare).mapError Error.cause =
        ((ofSource "h" "func g ( ) // x\n{ x = ; }").outcome.map bare).mapError Error.cause := by
  have hsame : (tokenize "f" "func g(){x=;}").map (List.map Token.bare) =
      (tokenize "h" "func g ( ) // x\n{ x = ; }").map (List.map Token.bare) := by decide +kernel
  have hok₁ : (tokenize "f" "func g(){x=;}").isOk = true := by decide +kernel
  have hok₂ : (tokenize "h" "func g ( ) // x\n{ x = ; }").isOk = true := by decide +kernel
  cases h₁ : tokenize "f" "func g(){x=;}" with
  | error e => rw [h₁] at hok₁; cases hok₁
  | ok T₁ =>
    cases h₂ : tokenize "h" "func g ( ) // x\n{ x = ; }" with
    | error e => rw [h₂] at hok₂; cases hok₂
    | ok T₂ =>
      rw [h₁, h₂] at hsame
      have h := Except.ok.inj hsame
      obtain ⟨hdiagnostics, houtcome, -⟩ := layout_irrelevant _ _ _ _ T₁ T₂ h₁ h₂ h
      exact ⟨T₁, T₂, rfl, rfl, h, hdiagnostics, houtcome⟩

end Program

end FxLang
