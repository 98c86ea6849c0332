import FxLang.Proofs.Grammar.Language
import FxLang.Proofs.Session.Keeps

/-!
# Reading along a language

`Verdict K L s Q r` judges the result `r` of a parser that was started at `s`, where the rest of a
correct input is a word of `K`. Either the parser took a text behind which the words of `K` go on as
those of `L`, and its value fits the text; or it complained, and first of all about the earliest
token that no word of `K` allows; or it ran into the lexical error at the end of the tokens.

Verdicts are put together along the parser with `Verdict.bind`: what one step leaves of the language
is what the next starts with.

* `Verdict.expect`, `Verdict.reportNext`: the verdict on the small steps.
* `Expr.readWithin_verdict`, `expression_verdict`: the verdict on expressions.
-/

namespace FxLang

open Session

/-! ## Languages at a session -/

variable {K L M : Lang} {s s₁ s₂ : Session} {w u : List Token} {t x : Token} {α β : Type}

theorem Session.behind_nil (s : Session) : s.behind [] = s.front :=
  (Moves.refl s).front_eq_behind.symm

/-- Behind `w`, the words of `K` that start with the next token of `s` go on as those of `L`. -/
structure Leads (K : Lang) (w : List Token) (s : Session) (L : Lang) : Prop where
  of_rest : ∀ v, L v → K (w ++ v)
  to_rest : ∀ t v, s.front = .ok t → K (w ++ t :: v) → L (t :: v)

namespace Leads

theorem refl (K : Lang) (s : Session) : Leads K [] s K :=
  ⟨fun _ h => h, fun _ _ _ h => h⟩

theorem of_iff (s : Session) (h : ∀ v, K v ↔ L v) : Leads K [] s L :=
  ⟨fun v => (h v).2, fun _ _ _ => (h _).1⟩

/-- The next token alone tells that the language is a smaller one. -/
theorem of_front (hf : s.front = .ok t) (h₁ : ∀ v, L v → K v) (h₂ : ∀ v, K (t :: v) → L (t :: v)) :
    Leads K [] s L := by
  refine ⟨h₁, fun t' v hf' hv => ?_⟩
  rw [hf] at hf'
  cases hf'
  exact h₂ v hv

/-- A token was taken. -/
theorem of_cons (h : ∀ v, K (t :: v) ↔ L v) : Leads K [t] s L :=
  ⟨fun v => (h v).2, fun _ _ _ => (h _).1⟩

theorem to_rest_append (h : Leads K w s L) (hu : u <+: s.tokens) (hx : s.behind u = .ok x)
    {v : List Token} (hv : K (w ++ (u ++ x :: v))) : L (u ++ x :: v) := by
  cases u with
  | nil => exact h.to_rest x v (s.behind_nil ▸ hx) hv
  | cons t u =>
    obtain ⟨r, hr⟩ := hu
    exact h.to_rest t _ (front_of_tokens hr.symm) hv

theorem trans (h₁ : Leads K w s₁ L) (hm : s₁.Moves u [] s₂) (h₂ : Leads L u s₂ M) :
    Leads K (w ++ u) s₂ M where
  of_rest v hv := by
    rw [List.append_assoc]
    exact h₁.of_rest _ (h₂.of_rest v hv)
  to_rest t v ht hv := by
    rw [List.append_assoc] at hv
    have hx : s₁.behind u = .ok t := hm.front_eq_behind ▸ ht
    exact h₂.to_rest t v ht (h₁.to_rest_append ⟨_, hm.tokens_eq.symm⟩ hx hv)

end Leads

/-- The token `x` is the earliest that no word of `K` allows: the tokens in front of it start a
word, and with it they do not. -/
def Blames (K : Lang) (s : Session) (x : Token) : Prop :=
  ∃ u, u <+: s.tokens ∧ s.behind u = .ok x ∧ (∃ v, K (u ++ v)) ∧ ∀ v, ¬ K (u ++ x :: v)

namespace Blames

theorem of_front (hf : s.front = .ok x) (hK : K.Alive) (h : ∀ v, ¬ K (x :: v)) : Blames K s x :=
  ⟨[], List.nil_prefix, s.behind_nil.trans hf, hK, h⟩

theorem of_leads (hm : s.Moves w [] s₁) (hl : Leads K w s₁ L) (h : Blames L s₁ x) :
    Blames K s x := by
  obtain ⟨u, hu, hx, ⟨v, hv⟩, hnot⟩ := h
  refine ⟨w ++ u, ?_, by rw [← hm.behind_eq]; exact hx, ⟨v, ?_⟩, fun v hv => hnot v ?_⟩
  · rw [hm.tokens_eq]
    exact (List.prefix_append_right_inj w).2 hu
  · rw [List.append_assoc]
    exact hl.of_rest _ hv
  · rw [List.append_assoc] at hv
    exact hl.to_rest_append hu hx hv

end Blames

/-! ## Verdicts -/

/-- The token that a parser complained about first: in the first diagnostic it recorded, or else in
the error it failed with. -/
def Accuses (s : Session) (r : EStateM.Result Error Session α) (x : Token) : Prop :=
  (∃ d more, (final r).diagnostics = s.diagnostics ++ d :: more ∧ d.found = x) ∨
    ∃ e s', r = .error e s' ∧ s'.diagnostics = s.diagnostics ∧ e.cause.found = some x

/-- What was recorded stays recorded, whatever comes after it. -/
theorem recorded_bind {y : ParseM α} {f : α → ParseM β} (hf : ∀ a, Keeps Grows (f a))
    {earlier more : List Diagnostic} {d : Diagnostic}
    (hd : (final (y s)).diagnostics = earlier ++ d :: more) :
    ∃ more', (final ((y >>= f) s)).diagnostics = earlier ++ d :: more' := by
  cases hr : y s with
  | ok a s₁ =>
    rw [hr, final_ok] at hd
    obtain ⟨later, hl⟩ := hf a s₁
    rw [bind_of_ok hr]
    exact ⟨more ++ later, by rw [← hl, hd, List.append_assoc, List.cons_append]⟩
  | error e s₁ =>
    rw [hr, final_error] at hd
    rw [bind_of_error hr]
    exact ⟨more, hd⟩

/-- What can come of a parser at a place where the rest of a correct input is a word of `K`. -/
inductive Verdict (K L : Lang) (s : Session) (Q : List Token → α → Session → Prop) :
    EStateM.Result Error Session α → Prop
  /-- It read a text, behind which the words of `K` go on as those of `L`. -/
  | reads {w : List Token} {a : α} {s' : Session} (hm : s.Moves w [] s') (hl : Leads K w s' L)
      (hq : Q w a s') : Verdict K L s Q (.ok a s')
  /-- It complained about the earliest token that no word of `K` allows. -/
  | blames {r : EStateM.Result Error Session α} {x : Token} (ha : Accuses s r x)
      (hb : Blames K s x) : Verdict K L s Q r
  /-- It failed with the lexical error behind the tokens. -/
  | breaks {e : Error} {s' : Session} (he : s.ending = .error e) : Verdict K L s Q (.error e s')

namespace Verdict

variable {Q R : List Token → α → Session → Prop} {r : EStateM.Result Error Session α}
  {y : ParseM α} {f : α → ParseM β}

theorem imp (h : Verdict K L s Q r) (hQ : ∀ w a s', Q w a s' → R w a s') : Verdict K L s R r := by
  cases h with
  | reads hm hl hq => exact .reads hm hl (hQ _ _ _ hq)
  | blames ha hb => exact .blames ha hb
  | breaks he => exact .breaks he

/-- A parser that went on and recorded nothing did not complain. -/
theorem reads_of_clean {a : α} {s' : Session} (h : Verdict K L s Q (.ok a s'))
    (hd : s'.diagnostics = s.diagnostics) : ∃ w, s.Moves w [] s' ∧ Leads K w s' L ∧ Q w a s' := by
  cases h with
  | @reads w _ _ hm hl hq => exact ⟨w, hm, hl, hq⟩
  | blames ha =>
    rcases ha with ⟨d, more, hd', -⟩ | ⟨_, _, hr, -⟩
    · rw [final_ok, hd] at hd'
      simp at hd'
    · cases hr

/-- The verdict on the rest of a parser is one on the whole. -/
theorem of_leads (hm : s.Moves w [] s₁) (hl : Leads K w s₁ L)
    (h : Verdict L M s₁ (fun u => Q (w ++ u)) r) : Verdict K M s Q r := by
  have hd : s₁.diagnostics = s.diagnostics := by simpa using hm.diagnostics_eq
  cases h with
  | reads hm' hl' hq => exact .reads (hm.trans_clean hm') (hl.trans hm' hl') hq
  | blames ha hb =>
    refine .blames ?_ (hb.of_leads hm hl)
    unfold Accuses at ha ⊢
    rw [hd] at ha
    exact ha
  | breaks he => exact .breaks (hm.ending_eq ▸ he)

/-- The session and the language are others by name only. -/
theorem of_moves (hm : s.Moves [] [] s₁) (h : Verdict K L s₁ Q r) : Verdict K L s Q r := by
  refine of_leads hm (.refl K s₁) ?_
  exact h

theorem of_iff (h : ∀ v, K v ↔ L v) (hr : Verdict L M s Q r) : Verdict K M s Q r :=
  of_leads (.refl s) (.of_iff s h) hr

/-- The next token alone tells that the rest of the input is a word of a smaller language. -/
theorem of_front (hf : s.front = .ok t) (h₁ : ∀ v, L v → K v) (h₂ : ∀ v, K (t :: v) → L (t :: v))
    (hr : Verdict L M s Q r) : Verdict K M s Q r :=
  of_leads (.refl s) (.of_front hf h₁ h₂) hr

/-- One step, and then the rest of the parser where the step left the session and the language. -/
theorem bind {P : List Token → β → Session → Prop} (hy : Verdict K L s Q (y s))
    (hf : ∀ a, Keeps Grows (f a))
    (h : ∀ w a s₁, s.Moves w [] s₁ → Q w a s₁ → Verdict L M s₁ (fun u => P (w ++ u)) (f a s₁)) :
    Verdict K M s P ((y >>= f) s) := by
  generalize hr : y s = r at hy
  cases hy with
  | @reads w a s₁ hm hl hq =>
    rw [bind_of_ok hr]
    exact of_leads hm hl (h w a s₁ hm hq)
  | @breaks e s₁ he =>
    rw [bind_of_error hr]
    exact .breaks he
  | @blames _ x ha hb =>
    refine .blames ?_ hb
    rcases ha with ⟨d, more, hd, hx⟩ | ⟨e, s₁, rfl, hd, hx⟩
    · rw [← hr] at hd
      obtain ⟨more', hd'⟩ := recorded_bind hf hd
      exact .inl ⟨d, more', hd', hx⟩
    · rw [bind_of_error hr]
      exact .inr ⟨e, s₁, rfl, hd, hx⟩

theorem pure {a : α} (hq : Q [] a s) : Verdict K K s Q ((Pure.pure a : ParseM α) s) :=
  .reads (.refl s) (.refl K s) hq

theorem emit_bind {g : Unit → ParseM α} (event : Event)
    (h : ∀ s₁, s.Moves [] [] s₁ → Verdict K L s₁ Q (g () s₁)) :
    Verdict K L s Q ((emit event >>= g) s) := by
  obtain ⟨s₁, h₁, m₁⟩ := bind_emit event g s
  rw [h₁]
  exact of_moves m₁ (h s₁ m₁)

/-! ## Small steps -/

/-- The next token is looked at, unless there is none. -/
theorem peek_bind {g : Token → ParseM α}
    (h : ∀ t s₁, s.Moves [] [] s₁ → s₁.front = .ok t → Verdict K L s₁ Q (g t s₁)) :
    Verdict K L s Q ((peek >>= g) s) := by
  cases hf : s.front with
  | error e =>
    obtain ⟨s₁, h₁, -⟩ := peek_of_front_error hf
    rw [bind_of_error h₁]
    exact .breaks (ending_of_front_error hf)
  | ok t =>
    obtain ⟨s₁, h₁, m₁⟩ := peek_of_front hf
    rw [bind_of_ok h₁]
    exact of_moves m₁ (h t s₁ m₁ (m₁.front_eq.trans hf))

/-- The verdict on a parser that is started at `s`. -/
def On (K L : Lang) (s : Session) (Q : List Token → α → Session → Prop) (y : ParseM α) : Prop :=
  Verdict K L s Q (y s)

theorem peekKind_bind {g : Kind → ParseM α}
    (h : ∀ t s₁, s.Moves [] [] s₁ → s₁.front = .ok t → On K L s₁ Q (g t.kind)) :
    Verdict K L s Q ((peekKind >>= g) s) := by
  have hg : (peekKind >>= g) s = (peek >>= fun t => g t.kind) s := by
    simp only [peekKind, bind_assoc, pure_bind]
  rw [hg]
  exact peek_bind h

theorem nextIs_bind {k : Kind} {g : Bool → ParseM α}
    (h : ∀ t s₁, s.Moves [] [] s₁ → s₁.front = .ok t → Verdict K L s₁ Q (g (t.kind = k) s₁)) :
    Verdict K L s Q ((nextIs k >>= g) s) := by
  have hg : (nextIs k >>= g) s = (peekKind >>= fun k' => g (k' = k)) s := by
    simp only [nextIs, bind_assoc, pure_bind]
  rw [hg]
  exact peekKind_bind fun t s₁ => h t s₁

/-- The kind of the next token decides between two ways on. -/
theorem nextIs_ite {k : Kind} {x y : ParseM α}
    (hx : ∀ t s₁, s.Moves [] [] s₁ → s₁.front = .ok t → t.kind = k → Verdict K L s₁ Q (x s₁))
    (hy : ∀ t s₁, s.Moves [] [] s₁ → s₁.front = .ok t → t.kind ≠ k → Verdict K L s₁ Q (y s₁)) :
    Verdict K L s Q ((nextIs k >>= fun b => if b = true then x else y) s) := by
  refine nextIs_bind fun t s₁ m₁ hf => ?_
  by_cases ht : t.kind = k
  · simp only [ht, decide_true, if_true]
    exact hx t s₁ m₁ hf ht
  · simp only [ht, decide_false, Bool.false_eq_true, if_false]
    exact hy t s₁ m₁ hf ht

/-- The token in front is taken. -/
theorem advance_bind {g : Token → ParseM α} (hf : s.front = .ok t) (ht : t.kind ≠ .eof)
    (hl : ∀ v, K (t :: v) ↔ L v)
    (h : ∀ s₁, s.Moves [t] [] s₁ → Verdict L M s₁ (fun u => Q (t :: u)) (g t s₁)) :
    Verdict K M s Q ((advance >>= g) s) := by
  obtain ⟨s₁, h₁, m₁⟩ := advance_of_front hf ht
  rw [bind_of_ok h₁]
  exact of_leads m₁ (.of_cons hl) (h s₁ m₁)

/-- An error about a token that the language rules out. -/
theorem throw {e : Error} (hx : e.cause.found = some x) (hb : Blames K s x) :
    Verdict K L s Q ((MonadExcept.throw e : ParseM α) s) :=
  .blames (.inr ⟨e, s, rfl, rfl, hx⟩) hb

/-- A report about a token that the language rules out. -/
theorem report {expected context : String} (hb : Blames K s x) :
    Verdict K L s (fun _ _ _ => False) (report expected context x s) := by
  have hd := (report_moves expected context x s).diagnostics_eq
  exact .blames (.inl ⟨_, [], hd, rfl⟩) hb

theorem reportNext {expected context : String} (hf : s.front = .ok t) (hK : K.Alive)
    (h : ∀ v, ¬ K (t :: v)) :
    Verdict K L s (fun _ _ _ => False) (reportNext expected context s) := by
  obtain ⟨s₁, h₁, m₁⟩ := reportNext_of_front hf
  rw [h₁]
  exact of_moves m₁ (report (.of_front (m₁.front_eq.trans hf) hK h))

/-- Where a report is due, what comes after it does not matter. -/
theorem reportNext_bind {expected context : String} {g : Unit → ParseM α}
    (hg : ∀ a, Keeps Grows (g a)) (hf : s.front = .ok t) (hK : K.Alive) (h : ∀ v, ¬ K (t :: v)) :
    Verdict K L s Q ((Session.reportNext expected context >>= g) s) :=
  (reportNext (L := L) hf hK h).bind hg fun _ _ _ _ hq => hq.elim

theorem expect {k : Kind} {expected context : String} (hk : k ≠ .eof) (hL : L.Alive) :
    Verdict (Lang.tok k L) L s (fun w r _ => ∃ t, r = some t ∧ w = [t] ∧ t.kind = k)
      (expect k expected context s) := by
  refine nextIs_ite (fun t s₁ _ hf ht => ?_) (fun t s₁ _ hf ht => ?_)
  · refine advance_bind hf (by rwa [ht]) (L := L) (by simp [ht]) fun s₂ _ => ?_
    exact pure ⟨t, rfl, rfl, ht⟩
  · exact reportNext_bind (by grind) hf (hL.tok k) fun v hv => ht hv.1

end Verdict

/-! ## Expressions -/

namespace Expr

open Verdict

variable {n : Nat} {m : BindingPower} {o : Token}

/-- What may stand behind the token that starts an operand in a role. -/
def operandRest (L : Lang) : Nud → Lang
  | .primary => .rest L
  | .unary => .expr L
  | .grouping => .expr (.tok .closeParen (.rest L))

theorem expr_cons_iff_of_nud {role : Nud} (h : Bindings.standard.nud t.kind = some role)
    (v : List Token) : Lang.expr L (t :: v) ↔ operandRest L role v := by
  rw [Lang.expr_cons_iff, Lang.ExprStart, ← Kind.standard_nud_eq_primary,
    ← Kind.standard_nud_eq_unary, ← Kind.standard_nud_eq_grouping, h]
  cases role <;> simp [operandRest]

theorem not_expr_of_nud (h : Bindings.standard.nud t.kind = none) (v : List Token) :
    ¬ Lang.expr L (t :: v) := by
  rw [Lang.expr_cons_iff, Lang.ExprStart, ← Kind.standard_nud_eq_primary,
    ← Kind.standard_nud_eq_unary, ← Kind.standard_nud_eq_grouping, h]
  simp

theorem not_expr_of_ends (h : t.endsExpression = true) (v : List Token) :
    ¬ Lang.expr L (t :: v) := by
  refine not_expr_of_nud ?_ v
  rcases Token.endsExpression_iff.1 h with h | h <;> rw [h] <;> rfl

/-- The next token is none that an expression above `m` would take. -/
def Stops (m : BindingPower) (s : Session) : Prop :=
  ∀ t, s.front = .ok t → t.endsExpression = true ∨ Bindings.standard.leftPower t ≤ m.toInt

/-- A whole expression stops at no operator. -/
theorem Stops.not_isOperator (h : Stops .lowest s) (hf : s.front = .ok t) :
    t.kind.isOperator = false := by
  cases ho : t.kind.isOperator with
  | false => rfl
  | true =>
    rcases h t hf with h | h
    · rw [Token.endsExpression_of_isOperator ho] at h; cases h
    · exact absurd (Token.leftPower_of_isOperator ho) (Int.not_lt.2 h)

/-- Up to the depth `n`, reading an expression has a verdict wherever it starts at a token that does
not end expressions. -/
def ReadVerdict (n : Nat) : Prop :=
  ∀ (m : BindingPower) (s : Session) (L : Lang) (t : Token), 0 ≤ m.toInt → L.Alive → L.Closes →
    s.tokens.length < n → s.front = .ok t → t.endsExpression = false →
    Verdict (.expr L) (.rest L) s (fun _ r s' => r.isSome = true ∧ Stops m s')
      (readWithin .standard n m s)

theorem operandOf_verdict (ih : ReadVerdict n) (hm : 0 ≤ m.toInt) (hL : L.Alive)
    (hc : L.Closes) (hn : s.tokens.length < n) :
    Verdict (.expr L) (.rest L) s (fun _ _ _ => True)
      (operandOf (readWithin .standard n) o m s) := by
  obtain ⟨n, rfl⟩ : ∃ n', n = n' + 1 := ⟨n - 1, by omega⟩
  cases hf : s.front with
  | error e =>
    obtain ⟨s₁, h₁, -⟩ := @readWithin_of_front_error .standard m s n e hf
    rw [operandOf, bind_of_error h₁]
    exact .breaks (ending_of_front_error hf)
  | ok t =>
    cases ht : t.endsExpression with
    | true =>
      obtain ⟨s₁, h₁, m₁⟩ := @readWithin_of_ends .standard m s t n hf ht
      rw [operandOf, bind_of_ok h₁]
      refine of_moves m₁ (peek_bind fun t' s₂ m₂ hf₂ => ?_)
      rw [m₂.front_eq, m₁.front_eq, hf] at hf₂
      cases hf₂
      refine throw rfl (.of_front (m₂.front_eq.trans (m₁.front_eq.trans hf)) hL.expr ?_)
      exact not_expr_of_ends ht
    | false =>
      refine (ih m s L t hm hL hc hn hf ht).bind (by grind) fun w r s₁ _ hr => ?_
      obtain ⟨e, rfl⟩ := Option.isSome_iff_exists.1 hr.1
      exact .pure trivial

theorem group_verdict (ih : ReadVerdict n) (hL : L.Alive) (hn : s.tokens.length < n) :
    Verdict (.expr (.tok .closeParen (.rest L))) (.rest L) s (fun _ _ _ => True)
      (group (readWithin .standard n) s) := by
  obtain ⟨n, rfl⟩ : ∃ n', n = n' + 1 := ⟨n - 1, by omega⟩
  have hL' : (Lang.tok .closeParen (.rest L)).Alive := hL.rest.tok _
  cases hf : s.front with
  | error e =>
    obtain ⟨s₁, h₁, -⟩ := @readWithin_of_front_error .standard .lowest s n e hf
    rw [group, bind_of_error h₁]
    exact .breaks (ending_of_front_error hf)
  | ok t =>
    cases ht : t.endsExpression with
    | true =>
      -- The group is empty; its `)` is blamed, although it is taken.
      obtain ⟨s₁, h₁, m₁⟩ := @readWithin_of_ends .standard .lowest s t n hf ht
      obtain ⟨s₂, h₂, m₂⟩ := peek_of_front (m₁.front_eq.trans hf)
      have m₁₂ := m₁.trans_clean m₂
      have hb : Blames (.expr (.tok .closeParen (.rest L))) s t :=
        .of_front hf hL'.expr (not_expr_of_ends ht)
      rw [group, bind_of_ok h₁, bind_of_ok h₂]
      by_cases hk : t.kind = .closeParen
      · obtain ⟨s₃, h₃, m₃⟩ := advance_of_front (m₁₂.front_eq.trans hf) (by simp [hk])
        rw [if_pos hk, bind_of_ok h₃]
        refine .blames (.inr ⟨_, _, rfl, ?_, rfl⟩) hb
        simpa using (m₁₂.trans_clean m₃).diagnostics_eq
      · rw [if_neg hk]
        refine .blames (.inr ⟨_, _, rfl, ?_, rfl⟩) hb
        simpa using m₁₂.diagnostics_eq
    | false =>
      refine (ih .lowest s _ t (by decide) hL' (.tok rfl (by simp)) hn hf ht).bind (by grind)
        fun w r s₁ _ hr => ?_
      obtain ⟨e, rfl⟩ := Option.isSome_iff_exists.1 hr.1
      refine peek_bind fun c s₂ m₂ hc => ?_
      have hop := hr.2.not_isOperator (m₂.front_eq.symm.trans hc)
      by_cases hk : c.kind = .closeParen
      · rw [if_pos hk]
        refine advance_bind hc (by simp [hk]) (L := .rest L) (fun v => ?_) fun s₃ _ => pure trivial
        simp [Lang.rest, Lang.or, hk, Kind.isOperator]
      · rw [if_neg hk]
        refine throw rfl (.of_front hc hL'.rest fun v hv => ?_)
        rcases hv with hv | hv
        · exact hk hv.1
        · rw [Lang.oneOf_cons, hop] at hv; cases hv.1

theorem operandFrom_verdict (ih : ReadVerdict n) (hL : L.Alive) (hc : L.Closes)
    (hn : s.tokens.length < n) (role : Nud) (hr : Bindings.standard.nud t.kind = some role) :
    Verdict (operandRest L role) (.rest L) s (fun _ _ _ => True)
      (operandFrom .standard (readWithin .standard n) role t s) := by
  cases role with
  | primary => exact pure trivial
  | grouping => exact group_verdict ih hL hn
  | unary =>
    have hm : 0 ≤ (Bindings.standard.power t.kind).toInt := by
      revert hr
      cases t.kind <;> decide
    refine (operandOf_verdict ih hm hL hc hn).bind (by grind) ?_
    exact fun _ _ _ _ _ => pure trivial

theorem climb_verdict (ih : ReadVerdict n) (hm : 0 ≤ m.toInt) (hL : L.Alive) (hc : L.Closes)
    (hn : s.tokens.length < n) (k : Nat) (hk : s.tokens.length < k) (e : Expr) :
    Verdict (.rest L) (.rest L) s (fun _ _ s' => Stops m s')
      (climb .standard (readWithin .standard n) m k e s) := by
  induction k generalizing s e with
  | zero => omega
  | succ k ihk =>
    cases hf : s.front with
    | error err =>
      obtain ⟨s₁, h₁, -⟩ := @climb_of_front_error .standard (readWithin .standard n) m s k e err hf
      rw [h₁]
      exact .breaks (ending_of_front_error hf)
    | ok o =>
      by_cases hstop : o.endsExpression = true ∨ Bindings.standard.leftPower o ≤ m.toInt
      · obtain ⟨s₁, h₁, m₁⟩ := @climb_of_stop .standard (readWithin .standard n) m s o k e hf hstop
        rw [h₁]
        refine .reads m₁ (.refl _ _) fun t ht => ?_
        rw [m₁.front_eq, hf] at ht
        cases ht
        exact hstop
      · obtain ⟨ho, hpow⟩ := not_or.1 hstop
        have ho : o.endsExpression = false := by simpa using ho
        have hpow : m.toInt < Bindings.standard.leftPower o := by omega
        cases hl : Bindings.standard.led o.kind with
        | false =>
          obtain ⟨s₁, h₁, m₁⟩ :=
            @climb_of_stray .standard (readWithin .standard n) m s o k e hf ho hpow hl
          rw [h₁]
          refine of_moves m₁ (throw rfl (.of_front (m₁.front_eq.trans hf) hL.rest fun v hv => ?_))
          -- Above the minimum there are only operators and `(`.
          rw [Kind.standard_led] at hl
          rcases hv with hv | hv
          · have := Token.isOperator_of_leftPower (by omega) ho (hc _ _ hv).2
            rw [hl] at this; cases this
          · rw [Lang.oneOf_cons, hl] at hv; cases hv.1
        | true =>
          obtain ⟨s₁, h₁, m₁⟩ :=
            @climb_of_led .standard (readWithin .standard n) m s o k e hf ho hpow hl
          have hlen := m₁.tokens_length
          have hop : o.kind.isOperator = true := by rwa [Kind.standard_led] at hl
          have hright : 0 ≤ (Bindings.standard.rightPower o.kind).toInt := by
            revert hop
            cases o.kind <;> decide
          have hlead : Leads (.rest L) [o] s₁ (.expr L) := by
            refine .of_cons fun v => ⟨fun hv => ?_, fun hv => .inr ⟨hop, hv⟩⟩
            rcases hv with hv | hv
            · rw [(hc _ _ hv).1] at hop; cases hop
            · exact hv.2
          rw [h₁]
          refine of_leads m₁ hlead ((operandOf_verdict ih hright hL hc (by simp at hlen; omega)).bind
            (by grind) fun w right s₂ m₂ _ => ?_)
          have hlen₂ := m₂.tokens_length
          exact ihk (by simp at hlen; omega) (by simp at hlen; omega) _

theorem readWithin_verdict (n : Nat) : ReadVerdict n := by
  induction n with
  | zero => intro m s L t _ _ _ hn; omega
  | succ n ih =>
    intro m s L t hm hL hc hn hf ht
    cases hr : Bindings.standard.nud t.kind with
    | none =>
      obtain ⟨s₁, h₁, m₁⟩ := @readWithin_of_stray .standard m s t n hf ht hr
      rw [h₁]
      refine of_moves m₁ (throw rfl (.of_front (m₁.front_eq.trans hf) hL.expr ?_))
      exact not_expr_of_nud hr
    | some role =>
      obtain ⟨s₁, h₁, m₁⟩ := @readWithin_of_nud .standard m s t n role hf ht hr
      have hlen := m₁.tokens_length
      have hn₁ : s₁.tokens.length < n := by simp at hlen; omega
      rw [h₁]
      refine of_leads m₁ (.of_cons (expr_cons_iff_of_nud hr))
        ((operandFrom_verdict ih hL hc hn₁ role hr).bind (by grind) fun w left s₂ m₂ _ => ?_)
      have hlen₂ := m₂.tokens_length
      refine (climb_verdict ih hm hL hc (by omega) n (by omega) left).bind (by grind)
        fun _ e s₃ _ hstop => ?_
      exact pure ⟨rfl, hstop⟩

end Expr

section
variable {context : String} {e : Error}

/-- A lexical error inside an expression goes through. -/
theorem expression_of_lexical (h : Expr.read .standard .lowest s = .error e s₁)
    (he : e.category = .lexical) : expression context s = .error e s₁ := by
  rw [expression, bind_of_ok (attempt_of_error h)]
  simp [Error.isFatal, he]

/-- A syntax error inside an expression is reported at its token. -/
theorem expression_of_syntactic (h : Expr.read .standard .lowest s = .error e s₁)
    (hx : e.cause.found = some x) :
    expression context s = (report e.cause.expected context x >>= fun _ => pure none) s₁ := by
  have he : e.category = .syntactic := (Cause.isSome_found_iff _).1 (by simp [hx])
  rw [expression, bind_of_ok (attempt_of_error h)]
  simp [Error.isFatal, he, offendingToken, hx]

end

/-- An expression that may be followed by the words of `L`. -/
theorem expression_verdict {context : String} (hL : L.Alive) (hc : L.Closes) :
    Verdict (.expr L) L s (fun w r _ => ∃ e, r = some e ∧ Expr.Tree w e)
      (expression context s) := by
  have hn : s.tokens.length < s.stream.remaining + 1 :=
    s.length_tokens_lt
  have hread : Expr.read .standard .lowest s =
      Expr.readWithin .standard (s.stream.remaining + 1) .lowest s := rfl
  cases hf : s.front with
  | error e =>
    obtain ⟨s₁, h₁, -⟩ :=
      @Expr.readWithin_of_front_error .standard .lowest s s.stream.remaining e hf
    have he := ending_of_front_error hf
    rw [expression_of_lexical h₁ (isLexical_of_ending he)]
    exact .breaks he
  | ok t =>
    cases ht : t.endsExpression with
    | true =>
      obtain ⟨s₁, h₁, m₁⟩ := @Expr.readWithin_of_ends .standard .lowest s t s.stream.remaining hf ht
      rw [expression, bind_of_ok (attempt_of_ok (hread.trans h₁))]
      exact .of_moves m₁ (.reportNext_bind (by grind) (m₁.front_eq.trans hf) hL.expr
        (Expr.not_expr_of_ends ht))
    | false =>
      have hv := Expr.readWithin_verdict _ .lowest s L t (by decide) hL hc hn hf ht
      rw [← hread] at hv
      generalize hr : Expr.read .standard .lowest s = r at hv
      cases hv with
      | @reads w a s₁ hm hl hq =>
        obtain ⟨e, rfl⟩ := Option.isSome_iff_exists.1 hq.1
        obtain ⟨w', le, re, t', hp, hm', -⟩ := Expr.readWithin_sound _ .lowest s e s₁ hn hr
        obtain rfl : w = w' := List.append_cancel_right (hm.tokens_eq.symm.trans hm'.tokens_eq)
        rw [expression, bind_of_ok (attempt_of_ok hr)]
        refine .reads hm ⟨fun v hv => hl.of_rest v (.inl hv), fun t v ht hv => ?_⟩
          ⟨e, rfl, le, re, hp⟩
        exact Lang.of_expr_append hp.derives hc (hq.2.not_isOperator ht) hv
      | @breaks e s₁ he =>
        rw [expression_of_lexical hr (isLexical_of_ending he)]
        exact .breaks he
      | @blames _ x ha hb =>
        rcases ha with ⟨d, more, hd, hx⟩ | ⟨e, s₁, rfl, hd, hx⟩
        · have hd' : (final (attempt (Expr.read .standard .lowest) s)).diagnostics =
              s.diagnostics ++ d :: more := by
            rw [← hd, ← hr]
            unfold attempt
            cases Expr.read .standard .lowest s <;> rfl
          exact .blames (.inl ((recorded_bind (by grind) hd').elim fun more' h =>
            ⟨d, more', h, hx⟩)) hb
        · have hd' := (report_moves e.cause.expected context x s₁).diagnostics_eq
          rw [hd] at hd'
          obtain ⟨more', hd''⟩ :=
            recorded_bind (fun _ => grows_lasting.pure (none : Option Expr)) hd'
          rw [expression_of_syntactic hr hx]
          exact .blames (.inl ⟨_, more', hd'', rfl⟩) hb

end FxLang
