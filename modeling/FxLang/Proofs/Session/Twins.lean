import FxLang.Expr.Basic
import FxLang.Proofs.Session.Moves

/-!
# Sessions that differ in positions only

Two sources may have the same tokens at different places. `bare` takes the positions away from
tokens, trees, diagnostics and errors, and `Session.Twins m s₁ s₂` says that two sessions have the
same tokens to come and the same diagnostics up to positions, that no lexical error is ahead, and
that fewer than `m` tokens are left.

A parser that is run on twins is followed step by step in both: `Alike f m r₁ r₂` says that the two
runs ended in the same way, with values that `f` does not tell apart, and that the sessions they left
behind are twins again. The bound `m` goes down with every token that is taken, so it bounds the
rounds of the loops in both runs, although these count different numbers of rounds.

* `Alike.bind`, `Alike.peek_bind`, `Alike.advance_bind`: one step, and then the rest.
* `Alike.rounds_bind`: both runs have rounds enough.
* `Alike.skipTo`: skipping stops at the same token.
-/

namespace FxLang

/-! ## Without positions -/

/-- The position of what has none. -/
def Position.nowhere : Position := { file := "", line := 0 }

/-- The token without its position. -/
def Token.bare (t : Token) : Token :=
  { t with position := .nowhere }

theorem Token.bare_eq_iff {t u : Token} :
    t.bare = u.bare ↔ t.kind = u.kind ∧ t.text = u.text ∧ t.literal = u.literal := by
  unfold bare
  constructor
  · intro h
    injection h with hkind htext _ hliteral
    exact ⟨hkind, htext, hliteral⟩
  · intro ⟨hkind, htext, hliteral⟩
    rw [hkind, htext, hliteral]

theorem Token.kind_of_bare {t u : Token} (h : t.bare = u.bare) : t.kind = u.kind :=
  (bare_eq_iff.1 h).1

theorem Token.text_of_bare {t u : Token} (h : t.bare = u.bare) : t.text = u.text :=
  (bare_eq_iff.1 h).2.1

/-- The expression without the positions of its tokens. -/
def Expr.bare : Expr → Expr
  | .leaf token => .leaf token.bare
  | .unary operator operand => .unary operator.bare operand.bare
  | .trailing operator operand => .trailing operator.bare operand.bare
  | .binary operator left right => .binary operator.bare left.bare right.bare

/-- The diagnostic without its position and that of its token. -/
def Diagnostic.bare (d : Diagnostic) : Diagnostic :=
  { d with found := d.found.bare, position := .nowhere }

namespace Cause

/-- The cause without the positions of its tokens. -/
def bare : Cause → Cause
  | .cannotStart found => .cannotStart found.bare
  | .cannotFollow found => .cannotFollow found.bare
  | .missingOperand operator found => .missingOperand operator.bare found.bare
  | .unmatchedParenthesis found => .unmatchedParenthesis found.bare
  | .emptyExpression found => .emptyExpression found.bare
  | .trailingInput found => .trailingInput found.bare
  | cause => cause

theorem expected_bare (c : Cause) : c.bare.expected = c.expected := by
  cases c <;> rfl

theorem found_bare (c : Cause) : c.bare.found = c.found.map Token.bare := by
  cases c <;> rfl

theorem category_bare (c : Cause) : c.bare.category = c.category := by
  cases c <;> rfl

/-- A cause without a token has no position to lose. -/
theorem bare_of_found {c : Cause} (h : c.found = none) : c.bare = c := by
  cases c <;> first | rfl | cases h

end Cause

/-- The error without positions. -/
def Error.bare (e : Error) : Error :=
  { cause := e.cause.bare, position := .nowhere }

theorem Error.bare_eq_iff {e₁ e₂ : Error} : e₁.bare = e₂.bare ↔ e₁.cause.bare = e₂.cause.bare := by
  unfold bare
  simp

/-! ## Twins -/

namespace Session

/-- The sessions differ in positions only, both come to the end of the input, and fewer than `m`
tokens are left. -/
structure Twins (m : Nat) (s₁ s₂ : Session) : Prop where
  tokens_eq : s₁.tokens.map Token.bare = s₂.tokens.map Token.bare
  ending : ∃ t₁ t₂, s₁.ending = .ok t₁ ∧ s₂.ending = .ok t₂ ∧ t₁.bare = t₂.bare
  diagnostics_eq : s₁.diagnostics.map Diagnostic.bare = s₂.diagnostics.map Diagnostic.bare
  errorCount_eq : s₁.errorCount = s₂.errorCount
  length_lt : s₁.tokens.length < m

/-- The tokens are next in the two sessions, and they differ in their positions only. -/
structure Next (s₁ s₂ : Session) (t₁ t₂ : Token) : Prop where
  left : s₁.front = .ok t₁
  right : s₂.front = .ok t₂
  bare_eq : t₁.bare = t₂.bare

theorem Next.kind_eq {s₁ s₂ : Session} {t₁ t₂ : Token} (h : Next s₁ s₂ t₁ t₂) :
    t₁.kind = t₂.kind :=
  Token.kind_of_bare h.bare_eq

theorem Next.still {s₁ s₂ s₁' s₂' : Session} {t₁ t₂ : Token} (h : Next s₁ s₂ t₁ t₂)
    (h₁ : s₁.Moves [] [] s₁') (h₂ : s₂.Moves [] [] s₂') : Next s₁' s₂' t₁ t₂ :=
  ⟨h₁.front_eq.trans h.left, h₂.front_eq.trans h.right, h.bare_eq⟩

namespace Twins

variable {m m' : Nat} {s₁ s₂ s₁' s₂' : Session} {w₁ w₂ : List Token} {ds₁ ds₂ : List Diagnostic}

theorem length_eq (h : Twins m s₁ s₂) : s₁.tokens.length = s₂.tokens.length := by
  have := congrArg List.length h.tokens_eq
  simpa using this

/-- Any bound that fits will do. -/
theorem of_length_lt (h : Twins m s₁ s₂) (hlt : s₁.tokens.length < m') : Twins m' s₁ s₂ :=
  { h with length_lt := hlt }

theorem mono (h : Twins m s₁ s₂) (hm : m ≤ m') : Twins m' s₁ s₂ :=
  h.of_length_lt (Nat.lt_of_lt_of_le h.length_lt hm)

/-- There is a next token in both sessions, if only the end of the input. -/
theorem exists_next (h : Twins m s₁ s₂) : ∃ t₁ t₂, Next s₁ s₂ t₁ t₂ := by
  have htokens := h.tokens_eq
  cases h₁ : s₁.tokens with
  | nil =>
    rw [h₁, List.map_nil, eq_comm, List.map_eq_nil_iff] at htokens
    obtain ⟨t₁, t₂, he₁, he₂, hbare⟩ := h.ending
    exact ⟨t₁, t₂, (front_of_nil h₁).trans he₁, (front_of_nil htokens).trans he₂, hbare⟩
  | cons t₁ ts₁ =>
    rw [h₁, List.map_cons, eq_comm, List.map_eq_cons_iff] at htokens
    obtain ⟨t₂, ts₂, h₂, hbare, -⟩ := htokens
    exact ⟨t₁, t₂, front_of_tokens h₁, front_of_tokens h₂, hbare.symm⟩

/-- Twins stay twins when they take the same tokens and record the same diagnostics, up to
positions. The bound goes down by the tokens taken. -/
theorem moves (h : Twins m s₁ s₂) (h₁ : s₁.Moves w₁ ds₁ s₁') (h₂ : s₂.Moves w₂ ds₂ s₂')
    (hw : w₁.map Token.bare = w₂.map Token.bare)
    (hds : ds₁.map Diagnostic.bare = ds₂.map Diagnostic.bare) :
    Twins (m - w₁.length) s₁' s₂' where
  tokens_eq := by
    have htokens := h.tokens_eq
    rw [h₁.tokens_eq, h₂.tokens_eq, List.map_append, List.map_append, hw] at htokens
    exact List.append_cancel_left htokens
  ending := by
    rw [h₁.ending_eq, h₂.ending_eq]
    exact h.ending
  diagnostics_eq := by
    rw [h₁.diagnostics_eq, h₂.diagnostics_eq, List.map_append, List.map_append, h.diagnostics_eq,
      hds]
  errorCount_eq := by
    have hlen := congrArg List.length hds
    rw [List.length_map, List.length_map] at hlen
    rw [h₁.errorCount_eq, h₂.errorCount_eq, h.errorCount_eq, hlen]
  length_lt := by
    have hlen := h₁.tokens_length
    have hlt := h.length_lt
    omega

/-- Neither takes or records anything. -/
theorem still (h : Twins m s₁ s₂) (h₁ : s₁.Moves [] [] s₁') (h₂ : s₂.Moves [] [] s₂') :
    Twins m s₁' s₂' :=
  h.moves h₁ h₂ rfl rfl

end Twins

end Session

open Session

/-! ## Runs on twins -/

variable {α β γ δ : Type}

/-- The runs of a parser on two sessions ended alike: with values that `f` does not tell apart, or
with errors that differ in positions only, and in twins either way. -/
inductive Alike (f : α → β) (m : Nat) :
    EStateM.Result Error Session α → EStateM.Result Error Session α → Prop
  | goes {a₁ a₂ : α} {s₁ s₂ : Session} (hs : Twins m s₁ s₂) (ha : f a₁ = f a₂) :
      Alike f m (.ok a₁ s₁) (.ok a₂ s₂)
  | fails {e₁ e₂ : Error} {s₁ s₂ : Session} (hs : Twins m s₁ s₂) (he : e₁.bare = e₂.bare) :
      Alike f m (.error e₁ s₁) (.error e₂ s₂)

/-- The parsers end alike wherever fewer than `m` tokens are left. -/
def AlikeBelow (f : α → β) (m : Nat) (x₁ x₂ : ParseM α) : Prop :=
  ∀ ⦃k s₁ s₂⦄, k ≤ m → Twins k s₁ s₂ → Alike f k (x₁ s₁) (x₂ s₂)

theorem AlikeBelow.mono {f : α → β} {m m' : Nat} {x₁ x₂ : ParseM α} (h : AlikeBelow f m' x₁ x₂)
    (hm : m ≤ m') : AlikeBelow f m x₁ x₂ :=
  fun _ _ _ hk hs => h (Nat.le_trans hk hm) hs

namespace Alike

variable {f : α → β} {g : γ → δ} {m m' : Nat} {s₁ s₂ : Session} {x₁ x₂ y₁ y₂ : ParseM α}
  {t₁ t₂ : Token} {k : Kind} {expected context : String}

theorem mono {r₁ r₂ : EStateM.Result Error Session α} (h : Alike f m r₁ r₂) (hm : m ≤ m') :
    Alike f m' r₁ r₂ := by
  cases h with
  | goes hs ha => exact .goes (hs.mono hm) ha
  | fails hs he => exact .fails (hs.mono hm) he

theorem pure {a₁ a₂ : α} (h : Twins m s₁ s₂) (ha : f a₁ = f a₂) :
    Alike f m ((Pure.pure a₁ : ParseM α) s₁) ((Pure.pure a₂ : ParseM α) s₂) :=
  .goes h ha

theorem throw {e₁ e₂ : Error} (h : Twins m s₁ s₂) (he : e₁.bare = e₂.bare) :
    Alike f m ((MonadExcept.throw e₁ : ParseM α) s₁) ((MonadExcept.throw e₂ : ParseM α) s₂) :=
  .fails h he

/-- The same error about a token. -/
theorem throw_atToken {c₁ c₂ : Token → Cause} (h : Twins m s₁ s₂)
    (hc : (c₁ t₁).bare = (c₂ t₂).bare) :
    Alike f m ((MonadExcept.throw (.atToken c₁ t₁) : ParseM α) s₁)
      ((MonadExcept.throw (.atToken c₂ t₂) : ParseM α) s₂) :=
  throw h (Error.bare_eq_iff.2 hc)

/-- Both runs take the same of two ways on. -/
theorem ite {p₁ p₂ : Prop} [Decidable p₁] [Decidable p₂] (hp : p₁ ↔ p₂)
    (hx : p₁ → Alike f m (x₁ s₁) (x₂ s₂)) (hy : ¬ p₁ → Alike f m (y₁ s₁) (y₂ s₂)) :
    Alike f m ((if p₁ then x₁ else y₁) s₁) ((if p₂ then x₂ else y₂) s₂) := by
  by_cases h : p₁
  · rw [if_pos h, if_pos (hp.1 h)]
    exact hx h
  · rw [if_neg h, if_neg (fun h₂ => h (hp.2 h₂))]
    exact hy h

section Bind
variable {g₁ g₂ : α → ParseM γ}

/-- One step and then the rest, given what the step did in the first run. -/
theorem bind_of_run (hx : Alike f m (x₁ s₁) (x₂ s₂))
    (hg : ∀ a₁ a₂ s₁' s₂', x₁ s₁ = .ok a₁ s₁' → f a₁ = f a₂ → Twins m s₁' s₂' →
      Alike g m (g₁ a₁ s₁') (g₂ a₂ s₂')) :
    Alike g m ((x₁ >>= g₁) s₁) ((x₂ >>= g₂) s₂) := by
  generalize h₁ : x₁ s₁ = r₁ at hx
  generalize h₂ : x₂ s₂ = r₂ at hx
  cases hx with
  | goes hs ha =>
    rw [bind_of_ok h₁, bind_of_ok h₂]
    exact hg _ _ _ _ h₁ ha hs
  | fails hs he =>
    rw [bind_of_error h₁, bind_of_error h₂]
    exact .fails hs he

/-- One step, and then the rest. -/
theorem bind (hx : Alike f m (x₁ s₁) (x₂ s₂))
    (hg : ∀ a₁ a₂ s₁' s₂', f a₁ = f a₂ → Twins m s₁' s₂' → Alike g m (g₁ a₁ s₁') (g₂ a₂ s₂')) :
    Alike g m ((x₁ >>= g₁) s₁) ((x₂ >>= g₂) s₂) :=
  hx.bind_of_run fun a₁ a₂ s₁' s₂' _ => hg a₁ a₂ s₁' s₂'

/-- A step that gives the same value in both runs. -/
theorem bind_same (hx : Alike id m (x₁ s₁) (x₂ s₂))
    (hg : ∀ a s₁' s₂', Twins m s₁' s₂' → Alike g m (g₁ a s₁') (g₂ a s₂')) :
    Alike g m ((x₁ >>= g₁) s₁) ((x₂ >>= g₂) s₂) := by
  refine hx.bind ?_
  intro a₁ a₂ s₁' s₂' (ha : a₁ = a₂) h
  rw [ha]
  exact hg a₂ s₁' s₂' h

end Bind

/-- Two options that `f` does not tell apart. -/
theorem none_or_some_of_map {o₁ o₂ : Option α} (h : o₁.map f = o₂.map f) :
    (o₁ = none ∧ o₂ = none) ∨ ∃ a₁ a₂, o₁ = some a₁ ∧ o₂ = some a₂ ∧ f a₁ = f a₂ := by
  cases o₁ with
  | none =>
    rw [Option.map_none, eq_comm, Option.map_eq_none_iff] at h
    exact .inl ⟨rfl, h⟩
  | some a₁ =>
    rw [Option.map_some, eq_comm, Option.map_eq_some_iff] at h
    obtain ⟨a₂, h₂, ha⟩ := h
    exact .inr ⟨a₁, a₂, rfl, h₂, ha.symm⟩

theorem isNone_eq_of_map {o₁ o₂ : Option α} (h : o₁.map f = o₂.map f) : o₁.isNone = o₂.isNone := by
  rw [← Option.isNone_map, h, Option.isNone_map]

/-- Lists with one more in front, if there is one. -/
theorem map_toList_append {o₁ o₂ : Option α} {rest₁ rest₂ : List α} (ho : o₁.map f = o₂.map f)
    (hrest : rest₁.map f = rest₂.map f) :
    (o₁.toList ++ rest₁).map f = (o₂.toList ++ rest₂).map f := by
  rw [List.map_append, List.map_append, ← Option.toList_map, ho, Option.toList_map, hrest]

/-- A step that may come to nothing, in both runs or in none. -/
theorem bind_option {x₁ x₂ : ParseM (Option α)} {g₁ g₂ : Option α → ParseM γ}
    (hx : Alike (Option.map f) m (x₁ s₁) (x₂ s₂))
    (hnone : ∀ s₁' s₂', Twins m s₁' s₂' → Alike g m (g₁ none s₁') (g₂ none s₂'))
    (hsome : ∀ a₁ a₂ s₁' s₂', f a₁ = f a₂ → Twins m s₁' s₂' →
      Alike g m (g₁ (some a₁) s₁') (g₂ (some a₂) s₂')) :
    Alike g m ((x₁ >>= g₁) s₁) ((x₂ >>= g₂) s₂) := by
  refine hx.bind ?_
  intro o₁ o₂ s₁' s₂' ho h
  rcases none_or_some_of_map ho with ⟨rfl, rfl⟩ | ⟨a₁, a₂, rfl, rfl, ha⟩
  · exact hnone s₁' s₂' h
  · exact hsome a₁ a₂ s₁' s₂' ha h

/-- A failure that is handed over as a value. -/
theorem attempt_bind {g₁ g₂ : Except Error α → ParseM γ} (hx : Alike f m (x₁ s₁) (x₂ s₂))
    (hok : ∀ a₁ a₂ s₁' s₂', f a₁ = f a₂ → Twins m s₁' s₂' →
      Alike g m (g₁ (.ok a₁) s₁') (g₂ (.ok a₂) s₂'))
    (herror : ∀ e₁ e₂ s₁' s₂', e₁.bare = e₂.bare → Twins m s₁' s₂' →
      Alike g m (g₁ (.error e₁) s₁') (g₂ (.error e₂) s₂')) :
    Alike g m ((attempt x₁ >>= g₁) s₁) ((attempt x₂ >>= g₂) s₂) := by
  generalize h₁ : x₁ s₁ = r₁ at hx
  generalize h₂ : x₂ s₂ = r₂ at hx
  cases hx with
  | goes hs ha =>
    rw [bind_of_ok (attempt_of_ok h₁), bind_of_ok (attempt_of_ok h₂)]
    exact hok _ _ _ _ ha hs
  | fails hs he =>
    rw [bind_of_ok (attempt_of_error h₁), bind_of_ok (attempt_of_error h₂)]
    exact herror _ _ _ _ he hs

/-! ## Small steps -/

/-- An event is logged, and the next tokens are still the same. -/
theorem emit_bind_of_next {g₁ g₂ : Unit → ParseM α} (h : Twins m s₁ s₂) (hn : Next s₁ s₂ t₁ t₂)
    (event₁ event₂ : Event)
    (hg : ∀ s₁' s₂', Twins m s₁' s₂' → Next s₁' s₂' t₁ t₂ → Alike f m (g₁ () s₁') (g₂ () s₂')) :
    Alike f m ((emit event₁ >>= g₁) s₁) ((emit event₂ >>= g₂) s₂) := by
  obtain ⟨s₁', h₁, hm₁⟩ := bind_emit event₁ g₁ s₁
  obtain ⟨s₂', h₂, hm₂⟩ := bind_emit event₂ g₂ s₂
  rw [h₁, h₂]
  exact hg s₁' s₂' (h.still hm₁ hm₂) (hn.still hm₁ hm₂)

theorem emit_bind {g₁ g₂ : Unit → ParseM α} (h : Twins m s₁ s₂) (event₁ event₂ : Event)
    (hg : ∀ s₁' s₂', Twins m s₁' s₂' → Alike f m (g₁ () s₁') (g₂ () s₂')) :
    Alike f m ((emit event₁ >>= g₁) s₁) ((emit event₂ >>= g₂) s₂) := by
  obtain ⟨t₁, t₂, hn⟩ := h.exists_next
  exact emit_bind_of_next h hn event₁ event₂ fun s₁' s₂' h _ => hg s₁' s₂' h

theorem countErrors_bind {g₁ g₂ : Nat → ParseM α} (h : Twins m s₁ s₂)
    (hg : ∀ n, n = s₁.errorCount → Alike f m (g₁ n s₁) (g₂ n s₂)) :
    Alike f m ((countErrors >>= g₁) s₁) ((countErrors >>= g₂) s₂) := by
  rw [bind_of_ok (countErrors_apply s₁), bind_of_ok (countErrors_apply s₂), ← h.errorCount_eq]
  exact hg _ rfl

/-- Both runs have rounds for all tokens that are left. -/
theorem rounds_bind {g₁ g₂ : Nat → ParseM α} (h : Twins m s₁ s₂)
    (hg : ∀ k n₁ n₂, k ≤ m → k ≤ n₁ → k ≤ n₂ → Twins k s₁ s₂ →
      Alike f k (g₁ n₁ s₁) (g₂ n₂ s₂)) :
    Alike f m ((rounds >>= g₁) s₁) ((rounds >>= g₂) s₂) := by
  rw [bind_of_ok (rounds_apply s₁), bind_of_ok (rounds_apply s₂)]
  have hm : s₁.tokens.length + 1 ≤ m := h.length_lt
  have h₁ : s₁.tokens.length + 1 ≤ s₁.stream.remaining + 1 := s₁.length_tokens_lt
  have h₂ : s₁.tokens.length + 1 ≤ s₂.stream.remaining + 1 := h.length_eq ▸ s₂.length_tokens_lt
  exact (hg _ _ _ hm h₁ h₂ (h.of_length_lt (Nat.lt_succ_self _))).mono hm

/-- The same token is looked at in both runs. -/
theorem exists_peek (h : Twins m s₁ s₂) :
    ∃ t₁ t₂ s₁' s₂', Session.peek s₁ = .ok t₁ s₁' ∧ Session.peek s₂ = .ok t₂ s₂' ∧
      Twins m s₁' s₂' ∧ Next s₁' s₂' t₁ t₂ := by
  obtain ⟨t₁, t₂, hn⟩ := h.exists_next
  obtain ⟨s₁', h₁, hm₁⟩ := peek_of_front hn.left
  obtain ⟨s₂', h₂, hm₂⟩ := peek_of_front hn.right
  exact ⟨t₁, t₂, s₁', s₂', h₁, h₂, h.still hm₁ hm₂, hn.still hm₁ hm₂⟩

theorem peek (h : Twins m s₁ s₂) : Alike Token.bare m (peek s₁) (peek s₂) := by
  obtain ⟨t₁, t₂, s₁', s₂', h₁, h₂, h', hn⟩ := exists_peek h
  rw [h₁, h₂]
  exact .goes h' hn.bare_eq

theorem peek_bind {g₁ g₂ : Token → ParseM α} (h : Twins m s₁ s₂)
    (hg : ∀ t₁ t₂ s₁' s₂', Twins m s₁' s₂' → Next s₁' s₂' t₁ t₂ →
      Alike f m (g₁ t₁ s₁') (g₂ t₂ s₂')) :
    Alike f m ((Session.peek >>= g₁) s₁) ((Session.peek >>= g₂) s₂) := by
  obtain ⟨t₁, t₂, s₁', s₂', h₁, h₂, h', hn⟩ := exists_peek h
  rw [bind_of_ok h₁, bind_of_ok h₂]
  exact hg t₁ t₂ s₁' s₂' h' hn

theorem peekKind_bind {g₁ g₂ : Kind → ParseM α} (h : Twins m s₁ s₂)
    (hg : ∀ t₁ t₂ s₁' s₂', Twins m s₁' s₂' → Next s₁' s₂' t₁ t₂ →
      Alike f m (g₁ t₁.kind s₁') (g₂ t₁.kind s₂')) :
    Alike f m ((peekKind >>= g₁) s₁) ((peekKind >>= g₂) s₂) := by
  have hg₁ : (peekKind >>= g₁) s₁ = (Session.peek >>= fun t => g₁ t.kind) s₁ := by
    simp only [peekKind, bind_assoc, pure_bind]
  have hg₂ : (peekKind >>= g₂) s₂ = (Session.peek >>= fun t => g₂ t.kind) s₂ := by
    simp only [peekKind, bind_assoc, pure_bind]
  rw [hg₁, hg₂]
  refine peek_bind h ?_
  intro t₁ t₂ s₁' s₂' h' hn
  rw [← hn.kind_eq]
  exact hg t₁ t₂ s₁' s₂' h' hn

theorem nextIs_bind {g₁ g₂ : Bool → ParseM α} (h : Twins m s₁ s₂)
    (hg : ∀ t₁ t₂ s₁' s₂', Twins m s₁' s₂' → Next s₁' s₂' t₁ t₂ →
      Alike f m (g₁ (t₁.kind = k) s₁') (g₂ (t₁.kind = k) s₂')) :
    Alike f m ((nextIs k >>= g₁) s₁) ((nextIs k >>= g₂) s₂) := by
  have hg₁ : (nextIs k >>= g₁) s₁ = (peekKind >>= fun k' => g₁ (k' = k)) s₁ := by
    simp only [nextIs, bind_assoc, pure_bind]
  have hg₂ : (nextIs k >>= g₂) s₂ = (peekKind >>= fun k' => g₂ (k' = k)) s₂ := by
    simp only [nextIs, bind_assoc, pure_bind]
  rw [hg₁, hg₂]
  exact peekKind_bind h hg

/-- The kind of the next token decides between two ways on, and in both runs for the same one. -/
theorem nextIs_ite (h : Twins m s₁ s₂)
    (hx : ∀ t₁ t₂ s₁' s₂', Twins m s₁' s₂' → Next s₁' s₂' t₁ t₂ → t₁.kind = k →
      Alike f m (x₁ s₁') (x₂ s₂'))
    (hy : ∀ s₁' s₂', Twins m s₁' s₂' → Alike f m (y₁ s₁') (y₂ s₂')) :
    Alike f m ((nextIs k >>= fun b => if b = true then x₁ else y₁) s₁)
      ((nextIs k >>= fun b => if b = true then x₂ else y₂) s₂) := by
  refine nextIs_bind h ?_
  intro t₁ t₂ s₁' s₂' h' hn
  refine ite Iff.rfl ?_ ?_
  · intro ht
    exact hx t₁ t₂ s₁' s₂' h' hn (of_decide_eq_true ht)
  · intro _
    exact hy s₁' s₂' h'

/-- The same token is taken in both runs, and one token less is left. -/
theorem exists_advance (h : Twins m s₁ s₂) (hn : Next s₁ s₂ t₁ t₂) (ht : t₁.kind ≠ .eof) :
    ∃ s₁' s₂', advance s₁ = .ok t₁ s₁' ∧ advance s₂ = .ok t₂ s₂' ∧ Twins (m - 1) s₁' s₂' := by
  obtain ⟨s₁', h₁, hm₁⟩ := advance_of_front hn.left ht
  obtain ⟨s₂', h₂, hm₂⟩ := advance_of_front hn.right (hn.kind_eq ▸ ht)
  have hw : [t₁].map Token.bare = [t₂].map Token.bare := congrArg (fun t => [t]) hn.bare_eq
  exact ⟨s₁', s₂', h₁, h₂, h.moves hm₁ hm₂ hw rfl⟩

theorem advance_bind {g₁ g₂ : Token → ParseM α} (h : Twins m s₁ s₂) (hn : Next s₁ s₂ t₁ t₂)
    (ht : t₁.kind ≠ .eof)
    (hg : ∀ s₁' s₂', Twins (m - 1) s₁' s₂' → Alike f (m - 1) (g₁ t₁ s₁') (g₂ t₂ s₂')) :
    Alike f m ((advance >>= g₁) s₁) ((advance >>= g₂) s₂) := by
  obtain ⟨s₁', s₂', h₁, h₂, h'⟩ := exists_advance h hn ht
  rw [bind_of_ok h₁, bind_of_ok h₂]
  exact (hg s₁' s₂' h').mono (Nat.sub_le m 1)

/-- A token is taken although the bound was lowered before. -/
theorem advance_bind_same {g₁ g₂ : Token → ParseM α} (h : Twins m s₁ s₂) (hn : Next s₁ s₂ t₁ t₂)
    (ht : t₁.kind ≠ .eof)
    (hg : ∀ s₁' s₂', Twins m s₁' s₂' → Alike f m (g₁ t₁ s₁') (g₂ t₂ s₂')) :
    Alike f m ((advance >>= g₁) s₁) ((advance >>= g₂) s₂) := by
  obtain ⟨s₁', s₂', h₁, h₂, h'⟩ := exists_advance h hn ht
  rw [bind_of_ok h₁, bind_of_ok h₂]
  exact hg s₁' s₂' (h'.mono (Nat.sub_le m 1))

/-! ## Reports -/

/-- The same is reported in both runs, and both are given up for it or none. -/
theorem report (h : Twins m s₁ s₂) (ht : t₁.bare = t₂.bare) :
    Alike id m (report expected context t₁ s₁) (report expected context t₂ s₂) := by
  have hd : [({ expected, context, found := t₁ } : Diagnostic)].map Diagnostic.bare =
      [({ expected, context, found := t₂ } : Diagnostic)].map Diagnostic.bare := by
    simp [Diagnostic.bare, ht]
  have hcount := h.errorCount_eq
  by_cases hle : maxErrors ≤ s₁.errorCount + 1
  · obtain ⟨s₁', h₁, hm₁⟩ := @report_of_le s₁ t₁ expected context hle
    obtain ⟨s₂', h₂, hm₂⟩ := @report_of_le s₂ t₂ expected context (hcount ▸ hle)
    rw [h₁, h₂]
    exact .fails (h.moves hm₁ hm₂ rfl hd) (Error.bare_eq_iff.2 (by rw [hcount]))
  · obtain ⟨s₁', h₁, hm₁⟩ := @report_of_lt s₁ t₁ expected context (Nat.lt_of_not_le hle)
    obtain ⟨s₂', h₂, hm₂⟩ := @report_of_lt s₂ t₂ expected context (hcount ▸ Nat.lt_of_not_le hle)
    rw [h₁, h₂]
    exact .goes (h.moves hm₁ hm₂ rfl hd) rfl

theorem reportNext (h : Twins m s₁ s₂) :
    Alike id m (reportNext expected context s₁) (reportNext expected context s₂) :=
  peek_bind h fun _ _ _ _ h' hn => report h' hn.bare_eq

theorem expect (h : Twins m s₁ s₂) (hk : k ≠ .eof) :
    Alike (Option.map Token.bare) m (expect k expected context s₁)
      (expect k expected context s₂) := by
  refine nextIs_ite h ?_ ?_
  · intro t₁ t₂ s₁' s₂' h' hn ht
    refine advance_bind h' hn (ht ▸ hk) fun _ _ h'' => pure h'' ?_
    simp [hn.bare_eq]
  · intro s₁' s₂' h'
    exact (reportNext h').bind_same fun _ _ _ h'' => pure h'' rfl

/-! ## Skipping -/

variable {markers : List Kind}

/-- Skipping stops in front of the token that it returns. -/
theorem front_of_skipTo {n : Nat} {s s' : Session} {marker : Token}
    (h : Session.skipTo markers context n s = .ok marker s') : s'.front = .ok marker := by
  induction n generalizing s with
  | zero => exact front_of_peek h
  | succ n ih =>
    obtain ⟨t, s₁, hpeek, h⟩ := bind_eq_ok h
    split at h
    · cases h
      exact (Moves.log s₁ _).front_eq.trans (front_of_peek hpeek)
    · split at h
      · cases h
      · obtain ⟨t', s₂, -, h⟩ := bind_eq_ok h
        exact ih h

theorem skipTo {n₁ n₂ : Nat} (h : Twins m s₁ s₂) (h₁ : m ≤ n₁) (h₂ : m ≤ n₂) :
    Alike Token.bare m (skipTo markers context n₁ s₁) (skipTo markers context n₂ s₂) := by
  induction m generalizing n₁ n₂ s₁ s₂ with
  | zero => exact absurd h.length_lt (Nat.not_lt_zero _)
  | succ m ih =>
    obtain ⟨n₁, rfl, hle₁⟩ := exists_eq_succ h₁
    obtain ⟨n₂, rfl, hle₂⟩ := exists_eq_succ h₂
    refine peek_bind h ?_
    intro t₁ t₂ s₁' s₂' h' hn
    have hk := hn.kind_eq
    refine ite (by rw [hk]) ?_ ?_
    · intro _
      exact emit_bind h' _ _ fun _ _ h'' => pure h'' hn.bare_eq
    · intro _
      refine ite (by unfold Token.isEof; rw [hk]) ?_ ?_
      · intro _
        exact throw h' rfl
      · intro heof
        have hne : t₁.kind ≠ .eof := by simpa [Token.isEof] using heof
        exact advance_bind h' hn hne fun _ _ h'' => ih h'' hle₁ hle₂

theorem synchronize (h : Twins m s₁ s₂) :
    Alike Token.bare m (synchronize markers context s₁) (synchronize markers context s₂) :=
  rounds_bind h fun _ _ _ _ h₁ h₂ h' => skipTo h' h₁ h₂

/-- Tokens are skipped, and the value is known. -/
theorem synchronize_pure {a : α} (h : Twins m s₁ s₂) :
    Alike f m ((Session.synchronize markers context >>= fun _ => (Pure.pure a : ParseM α)) s₁)
      ((Session.synchronize markers context >>= fun _ => (Pure.pure a : ParseM α)) s₂) :=
  (synchronize h).bind fun _ _ _ _ _ h => pure h rfl

theorem takeMarker (h : Twins m s₁ s₂) (hf : s₁.front = .ok t₁) (ht : t₁.bare = t₂.bare)
    (hk : k ≠ .eof) : Alike id m (takeMarker t₁ k s₁) (takeMarker t₂ k s₂) := by
  refine ite (by rw [Token.kind_of_bare ht]) ?_ ?_
  · intro hkind
    obtain ⟨t, t', hn⟩ := h.exists_next
    have htt : t = t₁ := by
      have hleft := hn.left
      rw [hf] at hleft
      exact (Except.ok.inj hleft).symm
    exact advance_bind h hn (by rwa [htt, hkind]) fun _ _ h' => pure h' rfl
  · intro _
    exact pure h rfl

/-- A marker is skipped to and taken if it is of the kind. -/
theorem synchronize_takeMarker {g₁ g₂ : Unit → ParseM α} (h : Twins m s₁ s₂) (hk : k ≠ .eof)
    (hg : ∀ s₁' s₂', Twins m s₁' s₂' → Alike f m (g₁ () s₁') (g₂ () s₂')) :
    Alike f m
      ((Session.synchronize markers context >>= fun marker =>
        Session.takeMarker marker k >>= g₁) s₁)
      ((Session.synchronize markers context >>= fun marker =>
        Session.takeMarker marker k >>= g₂) s₂) := by
  refine (synchronize h).bind_of_run ?_
  intro t₁ t₂ s₁' s₂' hrun ht h'
  exact (takeMarker h' (front_of_skipTo hrun) ht hk).bind_same fun _ s₁'' s₂'' h'' =>
    hg s₁'' s₂'' h''

theorem recoverStatement (h : Twins m s₁ s₂) :
    Alike id m (recoverStatement context s₁) (recoverStatement context s₂) := by
  refine (synchronize h).bind_of_run ?_
  intro t₁ t₂ s₁' s₂' hrun ht h'
  exact takeMarker h' (front_of_skipTo hrun) ht (by simp)

/-- Tokens are skipped up to the end of a statement, and the value is known. -/
theorem recoverStatement_pure {a : α} (h : Twins m s₁ s₂) :
    Alike f m ((Session.recoverStatement context >>= fun _ => (Pure.pure a : ParseM α)) s₁)
      ((Session.recoverStatement context >>= fun _ => (Pure.pure a : ParseM α)) s₂) :=
  (recoverStatement h).bind_same fun _ _ _ h => pure h rfl

end Alike

end FxLang
