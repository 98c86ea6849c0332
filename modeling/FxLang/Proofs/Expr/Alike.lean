import FxLang.Expr.Climbing
import FxLang.Proofs.Session.Twins

/-!
# Expressions on twins

The parsers of expressions end alike on sessions that differ in positions only, whatever the table:
it is asked for kinds, and the trees and errors of the two runs have the same tokens. The two runs
may be bounded by different numbers of rounds, as long as both are enough for the tokens left.

* `Expr.readWithin_alike`, `Expr.read_alike`: reading above a minimal binding power.
* `Expr.readWhole_alike`: reading an expression that uses up the input.
-/

namespace FxLang.Expr

open Session Alike

variable {m n₁ n₂ : Nat} {s₁ s₂ : Session}
  {table : Bindings} {read₁ read₂ : Reader} {least : BindingPower} {t₁ t₂ : Token}

/-- The readers end alike wherever fewer than `m` tokens are left. -/
def ReadAlike (m : Nat) (read₁ read₂ : Reader) : Prop :=
  ∀ least, AlikeBelow (Option.map bare) m (read₁ least) (read₂ least)

theorem ReadAlike.mono {m' : Nat} (h : ReadAlike m' read₁ read₂) (hm : m ≤ m') :
    ReadAlike m read₁ read₂ :=
  fun least => (h least).mono hm

theorem operandOf_alike (hr : ReadAlike m read₁ read₂) (h : Twins m s₁ s₂)
    (ht : t₁.bare = t₂.bare) :
    Alike bare m (operandOf read₁ t₁ least s₁) (operandOf read₂ t₂ least s₂) := by
  refine (hr least (Nat.le_refl m) h).bind_option ?_ ?_
  · intro _ _ h
    refine peek_bind h ?_
    intro x₁ x₂ _ _ h hn
    exact throw_atToken h (by simp [Cause.bare, ht, hn.bare_eq])
  · intro e₁ e₂ _ _ he h
    exact pure h he

theorem group_alike (hr : ReadAlike m read₁ read₂) (h : Twins m s₁ s₂) :
    Alike bare m (group read₁ s₁) (group read₂ s₂) := by
  refine (hr .lowest (Nat.le_refl m) h).bind_option ?_ ?_
  · intro _ _ h
    refine peek_bind h ?_
    intro x₁ x₂ _ _ h hn
    refine ite (by rw [hn.kind_eq]) ?_ ?_
    · intro hk
      refine advance_bind h hn (by simp [hk]) ?_
      intro _ _ h
      exact throw_atToken h (by simp [Cause.bare, hn.bare_eq])
    · intro _
      exact throw_atToken h (by simp [Cause.bare, hn.bare_eq])
  · intro e₁ e₂ _ _ he h
    refine peek_bind h ?_
    intro x₁ x₂ _ _ h hn
    refine ite (by rw [hn.kind_eq]) ?_ ?_
    · intro hk
      refine advance_bind h hn (by simp [hk]) ?_
      intro _ _ h
      exact pure h he
    · intro _
      exact throw_atToken h (by simp [Cause.bare, hn.bare_eq])

theorem operandFrom_alike (hr : ReadAlike m read₁ read₂) (h : Twins m s₁ s₂) (role : Nud)
    (ht : t₁.bare = t₂.bare) :
    Alike bare m (operandFrom table read₁ role t₁ s₁) (operandFrom table read₂ role t₂ s₂) := by
  cases role with
  | primary => exact pure h (by simp [bare, ht])
  | unary =>
    have hoperand : Alike bare m (operandOf read₁ t₁ (table.power t₁.kind) s₁)
        (operandOf read₂ t₂ (table.power t₂.kind) s₂) := by
      rw [Token.kind_of_bare ht]
      exact operandOf_alike hr h ht
    refine hoperand.bind ?_
    intro e₁ e₂ _ _ he h
    exact pure h (by simp [bare, ht, he])
  | grouping => exact group_alike hr h

theorem climb_alike (hr : ReadAlike m read₁ read₂) (h : Twins m s₁ s₂) (h₁ : m ≤ n₁)
    (h₂ : m ≤ n₂) {left₁ left₂ : Expr} (hleft : left₁.bare = left₂.bare) :
    Alike bare m (climb table read₁ least n₁ left₁ s₁) (climb table read₂ least n₂ left₂ s₂) := by
  induction m generalizing n₁ n₂ s₁ s₂ left₁ left₂ with
  | zero => exact absurd h.length_lt (Nat.not_lt_zero _)
  | succ m ih =>
    obtain ⟨n₁, rfl, hle₁⟩ := exists_eq_succ h₁
    obtain ⟨n₂, rfl, hle₂⟩ := exists_eq_succ h₂
    have hr' := hr.mono (Nat.le_succ m)
    refine peek_bind h ?_
    intro t₁ t₂ _ _ h hn
    have hk := hn.kind_eq
    refine ite (by unfold Token.endsExpression; rw [hk]) ?_ ?_
    · intro _
      exact pure h hleft
    · intro hstop
      have hne : t₁.kind ≠ .eof := by
        intro hk
        simp [Token.endsExpression, hk] at hstop
      refine ite (by rw [hk]) ?_ ?_
      · intro _
        refine advance_bind h hn hne ?_
        intro _ _ h
        refine emit_bind h _ _ ?_
        intro _ _ h
        rw [hk]
        refine (operandOf_alike hr' h hn.bare_eq).bind ?_
        intro right₁ right₂ _ _ hright h
        exact ih hr' h hle₁ hle₂ (by simp [bare, hn.bare_eq, hleft, hright])
      · intro _
        exact throw_atToken h (by simp [Cause.bare, hn.bare_eq])

/-- Readers with rounds enough for the tokens that are left. -/
theorem readWithin_alike (h₁ : m ≤ n₁) (h₂ : m ≤ n₂) :
    ReadAlike m (readWithin table n₁) (readWithin table n₂) := by
  induction m generalizing n₁ n₂ with
  | zero =>
    intro _ k _ _ hk h
    exact absurd h.length_lt (by omega)
  | succ m ih =>
    obtain ⟨n₁, rfl, hle₁⟩ := exists_eq_succ h₁
    obtain ⟨n₂, rfl, hle₂⟩ := exists_eq_succ h₂
    intro least k _ _ hk h
    have hle : k - 1 ≤ m := by omega
    have hr := (ih hle₁ hle₂).mono hle
    refine peek_bind h ?_
    intro t₁ t₂ _ _ h hn
    have hkind := hn.kind_eq
    refine ite (by unfold Token.endsExpression; rw [hkind]) ?_ ?_
    · intro _
      exact pure h rfl
    · intro hends
      have hne : t₁.kind ≠ .eof := by
        intro hk
        simp [Token.endsExpression, hk] at hends
      rw [← hkind]
      cases table.nud t₁.kind with
      | none => exact throw_atToken h (by simp [Cause.bare, hn.bare_eq])
      | some role =>
        refine advance_bind h hn hne ?_
        intro _ _ h
        refine emit_bind h _ _ ?_
        intro _ _ h
        refine (operandFrom_alike hr h role hn.bare_eq).bind ?_
        intro left₁ left₂ _ _ hleft h
        refine (climb_alike hr h (by omega) (by omega) hleft).bind ?_
        intro e₁ e₂ _ _ he h
        exact pure h (congrArg some he)

theorem read_alike (table : Bindings) (least : BindingPower) (h : Twins m s₁ s₂) :
    Alike (Option.map bare) m (read table least s₁) (read table least s₂) :=
  rounds_bind h fun k _ _ _ h₁ h₂ h => readWithin_alike h₁ h₂ least (Nat.le_refl k) h

theorem readWhole_alike (h : Twins m s₁ s₂) : Alike bare m (readWhole s₁) (readWhole s₂) := by
  refine (read_alike .standard .lowest h).bind_option ?_ ?_
  · intro _ _ h
    refine peek_bind h ?_
    intro t₁ t₂ _ _ h hn
    exact throw_atToken h (by simp [Cause.bare, hn.bare_eq])
  · intro e₁ e₂ _ _ he h
    refine peek_bind h ?_
    intro t₁ t₂ _ _ h hn
    refine ite (by unfold Token.isEof; rw [hn.kind_eq]) ?_ ?_
    · intro _
      exact pure h he
    · intro _
      exact throw_atToken h (by simp [Cause.bare, hn.bare_eq])

end FxLang.Expr
