import FxLang.Proofs.Expr.Standalone
import FxLang.Proofs.Session.Recursion

/-!
# Expressions go round behind a token

The parser of expressions calls itself for the operand of a sign, for the inside of a group and for
the right operand of an operator, and it goes round once for each operator behind a left operand.
Under any table, every one of these calls, and every further round, comes behind a token that was
taken since the call before.

`climbRound` is one round of the loop and `readRound` one call, both with what they go on with as an
argument. They count nothing.

* `climb_recursion`: the loop, with any reader of operands.
* `read_recursion`: the calls.
-/

namespace FxLang.Expr

open Session

variable (table : Bindings)

/-- One operator that binds tighter than `min`, with its right operand. -/
def climbRound (reader : Reader) (min : BindingPower) (again : Expr → ParseM Expr) (left : Expr) :
    ParseM Expr := do
  let next ← peek
  if next.endsExpression || table.power next.kind ≤ min then
    pure left
  else if table.led next.kind then
    let operator ← advance
    emit (.operator operator left)
    let right ← operandOf reader operator (table.rightPower operator.kind)
    again (.binary operator left right)
  else
    throw (.atToken .cannotFollow next)

/-- All operators that bind tighter than `min`. -/
def climbing (reader : Reader) (min : BindingPower) : Expr → ParseM Expr :=
  counted (climb table reader min)

/-- An operand and the operators behind it. -/
def readRound (reader : Reader) : Reader := fun min => do
  let first ← peek
  if first.endsExpression then
    pure none
  else
    match table.nud first.kind with
    | none => throw (.atToken .cannotStart first)
    | some role =>
      let token ← advance
      emit (.operand token min)
      let left ← operandFrom table reader role token
      let e ← climbing table reader min left
      pure (some e)

variable {table} {reader x y : Reader} {m : BindingPower} {s : Session} {left : Expr} {t : Token}
  {role : Nud}

/-! ## The loop -/

theorem climbRound_guarded (h : Silent reader) (left : Expr) :
    Guarded fun again => climbRound table reader m again left := by
  intro s x y _ hxy
  refine peek_congr fun next s₁ m₁ hf => ?_
  split
  · rfl
  next hends =>
    have hk := kind_ne_eof (Bool.or_eq_false_iff.1 (Bool.eq_false_iff.2 hends)).1
    split
    · refine advance_congr hf hk fun s₂ m₂ => emit_congr _ fun s₃ m₃ => ?_
      refine (operandOf_fate h next).bind_congr fun _ _ right s₄ m₄ _ => hxy _ s₄ ?_
      exact ((m₁.trans m₂).passes (by simp)).trans (m₃.trans m₄).reaches
    · rfl

theorem climb_counts (h : Silent reader) (m : BindingPower) :
    Counts (climbRound table reader m) (climb table reader m) where
  guarded := climbRound_guarded h
  succ _ _ _ _ := rfl
  proceeds n left _ _ := (climb_fate h n left).proceeds

/-- The loop takes an operator in every round that is not its last. -/
theorem climb_recursion (h : Silent reader) (m : BindingPower) :
    Recursion (climbRound table reader m) (climbing table reader m) :=
  (climb_counts h m).recursion

/-! ## The calls -/

theorem operandOf_congr (h : x m s = y m s) (o : Token) : operandOf x o m s = operandOf y o m s :=
  bind_congr_apply h

theorem operandOf_proceeds (h : Proceeds (x m) s) (o : Token) : Proceeds (operandOf x o m) s :=
  fun _ s' hr => h _ s' (operandOf_eq_ok hr)

theorem operandFrom_congr (h : ∀ m, x m s = y m s) :
    operandFrom table x role t s = operandFrom table y role t s := by
  cases role with
  | primary => rfl
  | unary => exact bind_congr_apply (operandOf_congr (h _) t)
  | grouping => exact bind_congr_apply (h _)

theorem operandFrom_proceeds (h : ∀ m, Proceeds (x m) s) :
    Proceeds (operandFrom table x role t) s := by
  intro e s' hr
  cases role with
  | primary =>
    cases hr
    exact (Moves.refl s).reaches
  | unary =>
    obtain ⟨operand, s₁, h₁, h₂⟩ := bind_eq_ok hr
    cases h₂
    exact operandOf_proceeds (h _) t _ _ h₁
  | grouping =>
    obtain ⟨close, s₁, h₁, -, -, m₁⟩ := group_eq_ok hr
    exact (h _ _ _ h₁).trans m₁.reaches

/-- Readers that do the same from `s` on are the same to the loop. -/
theorem climb_congr (h : Agree s x y) (n : Nat) (left : Expr) :
    climb table x m n left s = climb table y m n left s := by
  induction n generalizing s left with
  | zero => rfl
  | succ n ih =>
    refine peek_congr fun next s₁ m₁ hf => ?_
    split
    · rfl
    next hends =>
      have hk := kind_ne_eof (Bool.or_eq_false_iff.1 (Bool.eq_false_iff.2 hends)).1
      split
      · refine advance_congr hf hk fun s₂ m₂ => emit_congr _ fun s₃ m₃ => ?_
        have h₃ := h.mono ((m₁.trans m₂).trans m₃).reaches
        exact (operandOf_proceeds (h₃.proceeds_here _) next).bind_congr
          (operandOf_congr (h₃.eq_here _) next) fun right s₄ hr => ih (h₃.mono hr) _
      · rfl

theorem readRound_guarded (m : BindingPower) : Guarded fun reader => readRound table reader m := by
  intro s x y hx hxy
  refine peek_congr fun first s₁ m₁ hf => ?_
  split
  · rfl
  next hends =>
    have hk := kind_ne_eof (Bool.eq_false_iff.2 hends)
    cases table.nud first.kind with
    | none => rfl
    | some role =>
      refine advance_congr hf hk fun s₂ m₂ => emit_congr _ fun s₃ m₃ => ?_
      have h₃ := Agree.of_passes hx hxy (((m₁.trans m₂).trans m₃).passes (by simp))
      refine (operandFrom_proceeds h₃.proceeds_here).bind_congr (operandFrom_congr h₃.eq_here)
        fun left s₄ hr => bind_congr_apply ?_
      unfold climbing counted
      rw [bind_of_ok (rounds_apply s₄), bind_of_ok (rounds_apply s₄)]
      exact climb_congr (h₃.mono hr) _ left

/-- A call with rounds enough goes on with calls that have one less. -/
theorem readWithin_succ (n : Nat) (m : BindingPower) (s : Session) (hn : s.tokens.length ≤ n) :
    readWithin table (n + 1) m s = readRound table (readWithin table n) m s := by
  refine peek_congr fun first s₁ m₁ hf => ?_
  split
  · rfl
  next hends =>
    have hk := kind_ne_eof (Bool.eq_false_iff.2 hends)
    cases table.nud first.kind with
    | none => rfl
    | some role =>
      refine advance_congr hf hk fun s₂ m₂ => emit_congr _ fun s₃ m₃ => ?_
      have hsilent := readWithin_fate table n
      refine (operandFrom_fate hsilent role first).bind_congr fun _ _ left s₄ m₄ _ =>
        bind_congr_apply ?_
      have h₄ : s.Passes s₄ := ((m₁.trans m₂).passes (by simp)).trans (m₃.trans m₄).reaches
      have hlt := h₄.length_lt
      exact ((climb_counts hsilent m).counted_eq (by omega)).symm

theorem readWithin_counts (table : Bindings) :
    Counts (readRound table) (readWithin table) where
  guarded := readRound_guarded
  succ := readWithin_succ
  proceeds n m s _ := (readWithin_fate table n m s).proceeds

/-- The parser of expressions calls itself only behind a token, whatever the table. -/
theorem read_recursion (table : Bindings) : Recursion (readRound table) (read table) :=
  (readWithin_counts table).recursion

end FxLang.Expr
