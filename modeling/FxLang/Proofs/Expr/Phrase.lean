import FxLang.Expr.Climbing
import FxLang.Proofs.Session.Moves

/-!
# Phrases: what binding powers prescribe

`Phrase table w e le re` says, without reference to any parser, that the tokens `w` make the tree
`e` under the binding powers and associativities of `table`. The two last indices are what the
phrase shows to its surroundings: the operators `le` on its left edge, which compete for an operand
with an operator to the left of the phrase, and those on its right edge, `re`, which compete with an
operator to its right. An operand goes to the tighter of two competitors, and among equals to the
left or the right one as the operators associate.

Powers are compared as integers, so that the power below the lowest is one that nothing reaches.

* `Phrase.climbs`, `Climbs.readWithin`: a phrase is read as its tree.
* `readWithin_sound`: what is read is a phrase, and it is as long as the minimum allows.
* `read_eq_some_iff`: the two together, for every table, every minimum and every session.
-/

namespace FxLang

/-! ## Powers and edges -/

/-- An operator on the right edge of a phrase, where its right operand ends the phrase. -/
inductive EdgeOperator where
  /-- It stands between two operands. -/
  | binary (operator : Token)
  /-- It stands in front of its only operand. -/
  | unary (operator : Token)
deriving DecidableEq, Repr

namespace Bindings

/-- How tightly a token binds the operand on its left. -/
def leftPower (table : Bindings) (t : Token) : Int :=
  (table.power t.kind).toInt

/-- What a token behind the operand of an operator may bind without taking the operand over. -/
def rightBound (table : Bindings) : EdgeOperator → Int
  | .binary o =>
    match table.associativity o.kind with
    | .left => table.leftPower o
    | .right => table.leftPower o - 1
  | .unary p => table.leftPower p

/-- Above some minimum, lowering a power does not wrap around. -/
theorem toInt_rightPower (table : Bindings) (o : Token) {m : BindingPower}
    (h : m.toInt < table.leftPower o) :
    (table.rightPower o.kind).toInt = table.rightBound (.binary o) := by
  unfold rightPower
  cases ha : table.associativity o.kind with
  | left => simp only [rightBound, ha]; rfl
  | right =>
    have hm := m.le_toInt
    have hp := (table.power o.kind).toInt_lt
    simp only [rightBound, ha]
    unfold leftPower at h ⊢
    rw [BindingPower.lowered, Int32.toInt_sub, Int.bmod_eq_of_le] <;> simp <;> omega

theorem leftPower_le_iff (table : Bindings) (t : Token) (m : BindingPower) :
    table.leftPower t ≤ m.toInt ↔ table.power t.kind ≤ m :=
  Int32.le_iff_toInt_le.symm

end Bindings

/-- The tokens `w` make the tree `e`, with the operators `le` on the left edge and `re` on the right
edge. -/
inductive Phrase (table : Bindings) :
    (w : List Token) → (e : Expr) → (le : List Token) → (re : List EdgeOperator) → Prop
  | leaf {t : Token} (ht : t.endsExpression = false) (hn : table.nud t.kind = some .primary) :
      Phrase table [t] (.leaf t) [] []
  | group {o c : Token} {w : List Token} {e : Expr} {le : List Token} {re : List EdgeOperator}
      (ho : o.endsExpression = false) (hn : table.nud o.kind = some .grouping)
      (h : Phrase table w e le re) (hle : ∀ y ∈ le, 0 < table.leftPower y)
      (hc : c.kind = .closeParen) :
      Phrase table (o :: (w ++ [c])) e [] []
  | unary {p : Token} {w : List Token} {e : Expr} {le : List Token} {re : List EdgeOperator}
      (hp : p.endsExpression = false) (hn : table.nud p.kind = some .unary)
      (h : Phrase table w e le re) (hle : ∀ y ∈ le, table.leftPower p < table.leftPower y) :
      Phrase table (p :: w) (.unary p e) [] (.unary p :: re)
  | binary {o : Token} {w₁ w₂ : List Token} {e₁ e₂ : Expr} {le₁ le₂ : List Token}
      {re₁ re₂ : List EdgeOperator} (h₁ : Phrase table w₁ e₁ le₁ re₁)
      (ho : o.endsExpression = false) (hl : table.led o.kind = true)
      (h₂ : Phrase table w₂ e₂ le₂ re₂)
      (hre : ∀ x ∈ re₁, table.leftPower o ≤ table.rightBound x)
      (hle : ∀ y ∈ le₂, table.rightBound (.binary o) < table.leftPower y) :
      Phrase table (w₁ ++ o :: w₂) (.binary o e₁ e₂) (o :: le₁) (.binary o :: re₂)

namespace Phrase

/-- The token `t` behind a phrase takes over none of the operands on its right edge. -/
def Settled (table : Bindings) (re : List EdgeOperator) (t : Token) : Prop :=
  t.endsExpression = true ∨ ∀ x ∈ re, table.leftPower t ≤ table.rightBound x

/-- A phrase that is read above the minimum `m` ends in front of the token `t`. -/
def StopsAt (table : Bindings) (m : BindingPower) (re : List EdgeOperator) (t : Token) : Prop :=
  t.endsExpression = true ∨
    table.leftPower t ≤ m.toInt ∧ ∀ x ∈ re, table.leftPower t ≤ table.rightBound x

theorem StopsAt.settled {table : Bindings} {m : BindingPower} {re : List EdgeOperator} {t : Token}
    (h : StopsAt table m re t) : Settled table re t := by
  rcases h with h | h
  · exact .inl h
  · exact .inr h.2

theorem StopsAt.le {table : Bindings} {m : BindingPower} {re : List EdgeOperator} {t : Token}
    (h : StopsAt table m re t) : t.endsExpression = true ∨ table.leftPower t ≤ m.toInt := by
  rcases h with h | h
  · exact .inl h
  · exact .inr h.1

end Phrase

namespace Expr

open Session

variable {table : Bindings} {read : Reader} {m : BindingPower} {s s' : Session} {t : Token}
  {n : Nat} {e : Expr}

theorem kind_ne_eof (h : t.endsExpression = false) : t.kind ≠ .eof := by
  intro hk
  simp [Token.endsExpression, hk] at h

/-! ## The rounds of a climb and the start of an operand -/

/-- A climb ends in front of a token that ends expressions or does not bind above the minimum. -/
theorem climb_of_stop (h : s.front = .ok t)
    (hstop : t.endsExpression = true ∨ table.leftPower t ≤ m.toInt) :
    ∃ s', climb table read m (n + 1) e s = .ok e s' ∧ s.Moves [] [] s' := by
  obtain ⟨s₁, h₁, m₁⟩ := peek_of_front h
  refine ⟨s₁, ?_, m₁⟩
  rw [Bindings.leftPower_le_iff] at hstop
  rw [climb, bind_of_ok h₁, if_pos (by simpa using hstop)]
  rfl

/-- An operator that binds above the minimum is taken, and its right operand is read. -/
theorem climb_of_led (h : s.front = .ok t) (ht : t.endsExpression = false)
    (hp : m.toInt < table.leftPower t) (hl : table.led t.kind = true) :
    ∃ s', climb table read m (n + 1) e s =
        (operandOf read t (table.rightPower t.kind) >>= fun right =>
          climb table read m n (.binary t e right)) s' ∧ s.Moves [t] [] s' := by
  have hnot : ¬ table.power t.kind ≤ m := by
    rw [← Bindings.leftPower_le_iff]; omega
  obtain ⟨s₁, h₁, m₁⟩ := peek_of_front h
  obtain ⟨s₂, h₂, m₂⟩ := advance_of_front (m₁.front_eq.trans h) (kind_ne_eof ht)
  obtain ⟨s₃, h₃, m₃⟩ := bind_emit (.operator t e)
    (fun _ => operandOf read t (table.rightPower t.kind) >>= fun right =>
      climb table read m n (.binary t e right)) s₂
  refine ⟨s₃, ?_, (m₁.trans_clean m₂).trans_clean m₃⟩
  rw [climb, bind_of_ok h₁, if_neg (by simp [ht, hnot]), if_pos hl, bind_of_ok h₂, h₃]

/-- The token that starts an operand is taken. -/
theorem readWithin_of_nud {role : Nud} (h : s.front = .ok t) (ht : t.endsExpression = false)
    (hn : table.nud t.kind = some role) :
    ∃ s', readWithin table (n + 1) m s =
        (operandFrom table (readWithin table n) role t >>= fun left =>
          climb table (readWithin table n) m n left >>= fun e => pure (some e)) s' ∧
      s.Moves [t] [] s' := by
  obtain ⟨s₁, h₁, m₁⟩ := peek_of_front h
  obtain ⟨s₂, h₂, m₂⟩ := advance_of_front (m₁.front_eq.trans h) (kind_ne_eof ht)
  obtain ⟨s₃, h₃, m₃⟩ := bind_emit (.operand t m)
    (fun _ => operandFrom table (readWithin table n) role t >>= fun left =>
      climb table (readWithin table n) m n left >>= fun e => pure (some e)) s₂
  refine ⟨s₃, ?_, (m₁.trans_clean m₂).trans_clean m₃⟩
  rw [readWithin, bind_of_ok h₁, if_neg (by simp [ht])]
  simp only [hn]
  rw [bind_of_ok h₂, h₃]

/-- Where a token ends expressions there is no expression. -/
theorem readWithin_of_ends (h : s.front = .ok t) (ht : t.endsExpression = true) :
    ∃ s', readWithin table (n + 1) m s = .ok none s' ∧ s.Moves [] [] s' := by
  obtain ⟨s₁, h₁, m₁⟩ := peek_of_front h
  refine ⟨s₁, ?_, m₁⟩
  rw [readWithin, bind_of_ok h₁, if_pos ht]; rfl

/-- A token that binds above the minimum but joins nothing is an error, and it stays. -/
theorem climb_of_stray (h : s.front = .ok t) (ht : t.endsExpression = false)
    (hp : m.toInt < table.leftPower t) (hl : table.led t.kind = false) :
    ∃ s', climb table read m (n + 1) e s = .error (.atToken .cannotFollow t) s' ∧
      s.Moves [] [] s' := by
  have hnot : ¬ table.power t.kind ≤ m := by
    rw [← Bindings.leftPower_le_iff]; omega
  obtain ⟨s₁, h₁, m₁⟩ := peek_of_front h
  refine ⟨s₁, ?_, m₁⟩
  rw [climb, bind_of_ok h₁, if_neg (by simp [ht, hnot]), if_neg (by simp [hl])]; rfl

/-- A token that starts no operand is an error, and it stays. -/
theorem readWithin_of_stray (h : s.front = .ok t) (ht : t.endsExpression = false)
    (hn : table.nud t.kind = none) :
    ∃ s', readWithin table (n + 1) m s = .error (.atToken .cannotStart t) s' ∧
      s.Moves [] [] s' := by
  obtain ⟨s₁, h₁, m₁⟩ := peek_of_front h
  refine ⟨s₁, ?_, m₁⟩
  rw [readWithin, bind_of_ok h₁, if_neg (by simp [ht])]
  simp only [hn]; rfl

theorem climb_of_front_error {err : Error} (h : s.front = .error err) :
    ∃ s', climb table read m (n + 1) e s = .error err s' ∧ s'.diagnostics = s.diagnostics := by
  obtain ⟨s₁, h₁, hd⟩ := peek_of_front_error h
  exact ⟨s₁, by rw [climb, bind_of_error h₁], hd⟩

theorem readWithin_of_front_error {err : Error} (h : s.front = .error err) :
    ∃ s', readWithin table (n + 1) m s = .error err s' ∧ s'.diagnostics = s.diagnostics := by
  obtain ⟨s₁, h₁, hd⟩ := peek_of_front_error h
  exact ⟨s₁, by rw [readWithin, bind_of_error h₁], hd⟩

/-! ## A phrase is read as its tree -/

/-- An operand that is there is the operand of its operator. -/
theorem operandOf_of_ok {o : Token} (h : read m s = .ok (some e) s') :
    operandOf read o m s = .ok e s' := by
  rw [operandOf, bind_of_ok h]; rfl

/-- A group whose inside was read and whose `)` is next. -/
theorem group_of_ok {c : Token} (h : read .lowest s = .ok (some e) s') (hc : s'.front = .ok c)
    (hk : c.kind = .closeParen) : ∃ s₁, group read s = .ok e s₁ ∧ s'.Moves [c] [] s₁ := by
  obtain ⟨s₁, h₁, m₁⟩ := peek_of_front hc
  obtain ⟨s₂, h₂, m₂⟩ := advance_of_front (m₁.front_eq.trans hc) (by simp [hk])
  refine ⟨s₂, ?_, m₁.trans_clean m₂⟩
  rw [group, bind_of_ok h, bind_of_ok h₁, if_pos hk, bind_of_ok h₂]; rfl

/-- Reading above `m` has gone through `w` and stands, with `e` as left operand and rounds enough
for the rest, at the token behind it. -/
def Climbs (table : Bindings) (n : Nat) (m : BindingPower) (s : Session) (w : List Token)
    (e : Expr) : Prop :=
  ∃ k s', readWithin table (n + 1) m s =
      (climb table (readWithin table n) m k e >>= fun e => pure (some e)) s' ∧
    s.Moves w [] s' ∧ s'.tokens.length < k

theorem Climbs.readWithin {w : List Token} (h : Climbs table n m s w e) (hb : s.behind w = .ok t)
    (hstop : t.endsExpression = true ∨ table.leftPower t ≤ m.toInt) :
    ∃ s', readWithin table (n + 1) m s = .ok (some e) s' ∧ s.Moves w [] s' := by
  obtain ⟨k, s₁, h₁, m₁, hk⟩ := h
  obtain ⟨k, rfl⟩ : ∃ k', k = k' + 1 := ⟨k - 1, by omega⟩
  obtain ⟨s₂, h₂, m₂⟩ := @climb_of_stop table (Expr.readWithin table n) m s₁ t k e
    (m₁.front_eq_behind.trans hb) hstop
  refine ⟨s₂, ?_, by simpa using m₁.trans_clean m₂⟩
  rw [h₁, bind_of_ok h₂]; rfl

end Expr

namespace Phrase

open Session FxLang.Expr

variable {table : Bindings} {w : List Token} {e : Expr} {le : List Token}
  {re : List EdgeOperator}

/-- Reading goes through a phrase whose left edge is above the minimum. -/
theorem climbs (h : Phrase table w e le re) (n : Nat) (m : BindingPower) (s : Session) (t : Token)
    (hw : w <+: s.tokens) (hn : s.tokens.length ≤ n) (hm : ∀ y ∈ le, m.toInt < table.leftPower y)
    (hb : s.behind w = .ok t) (ht : Settled table re t) : Climbs table n m s w e := by
  induction h generalizing n m s t with
  | @leaf a ha hnud =>
    obtain ⟨r, hr⟩ := hw
    obtain ⟨s₁, h₁, m₁⟩ := readWithin_of_nud (m := m) (n := n) (front_of_tokens hr.symm) ha hnud
    have := m₁.tokens_length
    exact ⟨n, s₁, h₁, m₁, by simp at this; omega⟩
  | @group o c w e le re ho hnud _ hle hc ih =>
    obtain ⟨r, hr⟩ := hw
    obtain ⟨s₁, h₁, m₁⟩ := readWithin_of_nud (m := m) (n := n) (front_of_tokens hr.symm) ho hnud
    have hlen := m₁.tokens_length
    obtain ⟨n, rfl⟩ : ∃ n', n = n' + 1 := ⟨n - 1, by simp at hlen; omega⟩
    have hw₁ : w ++ [c] <+: s₁.tokens :=
      m₁.isPrefix (show [o] ++ (w ++ [c]) <+: s.tokens from ⟨r, hr⟩)
    have hin : Climbs table n .lowest s₁ w e := by
      refine ih n .lowest s₁ c ((List.prefix_append w [c]).trans hw₁) (by simp at hlen; omega)
        hle (behind_of_isPrefix hw₁) (.inl ?_)
      simp [Token.endsExpression, hc]
    obtain ⟨s₂, h₂, m₂⟩ := hin.readWithin (behind_of_isPrefix hw₁)
      (.inl (by simp [Token.endsExpression, hc]))
    obtain ⟨s₃, h₃, m₃⟩ := group_of_ok h₂ (m₂.front_eq_behind.trans (behind_of_isPrefix hw₁)) hc
    have m₄ : s.Moves (o :: (w ++ [c])) [] s₃ := m₁.trans_clean (m₂.trans_clean m₃)
    have hlen₄ := m₄.tokens_length
    refine ⟨n + 1, s₃, ?_, m₄, by simp at hlen₄; omega⟩
    rw [h₁, operandFrom, bind_of_ok h₃]
  | @unary p w e le re hp hnud _ hle ih =>
    obtain ⟨r, hr⟩ := hw
    obtain ⟨s₁, h₁, m₁⟩ := readWithin_of_nud (m := m) (n := n) (front_of_tokens hr.symm) hp hnud
    have hlen := m₁.tokens_length
    obtain ⟨n, rfl⟩ : ∃ n', n = n' + 1 := ⟨n - 1, by simp at hlen; omega⟩
    have hb₁ : s₁.behind w = .ok t := (m₁.behind_eq w).trans hb
    have hin : Climbs table n (table.power p.kind) s₁ w e := by
      refine ih n _ s₁ t (m₁.isPrefix (show [p] ++ w <+: s.tokens from ⟨r, hr⟩))
        (by simp at hlen; omega) hle hb₁ ?_
      exact ht.imp_right fun h x hx => h x (List.mem_cons_of_mem _ hx)
    obtain ⟨s₂, h₂, m₂⟩ := hin.readWithin hb₁
      (ht.imp_right fun h => h (.unary p) List.mem_cons_self)
    have m₃ : s.Moves (p :: w) [] s₂ := m₁.trans_clean m₂
    have hlen₃ := m₃.tokens_length
    refine ⟨n + 1, s₂, ?_, m₃, by simp at hlen₃; omega⟩
    have hop : operandFrom table (Expr.readWithin table (n + 1)) .unary p s₁ =
        .ok (.unary p e) s₂ := by
      rw [operandFrom, bind_of_ok (operandOf_of_ok h₂)]; rfl
    rw [h₁, bind_of_ok hop]
  | @binary o w₁ w₂ e₁ e₂ le₁ le₂ re₁ re₂ _ ho hl _ hre hle ih₁ ih₂ =>
    -- The left operand ends in front of `o`, so the climb stands there and goes on with `o`.
    have hob : s.behind w₁ = .ok o := behind_of_isPrefix hw
    obtain ⟨k, s₁, h₁, m₁, hk⟩ := ih₁ n m s o ((List.prefix_append _ _).trans hw) hn
      (fun y hy => hm y (List.mem_cons_of_mem _ hy)) hob (.inr hre)
    obtain ⟨k, rfl⟩ : ∃ k', k = k' + 1 := ⟨k - 1, by omega⟩
    have hpow := hm o List.mem_cons_self
    obtain ⟨s₂, h₂, m₂⟩ := @climb_of_led table (Expr.readWithin table n) m s₁ o k e₁
      (m₁.front_eq_behind.trans hob) ho hpow hl
    have m₁₂ : s.Moves (w₁ ++ [o]) [] s₂ := m₁.trans_clean m₂
    have hlen := m₁₂.tokens_length
    obtain ⟨n, rfl⟩ : ∃ n', n = n' + 1 := ⟨n - 1, by simp at hlen; omega⟩
    have hb₂ : s₂.behind w₂ = .ok t := by
      rw [m₁₂.behind_eq, List.append_assoc]; exact hb
    have hbound := Bindings.toInt_rightPower table o hpow
    have hin : Climbs table n (table.rightPower o.kind) s₂ w₂ e₂ := by
      refine ih₂ n _ s₂ t (m₁₂.isPrefix (by simpa using hw)) (by simp at hlen; omega)
        (by rw [hbound]; exact hle) hb₂ ?_
      exact ht.imp_right fun h x hx => h x (List.mem_cons_of_mem _ hx)
    obtain ⟨s₃, h₃, m₃⟩ := hin.readWithin hb₂
      (ht.imp_right fun h => by rw [hbound]; exact h (.binary o) List.mem_cons_self)
    have m₄ : s.Moves (w₁ ++ o :: w₂) [] s₃ := by simpa using m₁₂.trans_clean m₃
    have hlen₂ := m₂.tokens_length
    have hlen₃ := m₃.tokens_length
    refine ⟨k, s₃, ?_, m₄, by simp at hlen₂; omega⟩
    rw [h₁]
    apply bind_congr_apply
    rw [h₂, bind_of_ok (operandOf_of_ok h₃)]

end Phrase

/-! ## What is read is a phrase -/

namespace Expr

open Session

variable {table : Bindings} {m : BindingPower} {s s' : Session} {n : Nat} {e : Expr}

/-- From `s` to `s'` a phrase with the tree `e` was taken, the one that the minimum `m` allows. -/
def TakesPhrase (table : Bindings) (m : BindingPower) (s : Session) (w : List Token) (e : Expr)
    (s' : Session) : Prop :=
  ∃ le re t, Phrase table w e le re ∧ s.Moves w [] s' ∧ (∀ y ∈ le, m.toInt < table.leftPower y) ∧
    s'.front = .ok t ∧ Phrase.StopsAt table m re t

theorem operandOf_eq_ok {read : Reader} {o : Token} (h : operandOf read o m s = .ok e s') :
    read m s = .ok (some e) s' := by
  obtain ⟨found, s₁, h₁, h₂⟩ := bind_eq_ok h
  cases found with
  | some e' => cases h₂; exact h₁
  | none => obtain ⟨t, s₂, -, h₃⟩ := bind_eq_ok h₂; cases h₃

theorem group_eq_ok {read : Reader} (h : group read s = .ok e s') :
    ∃ c s₁, read .lowest s = .ok (some e) s₁ ∧ s₁.front = .ok c ∧ c.kind = .closeParen ∧
      s₁.Moves [c] [] s' := by
  obtain ⟨inner, s₁, h₁, h₂⟩ := bind_eq_ok h
  cases hf : s₁.front with
  | error err =>
    obtain ⟨s₂, h₃, -⟩ := peek_of_front_error hf
    rw [bind_of_error h₃] at h₂; cases h₂
  | ok c =>
    obtain ⟨s₂, h₃, m₂⟩ := peek_of_front hf
    rw [bind_of_ok h₃] at h₂
    by_cases hc : c.kind = .closeParen
    · obtain ⟨s₃, h₄, m₃⟩ := advance_of_front (m₂.front_eq.trans hf) (by simp [hc])
      rw [if_pos hc, bind_of_ok h₄] at h₂
      cases inner with
      | some e' => cases h₂; exact ⟨c, s₁, h₁, hf, hc, m₂.trans_clean m₃⟩
      | none => cases h₂
    · rw [if_neg hc] at h₂; cases h₂

/-- A climb from a phrase leads to a phrase. -/
theorem climb_sound
    (ih : ∀ m s e s', s.tokens.length < n → readWithin table n m s = .ok (some e) s' →
      ∃ w, TakesPhrase table m s w e s') {e' : Expr} (k : Nat) {w : List Token} {le : List Token}
    {re : List EdgeOperator} (hp : Phrase table w e le re)
    (hm : ∀ y ∈ le, m.toInt < table.leftPower y)
    (hset : ∀ t, s.front = .ok t → Phrase.Settled table re t) (hk : s.tokens.length < k)
    (hn : s.tokens.length < n) (h : climb table (readWithin table n) m k e s = .ok e' s') :
    ∃ w' le' re' t, Phrase table (w ++ w') e' le' re' ∧ s.Moves w' [] s' ∧
      (∀ y ∈ le', m.toInt < table.leftPower y) ∧ s'.front = .ok t ∧
      Phrase.StopsAt table m re' t := by
  induction k generalizing s e w le re with
  | zero => omega
  | succ k ihk =>
    cases hf : s.front with
    | error err =>
      obtain ⟨s₁, h₁, -⟩ := @climb_of_front_error table (readWithin table n) m s k e err hf
      rw [h₁] at h; cases h
    | ok o =>
      by_cases hstop : o.endsExpression = true ∨ table.leftPower o ≤ m.toInt
      · obtain ⟨s₁, h₁, m₁⟩ := @climb_of_stop table (readWithin table n) m s o k e hf hstop
        rw [h₁] at h
        cases h
        refine ⟨[], le, re, o, by simpa using hp, m₁, hm, m₁.front_eq.trans hf, ?_⟩
        rcases hset o hf, hstop with ⟨hs | hs, hstop | hstop⟩
        · exact .inl hs
        · exact .inl hs
        · exact .inl hstop
        · exact .inr ⟨hstop, hs⟩
      · obtain ⟨ho, hpow⟩ := not_or.1 hstop
        have ho : o.endsExpression = false := by simpa using ho
        have hpow : m.toInt < table.leftPower o := by omega
        cases hl : table.led o.kind with
        | false =>
          obtain ⟨s₁, h₁, -⟩ := @climb_of_stray table (readWithin table n) m s o k e hf ho hpow
            hl
          rw [h₁] at h; cases h
        | true =>
          obtain ⟨s₁, h₁, m₁⟩ := @climb_of_led table (readWithin table n) m s o k e hf ho hpow
            hl
          have hlen₁ := m₁.tokens_length
          rw [h₁] at h
          obtain ⟨right, s₂, h₂, h₃⟩ := bind_eq_ok h
          obtain ⟨w₂, le₂, re₂, t, hp₂, m₂, hle₂, ht, hst⟩ := ih _ s₁ right s₂
            (by simp at hlen₁; omega) (operandOf_eq_ok h₂)
          have hlen₂ := m₂.tokens_length
          have hbound := Bindings.toInt_rightPower table o hpow
          rw [hbound] at hle₂
          -- What is next does not take over the operand of `o`, nor one inside it.
          have hset₂ : ∀ t, s₂.front = .ok t → Phrase.Settled table (.binary o :: re₂) t := by
            intro t' ht'
            rw [ht] at ht'
            cases ht'
            refine hst.imp_right fun ⟨h₁, h₂⟩ => ?_
            rw [hbound] at h₁
            simpa using ⟨h₁, h₂⟩
          obtain ⟨w', le', re', t', hp', m', hrest⟩ := ihk
            (.binary hp ho hl hp₂ ((hset o hf).resolve_left (by simp [ho])) hle₂)
            (by simpa using ⟨hpow, hm⟩) hset₂ (by simp at hlen₁; omega)
            (by simp at hlen₁; omega) h₃
          refine ⟨o :: (w₂ ++ w'), le', re', t', by simpa using hp', ?_, hrest⟩
          exact m₁.trans_clean (m₂.trans_clean m')

/-- The operand that starts with a token is a phrase, and what is next leaves its right edge
alone. -/
theorem operandFrom_sound
    (ih : ∀ m s e s', s.tokens.length < n → readWithin table n m s = .ok (some e) s' →
      ∃ w, TakesPhrase table m s w e s') {a : Token} {role : Nud} (ha : a.endsExpression = false)
    (hnud : table.nud a.kind = some role) (hn : s.tokens.length < n)
    (h : operandFrom table (readWithin table n) role a s = .ok e s') :
    ∃ w re, Phrase table (a :: w) e [] re ∧ s.Moves w [] s' ∧
      ∀ t, s'.front = .ok t → Phrase.Settled table re t := by
  cases role with
  | primary =>
    cases h
    exact ⟨[], [], .leaf ha hnud, .refl s, fun t _ => .inr (by simp)⟩
  | unary =>
    obtain ⟨e₁, s₁, h₁, h₂⟩ := bind_eq_ok h
    cases h₂
    obtain ⟨w, le, re, t, hp, m₁, hle, ht, hst⟩ := ih _ s e₁ s' hn (operandOf_eq_ok h₁)
    refine ⟨w, _, .unary ha hnud hp hle, m₁, ?_⟩
    intro t' ht'
    rw [ht] at ht'
    cases ht'
    refine hst.imp_right fun ⟨h₁, h₂⟩ => ?_
    simpa using And.intro (show table.leftPower t ≤ table.rightBound (.unary a) from h₁) h₂
  | grouping =>
    obtain ⟨c, s₁, h₁, hc, hck, m₂⟩ := group_eq_ok h
    obtain ⟨w, le, re, t, hp, m₁, hle, ht, hst⟩ := ih _ s e s₁ hn h₁
    exact ⟨_, [], .group ha hnud hp hle hck, m₁.trans_clean m₂, fun t _ => .inr (by simp)⟩

/-- What is read is a phrase. -/
theorem readWithin_sound (n : Nat) (m : BindingPower) (s : Session) (e : Expr) (s' : Session)
    (hn : s.tokens.length < n) (h : readWithin table n m s = .ok (some e) s') :
    ∃ w, TakesPhrase table m s w e s' := by
  induction n generalizing m s e s' with
  | zero => omega
  | succ n ih =>
    cases hf : s.front with
    | error err =>
      obtain ⟨s₁, h₁, -⟩ := @readWithin_of_front_error table m s n err hf
      rw [h₁] at h; cases h
    | ok a =>
      cases ha : a.endsExpression with
      | true =>
        obtain ⟨s₁, h₁, -⟩ := @readWithin_of_ends table m s a n hf ha
        rw [h₁] at h; cases h
      | false =>
        cases hnud : table.nud a.kind with
        | none =>
          obtain ⟨s₁, h₁, -⟩ := readWithin_of_stray (m := m) (n := n) hf ha hnud
          rw [h₁] at h; cases h
        | some role =>
          obtain ⟨s₁, h₁, m₁⟩ := readWithin_of_nud (m := m) (n := n) hf ha hnud
          have hlen₁ := m₁.tokens_length
          rw [h₁] at h
          obtain ⟨left, s₂, h₂, h₃⟩ := bind_eq_ok h
          obtain ⟨e', s₃, h₄, h₅⟩ := bind_eq_ok h₃
          cases h₅
          obtain ⟨w, re, hp, m₂, hset⟩ := operandFrom_sound ih ha hnud (by simp at hlen₁; omega) h₂
          have hlen₂ := m₂.tokens_length
          obtain ⟨w', le', re', t, hp', m₃, hrest⟩ := climb_sound ih n hp (by simp) hset
            (by simp at hlen₁; omega) (by simp at hlen₁; omega) h₄
          exact ⟨a :: w ++ w', le', re', t, hp', m₁.trans_clean (m₂.trans_clean m₃), hrest⟩

/-! ## Reading is exactly taking a phrase -/

/-- An expression is read from exactly those tokens, and as exactly that tree, that the table
prescribes: the phrase whose left edge is above the minimum and which ends in front of a token that
neither the minimum nor an operator on its right edge lets in. It is never read along with a
diagnostic. -/
theorem read_eq_some_iff (table : Bindings) (m : BindingPower) (s : Session) (e : Expr) :
    (∀ s', read table m s = .ok (some e) s' → ∃ w, s.Moves w [] s') ∧
      ∀ w, (∃ s', read table m s = .ok (some e) s' ∧ s.Moves w [] s') ↔
        ∃ le re t, Phrase table w e le re ∧ (∀ y ∈ le, m.toInt < table.leftPower y) ∧
          w <+: s.tokens ∧ s.behind w = .ok t ∧ Phrase.StopsAt table m re t := by
  have hlen := s.stream.length_tokens_le_remaining
  have hread : read table m s = readWithin table (s.stream.remaining + 1) m s := rfl
  have hsound (s' : Session) (h : read table m s = .ok (some e) s') :
      ∃ w, TakesPhrase table m s w e s' :=
    readWithin_sound _ m s e s' (Nat.lt_succ_of_le hlen) (hread ▸ h)
  refine ⟨fun s' h => ?_, fun w => ⟨?_, ?_⟩⟩
  · obtain ⟨w, -, -, -, -, hm, -⟩ := hsound s' h
    exact ⟨w, hm⟩
  · rintro ⟨s', h, hm⟩
    obtain ⟨w', le, re, t, hp, hm', hle, ht, hst⟩ := hsound s' h
    obtain rfl : w = w' := by
      have := hm.tokens_eq.symm.trans hm'.tokens_eq
      exact List.append_cancel_right this
    exact ⟨le, re, t, hp, hle, ⟨s'.tokens, hm.tokens_eq.symm⟩, hm.front_eq_behind ▸ ht, hst⟩
  · rintro ⟨le, re, t, hp, hle, hw, hb, hst⟩
    rw [hread]
    exact (hp.climbs _ m s t hw hlen hle hb hst.settled).readWithin hb hst.le

end Expr

end FxLang
