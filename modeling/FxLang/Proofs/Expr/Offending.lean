import FxLang.Proofs.Expr.Phrase

/-!
# The token that an expression trips over

An expression that cannot be read fails with an error about one token. However deep inside the
expression the error arises, nothing is taken on the way out, so the caller finds this token in
front of the stream and can get back in step there. There is one exception: the `)` of an empty
group is taken before the group is found to be empty.

`Session.Trips s e s'` lists the ways to fail, and `Walks s Q r` says of the result `r` of a parser
that it failed in one of them or went on. Both are carried through the parsers of expressions under
every table and every minimum, as long as there are rounds enough for the tokens to come.

* `Expr.operandOf_walks`, `Expr.group_walks`, `Expr.climb_walks`, `Expr.readWithin_walks`: what each
  parser does with the failures inside it.
* `Expr.read_leaves_offending_token`: where there is no expression, and which token is next after a
  failure.
-/

namespace FxLang

open Session

/-! ## Ways to fail -/

/-- The token stands where an operand, an operator or a `)` should be, and the error says so. An
operator misses its operand only in front of a token that ends expressions. -/
inductive IsStray : (Token → Cause) → Token → Prop
  | cannotStart (x : Token) : IsStray .cannotStart x
  | cannotFollow (x : Token) : IsStray .cannotFollow x
  | unmatchedParenthesis (x : Token) : IsStray .unmatchedParenthesis x
  | missingOperand (operator : Token) {x : Token} (hx : x.endsExpression = true) :
      IsStray (.missingOperand operator) x

/-- The ways in which an expression that was started at `s` fails with `e` and leaves `s'`. -/
inductive Session.Trips (s : Session) : Error → Session → Prop
  /-- It came to the lexical error behind the tokens. -/
  | lexical {e : Error} {s' : Session} (he : s.ending = .error e) : s.Trips e s'
  /-- The token it is about is the next one. -/
  | stray {cause : Token → Cause} {x : Token} {w : List Token} {s' : Session}
      (hx : IsStray cause x) (hm : s.Moves w [] s') (hf : s'.front = .ok x) :
      s.Trips (.atToken cause x) s'
  /-- The token it is about was taken last, and it closes a group. -/
  | emptyGroup {close : Token} {w : List Token} {s' : Session} (hk : close.kind = .closeParen)
      (hm : s.Moves (w ++ [close]) [] s') : s.Trips (.atToken .emptyExpression close) s'

variable {α β : Type} {s s₁ s' : Session} {w : List Token} {e : Error}

/-- What is tripped over behind some tokens is tripped over from in front of them. -/
theorem Session.Trips.of_moves (hm : s.Moves w [] s₁) (h : s₁.Trips e s') : s.Trips e s' := by
  cases h with
  | lexical he => exact .lexical (hm.ending_eq ▸ he)
  | stray hx hm' hf => exact .stray hx (hm.trans_clean hm') hf
  | @emptyGroup close w' _ hk hm' =>
    refine .emptyGroup (w := w ++ w') hk ?_
    rw [List.append_assoc]
    exact hm.trans_clean hm'

/-- The parser that was started at `s` went on, or it tripped. -/
inductive Walks (s : Session) (Q : α → Session → Prop) : EStateM.Result Error Session α → Prop
  | goes {w : List Token} {a : α} {s' : Session} (hm : s.Moves w [] s') (hq : Q a s') :
      Walks s Q (.ok a s')
  | trips {e : Error} {s' : Session} (h : s.Trips e s') : Walks s Q (.error e s')

namespace Walks

variable {Q : α → Session → Prop} {R : β → Session → Prop} {x : ParseM α} {f : α → ParseM β}
  {r : EStateM.Result Error Session α}

theorem of_moves (hm : s.Moves w [] s₁) (h : Walks s₁ Q r) : Walks s Q r := by
  cases h with
  | goes hm' hq => exact .goes (hm.trans_clean hm') hq
  | trips h => exact .trips (h.of_moves hm)

/-- One step, and then the rest of the parser where the step left the session. -/
theorem bind (hx : Walks s Q (x s))
    (hf : ∀ w a s₁, s.Moves w [] s₁ → Q a s₁ → Walks s₁ R (f a s₁)) :
    Walks s R ((x >>= f) s) := by
  generalize hr : x s = r at hx
  cases hx with
  | goes hm hq =>
    rw [bind_of_ok hr]
    exact of_moves hm (hf _ _ _ hm hq)
  | trips h =>
    rw [bind_of_error hr]
    exact .trips h

/-- The next token is looked at, unless there is a lexical error in its place. -/
theorem peek_bind {g : Token → ParseM α}
    (h : ∀ t s₁, s.Moves [] [] s₁ → s₁.front = .ok t → Walks s₁ Q (g t s₁)) :
    Walks s Q ((peek >>= g) s) := by
  cases hf : s.front with
  | error e =>
    obtain ⟨s₁, h₁, -⟩ := peek_of_front_error hf
    rw [bind_of_error h₁]
    exact .trips (.lexical (ending_of_front_error hf))
  | ok t =>
    obtain ⟨s₁, h₁, m₁⟩ := peek_of_front hf
    rw [bind_of_ok h₁]
    exact of_moves m₁ (h t s₁ m₁ (m₁.front_eq.trans hf))

end Walks

namespace Expr

variable {table : Bindings} {reader : Reader} {m : BindingPower} {n k : Nat} {t : Token}

/-! ## The parsers of expressions -/

/-- There was no expression: nothing was taken, and the next token ends expressions. -/
structure Absent (s s' : Session) : Prop where
  moves : s.Moves [] [] s'
  ends : ∃ t, s.front = .ok t ∧ t.endsExpression = true

/-- The reader walks wherever fewer than `n` tokens are to come, and it finds no expression only
where there is none. -/
def WalksWithin (n : Nat) (reader : Reader) : Prop :=
  ∀ m s, s.tokens.length < n → Walks s (fun r s' => r = none → Absent s s') (reader m s)

theorem operandOf_walks (h : WalksWithin n reader) (operator : Token)
    (hn : s.tokens.length < n) :
    Walks s (fun _ _ => True) (operandOf reader operator m s) := by
  refine (h m s hn).bind fun w r s₁ _ habsent => ?_
  cases r with
  | some operand => exact .goes (.refl s₁) trivial
  | none =>
    obtain ⟨hm, x, hf, hx⟩ := habsent rfl
    refine .peek_bind fun found s₂ m₂ hf₂ => ?_
    have hfound : s₂.front = .ok x := m₂.front_eq.trans (hm.front_eq.trans hf)
    rw [hfound] at hf₂
    cases hf₂
    exact .trips (.stray (.missingOperand operator hx) (.refl s₂) hfound)

/-- The `)` of a group is taken whether or not there was anything inside. -/
theorem group_walks (h : WalksWithin n reader) (hn : s.tokens.length < n) :
    Walks s (fun _ _ => True) (group reader s) := by
  refine (h .lowest s hn).bind fun w inner s₁ _ _ => .peek_bind fun close s₂ _ hf => ?_
  by_cases hk : close.kind = .closeParen
  · obtain ⟨s₃, h₃, m₃⟩ := advance_of_front hf (by simp [hk])
    rw [if_pos hk, bind_of_ok h₃]
    cases inner with
    | some e => exact .goes m₃ trivial
    | none => exact .trips (.emptyGroup (w := []) hk m₃)
  · rw [if_neg hk]
    exact .trips (.stray (.unmatchedParenthesis close) (.refl s₂) hf)

theorem operandFrom_walks (h : WalksWithin n reader) (role : Nud) (t : Token)
    (hn : s.tokens.length < n) :
    Walks s (fun _ _ => True) (operandFrom table reader role t s) := by
  cases role with
  | primary => exact .goes (.refl s) trivial
  | unary =>
    exact (operandOf_walks h t hn).bind fun _ _ s₁ _ _ => .goes (.refl s₁) trivial
  | grouping => exact group_walks h hn

theorem climb_walks (h : WalksWithin n (readWithin table n)) (hn : s.tokens.length < n)
    (hk : s.tokens.length < k) (left : Expr) :
    Walks s (fun _ _ => True) (climb table (readWithin table n) m k left s) := by
  induction k generalizing s left with
  | zero => omega
  | succ k ih =>
    cases hf : s.front with
    | error e =>
      obtain ⟨s₁, h₁, -⟩ := @climb_of_front_error table (readWithin table n) m s k left e hf
      rw [h₁]
      exact .trips (.lexical (ending_of_front_error hf))
    | ok o =>
      by_cases hstop : o.endsExpression = true ∨ table.leftPower o ≤ m.toInt
      · obtain ⟨s₁, h₁, m₁⟩ := @climb_of_stop table (readWithin table n) m s o k left hf hstop
        rw [h₁]
        exact .goes m₁ trivial
      · obtain ⟨ho, hpower⟩ := not_or.1 hstop
        have ho : o.endsExpression = false := by simpa using ho
        have hpower : m.toInt < table.leftPower o := by omega
        cases hled : table.led o.kind with
        | false =>
          obtain ⟨s₁, h₁, m₁⟩ := @climb_of_stray table (readWithin table n) m s o k left hf ho
            hpower hled
          rw [h₁]
          exact .trips (.stray (.cannotFollow o) m₁ (m₁.front_eq.trans hf))
        | true =>
          obtain ⟨s₁, h₁, m₁⟩ := @climb_of_led table (readWithin table n) m s o k left hf ho
            hpower hled
          have hlen₁ := m₁.tokens_length
          simp only [List.length_singleton] at hlen₁
          rw [h₁]
          refine .of_moves m₁ ((operandOf_walks h o (by omega)).bind fun w right s₂ m₂ _ => ?_)
          have hlen₂ := m₂.tokens_length
          exact ih (by omega) (by omega) _

theorem readWithin_walks (table : Bindings) (n : Nat) : WalksWithin n (readWithin table n) := by
  induction n with
  | zero => intro m s hn; omega
  | succ n ih =>
    intro m s hn
    cases hf : s.front with
    | error e =>
      obtain ⟨s₁, h₁, -⟩ := @readWithin_of_front_error table m s n e hf
      rw [h₁]
      exact .trips (.lexical (ending_of_front_error hf))
    | ok t =>
      cases ht : t.endsExpression with
      | true =>
        obtain ⟨s₁, h₁, m₁⟩ := @readWithin_of_ends table m s t n hf ht
        rw [h₁]
        exact .goes m₁ fun _ => ⟨m₁, t, hf, ht⟩
      | false =>
        cases hnud : table.nud t.kind with
        | none =>
          obtain ⟨s₁, h₁, m₁⟩ := readWithin_of_stray (m := m) (n := n) hf ht hnud
          rw [h₁]
          exact .trips (.stray (.cannotStart t) m₁ (m₁.front_eq.trans hf))
        | some role =>
          obtain ⟨s₁, h₁, m₁⟩ := readWithin_of_nud (m := m) (n := n) hf ht hnud
          have hlen₁ := m₁.tokens_length
          simp only [List.length_singleton] at hlen₁
          rw [h₁]
          refine .of_moves m₁ ((operandFrom_walks ih role t (by omega)).bind
            fun w left s₂ m₂ _ => ?_)
          have hlen₂ := m₂.tokens_length
          refine (climb_walks ih (by omega) (by omega) left).bind fun _ e s₃ _ _ => ?_
          exact .goes (.refl s₃) (by simp)

theorem read_walks (table : Bindings) (m : BindingPower) (s : Session) :
    Walks s (fun r s' => r = none → Absent s s') (read table m s) :=
  readWithin_walks table _ m s s.length_tokens_lt

/-! ## What is next -/

/-- Whatever is next can be taken, be it the end of the input. -/
theorem exists_advance_of_front (h : s.front = .ok t) : ∃ s', advance s = .ok t s' := by
  obtain ⟨stream, hnext⟩ := TokenStream.next_of_front h
  have hstream : onStream TokenStream.next s = .ok t { s with stream } := by
    simp [onStream, hnext]
  rw [advance, bind_of_ok hstream]
  exact ⟨_, rfl⟩

/-- There is no expression exactly in front of the end of the input and of a `)`, and then nothing
is taken. An expression that fails does so with a lexical error or with one of five syntax errors,
at the position of the token it is about; this token is the next to be taken, except that the `)`
of an empty group was taken last. An operator without an operand stands in front of the end of the
input or of a `)`. -/
theorem read_leaves_offending_token (table : Bindings) (m : BindingPower) (s : Session) :
    ((∃ s', read table m s = .ok none s') ↔
      ∃ t s₁, peek s = .ok t s₁ ∧ (t.kind = .eof ∨ t.kind = .closeParen)) ∧
    (∀ s', read table m s = .ok none s' → s.Moves [] [] s') ∧
    ∀ e s', read table m s = .error e s' →
      e.category = .lexical ∨
      ∃ x, e.cause.found = some x ∧ e.position = x.position ∧
        (((e.cause = .cannotStart x ∨ e.cause = .cannotFollow x ∨
              e.cause = .unmatchedParenthesis x ∨
              ∃ operator, e.cause = .missingOperand operator x ∧
                (x.kind = .eof ∨ x.kind = .closeParen)) ∧
            (∃ w, s.Moves w [] s') ∧ ∃ s'', advance s' = .ok x s'') ∨
          e.cause = .emptyExpression x ∧ x.kind = .closeParen ∧
            ∃ w, s.Moves (w ++ [x]) [] s') := by
  have hwalks := read_walks table m s
  refine ⟨⟨?_, ?_⟩, ?_, ?_⟩
  · rintro ⟨s', h⟩
    rw [h] at hwalks
    cases hwalks with
    | goes _ habsent =>
      obtain ⟨-, t, hf, ht⟩ := habsent rfl
      obtain ⟨s₁, h₁, -⟩ := peek_of_front hf
      exact ⟨t, s₁, h₁, by simpa [Token.endsExpression] using ht⟩
  · rintro ⟨t, s₁, h₁, ht⟩
    obtain ⟨s', h, -⟩ := @readWithin_of_ends table m s t s.stream.remaining (front_before_peek h₁)
      (by simpa [Token.endsExpression] using ht)
    exact ⟨s', h⟩
  · intro s' h
    rw [h] at hwalks
    cases hwalks with
    | goes _ habsent => exact (habsent rfl).moves
  · intro e s' h
    rw [h] at hwalks
    cases hwalks with
    | trips htrips =>
      cases htrips with
      | lexical he => exact .inl (isLexical_of_ending he)
      | @stray cause x w _ hx hm hf =>
        refine .inr ⟨x, ?_, rfl, .inl ⟨?_, ⟨w, hm⟩, exists_advance_of_front hf⟩⟩
        · cases hx <;> rfl
        · cases hx with
          | cannotStart => exact .inl rfl
          | cannotFollow => exact .inr (.inl rfl)
          | unmatchedParenthesis => exact .inr (.inr (.inl rfl))
          | missingOperand operator hx =>
            exact .inr (.inr (.inr ⟨operator, rfl, by simpa [Token.endsExpression] using hx⟩))
      | @emptyGroup close w _ hk hm => exact .inr ⟨close, rfl, rfl, .inr ⟨rfl, hk, w, hm⟩⟩

end Expr

end FxLang
