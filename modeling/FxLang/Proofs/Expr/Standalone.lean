import FxLang.Proofs.Grammar.Blame
import FxLang.Proofs.Session.Fate

/-!
# Expressions by themselves

What comes of the parsers of expressions, under any table and wherever they start: they record no
diagnostic, and where they fail it is with the lexical error behind the tokens, or with a syntax
error about a token that they were shown, which stands at that token.

A source that is to be one expression is judged by the ambiguous rule alone. Binding powers choose a
tree; they turn no expression away and let nothing else through.

* `Expr.readWithin_fate`, `Expr.readWhole_fate`: how the parsers end.
* `Expr.readWhole_verdict`: the verdict on an expression with the end of the input behind it.
* `Expr.ofSource_decides`: a source is read if and only if it is an expression, and otherwise its
  earliest impossible token is named.
-/

namespace FxLang

open Session

namespace Expr

/-! ## How the parsers of expressions end -/

section Fates

open Fate

variable {table : Bindings} {reader : Reader} {s : Session} {m : BindingPower}

/-- Whatever the minimum and wherever it starts, the reader trips or goes on in silence. -/
def Silent (reader : Reader) : Prop :=
  ∀ m s, Fate True s (fun _ _ _ _ => True) (reader m s)

theorem operandOf_fate (h : Silent reader) (o : Token) :
    Fate True s (fun _ _ _ _ => True) (operandOf reader o m s) := by
  refine (h m s).bind fun _ _ r s₁ _ _ => ?_
  cases r with
  | some e => exact pure trivial
  | none => exact peek_bind fun found s₂ _ hf => throw trivial rfl rfl (shows_of_front hf)

theorem group_fate (h : Silent reader) : Fate True s (fun _ _ _ _ => True) (group reader s) := by
  refine (h .lowest s).bind fun _ _ r s₁ _ _ => peek_bind fun close s₂ _ hf => ?_
  by_cases hk : close.kind = .closeParen
  · rw [if_pos hk]
    obtain ⟨s₃, h₃, m₃⟩ := advance_of_front hf (by simp [hk])
    rw [bind_of_ok h₃]
    cases r with
    | some e => exact of_clean m₃ (pure trivial)
    -- The `)` of an empty group is taken before the error about it.
    | none => exact .trips trivial m₃ rfl rfl (shows_of_front hf)
  · rw [if_neg hk]
    exact throw trivial rfl rfl (shows_of_front hf)

theorem operandFrom_fate (h : Silent reader) (role : Nud) (t : Token) :
    Fate True s (fun _ _ _ _ => True) (operandFrom table reader role t s) := by
  cases role with
  | primary => exact pure trivial
  | unary => exact (operandOf_fate h t).bind fun _ _ _ _ _ _ => pure trivial
  | grouping => exact group_fate h

theorem climb_fate (h : Silent reader) (n : Nat) (left : Expr) :
    Fate True s (fun _ _ _ _ => True) (climb table reader m n left s) := by
  induction n generalizing s left with
  | zero => exact pure trivial
  | succ n ih =>
    refine peek_bind fun next s₁ _ hf => ?_
    split
    · exact pure trivial
    next hstop =>
      have hk : next.kind ≠ .eof := by
        intro hk
        simp [Token.endsExpression, hk] at hstop
      split
      · refine advance_bind hf hk fun s₂ _ => emit_bind _ fun s₃ _ => ?_
        exact (operandOf_fate h next).bind fun _ _ right s₄ _ _ => ih _
      · exact throw trivial rfl rfl (shows_of_front hf)

theorem readWithin_fate (table : Bindings) (n : Nat) : Silent (readWithin table n) := by
  induction n with
  | zero => exact fun _ _ => pure trivial
  | succ n ih =>
    intro m s
    refine peek_bind fun first s₁ _ hf => ?_
    split
    · exact pure trivial
    next hends =>
      have hk : first.kind ≠ .eof := by
        intro hk
        simp [Token.endsExpression, hk] at hends
      cases table.nud first.kind with
      | none => exact throw trivial rfl rfl (shows_of_front hf)
      | some role =>
        refine advance_bind hf hk fun s₂ _ => emit_bind _ fun s₃ _ => ?_
        refine (operandFrom_fate ih role first).bind fun _ _ left s₄ _ _ => ?_
        exact (climb_fate ih n left).bind fun _ _ _ _ _ _ => pure trivial

theorem read_fate (table : Bindings) : Silent (read table) :=
  fun m s => readWithin_fate table (s.stream.remaining + 1) m s

/-- An expression that uses up the input ends only where the input does. -/
theorem readWhole_fate (s : Session) :
    Fate True s (fun _ _ _ s' => s'.tokens = [] ∧ ∃ t, s'.ending = .ok t) (readWhole s) := by
  refine (read_fate .standard .lowest s).bind fun _ _ r s₁ _ _ => peek_bind fun next s₂ _ hf => ?_
  cases r with
  | none => exact throw trivial rfl rfl (shows_of_front hf)
  | some e =>
    dsimp only
    split
    next heof =>
      obtain ⟨hnil, hend⟩ := tokens_of_front_eof hf (by simpa [Token.isEof] using heof)
      exact pure ⟨hnil, next, hend⟩
    · exact throw trivial rfl rfl (shows_of_front hf)

/-- Where an error stands behind the tokens of a source, it is met, or a syntax error before it. -/
theorem ofSource_of_ending {file source : String} {e : Error}
    (h : (TokenStream.ofSource file source).ending = .error e) :
    ∃ e', ofSource file source = .error e' ∧ (e' = e ∨ e'.category = .syntactic) := by
  have hfate := readWhole_fate (.ofSource file source)
  have hend : (Session.ofSource file source).ending = .error e := h
  unfold ofSource
  generalize readWhole (.ofSource file source) = r at hfate
  cases hfate with
  | goes hm _ _ hq =>
    obtain ⟨-, t, ht⟩ := hq
    rw [hm.ending_eq, hend] at ht
    cases ht
  | @ends _ e' _ _ _ hsilent =>
    have he := hsilent trivial
    rw [hend] at he
    cases he
    exact ⟨e, rfl, .inl rfl⟩
  | @trips _ e' _ x _ _ hx _ _ =>
    exact ⟨e', rfl, .inr ((Cause.isSome_found_iff _).1 (by simp [hx]))⟩

end Fates

/-! ## The verdict on a whole source -/

section Verdicts

open Verdict Program

variable {s : Session}

theorem readWhole_verdict (s : Session) :
    Verdict (.expr atEnd) (.rest atEnd) s (fun _ _ _ => True) (readWhole s) := by
  have hclose : atEnd.Closes := .tok rfl (by simp)
  have hread : read .standard .lowest s =
      readWithin .standard (s.stream.remaining + 1) .lowest s := rfl
  cases hf : s.front with
  | error e =>
    obtain ⟨s₁, h₁, -⟩ := @readWithin_of_front_error .standard .lowest s s.stream.remaining e hf
    rw [readWhole, bind_of_error (hread.trans h₁)]
    exact .breaks (ending_of_front_error hf)
  | ok t =>
    cases ht : t.endsExpression with
    | true =>
      obtain ⟨s₁, h₁, m₁⟩ := @readWithin_of_ends .standard .lowest s t s.stream.remaining hf ht
      rw [readWhole, bind_of_ok (hread.trans h₁)]
      refine of_moves m₁ (peek_bind fun next s₂ m₂ hnext => ?_)
      have hfront := m₂.front_eq.trans (m₁.front_eq.trans hf)
      rw [hfront] at hnext
      cases hnext
      exact throw rfl (.of_front hfront atEnd_alive.expr (not_expr_of_ends ht))
    | false =>
      rw [readWhole]
      refine (readWithin_verdict _ .lowest s atEnd t (by decide) atEnd_alive hclose
        s.length_tokens_lt hf ht).bind (by grind) fun w r s₁ _ hr => ?_
      obtain ⟨e, rfl⟩ := Option.isSome_iff_exists.1 hr.1
      refine peek_bind fun next s₂ m₂ hnext => ?_
      dsimp only
      split
      · exact pure trivial
      next heof =>
        -- What is left behind a whole expression is no operator.
        have hop := hr.2.not_isOperator (m₂.front_eq.symm.trans hnext)
        refine throw rfl (.of_front hnext atEnd_alive.rest fun v hv => ?_)
        rcases hv with hv | hv
        · exact heof (by simp [Token.isEof, hv.1])
        · rw [Lang.oneOf_cons, hop] at hv
          cases hv.1

/-- The token list is an expression by the ambiguous rule. -/
def Sentence (w : List Token) : Prop :=
  ∃ e, Derives w e

/-- A whole input that was read is an expression. -/
theorem sentence_of_readWhole {e : Expr} {s' : Session} (h : readWhole s = .ok e s') :
    Sentence s.tokens := by
  have hfate := readWhole_fate s
  have hverdict := readWhole_verdict s
  rw [h] at hfate hverdict
  cases hfate with
  | goes hm _ hsilent hq =>
    obtain rfl := hsilent trivial
    obtain ⟨hnil, t, hend⟩ := hq
    obtain ⟨w, hm', hl, -⟩ := hverdict.reads_of_clean (by simpa using hm.diagnostics_eq)
    have htokens : s.tokens = w := by simpa [hnil] using hm'.tokens_eq
    have heof := (TokenStream.isEof_upcoming s'.stream).2 t hend
    have hrest : Lang.rest atEnd [t] := .inl ⟨by simpa [Token.isEof] using heof, rfl⟩
    rw [htokens]
    exact (after_atEnd_iff.1 (hl.of_rest [t] hrest)).2

/-- A whole input without a lexical error fails at its earliest impossible token. -/
theorem blames_of_readWhole {t : Token} {e : Error} {s' : Session} (hend : s.ending = .ok t)
    (h : readWhole s = .error e s') :
    ∃ x, e.cause.found = some x ∧ e.position = x.position ∧ Blames (.expr atEnd) s x := by
  have hfate := readWhole_fate s
  have hverdict := readWhole_verdict s
  rw [h] at hfate hverdict
  cases hfate with
  | ends _ _ hsilent =>
    rw [hend] at hsilent
    cases hsilent trivial
  | @trips _ _ _ x _ hm hx hp _ =>
    refine ⟨x, hx, hp, ?_⟩
    cases hverdict with
    | breaks he =>
      rw [hend] at he
      cases he
    | @blames _ y ha hb =>
      rcases ha with ⟨d, more, hd, -⟩ | ⟨_, _, hr, -, hy⟩
      · rw [final_error, hm.diagnostics_eq] at hd
        simp at hd
      · cases hr
        rw [hx] at hy
        cases hy
        exact hb

/-- A source without lexical errors is read if and only if its tokens are an expression. Otherwise
the error is a syntax error at its token, which is the earliest impossible one: what stands in front
of it starts an expression, and no expression, with the end of the input behind it, starts with the
token as well. -/
theorem ofSource_decides (file source : String) (T : List Token)
    (htokens : tokenize file source = .ok T) :
    ∃ ts eof, T = ts ++ [eof] ∧ eof.isEof = true ∧
      ((∃ e, ofSource file source = .ok e) ↔ Sentence ts) ∧
      (¬ Sentence ts → ∃ e, ofSource file source = .error e ∧ e.category = .syntactic ∧
        ∃ x, e.cause.found = some x ∧ e.position = x.position ∧
          ∃ k, T[k]? = some x ∧ (∃ v, Sentence (T.take k ++ v)) ∧
            ∀ ts' eof', Sentence ts' → eof'.isEof = true → ¬ T.take (k + 1) <+: ts' ++ [eof']) := by
  obtain ⟨t, hend, rfl⟩ := (TokenStream.toList_eq_ok_iff _ _).1 htokens
  refine ⟨_, t, rfl, (TokenStream.isEof_upcoming _).2 t hend, ?_⟩
  unfold ofSource
  cases hr : readWhole (.ofSource file source) with
  | ok e s' =>
    have hs : Sentence (TokenStream.ofSource file source).tokens := sentence_of_readWhole hr
    exact ⟨⟨fun _ => hs, fun _ => ⟨e, rfl⟩⟩, fun h => absurd hs h⟩
  | error e s' =>
    obtain ⟨x, hx, hp, hb⟩ := blames_of_readWhole (s := .ofSource file source) hend hr
    obtain ⟨k, hk, hstart, hnot⟩ := exists_index_of_blames hb hend
    have hcategory : e.category = .syntactic := (Cause.isSome_found_iff _).1 (by simp [hx])
    refine ⟨⟨?_, fun hs => ?_⟩, fun _ => ?_⟩
    · rintro ⟨_, h⟩
      cases h
    · exact absurd (List.take_prefix _ _) (hnot _ t hs ((TokenStream.isEof_upcoming _).2 t hend))
    · exact ⟨e, rfl, hcategory, x, hx, hp, k, hk, hstart, hnot⟩

/-- The source `1 ( 2 )` has no lexical error, and it is not an expression. -/
theorem ofSource_decides_group :
    ∃ T, tokenize "f" "1 ( 2 )" = .ok T ∧
      (ofSource "f" "1 ( 2 )").isOk = false ∧
      ∃ ts eof, T = ts ++ [eof] ∧ eof.isEof = true ∧
        ((∃ e, ofSource "f" "1 ( 2 )" = .ok e) ↔ Sentence ts) ∧
        (¬ Sentence ts → ∃ e, ofSource "f" "1 ( 2 )" = .error e ∧ e.category = .syntactic ∧
          ∃ x, e.cause.found = some x ∧ e.position = x.position ∧
            ∃ k, T[k]? = some x ∧ (∃ v, Sentence (T.take k ++ v)) ∧
              ∀ ts' eof', Sentence ts' → eof'.isEof = true →
                ¬ T.take (k + 1) <+: ts' ++ [eof']) :=
  ⟨_, rfl, by decide +kernel, ofSource_decides "f" "1 ( 2 )" _ rfl⟩

end Verdicts

end Expr

end FxLang
