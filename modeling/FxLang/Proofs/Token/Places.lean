import FxLang.Proofs.Token.Boundary
import FxLang.Proofs.Token.Lookahead

/-!
# Where the results of a stream stand

A stream that is only taken from gives one result after the other, tokens and errors. Each of them
is about a piece of the text: a token about its own text, an error about the text that makes no
token. The end of the input is about the empty text behind everything.

`Place` names the piece: what stands before it, the piece itself and what stands after it, which is
what the stream has left when it has given the result. The line of a result is told by the newlines
before the piece.

* `Cause.offending`: the text that a lexical error carries.
* `outcome_next_rest`: what one result takes from the text.
* `exists_place`: every result has a place, by induction on the results before it.
* `results_of_getElem?`: the tokens to come, and what stands behind them, are the first results.
-/

namespace FxLang

open Text (isBlank newlines)

/-- The text that makes no token, for the causes of lexical errors. -/
def Cause.offending : Cause → Option String
  | .unrecognised text | .badOperator text | .badSeparator text | .malformedNumber text
  | .numberTooLarge text => some text
  | _ => none

theorem offending_of_integerLiteral {text : List Char} {value : Nat} {cause : Cause}
    (h : integerLiteral text value = .error cause) :
    cause.offending = some (String.ofList text) := by
  unfold integerLiteral at h
  split at h <;> cases h
  rfl

theorem offending_of_numberValue {text : List Char} {cause : Cause}
    (h : numberValue text = .error cause) : cause.offending = some (String.ofList text) := by
  unfold numberValue at h
  split at h
  · cases h
    rfl
  · exact offending_of_integerLiteral h
  · split at h
    · cases h
    · exact offending_of_integerLiteral h

/-- A lexeme that makes no token is the offending text. -/
theorem offending_of_classify {text : List Char} {cause : Cause}
    (h : classify text = .error cause) :
    cause.offending = some (String.ofList text) := by
  unfold classify at h
  split at h
  · cases h
  · split at h
    · unfold operatorValue at h
      split at h <;> cases h
      rfl
    · unfold separatorValue at h
      split at h <;> cases h
      rfl
    · exact offending_of_numberValue h
    · cases h
    · cases h
      rfl

/-- No lexeme behind a gap has a blank in it. -/
theorem Splits.isBlank_eq_false {text g l r : List Char} (h : Splits text g l r) :
    ∀ c ∈ l, isBlank c = false := by
  obtain ⟨a, m, rfl⟩ := List.exists_cons_of_ne_nil h.ne_nil
  intro c hc
  rcases List.mem_cons.1 hc with rfl | hc
  · exact (gap_cons_eq_nil_iff.1 h.gap_eq).1
  · exact h.isLexeme.isBlank_eq_false hc

namespace TokenStream

variable {s : TokenStream}

/-! ## One result -/

/-- The text that a result is about. -/
def shownText : Except Error Token → Option String
  | .ok t => some t.text
  | .error e => e.cause.offending

/-- The position that a result carries. -/
def shownPosition : Except Error Token → Position
  | .ok t => t.position
  | .error e => e.position

/-- The stream behind so many results. -/
def behind : TokenStream → Nat → TokenStream
  | s, 0 => s
  | s, k + 1 => (outcome (next s)).2.behind k

/-- The result with the number `k` is about the text `shown`, with `before` in front of it and
`after` left when it was given. -/
structure Place (s : TokenStream) (k : Nat) (before shown after : List Char) : Prop where
  rest_eq : s.cursor.rest = before ++ (shown ++ after)
  behind_eq : (s.behind (k + 1)).cursor.rest = after
  text_eq : shownText (s.results k) = some (String.ofList shown)
  position_eq : shownPosition (s.results k) =
    { file := s.file, line := s.cursor.line + newlines before }
  isBlank_eq : ∀ c ∈ shown, isBlank c = false

theorem exists_place_zero (hp : s.peeked = none) :
    ∃ before shown after, s.Place 0 before shown after := by
  rcases gap_eq_self_or_splits s.cursor.rest with hgap | ⟨g, l, r, hsplit⟩
  · have hn := (next_of_not_peeked hp).trans (scan_of_gap hgap)
    refine ⟨s.cursor.rest, [], [], by simp, ?_, ?_, ?_, by simp⟩
    · simp [behind, hn, outcome]
    · simp [results, hn, outcome, shownText, Token.eof]
    · simp [results, hn, outcome, shownPosition, Token.eof]
  · have hn := (next_of_not_peeked hp).trans (scan_of_splits hsplit)
    refine ⟨g, l, r, hsplit.text_eq, ?_, ?_, ?_, hsplit.isBlank_eq_false⟩
    · unfold behind behind
      rw [hn]
      cases classify l <;> exact (skip_of_splits hsplit).1
    · unfold results
      rw [hn]
      cases hclass : classify l with
      | ok value => rfl
      | error cause => exact offending_of_classify hclass
    · unfold results
      rw [hn]
      cases classify l <;> rfl

/-! ## What one result takes -/

/-- A result takes a front of the text, and the line goes on with its newlines. -/
theorem outcome_next_rest (hp : s.peeked = none) :
    ∃ x, s.cursor.rest = x ++ (outcome (next s)).2.cursor.rest ∧
      (outcome (next s)).2.cursor.line = s.cursor.line + newlines x ∧
      (outcome (next s)).2.file = s.file := by
  rw [next_of_not_peeked hp]
  rcases gap_eq_self_or_splits s.cursor.rest with hgap | ⟨g, l, r, hsplit⟩
  · rw [scan_of_gap hgap]
    exact ⟨s.cursor.rest, by simp [outcome], by simp [outcome], rfl⟩
  · obtain ⟨hrest, hline⟩ := skip_of_splits hsplit
    have htext : s.cursor.rest = g ++ l ++ r := by rw [hsplit.text_eq, List.append_assoc]
    rw [scan_of_splits hsplit]
    refine ⟨g ++ l, ?_, ?_, ?_⟩
    · cases classify l <;> exact htext.trans (congrArg _ hrest.symm)
    · cases classify l <;> exact hline
    · cases classify l <;> rfl

/-- Every result has a place. -/
theorem exists_place (hp : s.peeked = none) (k : Nat) :
    ∃ before shown after, s.Place k before shown after := by
  induction k generalizing s with
  | zero => exact exists_place_zero hp
  | succ k ih =>
    obtain ⟨x, hrest, hline, hfile⟩ := outcome_next_rest hp
    obtain ⟨before, shown, after, h⟩ := ih (outcome_next_peeked hp)
    refine ⟨x ++ before, shown, after, ?_, h.behind_eq, h.text_eq, ?_, h.isBlank_eq⟩
    · rw [hrest, h.rest_eq, List.append_assoc]
    · have hposition := h.position_eq
      rw [hline, hfile] at hposition
      rw [Text.newlines_append, ← UInt32.add_assoc]
      exact hposition

/-! ## The tokens to come -/

/-- The tokens to come, and what stands behind them, are the first results. -/
theorem results_of_getElem? {k : Nat} {r : Except Error Token}
    (h : (s.tokens.map .ok ++ [s.ending])[k]? = some r) : s.results k = r := by
  generalize hts : s.tokens = ts at h
  induction ts generalizing s k with
  | nil =>
    obtain ⟨rfl, rfl⟩ : k = 0 ∧ s.ending = r := by
      cases k with
      | zero => simpa using h
      | succ k => simp at h
    unfold results
    unfold tokens at hts
    unfold ending
    cases hn : next s with
    | error e s' => rw [upcoming_of_next_error hn]; rfl
    | ok t s' =>
      cases ht : t.isEof with
      | true => rw [upcoming_of_next_eof hn ht]; rfl
      | false =>
        rw [upcoming_of_next hn ht] at hts
        cases hts
  | cons t ts ih =>
    obtain ⟨s', hn, htokens, hending⟩ := next_of_tokens hts
    cases k with
    | zero =>
      obtain rfl : Except.ok t = r := by simpa using h
      unfold results
      rw [hn]
      rfl
    | succ k =>
      unfold results
      rw [hn]
      refine ih htokens ?_
      simpa [outcome, hending] using h

theorem exists_results {r : Except Error Token} (h : r ∈ s.tokens.map .ok ++ [s.ending]) :
    ∃ k, s.results k = r := by
  obtain ⟨k, hk⟩ := List.mem_iff_getElem?.1 h
  exact ⟨k, results_of_getElem? hk⟩

end TokenStream

end FxLang
