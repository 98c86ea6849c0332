import FxLang.Token.Stream

/-!
# The tokens to come

A stream is a text, a cursor and a token looked at. To a reader of tokens all that matters is the
list of tokens it would get by taking one after the other, and what stands behind them: the end of
the input, or an error. `upcoming` is that view of a stream.

* `upcoming_of_next`, `upcoming_peek`: taking a token takes the head of the list, looking ahead
  changes nothing.
* `length_tokens_le_remaining`: there are no more tokens to come than `remaining` says.
* `isLexical_of_ending`: what stands in the way of a token is a lexical error.
* `tokenize_eq_ok_iff`: `tokenize` gives the tokens to come and the end.
-/

namespace FxLang.TokenStream

/-- The tokens up to the end of the input or the first error, and what stands there. -/
def upcoming (s : TokenStream) : List Token × Except Error Token :=
  match _h : next s with
  | .ok t s' =>
    if _ht : t.isEof = true then ([], .ok t)
    else (t :: (upcoming s').1, (upcoming s').2)
  | .error e _ => ([], .error e)
termination_by s.remaining
decreasing_by all_goals exact remaining_next_lt _h (by simpa using _ht)

/-- The tokens before the end of the input or the first error. -/
def tokens (s : TokenStream) : List Token := s.upcoming.1

/-- What stands behind the tokens: the end of the input, or an error. -/
def ending (s : TokenStream) : Except Error Token := s.upcoming.2

/-! ## Taking and looking ahead -/

theorem upcoming_of_next {s s' : TokenStream} {t : Token} (h : next s = .ok t s')
    (ht : t.isEof = false) : s.upcoming = (t :: s'.tokens, s'.ending) := by
  rw [upcoming]
  split
  · rename_i h'
    rw [h] at h'; cases h'
    rw [dif_neg (by simp [ht])]; rfl
  · rename_i h'; rw [h] at h'; cases h'

theorem upcoming_of_next_eof {s s' : TokenStream} {t : Token} (h : next s = .ok t s')
    (ht : t.isEof = true) : s.upcoming = ([], .ok t) := by
  rw [upcoming]
  split
  · rename_i h'
    rw [h] at h'; cases h'
    rw [dif_pos ht]
  · rename_i h'; rw [h] at h'; cases h'

theorem upcoming_of_next_error {s s' : TokenStream} {e : Error} (h : next s = .error e s') :
    s.upcoming = ([], .error e) := by
  rw [upcoming]
  split
  · rename_i h'; rw [h] at h'; cases h'
  · rename_i h'; rw [h] at h'; cases h'; rfl

/-- Streams that take the same next token have the same tokens to come. -/
theorem upcoming_congr {s s' : TokenStream} (h : next s = next s') : s.upcoming = s'.upcoming := by
  cases hn : next s' with
  | ok t s₁ =>
    cases ht : t.isEof with
    | true => rw [upcoming_of_next_eof (h.trans hn) ht, upcoming_of_next_eof hn ht]
    | false => rw [upcoming_of_next (h.trans hn) ht, upcoming_of_next hn ht]
  | error e s₁ => rw [upcoming_of_next_error (h.trans hn), upcoming_of_next_error hn]

/-- A token that was looked at is still the next one to take. -/
theorem next_peek {s s' : TokenStream} {t : Token} (h : peek s = .ok t s') : next s' = next s := by
  rw [next_of_peek h]
  unfold peek at h
  split at h
  · rename_i t' hp
    cases h
    rw [next_of_peeked hp]
  · rename_i hp
    split at h
    · rename_i t' s₁ hscan
      cases h
      rw [next_of_not_peeked hp, hscan]
      have := scan_peeked hscan
      simp [← hp, ← this]
    · cases h

theorem upcoming_peek {s s' : TokenStream} {t : Token} (h : peek s = .ok t s') :
    s'.upcoming = s.upcoming :=
  upcoming_congr (next_peek h)

/-! ## The view decides what the operations give -/

/-- What looking ahead shows: the first token to come, or what stands in its place. -/
def front (s : TokenStream) : Except Error Token :=
  match s.tokens with
  | t :: _ => .ok t
  | [] => s.ending

theorem next_of_tokens {s : TokenStream} {t : Token} {ts : List Token} (h : s.tokens = t :: ts) :
    ∃ s', next s = .ok t s' ∧ s'.tokens = ts ∧ s'.ending = s.ending := by
  unfold tokens at h
  cases hn : next s with
  | ok t' s' =>
    cases ht : t'.isEof with
    | true => rw [upcoming_of_next_eof hn ht] at h; cases h
    | false =>
      have hu := upcoming_of_next hn ht
      rw [hu] at h
      cases h
      exact ⟨s', rfl, rfl, by rw [ending, ending, hu]; rfl⟩
  | error e s' => rw [upcoming_of_next_error hn] at h; cases h

theorem next_of_front {s : TokenStream} {t : Token} (h : s.front = .ok t) :
    ∃ s', next s = .ok t s' := by
  cases hn : next s with
  | ok t' s' =>
    have ht : t' = t := by
      cases he : t'.isEof with
      | true => simpa [front, tokens, ending, upcoming_of_next_eof hn he] using h
      | false => simpa [front, tokens, upcoming_of_next hn he] using h
    exact ⟨s', by rw [ht]⟩
  | error e s' => simp [front, tokens, ending, upcoming_of_next_error hn] at h

theorem peek_of_front {s : TokenStream} {t : Token} (h : s.front = .ok t) :
    ∃ s', peek s = .ok t s' ∧ s'.upcoming = s.upcoming := by
  obtain ⟨s', hn⟩ := next_of_front h
  have hpeek := peek_eq_next s
  rw [hn] at hpeek
  exact ⟨_, hpeek, upcoming_peek hpeek⟩

theorem peek_of_front_error {s : TokenStream} {e : Error} (h : s.front = .error e) :
    ∃ s', peek s = .error e s' := by
  have hpeek := peek_eq_next s
  cases hn : next s with
  | ok t s' =>
    cases he : t.isEof with
    | true => simp [front, tokens, ending, upcoming_of_next_eof hn he] at h
    | false => simp [front, tokens, upcoming_of_next hn he] at h
  | error e' s' =>
    rw [hn] at hpeek
    have : e' = e := by simpa [front, tokens, ending, upcoming_of_next_error hn] using h
    subst this
    exact ⟨s', hpeek⟩

/-! ## What the view holds -/

/-- The end of the input is none of the tokens to come; it stands behind them. -/
theorem isEof_upcoming (s : TokenStream) :
    (∀ t ∈ s.tokens, t.isEof = false) ∧ ∀ t, s.ending = .ok t → t.isEof = true := by
  induction hr : s.remaining using Nat.strongRecOn generalizing s with
  | ind n ih =>
    unfold tokens ending
    cases hn : next s with
    | ok t s' =>
      cases ht : t.isEof with
      | true =>
        rw [upcoming_of_next_eof hn ht]
        exact ⟨by simp, by rintro _ ⟨⟩; exact ht⟩
      | false =>
        rw [upcoming_of_next hn ht]
        have hlt := remaining_next_lt hn ht
        obtain ⟨h₁, h₂⟩ := ih s'.remaining (by omega) s' rfl
        exact ⟨by simpa [ht] using h₁, h₂⟩
    | error e s' => rw [upcoming_of_next_error hn]; simp

theorem length_tokens_le_remaining (s : TokenStream) : s.tokens.length ≤ s.remaining := by
  induction hr : s.remaining using Nat.strongRecOn generalizing s with
  | ind n ih =>
    unfold tokens
    cases hn : next s with
    | ok t s' =>
      cases ht : t.isEof with
      | true => rw [upcoming_of_next_eof hn ht]; simp
      | false =>
        rw [upcoming_of_next hn ht]
        have hlt := remaining_next_lt hn ht
        have := ih s'.remaining (by omega) s' rfl
        simp only [List.length_cons]
        omega
    | error e s' => rw [upcoming_of_next_error hn]; simp

/-! ## Errors of a stream -/

theorem isLexical_of_integerLiteral {text : List Char} {value : Nat} {c : Cause}
    (h : integerLiteral text value = .error c) : c.category = .lexical := by
  unfold integerLiteral at h
  split at h <;> cases h
  rfl

theorem isLexical_of_numberValue {text : List Char} {c : Cause}
    (h : numberValue text = .error c) : c.category = .lexical := by
  unfold numberValue at h
  split at h
  · cases h; rfl
  · exact isLexical_of_integerLiteral h
  · split at h
    · cases h
    · exact isLexical_of_integerLiteral h

theorem isLexical_of_classify {text : List Char} {c : Cause} (h : classify text = .error c) :
    c.category = .lexical := by
  unfold classify at h
  split at h
  · cases h
  · split at h
    · unfold operatorValue at h
      split at h <;> cases h
      rfl
    · unfold separatorValue at h
      split at h <;> cases h
      rfl
    · exact isLexical_of_numberValue h
    · cases h
    · cases h
      rfl

theorem isLexical_of_next {s s' : TokenStream} {e : Error} (h : next s = .error e s') :
    e.category = .lexical := by
  unfold next at h
  split at h
  · cases h
  · simp only [scan] at h
    split at h
    · cases h
    · split at h
      · cases h
      · rename_i hc
        cases h
        exact isLexical_of_classify hc

/-- What stands in the way of a token is a lexical error. -/
theorem isLexical_of_peek {s s' : TokenStream} {e : Error} (h : peek s = .error e s') :
    e.category = .lexical := by
  rw [peek_eq_next] at h
  cases hn : next s with
  | ok t s₁ => rw [hn] at h; cases h
  | error e₁ s₁ =>
    rw [hn] at h
    cases h
    exact isLexical_of_next hn

theorem isLexical_of_ending {s : TokenStream} {e : Error} (h : s.ending = .error e) :
    e.category = .lexical := by
  induction hr : s.remaining using Nat.strongRecOn generalizing s with
  | ind n ih =>
    unfold ending at h
    cases hn : next s with
    | ok t s' =>
      cases ht : t.isEof with
      | true => rw [upcoming_of_next_eof hn ht] at h; cases h
      | false =>
        rw [upcoming_of_next hn ht] at h
        have hlt := remaining_next_lt hn ht
        exact ih s'.remaining (by omega) h rfl
    | error e' s' =>
      rw [upcoming_of_next_error hn] at h
      cases h
      exact isLexical_of_next hn

/-! ## Whole sources -/

/-- With enough steps, all tokens are taken, and the end or the error behind them is met. -/
theorem takeTokens_eq (n : Nat) (s : TokenStream) (h : s.tokens.length < n) :
    ∃ s', takeTokens n s = match s.ending with
      | .ok t => .ok (s.tokens ++ [t]) s'
      | .error e => .error e s' := by
  induction n generalizing s with
  | zero => omega
  | succ n ih =>
    cases hn : next s with
    | ok t s' =>
      cases ht : t.isEof with
      | true =>
        refine ⟨s', ?_⟩
        simp [takeTokens, bind, EStateM.bind, hn, ht, pure, EStateM.pure, tokens, ending,
          upcoming_of_next_eof hn ht]
      | false =>
        have hu := upcoming_of_next hn ht
        have hlen : s'.tokens.length < n := by
          rw [tokens, hu] at h; simp only [List.length_cons] at h; omega
        obtain ⟨s₁, hs₁⟩ := ih s' hlen
        refine ⟨s₁, ?_⟩
        have : s.ending = s'.ending := by rw [ending, hu]
        rw [this]
        cases he : s'.ending <;>
          simp [takeTokens, bind, EStateM.bind, hn, ht, hs₁, he, pure, EStateM.pure, tokens, hu]
    | error e s' =>
      refine ⟨s', ?_⟩
      simp [takeTokens, bind, EStateM.bind, hn, ending, upcoming_of_next_error hn]

theorem toList_eq (s : TokenStream) : s.toList = s.ending.map (s.tokens ++ [·]) := by
  have hlen := s.length_tokens_le_remaining
  obtain ⟨s', h⟩ := takeTokens_eq (s.remaining + 1) s (by omega)
  unfold toList
  rw [h]
  cases s.ending <;> rfl

theorem toList_eq_ok_iff (s : TokenStream) (l : List Token) :
    s.toList = .ok l ↔ ∃ t, s.ending = .ok t ∧ l = s.tokens ++ [t] := by
  rw [toList_eq]
  cases s.ending <;> simp [Except.map, eq_comm]

end FxLang.TokenStream

namespace FxLang

/-- A source can be cut into tokens iff the end stands behind its tokens. -/
theorem tokenize_eq_ok_iff (file source : String) (ts : List Token) (t : Token) :
    tokenize file source = .ok (ts ++ [t]) ↔
      (TokenStream.ofSource file source).tokens = ts ∧
        (TokenStream.ofSource file source).ending = .ok t := by
  rw [tokenize, TokenStream.toList_eq_ok_iff]
  constructor
  · rintro ⟨t', he, hl⟩
    obtain ⟨rfl, h⟩ := List.append_inj' hl rfl
    obtain rfl : t = t' := by simpa using h
    exact ⟨rfl, he⟩
  · rintro ⟨rfl, he⟩
    exact ⟨t, he, rfl⟩

/-- A source cannot be cut into tokens iff an error stands behind those that it has. -/
theorem tokenize_eq_error_iff (file source : String) (e : Error) :
    tokenize file source = .error e ↔ (TokenStream.ofSource file source).ending = .error e := by
  rw [tokenize, TokenStream.toList_eq]
  cases (TokenStream.ofSource file source).ending <;> simp [Except.map]

end FxLang
