import FxLang.Session.Basic
import FxLang.Proofs.Token.Upcoming

/-!
# What a parser takes and reports

A parser is judged by the tokens it takes, the diagnostics it records and its result; the log and
the state of the token cache do not matter. `Session.Moves s w ds s'` says that from `s` to `s'`
exactly the tokens `w` were taken and exactly the diagnostics `ds` recorded.

For each small step there is one lemma that says what it does to this view: `peek_of_front`,
`advance_of_tokens`, `expect_of_kind`, `reportNext_of_front` and so on. Parsers are opened with
`bind_of_ok` and `bind_of_error`, one step at a time.
-/

namespace FxLang

/-! ## Steps in sequence -/

section
variable {α β : Type} {x : ParseM α} {f : α → ParseM β} {s s' : Session}

/-- The session a parser leaves behind. -/
def final : EStateM.Result Error Session α → Session
  | .ok _ s => s
  | .error _ s => s

@[simp] theorem final_ok (a : α) (s : Session) :
    final (.ok a s : EStateM.Result Error Session α) = s := rfl

@[simp] theorem final_error (e : Error) (s : Session) :
    final (.error e s : EStateM.Result Error Session α) = s := rfl

theorem bind_of_ok {a : α} (h : x s = .ok a s') : (x >>= f) s = f a s' := by
  simp [bind, EStateM.bind, h]

theorem bind_of_error {e : Error} (h : x s = .error e s') : (x >>= f) s = .error e s' := by
  simp [bind, EStateM.bind, h]

/-- What follows a step depends on the outcome of the step only. -/
theorem bind_congr_apply {y : ParseM α} (h : x s = y s') : (x >>= f) s = (y >>= f) s' := by
  simp only [bind, EStateM.bind, h]

theorem bind_eq_ok {b : β} (h : (x >>= f) s = .ok b s') :
    ∃ a s₁, x s = .ok a s₁ ∧ f a s₁ = .ok b s' := by
  cases hx : x s with
  | ok a s₁ => rw [bind_of_ok hx] at h; exact ⟨a, s₁, rfl, h⟩
  | error e s₁ => rw [bind_of_error hx] at h; cases h

@[simp] theorem throw_apply (e : Error) (s : Session) : (throw e : ParseM α) s = .error e s := rfl

/-- What is seen of a result through a view is seen of a value. -/
theorem exists_of_toOption_map {r : Except Error α} {view : α → β} {b : β}
    (h : r.toOption.map view = some b) : ∃ a, r = .ok a ∧ view a = b := by
  cases r with
  | error e => cases h
  | ok a => exact ⟨a, rfl, Option.some.inj h⟩

end

namespace Session

open TokenStream (upcoming)

/-! ## The view of a session -/

/-- The tokens before the end of the input or the first error. -/
def tokens (s : Session) : List Token := s.stream.tokens

/-- What stands behind the tokens: the end of the input, or an error. -/
def ending (s : Session) : Except Error Token := s.stream.ending

/-- The next token, the end of the input included, or the error in its place. -/
def front (s : Session) : Except Error Token := s.stream.front

theorem front_of_tokens {s : Session} {t : Token} {ts : List Token} (h : s.tokens = t :: ts) :
    s.front = .ok t := by
  unfold tokens at h
  simp [front, TokenStream.front, h]

theorem front_of_nil {s : Session} (h : s.tokens = []) : s.front = s.ending := by
  unfold tokens at h
  simp [front, TokenStream.front, h, ending]

/-- A next token other than the end is the first of the tokens to come. -/
theorem tokens_of_front {s : Session} {t : Token} (h : s.front = .ok t) (ht : t.kind ≠ .eof) :
    ∃ ts, s.tokens = t :: ts := by
  cases hts : s.tokens with
  | cons t' ts =>
    rw [front_of_tokens hts] at h
    cases h
    exact ⟨ts, rfl⟩
  | nil =>
    rw [front_of_nil hts] at h
    have := (TokenStream.isEof_upcoming s.stream).2 t h
    simp [Token.isEof, ht] at this

/-- The end of the input is next only when no token is left. -/
theorem tokens_of_front_eof {s : Session} {t : Token} (h : s.front = .ok t)
    (ht : t.kind = .eof) : s.tokens = [] ∧ s.ending = .ok t := by
  cases hts : s.tokens with
  | cons t' ts =>
    rw [front_of_tokens hts] at h
    cases h
    have := (TokenStream.isEof_upcoming s.stream).1 t (by
      unfold tokens at hts; rw [hts]; exact List.mem_cons_self)
    simp [Token.isEof, ht] at this
  | nil => exact ⟨rfl, by rw [← front_of_nil hts]; exact h⟩

/-- An error stands in place of the next token only when no token is left. -/
theorem ending_of_front_error {s : Session} {e : Error} (h : s.front = .error e) :
    s.ending = .error e := by
  cases hts : s.tokens with
  | cons t ts => rw [front_of_tokens hts] at h; cases h
  | nil => rw [← front_of_nil hts]; exact h

theorem isLexical_of_ending {s : Session} {e : Error} (h : s.ending = .error e) :
    e.category = .lexical :=
  TokenStream.isLexical_of_ending h

/-- There are more rounds than tokens. -/
theorem length_tokens_lt (s : Session) : s.tokens.length < s.stream.remaining + 1 :=
  Nat.lt_succ_of_le s.stream.length_tokens_le_remaining

/-- A round is left for what is bounded by fewer. -/
theorem exists_eq_succ {m n : Nat} (h : m + 1 ≤ n) : ∃ n', n = n' + 1 ∧ m ≤ n' :=
  ⟨n - 1, by omega, by omega⟩

/-- The next token once the tokens `w` are taken. -/
def behind (s : Session) (w : List Token) : Except Error Token :=
  match s.tokens.drop w.length with
  | t :: _ => .ok t
  | [] => s.ending

theorem behind_of_isPrefix {s : Session} {w w' : List Token} {t : Token}
    (h : w ++ t :: w' <+: s.tokens) : s.behind w = .ok t := by
  obtain ⟨r, hr⟩ := h
  unfold behind
  rw [← hr, List.append_assoc, List.drop_left]
  rfl

/-- From one session to the other, exactly the tokens `w` were taken and exactly the diagnostics
`ds` recorded. -/
structure Moves (s : Session) (w : List Token) (ds : List Diagnostic) (s' : Session) : Prop where
  tokens_eq : s.tokens = w ++ s'.tokens
  ending_eq : s'.ending = s.ending
  diagnostics_eq : s'.diagnostics = s.diagnostics ++ ds
  errorCount_eq : s'.errorCount = s.errorCount + ds.length

namespace Moves

variable {s s₁ s₂ : Session} {w w₁ w₂ : List Token} {ds ds₁ ds₂ : List Diagnostic}

theorem refl (s : Session) : s.Moves [] [] s := ⟨rfl, rfl, by simp, rfl⟩

theorem trans (h₁ : s.Moves w₁ ds₁ s₁) (h₂ : s₁.Moves w₂ ds₂ s₂) :
    s.Moves (w₁ ++ w₂) (ds₁ ++ ds₂) s₂ where
  tokens_eq := by rw [h₁.tokens_eq, h₂.tokens_eq, List.append_assoc]
  ending_eq := h₂.ending_eq.trans h₁.ending_eq
  diagnostics_eq := by rw [h₂.diagnostics_eq, h₁.diagnostics_eq, List.append_assoc]
  errorCount_eq := by
    rw [h₂.errorCount_eq, h₁.errorCount_eq, List.length_append]; omega

/-- Two moves that report nothing. -/
theorem trans_clean (h₁ : s.Moves w₁ [] s₁) (h₂ : s₁.Moves w₂ [] s₂) :
    s.Moves (w₁ ++ w₂) [] s₂ := h₁.trans h₂

theorem count_eq (h : s.Moves w [] s₁) : s₁.errorCount = s.errorCount := by
  simpa using h.errorCount_eq

theorem tokens_length (h : s.Moves w ds s₁) : s.tokens.length = w.length + s₁.tokens.length := by
  rw [h.tokens_eq, List.length_append]

theorem front_eq_behind (h : s.Moves w ds s₁) : s₁.front = s.behind w := by
  unfold behind
  rw [h.tokens_eq, List.drop_left]
  cases hts : s₁.tokens with
  | cons t ts => exact front_of_tokens hts
  | nil => rw [front_of_nil hts]; exact h.ending_eq

/-- What stands behind `w₁ ++ w₂` stands behind `w₂` once `w₁` is taken. -/
theorem behind_eq (h : s.Moves w₁ ds s₁) (w₂ : List Token) :
    s₁.behind w₂ = s.behind (w₁ ++ w₂) := by
  unfold behind
  rw [h.tokens_eq, List.length_append, ← List.drop_drop, List.drop_left, h.ending_eq]

theorem isPrefix (h : s.Moves w₁ ds s₁) (hw : w₁ ++ w₂ <+: s.tokens) : w₂ <+: s₁.tokens := by
  rw [h.tokens_eq] at hw
  exact (List.prefix_append_right_inj w₁).1 hw

/-- A move that takes nothing leaves the next token where it is. -/
theorem front_eq (h : s.Moves [] ds s₁) : s₁.front = s.front := by
  rw [h.front_eq_behind, (refl s).front_eq_behind]

/-- A change of the log does not count. -/
theorem log (s : Session) (log : Array Event) : s.Moves [] [] { s with log } :=
  ⟨rfl, rfl, by simp, rfl⟩

end Moves

/-- The tokens that were taken on the way from one session to the other. -/
def taken (s s' : Session) : List Token :=
  s.tokens.take (s.tokens.length - s'.tokens.length)

theorem Moves.taken_eq {s s' : Session} {w : List Token} {ds : List Diagnostic}
    (h : s.Moves w ds s') : s.taken s' = w := by
  unfold taken
  rw [h.tokens_eq]
  simp

/-! ## Small steps -/

section
variable {s : Session} {t : Token} {ts : List Token} {e : Error} {k : Kind}
  {expected context : String}

theorem attempt_of_ok {α : Type} {x : ParseM α} {a : α} {s' : Session} (h : x s = .ok a s') :
    attempt x s = .ok (.ok a) s' := by
  simp [attempt, h]

theorem attempt_of_error {α : Type} {x : ParseM α} {s' : Session} (h : x s = .error e s') :
    attempt x s = .ok (.error e) s' := by
  simp [attempt, h]

theorem bind_emit {β : Type} (event : Event) (f : Unit → ParseM β) (s : Session) :
    ∃ s', (emit event >>= f) s = f () s' ∧ s.Moves [] [] s' :=
  ⟨_, bind_of_ok (emit_apply event s), .log s _⟩

theorem peek_of_front (h : s.front = .ok t) : ∃ s', peek s = .ok t s' ∧ s.Moves [] [] s' := by
  obtain ⟨s', hs', hu⟩ := TokenStream.peek_of_front h
  refine ⟨{ s with stream := s' }, by simp [peek, onStream, hs'], ?_, ?_, by simp, rfl⟩
  · simp [tokens, TokenStream.tokens, hu]
  · simp [ending, TokenStream.ending, hu]

theorem peek_of_front_error (h : s.front = .error e) :
    ∃ s', peek s = .error e s' ∧ s'.diagnostics = s.diagnostics := by
  obtain ⟨s', hs'⟩ := TokenStream.peek_of_front_error h
  exact ⟨{ s with stream := s' }, by simp [peek, onStream, hs'], rfl⟩

/-- What a look shows is in front. -/
theorem front_before_peek {s' : Session} (h : peek s = .ok t s') : s.front = .ok t := by
  cases hf : s.front with
  | ok t' =>
    obtain ⟨s₁, h₁, -⟩ := peek_of_front hf
    rw [h] at h₁
    cases h₁
    rfl
  | error e =>
    obtain ⟨s₁, h₁, -⟩ := peek_of_front_error hf
    rw [h] at h₁
    cases h₁

/-- What was looked at is still in front. -/
theorem front_of_peek {s' : Session} (h : peek s = .ok t s') : s'.front = .ok t := by
  have hf := front_before_peek h
  obtain ⟨s₁, h₁, hm⟩ := peek_of_front hf
  rw [h] at h₁
  cases h₁
  exact hm.front_eq.trans hf

theorem advance_of_tokens (h : s.tokens = t :: ts) :
    ∃ s', advance s = .ok t s' ∧ s.Moves [t] [] s' := by
  obtain ⟨s', hs', htok, hend⟩ := TokenStream.next_of_tokens h
  have hn : onStream TokenStream.next s = .ok t { s with stream := s' } := by
    simp [onStream, hs']
  refine ⟨{ s with stream := s', log := s.log.push (.taken t) }, ?_, ?_, hend, by simp, rfl⟩
  · rw [advance, bind_of_ok hn]; rfl
  · rw [h]; simp [tokens, htok]

theorem advance_of_front (h : s.front = .ok t) (ht : t.kind ≠ .eof) :
    ∃ s', advance s = .ok t s' ∧ s.Moves [t] [] s' := by
  obtain ⟨ts, hts⟩ := tokens_of_front h ht
  exact advance_of_tokens hts

theorem peekKind_of_front (h : s.front = .ok t) :
    ∃ s', peekKind s = .ok t.kind s' ∧ s.Moves [] [] s' := by
  obtain ⟨s', hs', hm⟩ := peek_of_front h
  exact ⟨s', by rw [peekKind, bind_of_ok hs']; rfl, hm⟩

theorem nextIs_of_front (k : Kind) (h : s.front = .ok t) :
    ∃ s', nextIs k s = .ok (decide (t.kind = k)) s' ∧ s.Moves [] [] s' := by
  obtain ⟨s', hs', hm⟩ := peekKind_of_front h
  exact ⟨s', by rw [nextIs, bind_of_ok hs']; rfl, hm⟩

/-- A token of the kind asked for is taken. -/
theorem expect_of_kind (h : s.front = .ok t) (hk : t.kind = k) (hne : k ≠ .eof) :
    ∃ s', expect k expected context s = .ok (some t) s' ∧ s.Moves [t] [] s' := by
  obtain ⟨s₁, h₁, m₁⟩ := nextIs_of_front k h
  obtain ⟨s₂, h₂, m₂⟩ := advance_of_front (m₁.front_eq.trans h) (by rw [hk]; exact hne)
  refine ⟨s₂, ?_, m₁.trans_clean m₂⟩
  rw [expect, bind_of_ok h₁]
  simp only [hk, decide_true, if_true]
  rw [bind_of_ok h₂]; rfl

/-! ## Reports -/

/-- Below the limit a report is recorded, and reading goes on. -/
theorem report_of_lt (h : s.errorCount + 1 < maxErrors) :
    ∃ s', report expected context t s = .ok () s' ∧
      s.Moves [] [{ expected, context, found := t }] s' := by
  rw [report_apply]
  simp only [if_neg (show ¬ maxErrors ≤ s.errorCount + 1 by omega)]
  exact ⟨_, rfl, rfl, rfl, rfl, rfl⟩

/-- The report that reaches the limit is recorded, and the session is given up at its token. -/
theorem report_of_le (h : maxErrors ≤ s.errorCount + 1) :
    ∃ s', report expected context t s =
        .error { cause := .tooManyErrors (s.errorCount + 1), position := t.position } s' ∧
      s.Moves [] [{ expected, context, found := t }] s' := by
  rw [report_apply]
  simp only [if_pos h]
  exact ⟨_, rfl, rfl, rfl, rfl, rfl⟩

/-- Either way a report adds its diagnostic. -/
theorem report_moves (expected context : String) (t : Token) (s : Session) :
    s.Moves [] [{ expected, context, found := t }] (final (report expected context t s)) := by
  by_cases h : maxErrors ≤ s.errorCount + 1
  · obtain ⟨s', hs', hm⟩ := @report_of_le s t expected context h
    rw [hs']; exact hm
  · obtain ⟨s', hs', hm⟩ := @report_of_lt s t expected context (by omega)
    rw [hs']; exact hm

/-- A report about the next token is a report about the token that stands in front. -/
theorem reportNext_of_front (h : s.front = .ok t) :
    ∃ s', reportNext expected context s = report expected context t s' ∧ s.Moves [] [] s' := by
  obtain ⟨s', hs', hm⟩ := peek_of_front h
  exact ⟨s', by rw [reportNext, bind_of_ok hs'], hm⟩

/-- A token of another kind than asked for is reported and stays. -/
theorem expect_of_ne (h : s.front = .ok t) (hk : t.kind ≠ k) :
    ∃ s', expect k expected context s =
        (report expected context t >>= fun _ => pure none) s' ∧ s.Moves [] [] s' := by
  obtain ⟨s₁, h₁, m₁⟩ := nextIs_of_front k h
  obtain ⟨s₂, h₂, m₂⟩ := @reportNext_of_front s₁ t expected context (m₁.front_eq.trans h)
  refine ⟨s₂, ?_, m₁.trans_clean m₂⟩
  rw [expect, bind_of_ok h₁]
  simp only [hk, decide_false, Bool.false_eq_true, if_false]
  simp only [bind, EStateM.bind, h₂]

end

end Session

end FxLang
