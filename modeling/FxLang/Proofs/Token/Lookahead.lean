import FxLang.Calls
import FxLang.Proofs.Token.Segments

/-!
# Looking ahead against the plain sequence of results

A reader that only ever takes tokens gets an infinite sequence of results: tokens, errors in between,
and from some place on the end of the input, again and again. `TokenStream.results` is this
sequence.

A reader that also looks ahead works on a stream that may hold a token it has shown already. What it
gets can be told without that: it has a place in the plain sequence, shown results are those at the
place, taking goes one place on, and so does looking at an error, which is used up by it.

`Call.run` makes a call on a stream and `Call.read` makes it at a place of a sequence.

* `Call.run_inStep`: one call gives the same on both sides and keeps them in step.
* `answers_eq`: hence any row of calls gives the same.
* `results_of_eof`: behind the end of the input there is nothing but the end.
* `lookahead_refines`: both for the streams of sources.
-/

namespace FxLang.TokenStream

variable {α : Type}

/-! ## The plain sequence -/

/-- What a reader gives, and the stream it leaves behind. -/
def outcome : EStateM.Result Error TokenStream α → Except Error α × TokenStream
  | .ok a s => (.ok a, s)
  | .error e s => (.error e, s)

/-- The results of taking tokens and nothing else, going on behind errors. -/
def results : TokenStream → Nat → Except Error Token
  | s, 0 => (outcome (next s)).1
  | s, n + 1 => (outcome (next s)).2.results n

/-- What is taken next decides about everything behind it. -/
theorem results_congr {s s' : TokenStream} (h : next s = next s') : s.results = s'.results := by
  funext n
  cases n with
  | zero => unfold results; rw [h]
  | succ n => unfold results; rw [h]

/-! ## Calls -/

/-- What can be asked of a stream. -/
inductive Call where
  | peek
  | peekKind
  | next
deriving DecidableEq, Repr

/-- What a call gives: a token, or its kind, or the error in its place. -/
inductive Answer where
  | token (result : Except Error Token)
  | kind (result : Except Error Kind)

namespace Call

/-- A call on a stream. -/
def run : Call → TokenStream → Answer × TokenStream
  | .peek, s => (.token (outcome (TokenStream.peek s)).1, (outcome (TokenStream.peek s)).2)
  | .peekKind, s =>
    (.kind (outcome (TokenStream.peekKind s)).1, (outcome (TokenStream.peekKind s)).2)
  | .next, s => (.token (outcome (TokenStream.next s)).1, (outcome (TokenStream.next s)).2)

/-- The place behind a look: a token stays where it is, an error is used up. -/
def behindLook (R : Nat → Except Error Token) (place : Nat) : Nat :=
  match R place with
  | .ok _ => place
  | .error _ => place + 1

/-- A call at a place of the sequence `R`. -/
def read (R : Nat → Except Error Token) : Call → Nat → Answer × Nat
  | .peek, place => (.token (R place), behindLook R place)
  | .peekKind, place => (.kind ((R place).map Token.kind), behindLook R place)
  | .next, place => (.token (R place), place + 1)

end Call

/-! ## One call -/

/-- The stream stands at a place of the sequence `R`. -/
def Tracks (R : Nat → Except Error Token) (s : TokenStream) (place : Nat) : Prop :=
  ∀ n, s.results n = R (place + n)

variable {R : Nat → Except Error Token} {s s' : TokenStream} {place : Nat} {t : Token} {e : Error}

theorem Tracks.next_eq (h : Tracks R s place) : (outcome (next s)).1 = R place := h 0

theorem Tracks.behind_next (h : Tracks R s place) :
    Tracks R (outcome (next s)).2 (place + 1) := by
  intro n
  have hn := h (n + 1)
  rw [show place + 1 + n = place + (n + 1) by omega]
  exact hn

/-- A look gives what taking would give, and leaves the stream in front of a token. -/
theorem Tracks.outcome_peek (h : Tracks R s place) :
    (outcome (peek s)).1 = R place ∧ Tracks R (outcome (peek s)).2 (Call.behindLook R place) := by
  have hpeek := peek_eq_next s
  have hplace := h.next_eq
  unfold Call.behindLook
  cases hn : next s with
  | ok t s' =>
    rw [hn] at hpeek hplace
    rw [← hplace]
    refine ⟨by rw [hpeek]; rfl, ?_⟩
    have hsame : (outcome (peek s)).2.results = s.results := by
      apply results_congr
      rw [hpeek]
      exact next_peek hpeek
    intro n
    rw [hsame]
    exact h n
  | error e s' =>
    have hbehind := h.behind_next
    rw [hn] at hpeek hplace hbehind
    rw [← hplace, hpeek]
    exact ⟨rfl, hbehind⟩

theorem outcome_peekKind (s : TokenStream) :
    outcome (peekKind s) = ((outcome (peek s)).1.map Token.kind, (outcome (peek s)).2) := by
  unfold peekKind
  cases hp : peek s with
  | ok t s' => simp [bind, EStateM.bind, hp, pure, EStateM.pure, outcome, Except.map]
  | error e s' => simp [bind, EStateM.bind, hp, outcome, Except.map]

/-- A call on a stream gives what it gives at the place of the stream, and both go on together. -/
theorem Call.run_inStep (R : Nat → Except Error Token) :
    InStep Call.run (Call.read R) (Tracks R) := by
  intro call s place h
  cases call with
  | peek =>
    obtain ⟨hgives, hstands⟩ := h.outcome_peek
    exact ⟨congrArg Answer.token hgives, hstands⟩
  | peekKind =>
    obtain ⟨hgives, hstands⟩ := h.outcome_peek
    have hkind := outcome_peekKind s
    refine ⟨congrArg Answer.kind ?_, ?_⟩
    · show (outcome (TokenStream.peekKind s)).1 = (R place).map Token.kind
      rw [hkind, hgives]
    · show Tracks R (outcome (TokenStream.peekKind s)).2 (behindLook R place)
      rw [hkind]
      exact hstands
  | next => exact ⟨congrArg Answer.token h.next_eq, h.behind_next⟩

/-! ## Rows of calls -/

/-- The answers alone, without the states behind them. -/
theorem answers_eq (calls : List Call) (h : Tracks R s place) :
    (answers Call.run calls s).map Prod.fst = (answers (Call.read R) calls place).map Prod.fst :=
  InStep.map_answers_eq (Call.run_inStep R) (fun _ _ _ _ => rfl) calls h

/-! ## The end of the input -/

theorem outcome_scan_peeked (s : TokenStream) : (outcome (scan s)).2.peeked = s.peeked := by
  simp only [scan]
  split
  · rfl
  · split <;> rfl

/-- A stream that holds no token goes on to one that holds none. -/
theorem outcome_next_peeked (hp : s.peeked = none) : (outcome (next s)).2.peeked = none := by
  rw [next_of_not_peeked hp, outcome_scan_peeked, hp]

theorem scan_of_rest_nil (h : s.cursor.rest = []) :
    scan s = .ok (.eof { file := s.file, line := s.cursor.line }) s := by
  simp [scan, h, gap, Text.Cursor.skip]

/-- At the end of the input the same end is found again. -/
theorem scan_of_eof (h : scan s = .ok t s') (ht : t.isEof = true) : scan s' = .ok t s' := by
  simp only [scan] at h
  split at h
  · rename_i hrest
    cases h
    exact scan_of_rest_nil hrest
  · rename_i hrest
    split at h
    · rename_i kind literal hclass
      cases h
      have hkind := kind_ne_eof_of_classify (lexeme_ne_nil hrest) hclass
      simp [Token.isEof, hkind] at ht
    · cases h

theorem results_of_scan_self (hp : s.peeked = none) (h : scan s = .ok t s) (n : Nat) :
    s.results n = .ok t := by
  have hn : next s = .ok t s := (next_of_not_peeked hp).trans h
  induction n with
  | zero => unfold results; rw [hn]; rfl
  | succ n ih => unfold results; rw [hn]; exact ih

/-- Behind the end of the input there is nothing but the end. -/
theorem results_of_eof {c : Nat} (hp : s.peeked = none) (h : s.results c = .ok t)
    (ht : t.isEof = true) (n : Nat) : s.results (c + n) = .ok t := by
  induction c generalizing s with
  | zero =>
    cases hn : next s with
    | error e s' =>
      unfold results at h
      rw [hn] at h
      cases h
    | ok t' s' =>
      have hscan : scan s = .ok t' s' := (next_of_not_peeked hp).symm.trans hn
      have hp' : s'.peeked = none := (scan_peeked hscan).trans hp
      have hzero : s.results 0 = .ok t' := by unfold results; rw [hn]; rfl
      obtain rfl : t' = t := Except.ok.inj (hzero.symm.trans h)
      cases n with
      | zero => exact h
      | succ n =>
        rw [Nat.zero_add]
        unfold results
        rw [hn]
        exact results_of_scan_self hp' (scan_of_eof hscan ht) n
  | succ c ih =>
    rw [show c + 1 + n = c + n + 1 by omega]
    exact ih (outcome_next_peeked hp) h

/-! ## The streams of sources -/

/-- Whatever is called on the stream of a source, in whatever order and whether it fails or not, gives
what it gives at a place of the plain sequence of results, which starts at the first; and where the
end of the input stands in the sequence, the same token stands everywhere behind. -/
theorem lookahead_refines (file source : String) :
    (∀ calls : List Call, (answers Call.run calls (.ofSource file source)).map Prod.fst =
      (answers (Call.read (ofSource file source).results) calls 0).map Prod.fst) ∧
    ∀ c t, (ofSource file source).results c = .ok t → t.isEof = true →
      ∀ j, c ≤ j → (ofSource file source).results j = .ok t := by
  refine ⟨?_, ?_⟩
  · intro calls
    apply answers_eq
    intro n
    rw [Nat.zero_add]
  · intro c t h ht j hj
    obtain ⟨n, rfl⟩ := Nat.exists_eq_add_of_le hj
    exact results_of_eof rfl h ht n

/-- In `@ x` the first look meets the error and uses it up, so that the next one shows the `x`; the
end stands at the place behind it and further on. -/
theorem lookahead_refines_at_error :
    (answers Call.run [.peek, .peekKind, .next, .next] (.ofSource "f" "@ x")).map Prod.fst =
      (answers (Call.read (ofSource "f" "@ x").results) [.peek, .peekKind, .next, .next] 0).map
        Prod.fst ∧
    (ofSource "f" "@ x").results 0 =
      .error { cause := .unrecognised "@", position := ⟨"f", 1⟩ } ∧
    (ofSource "f" "@ x").results 2 = .ok (.eof ⟨"f", 1⟩) ∧
    (ofSource "f" "@ x").results 7 = .ok (.eof ⟨"f", 1⟩) :=
  ⟨(lookahead_refines "f" "@ x").1 _, rfl, rfl,
    (lookahead_refines "f" "@ x").2 2 _ rfl rfl 7 (by decide)⟩

end FxLang.TokenStream
