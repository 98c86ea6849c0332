import Mathlib.Logic.Function.Iterate
import FxLang.Proofs.Session.Fate
import FxLang.Proofs.Session.Trail

/-!
# Recursion without a bound

The loops of the library, and the rules that call themselves, count rounds. What they are meant to
be is a solution of `round x = x`, where `round x` is one round that goes on with `x`. This module
says when a parser is such a solution and no run of it goes round for ever.

A round is `Guarded` if it goes on with `x` only behind a token that was taken in the round. Two
parsers that differ only where more than `n` tokens are left then differ only where more than
`n + 1` are left once a round is put in front of them: whatever stands behind as many rounds as
there are tokens is never come to.

`Counts` is what has to be known of a parser that counts rounds, and `Counts.recursion` draws the
conclusion. The rules behind `bind_congr_ok` show of two parsers, step by step, that they do the
same; `Agree` says so of what a round goes on with, where it may be called more than once.

* `Counts.loop_eq`: rounds beyond those that the tokens need change nothing.
* `Counts.recursion`: the parser solves its equation, and as many rounds as there are tokens lead to
  its result from whatever they are put in front of.
* `synchronize_recursion`: skipping is such a loop.
-/

namespace FxLang

open Session

variable {α β ι : Type}

/-! ## Sessions further on -/

namespace Session

variable {s s₁ s₂ : Session} {w : List Token} {ds : List Diagnostic}

/-- The later session is come to by taking tokens and recording diagnostics, none or more. -/
def Reaches (s s' : Session) : Prop := ∃ w ds, s.Moves w ds s'

/-- At least one token is taken on the way. -/
def Passes (s s' : Session) : Prop := ∃ w ds, s.Moves w ds s' ∧ w ≠ []

theorem Moves.reaches (h : s.Moves w ds s₁) : s.Reaches s₁ := ⟨w, ds, h⟩

theorem Moves.passes (h : s.Moves w ds s₁) (hw : w ≠ []) : s.Passes s₁ := ⟨w, ds, h, hw⟩

theorem Reaches.trans (h : s.Reaches s₁) (h' : s₁.Reaches s₂) : s.Reaches s₂ := by
  obtain ⟨w, ds, hm⟩ := h
  obtain ⟨w', ds', hm'⟩ := h'
  exact (hm.trans hm').reaches

theorem Passes.trans (h : s.Passes s₁) (h' : s₁.Reaches s₂) : s.Passes s₂ := by
  obtain ⟨w, ds, hm, hw⟩ := h
  obtain ⟨w', ds', hm'⟩ := h'
  exact (hm.trans hm').passes (by simp [hw])

theorem Reaches.trans_passes (h : s.Reaches s₁) (h' : s₁.Passes s₂) : s.Passes s₂ := by
  obtain ⟨w, ds, hm⟩ := h
  obtain ⟨w', ds', hm', hw'⟩ := h'
  exact (hm.trans hm').passes (by simp [hw'])

/-- There are fewer tokens behind one that was taken. -/
theorem Passes.length_lt (h : s.Passes s₁) : s₁.tokens.length < s.tokens.length := by
  obtain ⟨w, ds, hm, hw⟩ := h
  have hlen := hm.tokens_length
  have hpos := List.length_pos_iff.2 hw
  omega

end Session

/-- Where the parser that is started at `s` goes on, it goes on further on. -/
def Proceeds (x : ParseM α) (s : Session) : Prop :=
  ∀ a s', x s = .ok a s' → s.Reaches s'

theorem Fate.proceeds {silent : Prop} {s : Session} {x : ParseM α}
    {Q : List Token → List Diagnostic → α → Session → Prop} (h : Fate silent s Q (x s)) :
    Proceeds x s := by
  intro a s' hr
  rw [hr] at h
  obtain ⟨w, ds, hm, -⟩ := h.of_ok
  exact hm.reaches

theorem Trace.proceeds {s : Session} {x : ParseM α} {P : List Event → Prop}
    {Q : List Event → α → Session → Prop} (h : Trace s P Q (x s)) : Proceeds x s := by
  intro a s' hr
  rw [hr] at h
  obtain ⟨l, hl, -⟩ := h.of_ok
  exact hl.moves.reaches

/-! ## Recursion -/

/-- `round x` calls `x` only behind a token that it took: it is the same for every parser that does
the same there. (A call may be followed by another, so the first must not lead back.) -/
def Guarded (round : (ι → ParseM α) → ParseM β) : Prop :=
  ∀ s x y, (∀ i s', s.Passes s' → Proceeds (x i) s') →
    (∀ i s', s.Passes s' → x i s' = y i s') → round x s = round y s

/-- The parser goes round and round, each time behind a token, and comes to an end: as many rounds
as there are tokens are enough, whatever stands behind them. -/
structure Recursion (round : (ι → ParseM α) → ι → ParseM α) (parser : ι → ParseM α) : Prop where
  guarded : ∀ i, Guarded (round · i)
  fixed : round parser = parser
  ends : ∀ x n i s, s.tokens.length < n → (round^[n] x) i s = parser i s

/-- A parser without arguments that goes round. -/
def Looping (round : ParseM α → ParseM α) (parser : ParseM α) : Prop :=
  Recursion (fun x (_ : Unit) => round (x ())) fun _ => parser

/-- The parser that has as many rounds as the session counts. -/
def counted (loop : Nat → ι → ParseM α) (i : ι) : ParseM α := rounds >>= fun n => loop n i

/-- With rounds enough for the tokens to come, `loop` goes one round and on with a round less. -/
structure Counts (round : (ι → ParseM α) → ι → ParseM α) (loop : Nat → ι → ParseM α) : Prop where
  guarded : ∀ i, Guarded (round · i)
  succ : ∀ n i s, s.tokens.length ≤ n → loop (n + 1) i s = round (loop n) i s
  proceeds : ∀ n i s, s.tokens.length < n → Proceeds (loop n i) s

namespace Counts

variable {round : (ι → ParseM α) → ι → ParseM α} {loop : Nat → ι → ParseM α}

/-- Rounds beyond those that the tokens need change nothing. -/
theorem loop_eq (h : Counts round loop) {n k : Nat} {i : ι} {s : Session}
    (hn : s.tokens.length < n) (hk : s.tokens.length < k) : loop n i s = loop k i s := by
  induction n generalizing k i s with
  | zero => omega
  | succ n ih =>
    obtain ⟨k, rfl, hle⟩ := exists_eq_succ hk
    rw [h.succ n i s (by omega), h.succ k i s hle]
    refine h.guarded i s _ _ ?_ ?_
    · intro j s' hs'
      have hlt := hs'.length_lt
      exact h.proceeds n j s' (by omega)
    · intro j s' hs'
      have hlt := hs'.length_lt
      exact ih (by omega) (by omega)

theorem counted_eq (h : Counts round loop) {n : Nat} {i : ι} {s : Session}
    (hn : s.tokens.length < n) : counted loop i s = loop n i s := by
  rw [counted, bind_of_ok (rounds_apply s)]
  exact h.loop_eq s.length_tokens_lt hn

theorem counted_proceeds (h : Counts round loop) (i : ι) (s : Session) :
    Proceeds (counted loop i) s := by
  intro a s' hr
  rw [h.counted_eq (Nat.lt_succ_self _)] at hr
  exact h.proceeds _ i s (Nat.lt_succ_self _) a s' hr

theorem fixed (h : Counts round loop) : round (counted loop) = counted loop := by
  funext i s
  rw [h.counted_eq (Nat.lt_succ_self _), h.succ _ i s (Nat.le_refl _)]
  refine h.guarded i s _ _ (fun j s' _ => h.counted_proceeds j s') ?_
  intro j s' hs'
  exact h.counted_eq hs'.length_lt

/-- A parser that counts rounds is what goes round without counting. -/
theorem recursion (h : Counts round loop) : Recursion round (counted loop) where
  guarded := h.guarded
  fixed := h.fixed
  ends x n i s hn := by
    induction n generalizing i s with
    | zero => omega
    | succ n ih =>
      rw [Function.iterate_succ_apply', ← congrFun (congrFun h.fixed i) s]
      refine (h.guarded i s _ _ (fun j s' _ => h.counted_proceeds j s') ?_).symm
      intro j s' hs'
      have hlt := hs'.length_lt
      exact (ih j s' (by omega)).symm

end Counts

/-! ## Parsers that do the same -/

section
variable {s : Session} {x : ParseM α} {f g : α → ParseM β} {t : Token}

theorem bind_congr_ok (h : ∀ a s₁, x s = .ok a s₁ → f a s₁ = g a s₁) :
    (x >>= f) s = (x >>= g) s := by
  cases hx : x s with
  | ok a s₁ => rw [bind_of_ok hx, bind_of_ok hx, h a s₁ hx]
  | error e s₁ => rw [bind_of_error hx, bind_of_error hx]

theorem Fate.bind_congr {silent : Prop} {Q : List Token → List Diagnostic → α → Session → Prop}
    (hx : Fate silent s Q (x s))
    (h : ∀ w ds a s₁, s.Moves w ds s₁ → Q w ds a s₁ → f a s₁ = g a s₁) :
    (x >>= f) s = (x >>= g) s := by
  refine bind_congr_ok fun a s₁ hr => ?_
  rw [hr] at hx
  obtain ⟨w, ds, hm, hq⟩ := hx.of_ok
  exact h w ds a s₁ hm hq

/-- One step that is the same, and then what is the same wherever the step may lead. -/
theorem Proceeds.bind_congr {y : ParseM α} (hx : Proceeds x s) (hxy : x s = y s)
    (h : ∀ a s₁, s.Reaches s₁ → f a s₁ = g a s₁) : (x >>= f) s = (y >>= g) s := by
  rw [bind_congr_apply hxy.symm]
  exact bind_congr_ok fun a s₁ hr => h a s₁ (hx a s₁ hr)

theorem emit_congr {f g : Unit → ParseM α} (event : Event)
    (h : ∀ s₁, s.Moves [] [] s₁ → f () s₁ = g () s₁) :
    (emit event >>= f) s = (emit event >>= g) s := by
  rw [bind_of_ok (emit_apply event s), bind_of_ok (emit_apply event s)]
  exact h _ (.log s _)

theorem peek_congr {f g : Token → ParseM α}
    (h : ∀ t s₁, s.Moves [] [] s₁ → s₁.front = .ok t → f t s₁ = g t s₁) :
    (peek >>= f) s = (peek >>= g) s := by
  refine bind_congr_ok fun t s₁ hr => ?_
  obtain ⟨s₂, h₂, m₂⟩ := peek_of_front (front_before_peek hr)
  rw [hr] at h₂
  cases h₂
  exact h t s₁ m₂ (front_of_peek hr)

theorem peekKind_congr {f g : Kind → ParseM α}
    (h : ∀ t s₁, s.Moves [] [] s₁ → s₁.front = .ok t → f t.kind s₁ = g t.kind s₁) :
    (peekKind >>= f) s = (peekKind >>= g) s := by
  simp only [peekKind, bind_assoc, pure_bind]
  exact peek_congr h

theorem nextIs_congr {k : Kind} {x x' y y' : ParseM α}
    (hx : ∀ t s₁, s.Moves [] [] s₁ → s₁.front = .ok t → t.kind = k → x s₁ = x' s₁)
    (hy : ∀ s₁, s.Moves [] [] s₁ → y s₁ = y' s₁) :
    (nextIs k >>= fun b => if b = true then x else y) s =
      (nextIs k >>= fun b => if b = true then x' else y') s := by
  simp only [nextIs, bind_assoc, pure_bind, decide_eq_true_eq]
  refine peekKind_congr fun t s₁ m₁ hf => ?_
  by_cases ht : t.kind = k
  · rw [if_pos ht, if_pos ht]
    exact hx t s₁ m₁ hf ht
  · rw [if_neg ht, if_neg ht]
    exact hy s₁ m₁

theorem advance_congr {f g : Token → ParseM α} (hf : s.front = .ok t) (ht : t.kind ≠ .eof)
    (h : ∀ s₁, s.Moves [t] [] s₁ → f t s₁ = g t s₁) :
    (advance >>= f) s = (advance >>= g) s := by
  obtain ⟨s₁, h₁, m₁⟩ := advance_of_front hf ht
  rw [bind_of_ok h₁, bind_of_ok h₁, h s₁ m₁]

theorem reportNext_congr {expected context : String} {f g : Unit → ParseM α}
    (hw : NotLexical expected) (h : ∀ d s₁, s.Moves [] [d] s₁ → f () s₁ = g () s₁) :
    (reportNext expected context >>= f) s = (reportNext expected context >>= g) s := by
  refine (Fate.reportNext hw).bind_congr ?_
  rintro _ _ _ s₁ m₁ ⟨rfl, d, rfl⟩
  exact h d s₁ m₁

end

/-- From `s` on the parsers of the two families do the same, and they go on further on. -/
structure Agree (s : Session) (x y : ι → ParseM α) : Prop where
  proceeds : ∀ i s', s.Reaches s' → Proceeds (x i) s'
  eq : ∀ i s', s.Reaches s' → x i s' = y i s'

namespace Agree

variable {s s₁ : Session} {x y : ι → ParseM α}

theorem mono (h : Agree s x y) (hr : s.Reaches s₁) : Agree s₁ x y :=
  ⟨fun i s' h' => h.proceeds i s' (hr.trans h'), fun i s' h' => h.eq i s' (hr.trans h')⟩

theorem of_passes (hx : ∀ i s', s.Passes s' → Proceeds (x i) s')
    (hxy : ∀ i s', s.Passes s' → x i s' = y i s') (hs : s.Passes s₁) : Agree s₁ x y :=
  ⟨fun i s' h' => hx i s' (hs.trans h'), fun i s' h' => hxy i s' (hs.trans h')⟩

theorem proceeds_here (h : Agree s x y) (i : ι) : Proceeds (x i) s :=
  h.proceeds i s (Moves.refl s).reaches

theorem eq_here (h : Agree s x y) (i : ι) : x i s = y i s := h.eq i s (Moves.refl s).reaches

end Agree

/-! ## Skipping -/

section
variable (markers : List Kind) (context : String)

/-- Skipping stops at a marker, or it takes a token and starts again. -/
def skipRound (again : ParseM Token) : ParseM Token := do
  let token ← peek
  if token.kind ∈ markers then
    emit (.synchronized token context)
    pure token
  else if token.isEof then
    throw { cause := .unexpectedEof context, position := token.position }
  else
    let _ ← advance
    again

theorem skipRound_guarded :
    Guarded fun (x : Unit → ParseM Token) => skipRound markers context (x ()) := by
  intro s x y _ hxy
  refine peek_congr fun t s₁ m₁ hf => ?_
  split
  · rfl
  · split
    · rfl
    next heof =>
      have hk : t.kind ≠ .eof := by simpa [Token.isEof] using heof
      refine advance_congr hf hk fun s₂ m₂ => hxy () s₂ ?_
      exact m₁.reaches.trans_passes (m₂.passes (by simp))

theorem skipTo_counts :
    Counts (fun x (_ : Unit) => skipRound markers context (x ()))
      fun n _ => skipTo markers context n where
  guarded _ := skipRound_guarded markers context
  succ _ _ _ _ := rfl
  proceeds n _ s hn := by
    have hskip : Only (fun _ => True) s
        (fun marker s' => marker.kind ∈ markers ∧ s'.front = .ok marker)
        (skipTo markers context n s) :=
      .skipTo (fun _ _ => trivial) (fun _ _ => trivial) n hn
    exact Trace.proceeds hskip

/-- Skipping takes a token in every round that is not its last. -/
theorem synchronize_recursion :
    Looping (skipRound markers context) (synchronize markers context) :=
  (skipTo_counts markers context).recursion

end

end FxLang
