import FxLang.Proofs.Session.Keeps
import FxLang.Proofs.Token.Horizon

/-!
# Two parsers in tandem

The loops of the library count rounds, and a session counts more of them the longer its text is. Two
runs on texts of different lengths therefore run parsers that are not quite the same.

`Tandem m o x x' l` says that `x` and `x'` are the same but for the rounds, that they have rounds
enough for fewer than `m` characters to come, and that fewer than `l` are left when they have gone
on. The sight `o` is what is known of the token read last: nothing, that it was shown and is next to
be taken, or that it was taken. A parser only reports, and only trips over, a token in sight.

The rules go by the small steps. Whatever is to be shown of two such parsers, or of the first of
them, is then shown once for each of the rules.

* `shrinks_lasting`, `Tandem.shrinks`: the text to come only gets shorter.
* `Tandem.nextIs_ite`, `Tandem.expect`, `Tandem.synchronize_shown`: the steps that the grammar is
  made of.
-/

namespace FxLang

open Session

/-! ## What is left of the text -/

/-- The later session has an end of the text of the earlier one to come. -/
def Shrinks (s : Session) (_ : Option Error) (s' : Session) : Prop :=
  s'.stream.cursor.rest <:+ s.stream.cursor.rest ∧ s'.stream.remaining ≤ s.stream.remaining

theorem Shrinks.refl (s : Session) (e : Option Error) : Shrinks s e s :=
  ⟨List.suffix_rfl, Nat.le_refl _⟩

theorem Shrinks.trans {s₁ s₂ s₃ : Session} {e e' : Option Error} (h : Shrinks s₁ e s₂)
    (h' : Shrinks s₂ e' s₃) : Shrinks s₁ e' s₃ :=
  ⟨h'.1.trans h.1, Nat.le_trans h'.2 h.2⟩

theorem final_onStream {α : Type} (read : EStateM Error TokenStream α) (s : Session) :
    (final (onStream read s)).stream = (TokenStream.outcome (read s.stream)).2 := by
  unfold onStream
  cases read s.stream <;> rfl

theorem shrinks_onStream {α : Type} {read : EStateM Error TokenStream α}
    (hrest : ∀ s, (TokenStream.outcome (read s)).2.cursor.rest <:+ s.cursor.rest)
    (hremaining : ∀ s, (TokenStream.outcome (read s)).2.remaining ≤ s.remaining) :
    Keeps Shrinks (onStream read) := by
  intro s
  unfold Shrinks
  rw [final_onStream]
  exact ⟨hrest s.stream, hremaining s.stream⟩

/-- One step, and then the rest where the step left the session. -/
theorem shrinks_after {α β : Type} {x : ParseM α} {f : α → ParseM β} {s : Session}
    (hx : Shrinks s (failure (x s)) (final (x s)))
    (hf : ∀ a s', x s = .ok a s' → Shrinks s' (failure (f a s')) (final (f a s'))) :
    Shrinks s (failure ((x >>= f) s)) (final ((x >>= f) s)) := by
  cases hr : x s with
  | ok a s' =>
    rw [hr] at hx
    rw [bind_of_ok hr]
    exact hx.trans (hf a s' hr)
  | error e s' =>
    rw [hr] at hx
    rw [bind_of_error hr]
    exact hx

theorem shrinks_emit (event : Event) : Keeps Shrinks (emit event) :=
  fun s => .refl s none

theorem shrinks_report (expected context : String) (found : Token) :
    Keeps Shrinks (report expected context found) := by
  intro s
  rw [report_apply]
  split <;> exact .refl s none

theorem shrinks_peek : Keeps Shrinks peek := by
  refine shrinks_onStream ?_ TokenStream.remaining_outcome_peek
  intro s
  rw [TokenStream.outcome_peek_rest]
  exact TokenStream.outcome_next_rest_isSuffix s

theorem shrinks_advance : Keeps Shrinks advance := by
  intro s
  refine shrinks_after ?_ ?_
  · exact shrinks_onStream TokenStream.outcome_next_rest_isSuffix
      TokenStream.remaining_outcome_next s
  · intro t s' _
    exact .refl s' none

theorem shrinks_lasting : Lasting Shrinks where
  refl s := .refl s none
  trans h h' := h.trans h'
  emit := shrinks_emit
  peek := shrinks_peek
  advance := shrinks_advance
  report := shrinks_report
  raised s _ := .refl s none
  caught _ h := h

theorem shrinks_attempt {α : Type} {x : ParseM α} {s : Session}
    (hx : Shrinks s (failure (x s)) (final (x s))) :
    Shrinks s (failure (attempt x s)) (final (attempt x s)) := by
  cases hr : x s with
  | ok a s' =>
    rw [hr] at hx
    rw [attempt_of_ok hr]
    exact hx
  | error e s' =>
    rw [hr] at hx
    rw [attempt_of_error hr]
    exact hx

/-! ## A token that was shown -/

section
variable {s : Session} {t : Token}

theorem peek_of_shown (h : s.stream.peeked = some t) : Session.peek s = .ok t s := by
  simp [Session.peek, onStream, TokenStream.peek_of_peeked h]

/-- The session without the token that it has shown. -/
def Session.take (s : Session) (t : Token) : Session :=
  { s with stream := { s.stream with peeked := none }, log := s.log.push (.taken t) }

theorem advance_of_shown (h : s.stream.peeked = some t) : advance s = .ok t (s.take t) := by
  have hnext : onStream TokenStream.next s =
      .ok t { s with stream := { s.stream with peeked := none } } := by
    simp [onStream, TokenStream.next_of_peeked h]
  rw [advance, bind_of_ok hnext]
  rfl

theorem remaining_take (h : s.stream.peeked = some t) (ht : t.kind ≠ .eof) :
    (s.take t).stream.remaining < s.stream.remaining :=
  TokenStream.remaining_next_lt (TokenStream.next_of_peeked h) (by simpa [Token.isEof] using ht)

theorem throw_bind {α β : Type} (e : Error) (f : α → ParseM β) :
    ((throw e : ParseM α) >>= f) = throw e := rfl

theorem stream_of_report {s' : Session} {expected context : String}
    (h : report expected context t s = .ok () s') : s'.stream = s.stream := by
  rw [report_apply] at h
  split at h
  · cases h
  · cases h
    rfl

theorem shown_of_peek {s' : Session} (h : Session.peek s = .ok t s') :
    s'.stream.peeked = some t := by
  unfold Session.peek onStream at h
  rw [TokenStream.peek_eq_next] at h
  cases hn : TokenStream.next s.stream with
  | ok t' stream =>
    rw [hn] at h
    cases h
    rfl
  | error e stream =>
    rw [hn] at h
    cases h

end

/-! ## The rules -/

/-- What is known of the token read last. -/
inductive Sight where
  | nothing
  | shown (t : Token)
  | taken (t : Token)

namespace Sight

/-- The token is the one read last. -/
def Sees : Sight → Token → Prop
  | .nothing, _ => False
  | .shown t, t' => t = t'
  | .taken t, t' => t = t'

/-- A token that was shown is the one that will be shown again. -/
def Allows : Sight → Token → Prop
  | .shown t, t' => t = t'
  | _, _ => True

/-- The token that was shown is still to be taken from the stream. -/
def Shows : Sight → TokenStream → Prop
  | .shown t, s => s.peeked = some t
  | _, _ => True

theorem Shows.allows {o : Sight} {s s' : Session} {t : Token} (h : o.Shows s.stream)
    (ht : peek s = .ok t s') : o.Allows t := by
  cases o with
  | nothing => trivial
  | taken t => trivial
  | shown t' =>
    rw [peek_of_shown h] at ht
    cases ht
    rfl

/-- The sight behind an error: of the token that it tripped over. -/
def behind (e : Error) : Sight :=
  match e.cause.found with
  | some t => .taken t
  | none => .nothing

end Sight

/-- The parsers are the same but for the rounds, with enough of them for fewer than `m` characters
in the first place and fewer than `l` behind them. -/
inductive Tandem : {α : Type} → (m : Nat) → Sight → ParseM α → ParseM α → (l : Nat) → Prop
  | pure {α : Type} {m : Nat} {o : Sight} (a : α) : Tandem m o (Pure.pure a) (Pure.pure a) m
  | bind {α β : Type} {m k l : Nat} {o : Sight} {x x' : ParseM α} {f f' : α → ParseM β}
      (hx : Tandem m o x x' k) (hf : ∀ a, Tandem k .nothing (f a) (f' a) l) :
      Tandem m o (x >>= f) (x' >>= f') l
  /-- Bounds that are less tight will do. -/
  | mono {α : Type} {m k l n : Nat} {o : Sight} {x x' : ParseM α} (h : Tandem k o x x' l)
      (hm : m ≤ k) (hl : l ≤ n) : Tandem m o x x' n
  | forget {α : Type} {m l : Nat} {o : Sight} {x x' : ParseM α} (h : Tandem m .nothing x x' l) :
      Tandem m o x x' l
  | emit {α : Type} {m l : Nat} {o : Sight} {f f' : Unit → ParseM α} (event : Event)
      (h : Tandem m o (f ()) (f' ()) l) : Tandem m o (emit event >>= f) (emit event >>= f') l
  | count {α : Type} {m l : Nat} {o : Sight} {f f' : Nat → ParseM α}
      (h : ∀ n, Tandem m o (f n) (f' n) l) :
      Tandem m o (countErrors >>= f) (countErrors >>= f') l
  | look {α : Type} {m l : Nat} {o : Sight} {f f' : Token → ParseM α}
      (h : ∀ t, o.Allows t → Tandem m (.shown t) (f t) (f' t) l) :
      Tandem m o (peek >>= f) (peek >>= f') l
  /-- A token that is taken takes characters away. -/
  | take {α : Type} {m l : Nat} {t : Token} {f f' : Token → ParseM α} (ht : t.kind ≠ .eof)
      (h : Tandem m (.taken t) (f t) (f' t) l) :
      Tandem (m + 1) (.shown t) (advance >>= f) (advance >>= f') l
  | report {α : Type} {m l : Nat} {o : Sight} {t : Token} {expected context : String}
      {f f' : Unit → ParseM α} (hs : o.Sees t) (h : Tandem m o (f ()) (f' ()) l) :
      Tandem m o (report expected context t >>= f) (report expected context t >>= f') l
  /-- A syntax error about the token in sight. -/
  | trip {α : Type} {m l : Nat} {o : Sight} {t : Token} {e : Error} (hs : o.Sees t)
      (he : e.cause.found = some t) : Tandem m o (throw e : ParseM α) (throw e) l
  /-- The input ends while tokens are skipped. -/
  | starve {α : Type} {m l : Nat} {o : Sight} {context : String} {position : Position} :
      Tandem m o (throw { cause := .unexpectedEof context, position } : ParseM α)
        (throw { cause := .unexpectedEof context, position }) l
  /-- A syntax error is caught, any other goes on. -/
  | attempt {α β : Type} {m k l : Nat} {o : Sight} {x x' : ParseM α}
      {f f' : Except Error α → ParseM β} (hx : Tandem m o x x' k)
      (hok : ∀ a, Tandem k .nothing (f (.ok a)) (f' (.ok a)) l)
      (hcaught : ∀ e, e.isFatal = false →
        Tandem m (.behind e) (f (.error e)) (f' (.error e)) l)
      (hfatal : ∀ e, e.isFatal = true → f (.error e) = throw e ∧ f' (.error e) = throw e) :
      Tandem m o (attempt x >>= f) (attempt x' >>= f') l
  /-- Each session counts rounds enough for the characters to come. -/
  | rounds {α : Type} {m l : Nat} {o : Sight} {f f' : Nat → ParseM α}
      (h : ∀ k n n', k ≤ m → k ≤ n → k ≤ n' → Tandem k o (f n) (f' n') l) :
      Tandem m o (rounds >>= f) (rounds >>= f') l
  /-- No round is needed for less than nothing. -/
  | done {α : Type} {l : Nat} {o : Sight} {x x' : ParseM α} (hx : Keeps Shrinks x) :
      Tandem 0 o x x' l

namespace Tandem

variable {α β : Type} {m k l : Nat} {o : Sight} {x x' : ParseM α}

/-- The sight behind an error is of a token that was taken. -/
theorem shows_behind (e : Error) (s : TokenStream) : (Sight.behind e).Shows s := by
  unfold Sight.behind
  split <;> trivial

theorem shrinks (h : Tandem m o x x' l) (s : Session) (ho : o.Shows s.stream) :
    Shrinks s (failure (x s)) (final (x s)) := by
  induction h generalizing s with
  | pure a => exact .refl s none
  | bind _ _ ihx ihf => exact shrinks_after (ihx s ho) fun a s' _ => ihf a s' trivial
  | mono _ _ _ ih => exact ih s ho
  | forget _ ih => exact ih s trivial
  | emit event _ ih =>
    refine shrinks_after (shrinks_emit event s) ?_
    rintro _ _ ⟨⟩
    exact ih _ ho
  | count _ ih => exact ih _ s ho
  | look _ ih =>
    exact shrinks_after (shrinks_peek s) fun t s' h => ih t (ho.allows h) s' (shown_of_peek h)
  | take _ _ ih =>
    refine shrinks_after (shrinks_advance s) ?_
    rw [advance_of_shown ho]
    rintro _ _ ⟨⟩
    exact ih _ trivial
  | @report _ _ _ _ t expected context _ _ _ _ ih =>
    refine shrinks_after (shrinks_report expected context t s) ?_
    rw [report_apply]
    intro _ s' hs'
    split at hs'
    · cases hs'
    · cases hs'
      exact ih _ ho
  | trip => exact .refl s none
  | starve => exact .refl s none
  | attempt _ _ _ hfatal ihx ihok ihcaught =>
    refine shrinks_after (shrinks_attempt (ihx s ho)) ?_
    rintro (e | a) s' -
    · cases he : e.isFatal with
      | true =>
        rw [(hfatal e he).1]
        exact .refl s' none
      | false => exact ihcaught e he s' (shows_behind e _)
    · exact ihok a s' trivial
  | rounds _ ih =>
    exact ih 0 _ 0 (Nat.zero_le _) (Nat.zero_le _) (Nat.zero_le _) s ho
  | done hx => exact hx s

/-! ## Steps that are put together -/

theorem ite {p : Prop} [Decidable p] {y y' : ParseM α} (hx : p → Tandem m o x x' l)
    (hy : ¬ p → Tandem m o y y' l) :
    Tandem m o (if p then x else y) (if p then x' else y') l := by
  by_cases h : p
  · simpa only [if_pos h] using hx h
  · simpa only [if_neg h] using hy h

section
variable {f f' : Kind → ParseM α} {g g' : Unit → ParseM α} {y y' : ParseM α} {t : Token} {k : Kind}
  {expected context : String}

theorem peekKind_bind (h : ∀ t, o.Allows t → Tandem m (.shown t) (f t.kind) (f' t.kind) l) :
    Tandem m o (peekKind >>= f) (peekKind >>= f') l := by
  simp only [peekKind, bind_assoc, pure_bind]
  exact .look h

theorem nextIs (k : Kind) : Tandem m o (Session.nextIs k) (Session.nextIs k) m :=
  peekKind_bind fun _ _ => .pure _

/-- The kind of the next token decides between two ways on. -/
theorem nextIs_ite (hx : ∀ t, o.Allows t → t.kind = k → Tandem m (.shown t) x x' l)
    (hy : ∀ t, o.Allows t → t.kind ≠ k → Tandem m (.shown t) y y' l) :
    Tandem m o (Session.nextIs k >>= fun b => if b = true then x else y)
      (Session.nextIs k >>= fun b => if b = true then x' else y') l := by
  simp only [Session.nextIs, bind_assoc, pure_bind]
  refine peekKind_bind fun t ho => ?_
  by_cases ht : t.kind = k
  · simpa only [ht, decide_true, if_true] using hx t ho ht
  · simpa only [ht, decide_false, Bool.false_eq_true, if_false] using hy t ho ht

/-- The next token is reported, and is still to be taken. -/
theorem reportNext_bind (h : ∀ t, o.Allows t → Tandem m (.shown t) (g ()) (g' ()) l) :
    Tandem m o (Session.reportNext expected context >>= g)
      (Session.reportNext expected context >>= g') l := by
  simp only [Session.reportNext, bind_assoc]
  exact .look fun t ho => .report rfl (h t ho)

theorem reportNext (expected context : String) :
    Tandem m o (Session.reportNext expected context) (Session.reportNext expected context) m := by
  have h : Tandem m o (Session.reportNext expected context >>= Pure.pure)
      (Session.reportNext expected context >>= Pure.pure) m := reportNext_bind fun _ _ => .pure ()
  simpa only [bind_pure] using h

/-- A token is taken, and the bound stays. -/
theorem take_same {g g' : Token → ParseM α} (ht : t.kind ≠ .eof)
    (h : Tandem m (.taken t) (g t) (g' t) l) :
    Tandem m (.shown t) (advance >>= g) (advance >>= g') l :=
  .mono (.take ht h) (Nat.le_succ m) (Nat.le_refl l)

theorem expect (hk : k ≠ .eof) (expected context : String) :
    Tandem m o (Session.expect k expected context) (Session.expect k expected context) m := by
  refine nextIs_ite ?_ ?_
  · intro t _ ht
    exact take_same (ht ▸ hk) (.pure _)
  · intro t _ _
    exact reportNext_bind fun _ _ => .pure none

/-- The token that is expected was shown, and is taken. -/
theorem expect_shown (ht : t.kind = k) (hk : k ≠ .eof) (expected context : String) :
    Tandem (m + 1) (.shown t) (Session.expect k expected context)
      (Session.expect k expected context) m := by
  refine nextIs_ite ?_ ?_
  · rintro _ rfl _
    exact .take (ht ▸ hk) (.pure _)
  · rintro _ rfl hne
    exact absurd ht hne

end

/-! ## Skipping -/

section
variable {f f' : Token → ParseM α} {t : Token} {n n' : Nat} {k : Kind} {markers : List Kind}
  {context : String}

/-- Skipping stops at the next token, or skips it. -/
theorem skipTo_succ_bind
    (hstop : ∀ t, o.Allows t → t.kind ∈ markers → Tandem (m + 1) (.shown t) (f t) (f' t) l)
    (hgo : ∀ t, o.Allows t → t.kind ∉ markers →
      Tandem m (.taken t) (skipTo markers context n >>= f) (skipTo markers context n' >>= f') l) :
    Tandem (m + 1) o (skipTo markers context (n + 1) >>= f)
      (skipTo markers context (n' + 1) >>= f') l := by
  simp only [Session.skipTo, bind_assoc]
  refine .look fun t ho => ?_
  by_cases hmem : t.kind ∈ markers
  · simp only [if_pos hmem, bind_assoc, pure_bind]
    exact .emit _ (hstop t ho hmem)
  · by_cases heof : t.isEof = true
    · simp only [if_neg hmem, if_pos heof, throw_bind]
      exact .starve
    · simp only [if_neg hmem, if_neg heof, bind_assoc]
      have hne : t.kind ≠ .eof := by simpa [Token.isEof] using heof
      exact .take hne (hgo t ho hmem)

/-- Skipping stops in front of a marker. -/
theorem skipTo_bind (hn : m ≤ n) (hn' : m ≤ n') (hshrinks : ∀ t, Keeps Shrinks (f t))
    (hf : ∀ t, t.kind ∈ markers → Tandem m (.shown t) (f t) (f' t) l) :
    Tandem m o (skipTo markers context n >>= f) (skipTo markers context n' >>= f') l := by
  induction m generalizing n n' o with
  | zero => exact .done (shrinks_lasting.bind (shrinks_lasting.skipTo _ _ _) hshrinks)
  | succ m ih =>
    obtain ⟨n, rfl, hle⟩ := exists_eq_succ hn
    obtain ⟨n', rfl, hle'⟩ := exists_eq_succ hn'
    refine skipTo_succ_bind (fun t _ => hf t) fun t _ _ => ?_
    exact ih hle hle' fun t ht => .mono (hf t ht) (Nat.le_succ m) (Nat.le_refl l)

theorem synchronize_bind (hshrinks : ∀ t, Keeps Shrinks (f t))
    (hf : ∀ t, t.kind ∈ markers → Tandem m (.shown t) (f t) (f' t) l) :
    Tandem m o (Session.synchronize markers context >>= f)
      (Session.synchronize markers context >>= f') l := by
  simp only [Session.synchronize, bind_assoc]
  exact .rounds fun k n n' hk hn hn' => skipTo_bind hn hn' hshrinks fun t ht =>
    .mono (hf t ht) hk (Nat.le_refl l)

/-- Skipping from a token that was shown stops there, or skips it. -/
theorem synchronize_shown (hshrinks : ∀ t, Keeps Shrinks (f t))
    (hstop : t.kind ∈ markers → Tandem (m + 1) (.shown t) (f t) (f' t) l)
    (hf : ∀ t, t.kind ∈ markers → Tandem m (.shown t) (f t) (f' t) l) :
    Tandem (m + 1) (.shown t) (Session.synchronize markers context >>= f)
      (Session.synchronize markers context >>= f') l := by
  simp only [Session.synchronize, bind_assoc]
  refine .rounds fun k n n' hk hn hn' => ?_
  cases k with
  | zero => exact .done (shrinks_lasting.bind (shrinks_lasting.skipTo _ _ _) hshrinks)
  | succ k =>
    obtain ⟨n, rfl, hle⟩ := exists_eq_succ hn
    obtain ⟨n', rfl, hle'⟩ := exists_eq_succ hn'
    refine skipTo_succ_bind ?_ ?_
    · rintro _ rfl hmem
      exact .mono (hstop hmem) hk (Nat.le_refl l)
    · rintro _ rfl _
      exact skipTo_bind hle hle' hshrinks fun t ht =>
        .mono (hf t ht) (Nat.le_of_succ_le_succ hk) (Nat.le_refl l)

theorem synchronize (markers : List Kind) (context : String) :
    Tandem m o (Session.synchronize markers context) (Session.synchronize markers context) m := by
  have h : Tandem m o (Session.synchronize markers context >>= Pure.pure)
      (Session.synchronize markers context >>= Pure.pure) m :=
    synchronize_bind shrinks_lasting.pure fun t _ => .pure t
  simpa only [bind_pure] using h

/-- The marker that skipping stopped at is taken if it is of the kind. -/
theorem takeMarker (hk : k ≠ .eof) :
    Tandem m (.shown t) (Session.takeMarker t k) (Session.takeMarker t k) m := by
  unfold Session.takeMarker
  by_cases ht : t.kind = k
  · simp only [if_pos ht]
    exact take_same (ht ▸ hk) (.pure _)
  · simp only [if_neg ht]
    exact .pure _

theorem recoverStatement (context : String) :
    Tandem m o (Session.recoverStatement context) (Session.recoverStatement context) m :=
  synchronize_bind (fun _ => shrinks_lasting.takeMarker _ _) fun _ _ => takeMarker (by simp)

/-- Only in front of `}` there is nothing to skip. -/
theorem recoverStatement_shown (ht : t.kind ≠ .closeCurly) (context : String) :
    Tandem (m + 1) (.shown t) (Session.recoverStatement context)
      (Session.recoverStatement context) m := by
  refine synchronize_shown (fun _ => shrinks_lasting.takeMarker _ _) ?_ ?_
  · intro hmem
    have hsemicolon : t.kind = .semicolon := by simpa [ht] using hmem
    unfold Session.takeMarker
    simp only [if_pos hsemicolon]
    exact .take (by simp [hsemicolon]) (.pure _)
  · intro u _
    exact takeMarker (by simp)

end

end Tandem

end FxLang
