import FxLang.Proofs.Session.Tandem

/-!
# The course of parsers in tandem

What two parsers in tandem do on texts that differ behind a place, and where the first of them has
come to when it gives up.

* `Tandem.abreast`: on the two texts they do the same, as long as the first has the place ahead of
  it.
* `Tandem.course`: a parser that gives up has read nothing behind the token or the error that it
  gives up for.
-/

namespace FxLang

open Session

/-! ## Two texts -/

section
variable {α β : Type} {l k : Nat} {s s' : Session} {old new : List Char}

/-- The sessions are the same but for the text behind a place. -/
structure Session.Beside (old new : List Char) (s s' : Session) : Prop where
  stream : s.stream.Beside old new s'.stream
  eq : s' = { s with stream := s'.stream }

/-- Changes to the rest of a session leave the streams where they are. -/
theorem Session.Beside.congr {s₁ s₁' : Session} (h : s.Beside old new s')
    (hs : s₁.stream = s.stream) (hs' : s₁' = { s₁ with stream := s'.stream }) :
    s₁.Beside old new s₁' where
  stream := by
    rw [hs, hs']
    exact h.stream
  eq := by rw [hs']

theorem Session.Beside.take (h : s.Beside old new s') (t : Token) :
    (s.take t).Beside old new (s'.take t) := by
  obtain ⟨x, hrest, hstream⟩ := h.stream.eq
  refine ⟨⟨⟨x, hrest, ?_⟩, by simp [Session.take]⟩, ?_⟩
  · unfold Session.take
    rw [hstream]
    rfl
  · rw [h.eq]
    rfl

/-- Both runs went the same way, with fewer than `l` characters in front of the place if they go
on. -/
inductive Abreast (old new : List Char) (l : Nat) :
    EStateM.Result Error Session α → EStateM.Result Error Session α → Prop
  | goes {a : α} {s s' : Session} (hs : s.Beside old new s')
      (hl : s.stream.remaining < l + old.length) : Abreast old new l (.ok a s) (.ok a s')
  | fails {e : Error} {s s' : Session} (hs : s.Beside old new s') :
      Abreast old new l (.error e s) (.error e s')

namespace Abreast

/-- One step, and then the rest. What follows the step leaves an end of the text that the step left,
so that the step has the place ahead of it if the whole has. -/
theorem bind {x x' : ParseM α} {f f' : α → ParseM β}
    (hx : old <:+ (final (x s)).stream.cursor.rest → Abreast old new k (x s) (x' s'))
    (hshrinks : ∀ a s₁, x s = .ok a s₁ → Shrinks s₁ (failure (f a s₁)) (final (f a s₁)))
    (hf : ∀ a s₁ s₁', x s = .ok a s₁ → s₁.Beside old new s₁' →
      s₁.stream.remaining < k + old.length →
      old <:+ (final (f a s₁)).stream.cursor.rest → Abreast old new l (f a s₁) (f' a s₁'))
    (hahead : old <:+ (final ((x >>= f) s)).stream.cursor.rest) :
    Abreast old new l ((x >>= f) s) ((x' >>= f') s') := by
  generalize hr' : x' s' = r' at hx
  cases hr : x s with
  | ok a s₁ =>
    rw [bind_of_ok hr] at hahead ⊢
    have hstep : old <:+ s₁.stream.cursor.rest := hahead.trans (hshrinks a s₁ hr).1
    rw [hr] at hx
    cases hx hstep with
    | goes hs hl =>
      rw [bind_of_ok hr']
      exact hf a _ _ hr hs hl hahead
  | error e s₁ =>
    rw [bind_of_error hr] at hahead ⊢
    rw [hr] at hx
    cases hx hahead with
    | fails hs =>
      rw [bind_of_error hr']
      exact .fails hs

theorem mono {r r' : EStateM.Result Error Session α} (h : Abreast old new k r r') (hk : k ≤ l) :
    Abreast old new l r r' := by
  cases h with
  | goes hs hl => exact .goes hs (by omega)
  | fails hs => exact .fails hs

/-- The same diagnostic reaches the limit in both sessions or in none. -/
theorem report {expected context : String} {t : Token} (hs : s.Beside old new s')
    (hl : s.stream.remaining < l + old.length) :
    Abreast old new l (report expected context t s) (report expected context t s') := by
  have hcount : s'.errorCount = s.errorCount := by rw [hs.eq]
  rw [report_apply, report_apply, hcount]
  by_cases h : maxErrors ≤ s.errorCount + 1
  · simp only [if_pos h]
    exact .fails (hs.congr rfl (by rw [hs.eq]; rfl))
  · simp only [if_neg h]
    exact .goes (hs.congr rfl (by rw [hs.eq]; rfl)) hl

theorem peek {c : Char} {q q' : List Char} (hs : s.Beside (c :: q) (c :: q') s')
    (hl : s.stream.remaining < l + (c :: q).length)
    (hahead : c :: q <:+ (final (peek s)).stream.cursor.rest) :
    Abreast (c :: q) (c :: q') l (peek s) (peek s') := by
  unfold Session.peek at hahead ⊢
  rw [final_onStream] at hahead
  have hpeek := hs.stream.peek hahead
  have hle := TokenStream.remaining_outcome_peek s.stream
  rw [hs.eq]
  unfold onStream
  generalize TokenStream.peek s.stream = r at hpeek hle
  generalize TokenStream.peek s'.stream = r' at hpeek
  cases hpeek with
  | goes h => exact .goes ⟨h, rfl⟩ (Nat.lt_of_le_of_lt hle hl)
  | fails h => exact .fails ⟨h, rfl⟩

end Abreast

end

namespace Tandem

variable {α : Type} {m l : Nat} {o : Sight} {x x' : ParseM α} {c : Char} {q q' : List Char}

/-- On texts that differ behind a place, parsers in tandem do the same, if the first has the place
ahead of it to the end. -/
theorem abreast (h : Tandem m o x x' l) {s s' : Session} (hs : s.Beside (c :: q) (c :: q') s')
    (ho : o.Shows s.stream) (hm : s.stream.remaining < m + (c :: q).length)
    (hahead : c :: q <:+ (final (x s)).stream.cursor.rest) :
    Abreast (c :: q) (c :: q') l (x s) (x' s') := by
  induction h generalizing s s' with
  | pure a => exact .goes hs hm
  | bind _ hf ihx ihf =>
    exact .bind (ihx hs ho hm) (fun a s₁ _ => (hf a).shrinks s₁ trivial)
      (fun a s₁ s₁' _ hs₁ hk => ihf a hs₁ trivial hk) hahead
  | mono _ hmk hln ih => exact (ih hs ho (by omega) hahead).mono hln
  | forget _ ih => exact ih hs trivial hm hahead
  | emit event _ ih =>
    exact ih (hs.congr rfl (by rw [hs.eq])) ho hm hahead
  | count _ ih =>
    have hcount : s'.errorCount = s.errorCount := by rw [hs.eq]
    rw [bind_of_ok (countErrors_apply s'), hcount]
    exact ih _ hs ho hm hahead
  | look hf ih =>
    exact .bind (Abreast.peek hs hm)
      (fun t s₁ h => (hf t (ho.allows h)).shrinks s₁ (shown_of_peek h))
      (fun t s₁ s₁' h hs₁ hk => ih t (ho.allows h) hs₁ (shown_of_peek h) hk) hahead
  | take ht _ ih =>
    have ho' : s'.stream.peeked = some _ := hs.stream.peeked_eq.trans ho
    rw [bind_of_ok (advance_of_shown ho)] at hahead ⊢
    rw [bind_of_ok (advance_of_shown ho')]
    have hless := remaining_take ho ht
    exact ih (hs.take _) trivial (by omega) hahead
  | report _ hf ih =>
    refine .bind (fun _ => .report hs hm) ?_ ?_ hahead
    · intro _ s₁ h
      exact hf.shrinks s₁ (by rwa [stream_of_report h])
    · intro _ s₁ s₁' h hs₁ hk
      exact ih hs₁ (by rwa [stream_of_report h]) hk
  | trip => exact .fails hs
  | starve => exact .fails hs
  | @attempt _ _ _ _ _ _ x x' f f' hx hok hcaught hfatal ihx ihok ihcaught =>
    have hxs := hx.shrinks s ho
    have hstep := ihx hs ho hm
    generalize hr' : x' s' = r' at hstep
    cases hr : x s with
    | ok a s₁ =>
      rw [bind_of_ok (attempt_of_ok hr)] at hahead ⊢
      rw [hr] at hstep
      cases hstep (hahead.trans ((hok a).shrinks s₁ trivial).1) with
      | goes hs₁ hk =>
        rw [bind_of_ok (attempt_of_ok hr')]
        exact ihok a hs₁ trivial hk hahead
    | error e s₁ =>
      rw [bind_of_ok (attempt_of_error hr)] at hahead ⊢
      rw [hr] at hstep hxs
      cases he : e.isFatal with
      | true =>
        obtain ⟨hf, hf'⟩ := hfatal e he
        rw [hf] at hahead ⊢
        cases hstep hahead with
        | fails hs₁ =>
          rw [bind_of_ok (attempt_of_error hr'), hf']
          exact .fails hs₁
      | false =>
        cases hstep (hahead.trans ((hcaught e he).shrinks s₁ (shows_behind e _)).1) with
        | fails hs₁ =>
          rw [bind_of_ok (attempt_of_error hr')]
          exact ihcaught e he hs₁ (shows_behind e _) (Nat.lt_of_le_of_lt hxs.2 hm) hahead
  | rounds _ ih =>
    have hle := hs.stream.length_le
    have heq := hs.stream.remaining_eq
    -- As many rounds as there are characters in front of the place, and one more.
    exact ih (s.stream.remaining - (c :: q).length + 1) _ _ (by omega) (by omega) (by omega) hs ho
      (by omega) hahead
  | done hx =>
    have := hs.stream.length_le
    omega

end Tandem

/-! ## Where a parser gives up -/

section
variable {src : TokenStream} {s : Session}

/-- The sight is right of a stream that reading from `src` came to. -/
def Sight.Holds (src : TokenStream) : Sight → TokenStream → Prop
  | .nothing, _ => True
  | .shown t, s => s.peeked = some t
  | .taken t, s => src.RightBehind (.ok t) s

theorem Sight.Holds.shows {o : Sight} {s : TokenStream} (h : o.Holds src s) : o.Shows s := by
  cases o with
  | shown t => exact h
  | nothing => trivial
  | taken t => trivial

/-- A token in sight is the one that was read last. -/
theorem Sight.Holds.rightBehind {o : Sight} {s : TokenStream} {t : Token} (h : o.Holds src s)
    (ht : o.Sees t) (hs : src.Stands s) (hp : src.peeked = none) : src.RightBehind (.ok t) s := by
  cases o with
  | nothing => exact ht.elim
  | shown t' =>
    obtain rfl : t' = t := ht
    exact hs.rightBehind hp h
  | taken t' =>
    obtain rfl : t' = t := ht
    exact h

/-- What a parser on `src` gives up for. It has read nothing behind the lexical error, behind the
token that it trips over, or behind the token of the diagnostic that reaches the limit. -/
inductive Halts (src : TokenStream) (e : Error) (s : Session) : Prop
  | lexical (h : src.RightBehind (.error e) s.stream)
  | syntactic {t : Token} (he : e.cause.found = some t) (hs : src.Stands s.stream)
      (ht : src.RightBehind (.ok t) s.stream)
  | eof {context : String} (he : e.cause = .unexpectedEof context)
  | limit {n : Nat} {d : Diagnostic} (he : e.cause = .tooManyErrors n)
      (hd : s.diagnostics.getLast? = some d) (ht : src.RightBehind (.ok d.found) s.stream)

/-- An error that is caught is about the token read last. -/
theorem Halts.holds_behind {e : Error} (h : Halts src e s) (he : e.isFatal = false) :
    src.Stands s.stream ∧ (Sight.behind e).Holds src s.stream := by
  cases h with
  | lexical h =>
    obtain ⟨k, hr, -⟩ := h
    simp [Error.isFatal, TokenStream.isLexical_of_results hr] at he
  | syntactic hfound hs ht =>
    refine ⟨hs, ?_⟩
    unfold Sight.behind
    rw [hfound]
    exact ht
  | eof hcause => simp [Error.isFatal, Error.category, hcause, Cause.category] at he
  | limit hcause => simp [Error.isFatal, Error.category, hcause, Cause.category] at he

/-- A parser on `src` goes on with fewer than `l` characters to come, or gives up. -/
inductive Course {α : Type} (src : TokenStream) (l : Nat) : EStateM.Result Error Session α → Prop
  | goes {a : α} {s : Session} (hs : src.Stands s.stream) (hl : s.stream.remaining < l) :
      Course src l (.ok a s)
  | halts {e : Error} {s : Session} (h : Halts src e s) : Course src l (.error e s)

namespace Course

variable {α β : Type} {k l : Nat}

theorem bind {x : ParseM α} {f : α → ParseM β} (hx : Course src k (x s))
    (hf : ∀ a s₁, x s = .ok a s₁ → src.Stands s₁.stream → s₁.stream.remaining < k →
      Course src l (f a s₁)) : Course src l ((x >>= f) s) := by
  generalize hr : x s = r at hx
  cases hx with
  | goes hs hk =>
    rw [bind_of_ok hr]
    exact hf _ _ hr hs hk
  | halts h =>
    rw [bind_of_error hr]
    exact .halts h

theorem mono {r : EStateM.Result Error Session α} (h : Course src k r) (hk : k ≤ l) :
    Course src l r := by
  cases h with
  | goes hs hl => exact .goes hs (Nat.lt_of_lt_of_le hl hk)
  | halts h => exact .halts h

theorem peek (hs : src.Stands s.stream) (hl : s.stream.remaining < l) :
    Course src l (peek s) := by
  have hpeek := hs.peek
  have hle := TokenStream.remaining_outcome_peek s.stream
  unfold Session.peek onStream
  cases hr : TokenStream.peek s.stream with
  | ok t stream =>
    rw [hr] at hpeek hle
    exact .goes hpeek.2 (Nat.lt_of_le_of_lt hle hl)
  | error e stream =>
    rw [hr] at hpeek
    exact .halts (.lexical hpeek.1)

theorem report {expected context : String} {t : Token} (hs : src.Stands s.stream)
    (hl : s.stream.remaining < l) (ht : src.RightBehind (.ok t) s.stream) :
    Course src l (report expected context t s) := by
  rw [report_apply]
  by_cases h : maxErrors ≤ s.errorCount + 1
  · simp only [if_pos h]
    exact .halts (.limit rfl List.getLast?_concat ht)
  · simp only [if_neg h]
    exact .goes hs hl

end Course

end

namespace Tandem

variable {α : Type} {m l : Nat} {o : Sight} {x x' : ParseM α} {src : TokenStream}

/-- The first of two parsers in tandem stays at the places of the source, and where it gives up it
has read nothing behind what it gives up for. -/
theorem course (h : Tandem m o x x' l) (hp : src.peeked = none) {s : Session}
    (hs : src.Stands s.stream) (ho : o.Holds src s.stream) (hm : s.stream.remaining < m) :
    Course src l (x s) := by
  induction h generalizing s with
  | pure a => exact .goes hs hm
  | bind _ _ ihx ihf => exact (ihx hs ho hm).bind fun a _ _ hs₁ hk => ihf a hs₁ trivial hk
  | mono _ hmk hln ih => exact (ih hs ho (Nat.lt_of_lt_of_le hm hmk)).mono hln
  | forget _ ih => exact ih hs trivial hm
  | emit event _ ih => exact ih (s := { s with log := s.log.push event }) hs ho hm
  | count _ ih => exact ih _ hs ho hm
  | look _ ih =>
    exact (Course.peek hs hm).bind fun t _ h hs₁ hk =>
      ih t (ho.shows.allows h) hs₁ (shown_of_peek h) hk
  | take ht _ ih =>
    have hless := remaining_take ho ht
    have hnext := hs.next hp
    rw [TokenStream.next_of_peeked ho] at hnext
    rw [bind_of_ok (advance_of_shown ho)]
    exact ih (s := s.take _) hnext.2 hnext.1 (by omega)
  | report ht _ ih =>
    refine (Course.report hs hm (ho.rightBehind ht hs hp)).bind ?_
    intro _ s₁ h hs₁ hk
    exact ih hs₁ (by rwa [stream_of_report h]) hk
  | trip ht he => exact .halts (.syntactic he hs (ho.rightBehind ht hs hp))
  | starve => exact .halts (.eof rfl)
  | @attempt _ _ _ _ _ _ x x' f f' hx _ _ hfatal ihx ihok ihcaught =>
    have hle := (hx.shrinks s ho.shows).2
    have hstep := ihx hs ho hm
    cases hr : x s with
    | ok a s₁ =>
      rw [hr] at hstep
      rw [bind_of_ok (attempt_of_ok hr)]
      cases hstep with
      | goes hs₁ hk => exact ihok a hs₁ trivial hk
    | error e s₁ =>
      rw [hr] at hstep hle
      rw [bind_of_ok (attempt_of_error hr)]
      cases hstep with
      | halts h =>
        cases he : e.isFatal with
        | true =>
          rw [(hfatal e he).1]
          exact .halts h
        | false =>
          obtain ⟨hs₁, hbehind⟩ := h.holds_behind he
          exact ihcaught e he hs₁ hbehind (Nat.lt_of_le_of_lt hle hm)
  | rounds _ ih =>
    have hlt := Nat.lt_succ_self s.stream.remaining
    exact ih (s.stream.remaining + 1) _ _ hm (Nat.le_refl _) (Nat.le_refl _) hs ho hlt
  | done => exact absurd hm (Nat.not_lt_zero _)

end Tandem

end FxLang
