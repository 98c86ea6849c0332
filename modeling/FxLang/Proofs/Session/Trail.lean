import FxLang.Proofs.Session.Moves

/-!
# What the log tells of a parser

The log of a session has an event for every token that was taken and for every diagnostic that was
recorded, in the order in which that happened. `Session.Trail s l s'` says that from `s` to `s'` the
events `l` were logged, and that nothing was taken or recorded but what they tell.

`Trace s P Q r` says of the result `r` of a parser that was started at `s` what its events are like:
`P` holds of them if it failed, and `Q` if it went on. Traces are put together along a parser with
`Trace.bind` and the rules for the small steps behind it. `Only p s Q r` is the frequent case in
which every single event has the property `p`.

* `Session.Tells`: the events of a parser, whether it failed or not.
* `Trace.bind`, `Only.bind`: one step, and then the rest.
* `Only.skipTo`, `Only.synchronize`, `Trace.synchronize`: skipping takes nothing that is a marker,
  and it records nothing.
-/

namespace FxLang

/-! ## Events -/

namespace Event

/-- The token that was taken. -/
def token? : Event → Option Token
  | .taken t => some t
  | _ => none

/-- The diagnostic that was recorded. -/
def diagnostic? : Event → Option Diagnostic
  | .reported d => some d
  | _ => none

/-- The tokens that were taken, in order. -/
def tokens (l : List Event) : List Token := l.filterMap token?

/-- The diagnostics that were recorded, in order. -/
def diagnostics (l : List Event) : List Diagnostic := l.filterMap diagnostic?

/-- Nothing was taken, and nothing was recorded. -/
def IsRemark (e : Event) : Prop := e.token? = none ∧ e.diagnostic? = none

@[simp] theorem token?_taken (t : Token) : (taken t).token? = some t := rfl

@[simp] theorem token?_reported (d : Diagnostic) : (reported d).token? = none := rfl

@[simp] theorem token?_entering (rule : String) : (entering rule).token? = none := rfl

@[simp] theorem tokens_nil : tokens [] = [] := rfl

@[simp] theorem tokens_cons (e : Event) (l : List Event) :
    tokens (e :: l) = e.token?.toList ++ tokens l := by
  cases h : e.token? <;> simp [tokens, h]

@[simp] theorem tokens_append (l l' : List Event) : tokens (l ++ l') = tokens l ++ tokens l' :=
  List.filterMap_append

@[simp] theorem diagnostic?_taken (t : Token) : (taken t).diagnostic? = none := rfl

@[simp] theorem diagnostic?_reported (d : Diagnostic) : (reported d).diagnostic? = some d := rfl

@[simp] theorem diagnostics_nil : diagnostics [] = [] := rfl

@[simp] theorem diagnostics_cons (e : Event) (l : List Event) :
    diagnostics (e :: l) = e.diagnostic?.toList ++ diagnostics l := by
  cases h : e.diagnostic? <;> simp [diagnostics, h]

@[simp] theorem diagnostics_append (l l' : List Event) :
    diagnostics (l ++ l') = diagnostics l ++ diagnostics l' :=
  List.filterMap_append

theorem mem_tokens {t : Token} {l : List Event} : t ∈ tokens l ↔ taken t ∈ l := by
  unfold tokens
  rw [List.mem_filterMap]
  constructor
  · rintro ⟨e, he, ht⟩
    cases e with
    | taken u =>
      cases ht
      exact he
    | _ => cases ht
  · intro h
    exact ⟨_, h, rfl⟩

end Event

namespace Session

variable {s s₁ s₂ s' : Session} {l l' : List Event} {t : Token} {e : Error}

/-! ## Trails -/

/-- There is no way back to a token that was taken. -/
theorem Moves.length_le {w : List Token} {ds : List Diagnostic} (h : s.Moves w ds s') :
    s'.tokens.length ≤ s.tokens.length := by
  have hlen := h.tokens_length
  omega

/-- From one session to the other exactly the events `l` were logged, and they tell what was taken
and what was recorded. -/
structure Trail (s : Session) (l : List Event) (s' : Session) : Prop where
  log_eq : s'.log.toList = s.log.toList ++ l
  moves : s.Moves (Event.tokens l) (Event.diagnostics l) s'

namespace Trail

theorem refl (s : Session) : s.Trail [] s := ⟨by simp, .refl s⟩

theorem trans (h : s.Trail l s₁) (h' : s₁.Trail l' s₂) : s.Trail (l ++ l') s₂ where
  log_eq := by rw [h'.log_eq, h.log_eq, List.append_assoc]
  moves := by
    rw [Event.tokens_append, Event.diagnostics_append]
    exact h.moves.trans h'.moves

/-- A trail without events leaves the next token where it is. -/
theorem front_eq (h : s.Trail [] s₁) : s₁.front = s.front := h.moves.front_eq

end Trail

theorem trail_emit {event : Event} (h : event.IsRemark) (s : Session) :
    s.Trail [event] { s with log := s.log.push event } where
  log_eq := by simp
  moves := by
    have htokens : Event.tokens [event] = [] := by simp [h.1]
    have hdiagnostics : Event.diagnostics [event] = [] := by simp [h.2]
    rw [htokens, hdiagnostics]
    exact .log s _

theorem log_of_onStream {α : Type} {read : EStateM Error TokenStream α} {a : α}
    (h : onStream read s = .ok a s') : s'.log = s.log := by
  unfold onStream at h
  split at h
  · cases h
    rfl
  · cases h

theorem trail_peek (h : s.front = .ok t) : ∃ s', peek s = .ok t s' ∧ s.Trail [] s' := by
  obtain ⟨s', hs', hm⟩ := peek_of_front h
  exact ⟨s', hs', by simp [log_of_onStream hs'], hm⟩

theorem trail_advance (h : s.front = .ok t) (ht : t.kind ≠ .eof) :
    ∃ s', advance s = .ok t s' ∧ s.Trail [.taken t] s' := by
  obtain ⟨s', hs', hm⟩ := advance_of_front h ht
  refine ⟨s', hs', ?_, hm⟩
  obtain ⟨t', s₁, hnext, hemit⟩ := bind_eq_ok hs'
  cases hemit
  simp [log_of_onStream hnext]

theorem trail_report (expected context : String) (t : Token) (s : Session) :
    s.Trail [.reported { expected, context, found := t }]
      (final (report expected context t s)) where
  log_eq := by
    rw [report_apply]
    by_cases h : maxErrors ≤ s.errorCount + 1
    · simp [h]
    · simp [h]
  moves := report_moves expected context t s

/-! ## Failures -/

/-- A parser failed at `s` and left `s'`: only the stream was touched, and even the stream is the
same if the failure may be caught. -/
structure Stops (s : Session) (e : Error) (s' : Session) : Prop where
  eq : s' = { s with stream := s'.stream }
  caught : e.isFatal = false → s' = s

theorem Stops.refl (s : Session) (e : Error) : s.Stops e s := ⟨rfl, fun _ => rfl⟩

theorem stops_peek (h : s.front = .error e) : ∃ s', peek s = .error e s' ∧ s.Stops e s' := by
  obtain ⟨stream, hs'⟩ := TokenStream.peek_of_front_error h
  refine ⟨{ s with stream }, by simp [peek, onStream, hs'], rfl, fun hcaught => ?_⟩
  have hlexical := isLexical_of_ending (ending_of_front_error h)
  simp [Error.isFatal, hlexical] at hcaught

variable {α : Type}

/-- The parser that was started at `s` logged the events `l`, which tell what it took and what it
recorded, whether it went on or failed. -/
inductive Tells (s : Session) (l : List Event) : EStateM.Result Error Session α → Prop
  | goes {a : α} {s' : Session} (h : s.Trail l s') : s.Tells l (.ok a s')
  | fails {e : Error} {s₁ s' : Session} (h : s.Trail l s₁) (hs : s₁.Stops e s') :
      s.Tells l (.error e s')

namespace Tells

variable {r : EStateM.Result Error Session α}

theorem log_eq (h : s.Tells l r) : (final r).log.toList = s.log.toList ++ l := by
  cases h with
  | goes h => exact h.log_eq
  | fails h hs =>
    rw [final_error, hs.eq]
    exact h.log_eq

/-- What was logged can be told from the session that is left. -/
theorem unique (h : s.Tells l r) (h' : s.Tells l' r) : l = l' :=
  List.append_cancel_left (h.log_eq.symm.trans h'.log_eq)

/-- The events of the rest of a parser come behind those before. -/
theorem of_trail (h : s.Trail l s₁) (hr : s₁.Tells l' r) : s.Tells (l ++ l') r := by
  cases hr with
  | goes h' => exact .goes (h.trans h')
  | fails h' hs => exact .fails (h.trans h') hs

/-- What is made of the value of a parser is not logged. -/
theorem of_bind_pure {β : Type} {x : ParseM α} {f : α → β}
    (h : s.Tells l ((x >>= fun a => pure (f a)) s)) : s.Tells l (x s) := by
  cases hx : x s with
  | ok a s' =>
    rw [bind_of_ok hx] at h
    cases h with
    | goes h => exact .goes h
  | error e s' =>
    rw [bind_of_error hx] at h
    cases h with
    | fails h hs => exact .fails h hs

/-- The tokens that were taken are the first of those to come. -/
theorem isPrefix (h : s.Tells l r) : Event.tokens l <+: s.tokens := by
  cases h with
  | goes h => exact ⟨_, h.moves.tokens_eq.symm⟩
  | fails h _ => exact ⟨_, h.moves.tokens_eq.symm⟩

end Tells

end Session

open Session

/-! ## Traces -/

variable {α β : Type}

/-- The parser that was started at `s` logged events of which `P` holds if it failed; if it went on,
`Q` holds of them, of its value and of the session it left. -/
inductive Trace (s : Session) (P : List Event → Prop) (Q : List Event → α → Session → Prop) :
    EStateM.Result Error Session α → Prop
  | goes {l : List Event} {a : α} {s' : Session} (h : s.Trail l s') (hq : Q l a s') :
      Trace s P Q (.ok a s')
  | fails {l : List Event} {e : Error} {s₁ s' : Session} (h : s.Trail l s₁) (hs : s₁.Stops e s')
      (hp : P l) : Trace s P Q (.error e s')

namespace Trace

variable {s s₁ : Session} {l : List Event} {t : Token} {P P' : List Event → Prop}
  {Q Q' : List Event → α → Session → Prop} {R : List Event → β → Session → Prop}
  {r : EStateM.Result Error Session α} {x : ParseM α} {f : α → ParseM β}

theorem imp (h : Trace s P Q r) (hP : ∀ l, P l → P' l)
    (hQ : ∀ l a s', s.Trail l s' → Q l a s' → Q' l a s') : Trace s P' Q' r := by
  cases h with
  | goes h hq => exact .goes h (hQ _ _ _ h hq)
  | fails h hs hp => exact .fails h hs (hP _ hp)

/-- What holds of the events either way. -/
theorem exists_tells {S : List Event → Prop} (h : Trace s P Q r) (hP : ∀ l, P l → S l)
    (hQ : ∀ l a s', Q l a s' → S l) : ∃ l, s.Tells l r ∧ S l := by
  cases h with
  | goes h hq => exact ⟨_, .goes h, hQ _ _ _ hq⟩
  | fails h hs hp => exact ⟨_, .fails h hs, hP _ hp⟩

theorem of_tells (h : s.Tells l r) : Trace s (· = l) (fun l' _ _ => l' = l) r := by
  cases h with
  | goes h => exact .goes h rfl
  | fails h hs => exact .fails h hs rfl

theorem of_ok {a : α} {s' : Session} (h : Trace s P Q (.ok a s')) :
    ∃ l, s.Trail l s' ∧ Q l a s' := by
  cases h with
  | goes h hq => exact ⟨_, h, hq⟩

/-- The trace of the rest of a parser is one of the whole. -/
theorem of_trail (h : s.Trail l s₁)
    (hr : Trace s₁ (fun l' => P (l ++ l')) (fun l' => Q (l ++ l')) r) : Trace s P Q r := by
  cases hr with
  | goes h' hq => exact .goes (h.trans h') hq
  | fails h' hs hp => exact .fails (h.trans h') hs hp

/-- One step, and then the rest of the parser where the step left the session. -/
theorem bind (hx : Trace s P Q (x s))
    (hf : ∀ l a s₁, x s = .ok a s₁ → s.Trail l s₁ → Q l a s₁ →
      Trace s₁ (fun l' => P (l ++ l')) (fun l' => R (l ++ l')) (f a s₁)) :
    Trace s P R ((x >>= f) s) := by
  generalize hr : x s = r at hx
  cases hx with
  | goes h hq =>
    rw [bind_of_ok hr]
    exact of_trail h (hf _ _ _ hr h hq)
  | fails h hs hp =>
    rw [bind_of_error hr]
    exact .fails h hs hp

theorem pure {a : α} (hq : Q [] a s) : Trace s P Q ((Pure.pure a : ParseM α) s) :=
  .goes (.refl s) hq

theorem throw {e : Error} (hp : P []) : Trace s P Q ((MonadExcept.throw e : ParseM α) s) :=
  .fails (.refl s) (.refl s e) hp

theorem emit_bind {g : Unit → ParseM α} {event : Event}
    (h : ∀ s₁, s.Trail [event] s₁ →
      Trace s₁ (fun l => P (event :: l)) (fun l => Q (event :: l)) (g () s₁))
    (he : event.IsRemark := by exact ⟨rfl, rfl⟩) : Trace s P Q ((emit event >>= g) s) := by
  rw [bind_of_ok (emit_apply event s)]
  exact of_trail (trail_emit he s) (h _ (trail_emit he s))

/-! ## Looking ahead and taking -/

/-- The next token is looked at, unless there is an error in its place. -/
theorem peek_bind {g : Token → ParseM α} (hp : P [])
    (h : ∀ t s₁, s.Trail [] s₁ → s₁.front = .ok t → Trace s₁ P Q (g t s₁)) :
    Trace s P Q ((peek >>= g) s) := by
  cases hf : s.front with
  | error e =>
    obtain ⟨s₁, h₁, hs⟩ := stops_peek hf
    rw [bind_of_error h₁]
    exact .fails (.refl s) hs hp
  | ok t =>
    obtain ⟨s₁, h₁, ht⟩ := trail_peek hf
    rw [bind_of_ok h₁]
    exact of_trail ht (h t s₁ ht (ht.front_eq.trans hf))

/-- The trace of a parser that is started at `s`. -/
def On (s : Session) (P : List Event → Prop) (Q : List Event → α → Session → Prop)
    (x : ParseM α) : Prop :=
  Trace s P Q (x s)

theorem peekKind_bind {g : Kind → ParseM α} (hp : P [])
    (h : ∀ t s₁, s.Trail [] s₁ → s₁.front = .ok t → On s₁ P Q (g t.kind)) :
    Trace s P Q ((peekKind >>= g) s) := by
  have hg : (peekKind >>= g) s = (Session.peek >>= fun t => g t.kind) s := by
    simp only [peekKind, bind_assoc, pure_bind]
  rw [hg]
  exact peek_bind hp h

/-- The kind of the next token decides between two ways on. -/
theorem nextIs_ite {k : Kind} {x y : ParseM α} (hp : P [])
    (hx : ∀ t s₁, s.Trail [] s₁ → s₁.front = .ok t → t.kind = k → Trace s₁ P Q (x s₁))
    (hy : ∀ t s₁, s.Trail [] s₁ → s₁.front = .ok t → t.kind ≠ k → Trace s₁ P Q (y s₁)) :
    Trace s P Q ((nextIs k >>= fun b => if b = true then x else y) s) := by
  have hg : (nextIs k >>= fun b => if b = true then x else y) s =
      (peekKind >>= fun k' => if k' = k then x else y) s := by
    simp only [nextIs, bind_assoc, pure_bind, decide_eq_true_eq]
  rw [hg]
  refine peekKind_bind hp fun t s₁ h₁ hf => ?_
  unfold On
  by_cases ht : t.kind = k
  · rw [if_pos ht]
    exact hx t s₁ h₁ hf ht
  · rw [if_neg ht]
    exact hy t s₁ h₁ hf ht

/-- The token in front is taken. -/
theorem advance_bind {g : Token → ParseM α} (hf : s.front = .ok t) (ht : t.kind ≠ .eof)
    (h : ∀ s₁, s.Trail [.taken t] s₁ →
      Trace s₁ (fun l => P (.taken t :: l)) (fun l => Q (.taken t :: l)) (g t s₁)) :
    Trace s P Q ((advance >>= g) s) := by
  obtain ⟨s₁, h₁, htrail⟩ := trail_advance hf ht
  rw [bind_of_ok h₁]
  exact of_trail htrail (h s₁ htrail)

/-! ## Reports -/

section
variable {expected context : String}

/-- Whether or not it reaches the limit, a report is logged. -/
theorem report_bind {g : Unit → ParseM α} (hp : P [.reported { expected, context, found := t }])
    (h : ∀ s₁, s.Trail [.reported { expected, context, found := t }] s₁ →
      Trace s₁ (fun l => P (.reported { expected, context, found := t } :: l))
        (fun l => Q (.reported { expected, context, found := t } :: l)) (g () s₁)) :
    Trace s P Q ((report expected context t >>= g) s) := by
  have htrail := trail_report expected context t s
  cases hr : report expected context t s with
  | ok a s₁ =>
    rw [hr] at htrail
    rw [bind_of_ok hr]
    exact of_trail htrail (h s₁ htrail)
  | error e s₁ =>
    rw [hr] at htrail
    rw [bind_of_error hr]
    exact .fails htrail (.refl s₁ e) hp

/-- A report about the next token, after which it is still the next. -/
theorem reportNext_bind {g : Unit → ParseM α} (hf : s.front = .ok t)
    (hp : P [.reported { expected, context, found := t }])
    (h : ∀ s₁, s.Trail [.reported { expected, context, found := t }] s₁ → s₁.front = .ok t →
      Trace s₁ (fun l => P (.reported { expected, context, found := t } :: l))
        (fun l => Q (.reported { expected, context, found := t } :: l)) (g () s₁)) :
    Trace s P Q ((reportNext expected context >>= g) s) := by
  obtain ⟨s₁, h₁, htrail⟩ := trail_peek hf
  have hg : (reportNext expected context >>= g) s = (report expected context t >>= g) s₁ := by
    rw [reportNext, bind_assoc, bind_of_ok h₁]
  rw [hg]
  refine of_trail htrail (report_bind hp fun s₂ h₂ => h s₂ (htrail.trans h₂) ?_)
  have hmoves : s₁.Moves [] _ s₂ := h₂.moves
  exact hmoves.front_eq.trans (htrail.front_eq.trans hf)

/-- A token of the kind is taken, or else what stands in its place is reported and stays. -/
theorem expect {k : Kind} (hk : k ≠ .eof) (hp : P [])
    (hreport : ∀ t, s.front = .ok t → t.kind ≠ k →
      P [.reported { expected, context, found := t }]) :
    Trace s P (fun l r s' =>
        (∃ t, r = some t ∧ s.front = .ok t ∧ t.kind = k ∧ l = [.taken t]) ∨
        (∃ t, r = none ∧ s.front = .ok t ∧ t.kind ≠ k ∧ s'.front = .ok t ∧
          l = [.reported { expected, context, found := t }]))
      (Session.expect k expected context s) := by
  refine nextIs_ite hp (fun t s₁ h₁ hf ht => ?_) fun t s₁ h₁ hf ht => ?_
  · refine advance_bind hf (by rwa [ht]) fun s₂ _ => pure (.inl ⟨t, rfl, ?_, ht, rfl⟩)
    exact h₁.front_eq.symm.trans hf
  · have hfront := h₁.front_eq.symm.trans hf
    exact reportNext_bind hf (hreport t hfront ht) fun s₂ _ hf₂ =>
      pure (.inr ⟨t, rfl, hfront, ht, hf₂, rfl⟩)

/-- At the end of the input there is nothing to skip. -/
theorem synchronize_of_eof {markers : List Kind} (hf : s.front = .ok t) (hk : t.kind = .eof)
    (hmem : .eof ∉ markers) (hp : P []) {Q : List Event → Token → Session → Prop} :
    Trace s P Q (synchronize markers context s) := by
  refine peek_bind hp fun t' s₁ h₁ hf₁ => ?_
  rw [h₁.front_eq, hf] at hf₁
  cases hf₁
  rw [if_neg (by rwa [hk]), if_pos (by simp [Token.isEof, hk])]
  exact throw hp

end

end Trace

/-! ## One event at a time -/

/-- Every event that the parser logged from `s` on has the property `p`. -/
def Only (p : Event → Prop) (s : Session) (Q : α → Session → Prop)
    (r : EStateM.Result Error Session α) : Prop :=
  Trace s (fun l => ∀ e ∈ l, p e) (fun l a s' => (∀ e ∈ l, p e) ∧ Q a s') r

namespace Only

variable {p p' : Event → Prop} {s : Session} {t : Token} {Q Q' : α → Session → Prop}
  {R : β → Session → Prop} {r : EStateM.Result Error Session α} {x : ParseM α} {f : α → ParseM β}

theorem imp (h : Only p s Q r) (hp : ∀ e, p e → p' e) (hQ : ∀ a s', Q a s' → Q' a s') :
    Only p' s Q' r :=
  Trace.imp h (fun _ hl e he => hp e (hl e he)) fun _ a s' _ hq =>
    ⟨fun e he => hp e (hq.1 e he), hQ a s' hq.2⟩

/-- Events that have the property come before. -/
theorem append {l : List Event} (hl : ∀ e ∈ l, p e) (h : Only p s Q r) :
    Trace s (fun l' => ∀ e ∈ l ++ l', p e)
      (fun l' a s' => (∀ e ∈ l ++ l', p e) ∧ Q a s') r :=
  Trace.imp h (fun _ hl' => List.forall_mem_append.2 ⟨hl, hl'⟩) fun _ _ _ _ hq =>
    ⟨List.forall_mem_append.2 ⟨hl, hq.1⟩, hq.2⟩

theorem cons {e : Event} (he : p e) (h : Only p s Q r) :
    Trace s (fun l => ∀ e' ∈ e :: l, p e') (fun l a s' => (∀ e' ∈ e :: l, p e') ∧ Q a s') r :=
  append (l := [e]) (List.forall_mem_singleton.2 he) h

theorem bind (hx : Only p s Q (x s))
    (hf : ∀ a s₁, x s = .ok a s₁ → Q a s₁ → Only p s₁ R (f a s₁)) :
    Only p s R ((x >>= f) s) :=
  Trace.bind hx fun _ a s₁ hr _ hq => append hq.1 (hf a s₁ hr hq.2)

theorem pure {a : α} (hq : Q a s) : Only p s Q ((Pure.pure a : ParseM α) s) :=
  Trace.pure ⟨by simp, hq⟩

theorem throw {e : Error} : Only p s Q ((MonadExcept.throw e : ParseM α) s) :=
  Trace.throw (by simp)

theorem emit_bind {g : Unit → ParseM α} {event : Event} (hp : p event)
    (h : ∀ s₁, s.Trail [event] s₁ → Only p s₁ Q (g () s₁))
    (he : event.IsRemark := by exact ⟨rfl, rfl⟩) : Only p s Q ((emit event >>= g) s) :=
  Trace.emit_bind (fun s₁ h₁ => cons hp (h s₁ h₁)) he

theorem peek_bind {g : Token → ParseM α}
    (h : ∀ t s₁, s₁.front = .ok t → Only p s₁ Q (g t s₁)) : Only p s Q ((peek >>= g) s) :=
  Trace.peek_bind (by simp) fun t s₁ _ hf => h t s₁ hf

/-- What is logged by a parser that is started at `s`. -/
def On (p : Event → Prop) (s : Session) (Q : α → Session → Prop) (x : ParseM α) : Prop :=
  Only p s Q (x s)

theorem peekKind_bind {g : Kind → ParseM α}
    (h : ∀ t s₁, s₁.front = .ok t → On p s₁ Q (g t.kind)) :
    Only p s Q ((peekKind >>= g) s) :=
  Trace.peekKind_bind (by simp) fun t s₁ _ hf => h t s₁ hf

theorem nextIs_ite {k : Kind} {x y : ParseM α}
    (hx : ∀ t s₁, s₁.front = .ok t → t.kind = k → Only p s₁ Q (x s₁))
    (hy : ∀ t s₁, s₁.front = .ok t → t.kind ≠ k → Only p s₁ Q (y s₁)) :
    Only p s Q ((nextIs k >>= fun b => if b = true then x else y) s) :=
  Trace.nextIs_ite (by simp) (fun t s₁ _ => hx t s₁) fun t s₁ _ => hy t s₁

theorem nextIs (k : Kind) : Only p s (fun _ _ => True) (nextIs k s) :=
  peekKind_bind fun _ _ _ => pure trivial

theorem advance_bind {g : Token → ParseM α} (hf : s.front = .ok t) (ht : t.kind ≠ .eof)
    (hp : p (.taken t)) (h : ∀ s₁, Only p s₁ Q (g t s₁)) : Only p s Q ((advance >>= g) s) :=
  Trace.advance_bind hf ht fun s₁ _ => cons hp (h s₁)

section
variable {k : Kind} {expected context : String} {markers : List Kind}

theorem report_bind {g : Unit → ParseM α} (hp : ∀ d, p (.reported d))
    (h : ∀ s₁, Only p s₁ Q (g () s₁)) : Only p s Q ((report expected context t >>= g) s) :=
  Trace.report_bind (List.forall_mem_singleton.2 (hp _)) fun s₁ _ => cons (hp _) (h s₁)

theorem reportNext_bind {g : Unit → ParseM α} (hp : ∀ d, p (.reported d))
    (h : ∀ s₁, Only p s₁ Q (g () s₁)) : Only p s Q ((reportNext expected context >>= g) s) := by
  simp only [reportNext, bind_assoc]
  exact peek_bind fun t s₁ _ => report_bind hp h

/-- A token of the kind is taken, or else what stands in its place is reported. -/
theorem expect (hk : k ≠ .eof) (htaken : ∀ t : Token, t.kind = k → p (.taken t))
    (hp : ∀ d, p (.reported d)) :
    Only p s (fun _ _ => True) (Session.expect k expected context s) := by
  have hreport (t : Token) : ∀ e ∈ [Event.reported { expected, context, found := t }], p e :=
    List.forall_mem_singleton.2 (hp _)
  refine (Trace.expect hk (by simp) fun t _ _ => hreport t).imp (fun _ h => h) ?_
  rintro _ _ _ _ (⟨t, -, -, ht, rfl⟩ | ⟨t, -, -, -, -, rfl⟩)
  · exact ⟨List.forall_mem_singleton.2 (htaken t ht), trivial⟩
  · exact ⟨hreport t, trivial⟩

/-- Skipping takes nothing that is a marker. -/
theorem skipTo (htaken : ∀ t : Token, t.kind ∉ markers → p (.taken t))
    (hp : ∀ t c, p (.synchronized t c)) (n : Nat) (hn : s.tokens.length < n) :
    Only p s (fun marker s' => marker.kind ∈ markers ∧ s'.front = .ok marker)
      (skipTo markers context n s) := by
  induction n generalizing s with
  | zero => omega
  | succ n ih =>
    refine Trace.peek_bind (by simp) fun t s₁ h₁ hf => ?_
    have hlen₁ := h₁.moves.tokens_length
    by_cases hmem : t.kind ∈ markers
    · rw [if_pos hmem]
      refine emit_bind (hp t context) fun s₂ h₂ => pure ⟨hmem, ?_⟩
      have hmoves : s₁.Moves [] [] s₂ := h₂.moves
      exact hmoves.front_eq.trans hf
    · rw [if_neg hmem]
      by_cases heof : t.isEof
      · rw [if_pos heof]
        exact throw
      · rw [if_neg heof]
        have hk : t.kind ≠ .eof := by simpa [Token.isEof] using heof
        refine Trace.advance_bind hf hk fun s₂ h₂ => cons (htaken t hmem) (ih ?_)
        have hlen₂ := h₂.moves.tokens_length
        simp at hlen₁ hlen₂
        omega

theorem synchronize (htaken : ∀ t : Token, t.kind ∉ markers → p (.taken t))
    (hp : ∀ t c, p (.synchronized t c)) :
    Only p s (fun marker s' => marker.kind ∈ markers ∧ s'.front = .ok marker)
      (synchronize markers context s) :=
  skipTo htaken hp _ s.length_tokens_lt

/-- The marker that skipping stopped at is taken, if it is of the kind. -/
theorem takeMarker {marker : Token} (hf : s.front = .ok marker) (hk : k ≠ .eof)
    (htaken : marker.kind = k → p (.taken marker)) :
    Only p s (fun _ _ => True) (takeMarker marker k s) := by
  unfold Session.takeMarker
  by_cases h : marker.kind = k
  · rw [if_pos h]
    exact advance_bind hf (by rwa [h]) (htaken h) fun _ => pure trivial
  · rw [if_neg h]
    exact pure trivial

/-- Of the rest of a broken statement only the `}` around it stays. -/
theorem recoverStatement (htaken : ∀ t : Token, t.kind ≠ .closeCurly → p (.taken t))
    (hp : ∀ t c, p (.synchronized t c)) :
    Only p s (fun _ _ => True) (recoverStatement context s) := by
  refine (synchronize (fun t ht => htaken t ?_) hp).bind fun marker s₁ _ hstop => ?_
  · intro hk
    simp [hk] at ht
  · exact takeMarker hstop.2 (by simp) fun hk => htaken marker (by simp [hk])

end

end Only

/-- Skipping records nothing, and it stops in front of a marker. -/
theorem Trace.synchronize {s : Session} {markers : List Kind} {context : String} :
    Trace s (fun l => Event.diagnostics l = [])
      (fun l marker s' => Event.diagnostics l = [] ∧ marker.kind ∈ markers ∧ s'.front = .ok marker)
      (Session.synchronize markers context s) := by
  have hskip : Only (fun e => e.diagnostic? = none) s
      (fun marker s' => marker.kind ∈ markers ∧ s'.front = .ok marker)
      (Session.synchronize markers context s) :=
    .synchronize (fun _ _ => rfl) fun _ _ => rfl
  exact Trace.imp hskip (fun _ h => List.filterMap_eq_nil_iff.2 h)
    fun _ _ _ _ h => ⟨List.filterMap_eq_nil_iff.2 h.1, h.2⟩

/-- What is missing is skipped, and something else is given for it. -/
theorem Trace.synchronize_pure {s : Session} {markers : List Kind} {context : String} {a : α}
    {P : List Event → Prop} {Q : List Event → α → Session → Prop}
    (hP : ∀ l, Event.diagnostics l = [] → P l)
    (hQ : ∀ l marker s', Event.diagnostics l = [] → marker.kind ∈ markers →
      s'.front = .ok marker → Q l a s') :
    Trace s P Q ((Session.synchronize markers context >>= fun _ => Pure.pure a) s) := by
  refine (Trace.synchronize.imp hP fun _ _ _ _ h => h).bind ?_
  intro l marker s₁ _ _ ⟨hl, hmem, hf⟩
  exact .pure (hQ _ marker s₁ (by simpa using hl) hmem hf)

end FxLang
