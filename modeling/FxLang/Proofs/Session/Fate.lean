import FxLang.Proofs.Session.Moves

/-!
# How a parser may end

Whatever the input, a parser goes on behind the tokens that it took, with the diagnostics that it
recorded, or it ends the session: at the lexical error behind the tokens, at the limit of
diagnostics, or at the end of the input while it skips tokens. A parser of expressions may also trip
over a token; it records nothing, and its caller reports the token.

`Fate silent s Q r` says so of the result `r` of a parser that was started at `s`. The parsers that
are `silent` are those of expressions, and `Q` tells what else is known where the parser goes on.
Fates are put together along a parser with `Fate.bind` and the rules for the small steps behind it.

* `Fate.skipTo`, `Fate.synchronize`: the input comes to its end under a parser only after something
  was reported, and otherwise skipping stops in front of a marker.
* `Fate.expect`: a token that is missing is reported, and nothing else.
-/

namespace FxLang

/-! ## Diagnostics and what they are about -/

/-- No lexical error is worded like this. -/
def NotLexical (text : String) : Prop :=
  ∀ c : Cause, c.category = .lexical → c.expected ≠ text

/-- The first letters of the wordings of lexical errors. -/
def lexicalInitials : List (List Char) :=
  ["unr", "bad", "mal", "err"].map String.toList

theorem take_toList_append {a b : String} (h : 3 ≤ a.toList.length) :
    (a ++ b).toList.take 3 = a.toList.take 3 := by
  rw [String.toList_append, List.take_append_of_le_length h]

theorem exists_expected_eq_append {c : Cause} (h : c.category = .lexical) :
    ∃ a b, c.expected = a ++ b ∧ 3 ≤ a.toList.length ∧ a.toList.take 3 ∈ lexicalInitials := by
  cases c with
  | unrecognised | badOperator | badSeparator | malformedNumber | numberTooLarge =>
    exact ⟨_, _, rfl, by decide, by decide⟩
  | _ => cases h

theorem NotLexical.of_take {text : String} (h : text.toList.take 3 ∉ lexicalInitials) :
    NotLexical text := by
  rintro c hc rfl
  obtain ⟨a, b, hab, hlen, ha⟩ := exists_expected_eq_append hc
  rw [hab, take_toList_append hlen] at h
  exact h ha

/-- The wordings of syntax errors are none of lexical ones. -/
theorem notLexical_of_found {c : Cause} {x : Token} (h : c.found = some x) :
    NotLexical c.expected := by
  cases c with
  | cannotStart => exact (.of_take (by decide) : NotLexical "an operand")
  | cannotFollow => exact (.of_take (by decide) : NotLexical "an operator")
  | unmatchedParenthesis => exact (.of_take (by decide) : NotLexical "')'")
  | emptyExpression => exact (.of_take (by decide) : NotLexical "an expression")
  | trailingInput => exact (.of_take (by decide) : NotLexical "end of input")
  | missingOperand operator _ =>
    -- the only wording of these with a text from the source in it
    have h : NotLexical ("an operand after `" ++ (operator.text ++ "`")) := by
      apply NotLexical.of_take
      rw [take_toList_append (by decide)]
      decide
    rw [← String.append_assoc] at h
    exact h
  | _ => cases h

namespace Session

/-- The token is one of those to come, or the end of the input behind them. -/
def Shows (s : Session) (x : Token) : Prop :=
  x ∈ s.tokens ∨ s.ending = .ok x

/-- The diagnostic is about a token to come and stands where that token stands, and it is not the
wording of a lexical error. -/
structure Founded (s : Session) (d : Diagnostic) : Prop where
  shows : s.Shows d.found
  position_eq : d.position = d.found.position
  wording : NotLexical d.expected

theorem shows_of_front {s : Session} {x : Token} (h : s.front = .ok x) : s.Shows x := by
  cases hts : s.tokens with
  | cons t ts =>
    rw [front_of_tokens hts] at h
    cases h
    exact .inl (by rw [hts]; exact List.mem_cons_self)
  | nil => exact .inr (front_of_nil hts ▸ h)

variable {s s₁ s' : Session} {w : List Token} {ds ds₁ : List Diagnostic} {e : Error}

theorem Moves.count_le (hm : s.Moves w ds s₁) : s.errorCount ≤ s₁.errorCount := by
  rw [hm.errorCount_eq]
  exact Nat.le_add_right _ _

/-- One more diagnostic. -/
theorem Moves.count_report {d : Diagnostic} (hm : s.Moves w [d] s₁) :
    s₁.errorCount = s.errorCount + 1 :=
  hm.errorCount_eq

theorem Shows.of_moves {x : Token} (hm : s.Moves w ds s₁) (h : s₁.Shows x) : s.Shows x := by
  rcases h with h | h
  · exact .inl (by rw [hm.tokens_eq]; exact List.mem_append_right _ h)
  · exact .inr (hm.ending_eq ▸ h)

theorem Founded.of_moves {d : Diagnostic} (hm : s.Moves w ds s₁) (h : s₁.Founded d) :
    s.Founded d :=
  ⟨h.shows.of_moves hm, h.position_eq, h.wording⟩

/-- The reasons to end a session: a lexical error, too many diagnostics, and the end of the input. -/
def IsReason (e : Error) : Prop :=
  e.category = .lexical ∨ (∃ n, e.cause = .tooManyErrors n) ∨
    ∃ context, e.cause = .unexpectedEof context

theorem IsReason.category_ne {e : Error} (h : IsReason e) :
    e.category ≠ .syntactic ∧ e.category ≠ .evaluation := by
  unfold Error.category
  rcases h with h | ⟨n, h⟩ | ⟨context, h⟩
  · unfold Error.category at h
    rw [h]
    decide
  · rw [h]
    exact ⟨by simp [Cause.category], by simp [Cause.category]⟩
  · rw [h]
    exact ⟨by simp [Cause.category], by simp [Cause.category]⟩

/-- The ways in which a parser that was started at `s`, and recorded `ds`, ends the session. -/
inductive Ends (s : Session) (ds : List Diagnostic) (e : Error) (s' : Session) : Prop
  /-- It came to the lexical error behind the tokens. -/
  | lexical (he : s.ending = .error e) (hd : s'.diagnostics = s.diagnostics ++ ds)
  /-- Its last diagnostic reached the limit. -/
  | limit {w : List Token} {d : Diagnostic} (hm : s.Moves w ds s') (hlast : ds.getLast? = some d)
      (hle : maxErrors ≤ s'.errorCount)
      (he : e = { cause := .tooManyErrors s'.errorCount, position := d.position })
  /-- It came to the end of the input after something was reported. -/
  | eof {w : List Token} {t : Token} {context : String} (hm : s.Moves w ds s')
      (hcount : 0 < s'.errorCount) (ht : s'.front = .ok t) (hk : t.kind = .eof)
      (he : e = { cause := .unexpectedEof context, position := t.position })

theorem Ends.diagnostics_eq (h : s.Ends ds e s') : s'.diagnostics = s.diagnostics ++ ds := by
  cases h with
  | lexical _ hd => exact hd
  | limit hm => exact hm.diagnostics_eq
  | eof hm => exact hm.diagnostics_eq

/-- A lexical error that ends a session is the one behind its tokens. -/
theorem Ends.ending_of_lexical (h : s.Ends ds e s') (he : e.category = .lexical) :
    s.ending = .error e := by
  cases h with
  | lexical he => exact he
  | limit _ _ _ h => rw [h] at he; cases he
  | eof _ _ _ _ h => rw [h] at he; cases he

/-- Where there is a lexical error behind the tokens, a session ends in it or at the limit. -/
theorem Ends.eq_or_tooManyErrors {e₀ : Error} (h : s.Ends ds e s') (h₀ : s.ending = .error e₀) :
    e = e₀ ∨ ∃ n, e.cause = .tooManyErrors n := by
  cases h with
  | lexical he =>
    rw [h₀] at he
    cases he
    exact .inl rfl
  | limit _ _ _ h => exact .inr ⟨_, by rw [h]⟩
  | eof hm _ ht hk =>
    have hend := (tokens_of_front_eof ht hk).2
    rw [hm.ending_eq, h₀] at hend
    cases hend

theorem Ends.isReason (h : s.Ends ds e s') : IsReason e := by
  cases h with
  | lexical he => exact .inl (isLexical_of_ending he)
  | limit _ _ _ he => exact .inr (.inl ⟨_, by rw [he]⟩)
  | eof _ _ _ _ he => exact .inr (.inr ⟨_, by rw [he]⟩)

/-- The input ends under a session after something was reported, and the end is what comes next. -/
theorem Ends.eof_of_cause {context : String} (h : s.Ends ds e s')
    (hcause : e.cause = .unexpectedEof context) :
    ∃ w t, s.Moves w ds s' ∧ 0 < s'.errorCount ∧ s'.front = .ok t ∧ t.isEof = true ∧
      e.position = t.position := by
  cases h with
  | lexical he =>
    have hlexical := isLexical_of_ending he
    unfold Error.category at hlexical
    rw [hcause] at hlexical
    cases hlexical
  | limit _ _ _ he =>
    rw [he] at hcause
    cases hcause
  | @eof w t _ hm hcount ht hk he =>
    exact ⟨w, t, hm, hcount, ht, by simp [Token.isEof, hk], by rw [he]⟩

theorem Ends.of_moves (hm : s.Moves w ds s₁) (h : s₁.Ends ds₁ e s') : s.Ends (ds ++ ds₁) e s' := by
  cases h with
  | lexical he hd =>
    refine .lexical (hm.ending_eq ▸ he) ?_
    rw [hd, hm.diagnostics_eq, List.append_assoc]
  | limit hm' hlast hle he => exact .limit (hm.trans hm') (by simp [hlast]) hle he
  | eof hm' hcount ht hk he => exact .eof (hm.trans hm') hcount ht hk he

end Session

open Session

variable {α β : Type}

/-- What can come of a parser that was started at `s`. -/
inductive Fate (silent : Prop) (s : Session)
    (Q : List Token → List Diagnostic → α → Session → Prop) :
    EStateM.Result Error Session α → Prop
  /-- It goes on. -/
  | goes {w : List Token} {ds : List Diagnostic} {a : α} {s' : Session} (hm : s.Moves w ds s')
      (hf : ∀ d ∈ ds, s.Founded d) (hsilent : silent → ds = []) (hq : Q w ds a s') :
      Fate silent s Q (.ok a s')
  /-- It ends the session; a silent one does so only at the lexical error. -/
  | ends {ds : List Diagnostic} {e : Error} {s' : Session} (he : s.Ends ds e s')
      (hf : ∀ d ∈ ds, s.Founded d) (hsilent : silent → s.ending = .error e) :
      Fate silent s Q (.error e s')
  /-- It trips over a token that it was shown. -/
  | trips {w : List Token} {e : Error} {s' : Session} {x : Token} (hsilent : silent)
      (hm : s.Moves w [] s') (hx : e.cause.found = some x) (hp : e.position = x.position)
      (hs : s.Shows x) : Fate silent s Q (.error e s')

namespace Fate

variable {silent : Prop} {s s₁ : Session} {w : List Token} {ds : List Diagnostic} {t x : Token}
  {Q R : List Token → List Diagnostic → α → Session → Prop}
  {r : EStateM.Result Error Session α} {y : ParseM α} {f : α → ParseM β}

theorem imp (h : Fate silent s Q r) (hQ : ∀ w ds a s', s.Moves w ds s' → Q w ds a s' → R w ds a s') :
    Fate silent s R r := by
  cases h with
  | goes hm hf hsilent hq => exact .goes hm hf hsilent (hQ _ _ _ _ hm hq)
  | ends he hf hsilent => exact .ends he hf hsilent
  | trips hsilent hm hx hp hs => exact .trips hsilent hm hx hp hs

theorem of_ok {a : α} {s' : Session} (h : Fate silent s Q (.ok a s')) :
    ∃ w ds, s.Moves w ds s' ∧ Q w ds a s' := by
  cases h with
  | goes hm _ _ hq => exact ⟨_, _, hm, hq⟩

/-- The fate of the rest of a parser is one of the whole. -/
theorem of_moves (hm : s.Moves w ds s₁) (hf : ∀ d ∈ ds, s.Founded d) (hsilent : silent → ds = [])
    (h : Fate silent s₁ (fun w' ds' => Q (w ++ w') (ds ++ ds')) r) : Fate silent s Q r := by
  cases h with
  | @goes w' ds' a s' hm' hf' hsilent' hq =>
    refine .goes (hm.trans hm') (fun d hd => ?_) (fun h => ?_) hq
    · rcases List.mem_append.1 hd with hd | hd
      · exact hf d hd
      · exact (hf' d hd).of_moves hm
    · rw [hsilent h, hsilent' h]
      rfl
  | @ends ds' e s' he hf' hsilent' =>
    refine .ends (he.of_moves hm) (fun d hd => ?_) (fun h => hm.ending_eq ▸ hsilent' h)
    rcases List.mem_append.1 hd with hd | hd
    · exact hf d hd
    · exact (hf' d hd).of_moves hm
  | @trips w' e s' x ht hm' hx hp hs =>
    obtain rfl := hsilent ht
    exact .trips ht (hm.trans_clean hm') hx hp (hs.of_moves hm)

/-- Tokens were taken, and nothing was reported. -/
theorem of_clean (hm : s.Moves w [] s₁) (h : Fate silent s₁ (fun w' => Q (w ++ w')) r) :
    Fate silent s Q r :=
  of_moves hm (by simp) (fun _ => rfl) h

/-- One step, and then the rest of the parser where the step left the session. What comes of the
step may be told from a session `s` before the one it starts at. -/
theorem bind {P : List Token → List Diagnostic → β → Session → Prop} {s₀ : Session}
    (hy : Fate silent s Q (y s₀))
    (h : ∀ w ds a s₁, s.Moves w ds s₁ → Q w ds a s₁ →
      Fate silent s₁ (fun w' ds' => P (w ++ w') (ds ++ ds')) (f a s₁)) :
    Fate silent s P ((y >>= f) s₀) := by
  generalize hr : y s₀ = r at hy
  cases hy with
  | @goes w ds a s₁ hm hf hsilent hq =>
    rw [bind_of_ok hr]
    exact of_moves hm hf hsilent (h w ds a s₁ hm hq)
  | ends he hf hsilent =>
    rw [bind_of_error hr]
    exact .ends he hf hsilent
  | trips hsilent hm hx hp hs =>
    rw [bind_of_error hr]
    exact .trips hsilent hm hx hp hs

theorem pure {a : α} (hq : Q [] [] a s) : Fate silent s Q ((Pure.pure a : ParseM α) s) :=
  .goes (.refl s) (by simp) (fun _ => rfl) hq

theorem emit_bind {g : Unit → ParseM α} (event : Event)
    (h : ∀ s₁, s.Moves [] [] s₁ → Fate silent s₁ Q (g () s₁)) :
    Fate silent s Q ((emit event >>= g) s) := by
  obtain ⟨s₁, h₁, m₁⟩ := bind_emit event g s
  rw [h₁]
  exact of_clean m₁ (h s₁ m₁)

/-! ## Looking ahead and taking -/

/-- The next token is looked at, unless there is a lexical error in its place. -/
theorem peek_bind {g : Token → ParseM α}
    (h : ∀ t s₁, s.Moves [] [] s₁ → s₁.front = .ok t → Fate silent s₁ Q (g t s₁)) :
    Fate silent s Q ((peek >>= g) s) := by
  cases hf : s.front with
  | error e =>
    obtain ⟨s₁, h₁, hd⟩ := peek_of_front_error hf
    rw [bind_of_error h₁]
    have he := ending_of_front_error hf
    have hends : s.Ends [] e s₁ := .lexical he (by simp [hd])
    exact .ends hends (by simp) fun _ => he
  | ok t =>
    obtain ⟨s₁, h₁, m₁⟩ := peek_of_front hf
    rw [bind_of_ok h₁]
    exact of_clean m₁ (h t s₁ m₁ (m₁.front_eq.trans hf))

/-- The fate of a parser that is started at `s`. -/
def On (silent : Prop) (s : Session) (Q : List Token → List Diagnostic → α → Session → Prop)
    (y : ParseM α) : Prop :=
  Fate silent s Q (y s)

theorem peekKind_bind {g : Kind → ParseM α}
    (h : ∀ t s₁, s.Moves [] [] s₁ → s₁.front = .ok t → On silent s₁ Q (g t.kind)) :
    Fate silent s Q ((peekKind >>= g) s) := by
  have hg : (peekKind >>= g) s = (Session.peek >>= fun t => g t.kind) s := by
    simp only [peekKind, bind_assoc, pure_bind]
  rw [hg]
  exact peek_bind h

theorem nextIs_bind {k : Kind} {g : Bool → ParseM α}
    (h : ∀ t s₁, s.Moves [] [] s₁ → s₁.front = .ok t → Fate silent s₁ Q (g (t.kind = k) s₁)) :
    Fate silent s Q ((nextIs k >>= g) s) := by
  have hg : (nextIs k >>= g) s = (peekKind >>= fun k' => g (k' = k)) s := by
    simp only [nextIs, bind_assoc, pure_bind]
  rw [hg]
  exact peekKind_bind h

/-- The kind of the next token decides between two ways on. -/
theorem nextIs_ite {k : Kind} {x y : ParseM α}
    (hx : ∀ t s₁, s.Moves [] [] s₁ → s₁.front = .ok t → t.kind = k → Fate silent s₁ Q (x s₁))
    (hy : ∀ t s₁, s.Moves [] [] s₁ → s₁.front = .ok t → t.kind ≠ k → Fate silent s₁ Q (y s₁)) :
    Fate silent s Q ((nextIs k >>= fun b => if b = true then x else y) s) := by
  refine nextIs_bind fun t s₁ m₁ hf => ?_
  by_cases ht : t.kind = k
  · simp only [ht, decide_true, if_true]
    exact hx t s₁ m₁ hf ht
  · simp only [ht, decide_false, Bool.false_eq_true, if_false]
    exact hy t s₁ m₁ hf ht

/-- The token in front is taken. -/
theorem advance_bind {g : Token → ParseM α} (hf : s.front = .ok t) (ht : t.kind ≠ .eof)
    (h : ∀ s₁, s.Moves [t] [] s₁ → Fate silent s₁ (fun w => Q (t :: w)) (g t s₁)) :
    Fate silent s Q ((advance >>= g) s) := by
  obtain ⟨s₁, h₁, m₁⟩ := advance_of_front hf ht
  rw [bind_of_ok h₁]
  exact of_clean m₁ (h s₁ m₁)

/-- A syntax error about a token that was shown. -/
theorem throw {e : Error} (hsilent : silent) (hx : e.cause.found = some x)
    (hp : e.position = x.position) (hs : s.Shows x) :
    Fate silent s Q ((MonadExcept.throw e : ParseM α) s) :=
  .trips hsilent (.refl s) hx hp hs

/-! ## Reports -/

section
variable {k : Kind} {expected context : String}

/-- A report about a token that was shown at `s`, although it may be taken by now. -/
theorem report (hm : s.Moves w [] s₁) (hx : s.Shows x) (hw : NotLexical expected) :
    Fate False s (fun w' ds _ _ => w' = w ∧ ∃ d, ds = [d]) (report expected context x s₁) := by
  have hf : ∀ d ∈ [{ expected, context, found := x : Diagnostic }], s.Founded d :=
    List.forall_mem_singleton.2 ⟨hx, rfl, hw⟩
  by_cases h : maxErrors ≤ s₁.errorCount + 1
  · obtain ⟨s₂, h₂, m₂⟩ := report_of_le h
    have hcount : s₁.errorCount + 1 = s₂.errorCount := m₂.errorCount_eq.symm
    rw [h₂, hcount]
    exact .ends (.limit (hm.trans m₂) rfl (hcount ▸ h) rfl) hf False.elim
  · obtain ⟨s₂, h₂, m₂⟩ := report_of_lt (Nat.lt_of_not_le h)
    rw [h₂]
    exact .goes (hm.trans m₂) hf False.elim ⟨by simp, _, rfl⟩

theorem reportNext (hw : NotLexical expected) :
    Fate False s (fun w ds _ _ => w = [] ∧ ∃ d, ds = [d]) (reportNext expected context s) :=
  peek_bind fun _ s₁ _ hf => report (.refl s₁) (shows_of_front hf) hw

/-- A report about the next token, after which it is still the next. -/
theorem reportNext_bind {g : Unit → ParseM α} (hw : NotLexical expected)
    (h : ∀ d s₁, s.Moves [] [d] s₁ → Fate False s₁ (fun w ds => Q w (d :: ds)) (g () s₁)) :
    Fate False s Q ((Session.reportNext expected context >>= g) s) := by
  refine (reportNext hw).bind ?_
  rintro _ _ ⟨⟩ s₁ m₁ ⟨rfl, d, rfl⟩
  exact h d s₁ m₁

/-- A token of the kind is taken, or else what stands in its place is reported. -/
theorem expect (hk : k ≠ .eof) (hw : NotLexical expected) :
    Fate False s (fun w ds r s' => (∃ t, r = some t ∧ t.kind = k ∧ w = [t] ∧ ds = []) ∨
      r = none ∧ w = [] ∧ (∃ d, ds = [d]) ∧ ∃ t, s'.front = .ok t ∧ t.kind ≠ k)
      (expect k expected context s) := by
  refine nextIs_ite (fun t s₁ _ hf ht => ?_) (fun t s₁ _ hf ht => ?_)
  · exact advance_bind hf (by rwa [ht]) fun s₂ _ => pure (.inl ⟨t, rfl, ht, rfl, rfl⟩)
  · refine reportNext_bind hw fun d s₂ m₂ => ?_
    exact pure (.inr ⟨rfl, rfl, ⟨d, rfl⟩, t, m₂.front_eq.trans hf, ht⟩)

end

/-! ## Skipping -/

section
variable {markers : List Kind} {context : String}

/-- Skipping stops in front of a marker, having reported nothing. -/
def Stopped (markers : List Kind) (_w : List Token) (ds : List Diagnostic) (marker : Token)
    (s' : Session) : Prop :=
  ds = [] ∧ marker.kind ∈ markers ∧ s'.front = .ok marker

/-- Where the next token is no marker, something was skipped. -/
theorem Stopped.ne_nil {marker : Token} (h : Stopped markers w ds marker s₁) (hm : s.Moves w ds s₁)
    (hf : s.front = .ok t) (ht : t.kind ∉ markers) : w ≠ [] := by
  obtain ⟨-, hmem, hf₁⟩ := h
  intro hnil
  rw [hnil] at hm
  rw [hm.front_eq, hf] at hf₁
  cases hf₁
  exact ht hmem

theorem skipTo (hcount : 0 < s.errorCount) (n : Nat) (hn : s.tokens.length < n) :
    Fate False s (Stopped markers) (skipTo markers context n s) := by
  induction n generalizing s with
  | zero => omega
  | succ n ih =>
    refine peek_bind fun t s₁ m₁ hf => ?_
    have hcount₁ : 0 < s₁.errorCount := m₁.count_eq ▸ hcount
    by_cases hmem : t.kind ∈ markers
    · rw [if_pos hmem]
      exact emit_bind _ fun s₂ m₂ => pure ⟨rfl, hmem, m₂.front_eq.trans hf⟩
    · rw [if_neg hmem]
      by_cases heof : t.isEof
      · rw [if_pos heof]
        have hk : t.kind = .eof := by simpa [Token.isEof] using heof
        exact .ends (.eof (.refl s₁) hcount₁ hf hk rfl) (by simp) False.elim
      · rw [if_neg heof]
        have hk : t.kind ≠ .eof := by simpa [Token.isEof] using heof
        refine advance_bind hf hk fun s₂ m₂ => ih (m₂.count_eq ▸ hcount₁) ?_
        have hlen := (m₁.trans_clean m₂).tokens_length
        simp at hlen
        omega

theorem synchronize (hcount : 0 < s.errorCount) :
    Fate False s (Stopped markers) (synchronize markers context s) :=
  skipTo hcount _ s.length_tokens_lt

/-- At the end of the input there is no marker to skip to. -/
theorem synchronize_of_eof (hcount : 0 < s.errorCount) (hf : s.front = .ok t) (hk : t.kind = .eof)
    (hmem : .eof ∉ markers) :
    Fate False s (fun _ _ _ _ => False) (Session.synchronize markers context s) := by
  refine (synchronize hcount).imp ?_
  intro w _ marker s₁ m₁ hstop
  have hnil : s.tokens = [] := (tokens_of_front_eof hf hk).1
  have hw : w = [] := (List.append_eq_nil_iff.1 (m₁.tokens_eq.symm.trans hnil)).1
  exact hstop.ne_nil m₁ hf (by rwa [hk]) hw

/-- The marker that skipping stopped at is taken, if it is of the kind. -/
theorem takeMarker {marker : Token} {k : Kind} (hf : s.front = .ok marker) (hk : k ≠ .eof) :
    Fate False s (fun w ds _ _ => ds = [] ∧ (w = [] → marker.kind ≠ k))
      (takeMarker marker k s) := by
  unfold Session.takeMarker
  by_cases h : marker.kind = k
  · rw [if_pos h]
    exact advance_bind hf (by rwa [h]) fun s₁ _ => pure ⟨rfl, by simp⟩
  · rw [if_neg h]
    exact pure ⟨rfl, fun _ => h⟩

/-- Only in front of `}` there is nothing to skip. -/
theorem recoverStatement (hcount : 0 < s.errorCount) :
    Fate False s (fun w ds _ _ => ds = [] ∧ (w = [] → ∃ t, s.front = .ok t ∧ t.kind = .closeCurly))
      (recoverStatement context s) := by
  refine (synchronize hcount).bind ?_
  rintro w _ marker s₁ m₁ ⟨rfl, hmem, hf⟩
  refine (takeMarker hf (by simp)).imp ?_
  rintro w' _ _ _ _ ⟨rfl, hk⟩
  refine ⟨rfl, fun hw => ?_⟩
  obtain ⟨rfl, rfl⟩ := List.append_eq_nil_iff.1 hw
  refine ⟨marker, m₁.front_eq ▸ hf, ?_⟩
  simpa [hk rfl] using hmem

end

end Fate

end FxLang
