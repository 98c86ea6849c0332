import FxLang.Proofs.Session.Moves

/-!
# What a parser yields

`Yields s w ds a r` says that the result `r` of a parser started at `s` is what it is to be for a
text `w` with the value `a` and the diagnostics `ds`: the text was taken, the diagnostics recorded
and the value returned, or else the diagnostics reached the limit and the session was given up with
as many of them as fit.

Parsers are followed along a known text with `Yields.bind` and the rules for the small steps below
it. `Session.At s z` is where such a step starts: the session is not given up, and the tokens to
come are `z`.
-/

namespace FxLang

namespace Session

/-- The session is on, and the tokens to come are `z`. -/
structure At (s : Session) (z : List Token) : Prop where
  tokens_eq : s.tokens = z
  count_lt : s.errorCount < maxErrors

theorem At.front_eq {s : Session} {t : Token} {z : List Token} (h : s.At (t :: z)) :
    s.front = .ok t :=
  front_of_tokens h.tokens_eq

theorem At.kind_ne_eof {s : Session} {t : Token} {z : List Token} (h : s.At (t :: z)) :
    t.kind ≠ .eof := by
  intro hk
  have hmem : t ∈ s.tokens := by rw [h.tokens_eq]; exact List.mem_cons_self
  have := (TokenStream.isEof_upcoming s.stream).1 t hmem
  simp [Token.isEof, hk] at this

theorem At.of_moves {s s' : Session} {w z : List Token} {ds : List Diagnostic}
    (h : s.At (w ++ z)) (hm : s.Moves w ds s') (hlt : s.errorCount + ds.length < maxErrors) :
    s'.At z where
  tokens_eq := List.append_cancel_left (hm.tokens_eq.symm.trans h.tokens_eq)
  count_lt := by rw [hm.errorCount_eq]; exact hlt

end Session

open Session

variable {α β : Type}

/-- The text `w` was taken, the diagnostics `ds` recorded and the value `a` returned, as far as the
limit allows. -/
inductive Yields (s : Session) (w : List Token) (ds : List Diagnostic) (a : α) :
    EStateM.Result Error Session α → Prop
  | goes {s' : Session} (hlt : s.errorCount + ds.length < maxErrors) (hm : s.Moves w ds s') :
      Yields s w ds a (.ok a s')
  | stops {e : Error} {s' : Session} (hle : maxErrors ≤ s.errorCount + ds.length)
      (hc : e.cause = .tooManyErrors maxErrors)
      (hd : s'.diagnostics = s.diagnostics ++ ds.take (maxErrors - s.errorCount)) :
      Yields s w ds a (.error e s')

namespace Yields

variable {s s₁ : Session} {w w₁ z : List Token} {ds ds₁ : List Diagnostic} {a : α} {b : β}
  {y : ParseM α} {f : α → ParseM β} {t : Token} {k : Kind} {expected context : String}

theorem cast {w' : List Token} {ds' : List Diagnostic} {r : EStateM.Result Error Session α}
    (h : Yields s w ds a r) (hw : w = w') (hds : ds = ds') : Yields s w' ds' a r := by
  subst hw hds
  exact h

theorem of_moves {r : EStateM.Result Error Session α} (hm : s.Moves w [] s₁)
    (h : Yields s₁ w₁ ds a r) : Yields s (w ++ w₁) ds a r := by
  have hcount := hm.count_eq
  cases h with
  | goes hlt hm' => exact .goes (by omega) (hm.trans hm')
  | stops hle hc hd =>
    refine .stops (by omega) hc ?_
    rw [hd, hm.diagnostics_eq, hcount, List.append_nil]

/-- One step, and then the rest of the parser where the step left the session. -/
theorem bind (hs : s.At (w ++ z)) (hy : Yields s w ds a (y s))
    (hf : ∀ s₁, s.Moves w ds s₁ → s₁.At z → Yields s₁ w₁ ds₁ b (f a s₁)) :
    Yields s (w ++ w₁) (ds ++ ds₁) b ((y >>= f) s) := by
  generalize hr : y s = r at hy
  cases hy with
  | @stops e s' hle hc hd =>
    rw [bind_of_error hr]
    refine .stops (by rw [List.length_append]; omega) hc ?_
    rw [hd, List.take_append_of_le_length (by omega)]
  | @goes s' hlt hm =>
    rw [bind_of_ok hr]
    have hcount := hm.errorCount_eq
    have hrest := hf s' hm (hs.of_moves hm hlt)
    generalize f a s' = r at hrest
    cases hrest with
    | goes hlt' hm' => exact .goes (by rw [List.length_append]; omega) (hm.trans hm')
    | stops hle hc hd =>
      refine .stops (by rw [List.length_append]; omega) hc ?_
      have htake : maxErrors - s.errorCount = ds.length + (maxErrors - s'.errorCount) := by omega
      rw [hd, hm.diagnostics_eq, htake, List.take_length_add_append, List.append_assoc]

theorem pure (hs : s.At z) : Yields s [] [] a ((Pure.pure a : ParseM α) s) :=
  .goes hs.count_lt (.refl s)

/-! ## Small steps -/

theorem emit_bind {g : Unit → ParseM α} (event : Event) (hs : s.At z)
    (h : ∀ s₁, s.Moves [] [] s₁ → s₁.At z → Yields s₁ w ds a (g () s₁)) :
    Yields s w ds a ((emit event >>= g) s) := by
  obtain ⟨s₁, h₁, m₁⟩ := bind_emit event g s
  rw [h₁]
  exact of_moves m₁ (h s₁ m₁ (hs.of_moves m₁ hs.count_lt))

theorem peek_bind {g : Token → ParseM α} (hs : s.At (t :: z))
    (h : ∀ s₁, s.Moves [] [] s₁ → s₁.At (t :: z) → Yields s₁ w ds a (g t s₁)) :
    Yields s w ds a ((peek >>= g) s) := by
  obtain ⟨s₁, h₁, m₁⟩ := peek_of_front hs.front_eq
  rw [bind_of_ok h₁]
  exact of_moves m₁ (h s₁ m₁ (hs.of_moves m₁ hs.count_lt))

theorem peekKind_bind {g : Kind → ParseM α} (hs : s.At (t :: z))
    (h : ∀ s₁, s.Moves [] [] s₁ → s₁.At (t :: z) → Yields s₁ w ds a (g t.kind s₁)) :
    Yields s w ds a ((peekKind >>= g) s) := by
  obtain ⟨s₁, h₁, m₁⟩ := peekKind_of_front hs.front_eq
  rw [bind_of_ok h₁]
  exact of_moves m₁ (h s₁ m₁ (hs.of_moves m₁ hs.count_lt))

theorem nextIs_bind {g : Bool → ParseM α} (hs : s.At (t :: z))
    (h : ∀ s₁, s.Moves [] [] s₁ → s₁.At (t :: z) → Yields s₁ w ds a (g (t.kind = k) s₁)) :
    Yields s w ds a ((nextIs k >>= g) s) := by
  obtain ⟨s₁, h₁, m₁⟩ := nextIs_of_front k hs.front_eq
  rw [bind_of_ok h₁]
  exact of_moves m₁ (h s₁ m₁ (hs.of_moves m₁ hs.count_lt))

theorem advance_bind {g : Token → ParseM α} (hs : s.At (t :: z))
    (h : ∀ s₁, s.Moves [t] [] s₁ → s₁.At z → Yields s₁ w ds a (g t s₁)) :
    Yields s (t :: w) ds a ((advance >>= g) s) := by
  obtain ⟨s₁, h₁, m₁⟩ := advance_of_tokens hs.tokens_eq
  rw [bind_of_ok h₁]
  exact of_moves m₁ (h s₁ m₁ (At.of_moves (w := [t]) hs m₁ hs.count_lt))

/-- A token that is there is taken. -/
theorem expect (hs : s.At (t :: z)) (hk : t.kind = k) :
    Yields s [t] [] (some t) (expect k expected context s) := by
  obtain ⟨s₁, h₁, m₁⟩ := expect_of_kind hs.front_eq hk (hk ▸ hs.kind_ne_eof)
  rw [h₁]
  exact .goes hs.count_lt m₁

theorem report (hs : s.At z) (t : Token) :
    Yields s [] [{ expected, context, found := t }] () (report expected context t s) := by
  have hcount := hs.count_lt
  by_cases h : maxErrors ≤ s.errorCount + 1
  · obtain ⟨s₁, h₁, m₁⟩ := report_of_le h
    rw [h₁]
    have hmax : s.errorCount + 1 = maxErrors := by omega
    refine .stops h (by rw [hmax]) ?_
    have htake : maxErrors - s.errorCount = 1 := by omega
    rw [m₁.diagnostics_eq, htake]
    rfl
  · have hlt : s.errorCount + 1 < maxErrors := by omega
    obtain ⟨s₁, h₁, m₁⟩ := report_of_lt hlt
    rw [h₁]
    exact .goes hlt m₁

/-- A token that is missing is reported, and the one in its place stays. -/
theorem expect_missing (hs : s.At (t :: z)) (hk : t.kind ≠ k) :
    Yields s [] [{ expected, context, found := t }] none (Session.expect k expected context s) := by
  obtain ⟨s₁, h₁, m₁⟩ := expect_of_ne hs.front_eq hk
  rw [h₁]
  have hs₁ : s₁.At (t :: z) := hs.of_moves m₁ hs.count_lt
  exact of_moves m₁ (bind hs₁ (report hs₁ t) fun s₂ _ hs₂ => pure hs₂)

theorem reportNext (hs : s.At (t :: z)) :
    Yields s [] [{ expected, context, found := t }] () (reportNext expected context s) :=
  peek_bind hs fun _ _ hs₁ => report hs₁ t

/-! ## Skipping -/

/-- Tokens that are no markers are skipped up to the first that is one. -/
theorem skipTo {markers : List Kind} (n : Nat) (hs : s.At (w ++ t :: z))
    (hw : ∀ x ∈ w, x.kind ∉ markers) (ht : t.kind ∈ markers) (hn : s.tokens.length < n) :
    Yields s w [] t (skipTo markers context n s) := by
  induction w generalizing s n with
  | nil =>
    obtain ⟨n, rfl⟩ : ∃ n', n = n' + 1 := ⟨n - 1, by omega⟩
    refine peek_bind hs fun s₁ _ hs₁ => ?_
    rw [if_pos ht]
    exact emit_bind _ hs₁ fun s₂ _ hs₂ => pure hs₂
  | cons x w ih =>
    obtain ⟨n, rfl⟩ : ∃ n', n = n' + 1 := ⟨n - 1, by omega⟩
    rw [List.forall_mem_cons] at hw
    have hs : s.At (x :: (w ++ t :: z)) := hs
    have hx : ¬ x.isEof = true := by simpa [Token.isEof] using hs.kind_ne_eof
    refine peek_bind hs fun s₁ _ hs₁ => ?_
    rw [if_neg hw.1, if_neg hx]
    refine advance_bind hs₁ fun s₂ m₂ hs₂ => ih n hs₂ hw.2 ?_
    have hlen := hs.tokens_eq
    have hlen₂ := hs₂.tokens_eq
    grind

/-- A broken statement is skipped through its `;`. -/
theorem recoverStatement (hs : s.At (w ++ t :: z))
    (hw : ∀ x ∈ w, x.kind ≠ .semicolon ∧ x.kind ≠ .closeCurly) (ht : t.kind = .semicolon) :
    Yields s (w ++ [t]) [] () (recoverStatement context s) := by
  have hskip : Yields s w [] t (synchronize [.semicolon, .closeCurly] context s) :=
    skipTo _ hs (fun x hx => by simpa using hw x hx) (by simp [ht]) s.length_tokens_lt
  refine cast (bind hs hskip fun s₁ _ hs₁ => ?_) rfl rfl
  unfold Session.takeMarker
  rw [if_pos ht]
  exact advance_bind hs₁ fun s₂ _ hs₂ => pure hs₂

end Yields

end FxLang
