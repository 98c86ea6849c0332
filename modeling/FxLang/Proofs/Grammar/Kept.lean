import FxLang.Proofs.Grammar.Outcome

/-!
# What is kept

A construct is kept if and only if nothing was recorded while it was read, whatever was recorded
before it; and a statement that is kept is one of the grammar, with its own tree, even in the middle
of a broken program. A function is kept for the sake of its signature alone. Its body holds the
statements that were kept, in order.

`Stmt.Calls` follows the loop over a body and lists the statements that it asks for, each with the
sessions before and after it. `Func.Run` puts the signature in front of them.

* `Stmt.tree_of_kept`: the tokens of a statement that was kept.
* `Stmt.exists_calls`, `Func.exists_run`: what the body of a block and a function are made of.
* `kept_iff_nothing_recorded`: all of this for the rules as they are called.
-/

namespace FxLang

open Session

variable {s s' : Session}

/-! ## The count of diagnostics -/

theorem Kept.none_iff {α : Type} {r : Option α} (h : Kept s r s')
    (hle : s.errorCount ≤ s'.errorCount) : r = none ↔ s.errorCount < s'.errorCount := by
  unfold Kept at h
  rw [← Option.not_isSome_iff_eq_none, h]
  omega

/-- Where the count of diagnostics stays the same, so do the diagnostics. -/
theorem Session.Moves.diagnostics_of_count {w : List Token} {ds : List Diagnostic}
    (hm : s.Moves w ds s') (h : s'.errorCount = s.errorCount) :
    s'.diagnostics = s.diagnostics := by
  have hlen := hm.errorCount_eq
  have hnil : ds = [] := List.length_eq_zero_iff.1 (by omega)
  rw [hm.diagnostics_eq, hnil, List.append_nil]

theorem peekKind_eq_ok {k : Kind} (h : peekKind s = .ok k s') :
    ∃ t, s.front = .ok t ∧ t.kind = k ∧ s.Moves [] [] s' := by
  cases hf : s.front with
  | error e =>
    obtain ⟨s₁, h₁, -⟩ := peek_of_front_error hf
    rw [peekKind, bind_of_error h₁] at h
    cases h
  | ok t =>
    obtain ⟨s₁, h₁, m₁⟩ := peekKind_of_front hf
    rw [h₁] at h
    cases h
    exact ⟨t, rfl, rfl, m₁⟩

/-! ## Statements -/

namespace Stmt

/-- The tokens of a statement that was kept are one of the grammar, and it is their tree. -/
theorem tree_of_kept {t : Stmt} (h : read s = .ok (some t) s') :
    ∃ w, s.Moves w [] s' ∧ Derives Expr.Tree w t := by
  have hfate := read_fate s
  rw [h] at hfate
  obtain ⟨w₀, ds, hm, hkept, -⟩ := hfate.of_ok
  have hverdict := readWithin_verdict (s := s) _ Program.atEnd_alive s.length_tokens_lt
  have hread : readWithin (s.stream.remaining + 1) s = .ok (some t) s' := h
  rw [hread] at hverdict
  obtain ⟨w, hm', -, t', ht', htree⟩ :=
    hverdict.reads_of_clean (hm.diagnostics_of_count (hkept.1 rfl))
  cases ht'
  exact ⟨w, hm', htree⟩

/-- One call for a statement. -/
structure Call where
  before : Session
  result : Option Stmt
  after : Session

/-- The call recorded nothing. -/
def Call.clean (c : Call) : Bool :=
  c.after.errorCount = c.before.errorCount

/-- The calls for the statements of a body, from `s` on up to its `}`. -/
inductive Calls : Session → List Call → Session → Prop
  | stop {s s' : Session} (h : peekKind s = .ok .closeCurly s') : Calls s [] s'
  | more {s s₁ s₂ s' : Session} {k : Kind} {r : Option Stmt} {calls : List Call}
      (hpeek : peekKind s = .ok k s₁) (hcurly : k ≠ .closeCurly) (heof : k ≠ .eof)
      (hread : read s₁ = .ok r s₂) (h : Calls s₂ calls s') : Calls s (⟨s₁, r, s₂⟩ :: calls) s'

/-- The statements are the trees of those calls that recorded nothing, in order. -/
def IsKeptOf (body : List Stmt) (calls : List Call) : Prop :=
  body.map some = (calls.filter Call.clean).map Call.result

theorem IsKeptOf.cons {s₁ s₂ : Session} {r : Option Stmt} {body : List Stmt} {calls : List Call}
    (hr : Kept s₁ r s₂) (h : IsKeptOf body calls) :
    IsKeptOf (r.toList ++ body) (⟨s₁, r, s₂⟩ :: calls) := by
  unfold IsKeptOf at h ⊢
  unfold Kept at hr
  cases r with
  | some t =>
    have hclean : Call.clean ⟨s₁, some t, s₂⟩ = true := decide_eq_true (hr.1 rfl)
    simp [hclean, h]
  | none =>
    have hclean : Call.clean ⟨s₁, none, s₂⟩ = false := decide_eq_false fun heq => by simpa using hr.2 heq
    simp [hclean, h]

theorem exists_calls {context : String} {body : List Stmt} (n : Nat) (hn : s.tokens.length < n)
    (h : bodyWithin read context n s = .ok body s') :
    ∃ calls, Calls s calls s' ∧ IsKeptOf body calls := by
  induction n generalizing s body with
  | zero => omega
  | succ n ih =>
    obtain ⟨k, s₁, hpeek, h⟩ := bind_eq_ok h
    obtain ⟨t, hf, rfl, m₁⟩ := peekKind_eq_ok hpeek
    have hf₁ := m₁.front_eq.trans hf
    have hlen₁ := m₁.tokens_length
    by_cases hcurly : t.kind = .closeCurly
    · rw [hcurly] at h hpeek
      cases h
      exact ⟨[], .stop hpeek, rfl⟩
    by_cases heof : t.kind = .eof
    · -- At the end of the input a body is given up.
      rw [heof] at h
      have hgone : Fate False s₁ (fun _ _ (_ : List Stmt) _ => False) (.ok body s') := by
        rw [← h]
        refine Fate.reportNext_bind (.of_take (by decide)) fun d s₂ m₂ => ?_
        have hcount₂ := m₂.count_report
        refine (Fate.synchronize_of_eof (by omega) (m₂.front_eq.trans hf₁) heof (by simp)).bind ?_
        exact fun _ _ _ _ _ h => h.elim
      obtain ⟨_, _, _, hfalse⟩ := hgone.of_ok
      exact hfalse.elim
    · have h : (read >>= fun first => bodyWithin read context n >>= fun rest =>
          pure (first.toList ++ rest)) s₁ = .ok body s' := by
        generalize t.kind = k at h hcurly heof
        cases k with
        | closeCurly => exact absurd rfl hcurly
        | eof => exact absurd rfl heof
        | _ => exact h
      obtain ⟨r, s₂, hread, h⟩ := bind_eq_ok h
      obtain ⟨rest, s₃, hrest, h⟩ := bind_eq_ok h
      cases h
      have hfate := read_fate s₁
      rw [hread] at hfate
      obtain ⟨w, ds, m₂, hr⟩ := hfate.of_ok
      have hpos := List.length_pos_iff.2 (hr.ne_nil hf₁ hcurly)
      have hlen₂ := m₂.tokens_length
      obtain ⟨calls, hcalls, hbody⟩ := ih (by omega) hrest
      exact ⟨_, .more hpeek hcurly heof hread hcalls, hbody.cons hr.1⟩

end Stmt

/-! ## Functions -/

namespace Func

/-- How a function is read: its signature, `{`, the calls for its statements, and `}`. -/
inductive Run (s : Session) (sig : Option Signature) (calls : List Stmt.Call) (s' : Session) : Prop
  | mk {s₀ s₁ s₂ s₃ s₄ : Session} {opened closed : Option Token}
      (hstart : emit (.entering "function") s = .ok () s₀)
      (hsig : signature s₀ = .ok sig s₁)
      (hopened : expect .openCurly "'\x7b'" Context.function s₁ = .ok opened s₂)
      (hbody : emit (.entering ("body of " ++ Context.function)) s₂ = .ok () s₃)
      (hcalls : Stmt.Calls s₃ calls s₄)
      (hclosed : expect .closeCurly "'\x7d'" Context.function s₄ = .ok closed s')

theorem exists_run {r : Option Func} (h : read s = .ok r s') :
    ∃ sig calls, Run s sig calls s' ∧ r.isSome = sig.isSome ∧
      ∀ f, r = some f → Stmt.IsKeptOf f.body calls := by
  obtain ⟨_, s₀, hstart, h⟩ := bind_eq_ok h
  obtain ⟨sig, s₁, hsig, h⟩ := bind_eq_ok h
  obtain ⟨body, s₅, hblock, h⟩ := bind_eq_ok h
  obtain ⟨opened, s₂, hopened, hblock⟩ := bind_eq_ok hblock
  obtain ⟨body', s₄, hof, hblock⟩ := bind_eq_ok hblock
  obtain ⟨closed, s₆, hclosed, hblock⟩ := bind_eq_ok hblock
  obtain ⟨_, s₃, hbody, hof⟩ := bind_eq_ok hof
  rw [bind_of_ok (rounds_apply s₃)] at hof
  cases hblock
  cases h
  obtain ⟨calls, hcalls, hkept⟩ := Stmt.exists_calls _ s₃.length_tokens_lt hof
  refine ⟨sig, calls, .mk hstart hsig hopened hbody hcalls hclosed, by simp, fun f hf => ?_⟩
  cases sig with
  | none => cases hf
  | some sig =>
    cases hf
    exact hkept

end Func

/-! ## The rules as they are called -/

/-- Wherever they start, statements, expressions and signatures are kept if and only if they recorded
nothing, and an expression that is not kept recorded one diagnostic. A statement that is kept took a
text of the grammar and is its tree. A function is kept if and only if its signature is, and its body
is what the calls for its statements kept. -/
theorem kept_iff_nothing_recorded (s : Session) :
    (∀ r s', Stmt.read s = .ok r s' →
      (r.isSome = true ↔ s'.errorCount = s.errorCount) ∧
      (r = none ↔ s.errorCount < s'.errorCount) ∧
      ∀ t, r = some t → ∃ w, s.Moves w [] s' ∧ Stmt.Derives Expr.Tree w t) ∧
    (∀ context r s', expression context s = .ok r s' →
      (r.isSome = true ↔ s'.errorCount = s.errorCount) ∧
      (r = none ↔ s'.errorCount = s.errorCount + 1)) ∧
    (∀ r s', Func.signature s = .ok r s' →
      (r.isSome = true ↔ s'.errorCount = s.errorCount) ∧
      (r = none ↔ s.errorCount < s'.errorCount)) ∧
    ∀ r s', Func.read s = .ok r s' → ∃ sig calls, Func.Run s sig calls s' ∧
      r.isSome = sig.isSome ∧
      ∀ f, r = some f → f.body.map some = (calls.filter Stmt.Call.clean).map Stmt.Call.result := by
  refine ⟨fun r s' h => ?_, fun context r s' h => ?_, fun r s' h => ?_, fun r s' h => ?_⟩
  · have hfate := Stmt.read_fate s
    rw [h] at hfate
    obtain ⟨w, ds, hm, hkept, -⟩ := hfate.of_ok
    refine ⟨hkept, hkept.none_iff hm.count_le, ?_⟩
    rintro t rfl
    exact Stmt.tree_of_kept h
  · have hfate := expression_fate context s
    rw [h] at hfate
    obtain ⟨w, ds, -, hsome, hnone⟩ := hfate.of_ok
    cases r with
    | some e =>
      have hcount := hsome rfl
      exact ⟨⟨fun _ => hcount, fun _ => rfl⟩, ⟨by simp, fun _ => by omega⟩⟩
    | none =>
      have hcount := hnone rfl
      exact ⟨⟨by simp, fun _ => by omega⟩, ⟨fun _ => hcount, fun _ => rfl⟩⟩
  · have hfate := Func.signature_fate s
    rw [h] at hfate
    obtain ⟨w, ds, hm, hkept⟩ := hfate.of_ok
    exact ⟨hkept, hkept.none_iff hm.count_le⟩
  · exact Func.exists_run h

/-- The assignment has no value and is left out; the function and its declaration are kept. -/
theorem kept_iff_nothing_recorded_assignment :
    ∃ f s', Func.read (.ofSource "f" "func g() \x7b x = ; int y; \x7d") = .ok (some f) s' ∧
      f.body = [.declare .int "y" ⟨"f", 1⟩] ∧
      ∃ sig calls, Func.Run (.ofSource "f" "func g() \x7b x = ; int y; \x7d") sig calls s' ∧
        f.body.map some = (calls.filter Stmt.Call.clean).map Stmt.Call.result := by
  have hread : EStateM.run' Func.read (.ofSource "f" "func g() \x7b x = ; int y; \x7d") =
      some (some ⟨"g", [], [.declare .int "y" ⟨"f", 1⟩], ⟨"f", 1⟩⟩) := by decide +kernel
  generalize Session.ofSource "f" "func g() \x7b x = ; int y; \x7d" = s at hread ⊢
  unfold EStateM.run' EStateM.run at hread
  cases h : Func.read s with
  | error e s' =>
    rw [h] at hread
    cases hread
  | ok r s' =>
    rw [h] at hread
    cases hread
    obtain ⟨sig, calls, hrun, -, hbody⟩ := (kept_iff_nothing_recorded s).2.2.2 _ _ h
    exact ⟨_, s', rfl, rfl, sig, calls, hrun, hbody _ rfl⟩

end FxLang
