/-!
# Rows of calls

An object with a state is asked one thing after the other. `answers` makes such a row of calls, and
two objects are `InStep` when every call gives the same on both and keeps their states related.

* `InStep.map_answers_eq`: what one call keeps, any row of calls keeps.
-/

namespace FxLang

variable {ι ω σ τ : Type}

/-- The answers to calls made one after the other, each with the state it leaves behind. -/
def answers (make : ι → σ → ω × σ) : List ι → σ → List (ω × σ)
  | [], _ => []
  | call :: calls, s => make call s :: answers make calls (make call s).2

/-- Every call gives the same on both sides and keeps them related. -/
def InStep (f : ι → σ → ω × σ) (g : ι → τ → ω × τ) (R : σ → τ → Prop) : Prop :=
  ∀ call s t, R s t → (f call s).1 = (g call t).1 ∧ R (f call s).2 (g call t).2

namespace InStep

variable {f : ι → σ → ω × σ} {g : ι → τ → ω × τ} {R : σ → τ → Prop} {s : σ} {t : τ}

/-- Where answers and related states look the same, rows of calls do. -/
theorem map_answers_eq {α : Type} {look : ω × σ → α} {look' : ω × τ → α} (h : InStep f g R)
    (hlook : ∀ a s t, R s t → look (a, s) = look' (a, t)) (calls : List ι) (hst : R s t) :
    (answers f calls s).map look = (answers g calls t).map look' := by
  induction calls generalizing s t with
  | nil => rfl
  | cons call calls ih =>
    obtain ⟨hanswer, hnext⟩ := h call s t hst
    have hfirst : look (f call s) = look' (g call t) := by
      rw [← hlook (g call t).1 (f call s).2 (g call t).2 hnext, ← hanswer]
    rw [answers, answers, List.map_cons, List.map_cons, hfirst, ih hnext]

/-- Every state on the way is related to one on the other side. -/
theorem exists_of_mem_answers {a : ω × σ} (h : InStep f g R) {calls : List ι} (hst : R s t)
    (ha : a ∈ answers f calls s) : ∃ t', R a.2 t' := by
  induction calls generalizing s t with
  | nil => cases ha
  | cons call calls ih =>
    obtain ⟨-, hnext⟩ := h call s t hst
    rcases List.mem_cons.1 ha with rfl | ha
    · exact ⟨_, hnext⟩
    · exact ih hnext ha

end InStep

end FxLang
