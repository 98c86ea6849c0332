import FxLang.Proofs.Grammar.Derivation
import FxLang.Proofs.Token.Places
import FxLang.Proofs.Token.Relexing

/-!
# The shape of expressions that were read

A tree that was read by the standard table consists of literals and identifiers, of signs with an
operand behind them and of operators between two operands, and all of its tokens were cut from a
source. Its leaves stand in the tree in the order in which they stand in the source.

`TokenStream.Reached` is what makes the tokens those of a source: a stream is only ever looked at
and taken from.

* `TokenStream.Reached.lexed`: the tokens to come from such a stream were cut from its source.
* `Expr.Obtained`: the two ways to get a tree, with the tokens that it was read from.
* `Expr.Obtained.leaves_eq`: the leaves in the order of the source.
* `Expr.Obtained.wellShaped`: the shape, and the tokens inside it.
-/

namespace FxLang

/-! ## Streams of sources -/

namespace TokenStream

variable {file source : String} {s : TokenStream} {t : Token}

/-- The stream of a source behind any calls, failed or not. -/
inductive Reached (file source : String) : TokenStream → Prop
  | start : Reached file source (.ofSource file source)
  | call {s : TokenStream} (h : Reached file source s) (call : Call) :
      Reached file source (call.run s).2

theorem Reached.exists_tracks (h : Reached file source s) :
    ∃ place, Tracks (ofSource file source).results s place := by
  induction h with
  | start => exact ⟨0, fun n => by rw [Nat.zero_add]⟩
  | call _ call ih =>
    obtain ⟨place, hplace⟩ := ih
    exact ⟨_, (Call.run_inStep _ call _ _ hplace).2⟩

/-- The tokens to come were cut from the source. -/
theorem Reached.lexed (h : Reached file source s) (ht : t ∈ s.tokens) : t.Lexed := by
  obtain ⟨place, hplace⟩ := h.exists_tracks
  have hmem : .ok t ∈ s.tokens.map (Except.ok (ε := Error)) ++ [s.ending] :=
    List.mem_append_left _ (List.mem_map_of_mem ht)
  obtain ⟨k, hk⟩ := exists_results hmem
  exact ⟨file, source, place + k, (hplace k).symm.trans hk⟩

end TokenStream

namespace Expr

open Session

/-! ## Trees and their tokens -/

/-- A tree as it is read: the tokens are those of sources, and each has its role. -/
inductive WellShaped : Expr → Prop
  | leaf {t : Token} (ht : t.kind.isAtom = true) (hl : t.Lexed) : WellShaped (.leaf t)
  | unary {o : Token} {e : Expr} (ho : o.kind.isSign = true) (hl : o.Lexed) (h : WellShaped e) :
      WellShaped (.unary o e)
  | binary {o : Token} {e₁ e₂ : Expr} (ho : o.kind.isOperator = true) (hl : o.Lexed)
      (h₁ : WellShaped e₁) (h₂ : WellShaped e₂) : WellShaped (.binary o e₁ e₂)

section
variable {w : List Token} {e : Expr}

theorem Derives.wellShaped (h : Derives w e) (hw : ∀ t ∈ w, t.Lexed) : WellShaped e := by
  induction h with
  | atom ht => exact .leaf ht (hw _ (by simp))
  | sign hp _ ih => exact .unary hp (hw _ (by simp)) (ih fun t ht => hw t (by simp [ht]))
  | group _ _ _ ih => exact ih fun t ht => hw t (by simp [ht])
  | join _ ho _ ih₁ ih₂ =>
    exact .binary ho (hw _ (by simp)) (ih₁ fun t ht => hw t (by simp [ht]))
      (ih₂ fun t ht => hw t (by simp [ht]))

/-- The leaves of a tree are the operands in its text, from left to right. -/
theorem Derives.leaves_eq (h : Derives w e) : e.leaves = w.filter (·.kind.isAtom) := by
  induction h with
  | atom ht => simp [leaves, ht]
  | sign hp _ ih =>
    have hatom := Kind.isAtom_of_isOperator (Kind.isOperator_of_isSign hp)
    simp [leaves, hatom, ih]
  | group ho _ hc ih => simp [ho, hc, Kind.isAtom, ih]
  | join _ ho _ ih₁ ih₂ => simp [leaves, Kind.isAtom_of_isOperator ho, ih₁, ih₂]

end

/-! ## Trees that were read -/

/-- The tree was read from the tokens: those of a whole source, or those taken from a stream. -/
inductive Obtained : List Token → Expr → Prop
  | source {file source : String} {e : Expr} (h : ofSource file source = .ok e) :
      Obtained (TokenStream.ofSource file source).tokens e
  | stream {file source : String} {m : BindingPower} {s s' : Session} {e : Expr}
      (hs : TokenStream.Reached file source s.stream)
      (h : read .standard m s = .ok (some e) s') : Obtained (s.taken s') e

section
variable {file source : String} {m : BindingPower} {s s' : Session} {e : Expr} {w : List Token}

theorem derives_of_read (h : read .standard m s = .ok (some e) s') : Derives (s.taken s') e := by
  obtain ⟨w, le, re, t, hp, hm, -⟩ := readWithin_sound _ m s e s' s.length_tokens_lt h
  rw [hm.taken_eq]
  exact hp.derives

/-- A whole source is read up to its end. -/
theorem read_of_ofSource (h : ofSource file source = .ok e) :
    ∃ s', read .standard .lowest (.ofSource file source) = .ok (some e) s' ∧ s'.tokens = [] := by
  unfold ofSource at h
  cases hr : readWhole (.ofSource file source) with
  | error err s' =>
    rw [hr] at h
    cases h
  | ok e' s₂ =>
    rw [hr] at h
    cases h
    obtain ⟨r, s₁, hread, hrest⟩ := bind_eq_ok hr
    obtain ⟨next, s₂, hpeek, hend⟩ := bind_eq_ok hrest
    cases r with
    | none => cases hend
    | some e' =>
      by_cases heof : next.isEof = true
      · simp only [heof, if_true] at hend
        cases hend
        have hk : next.kind = .eof := by simpa [Token.isEof] using heof
        exact ⟨s₁, hread, (tokens_of_front_eof (front_before_peek hpeek) hk).1⟩
      · simp only [heof] at hend
        cases hend

/-- Both ways lead through the parser of expressions, at a stream of a source. -/
theorem Obtained.exists_read (h : Obtained w e) :
    ∃ file source m s s', TokenStream.Reached file source s.stream ∧
      read .standard m s = .ok (some e) s' ∧ s.taken s' = w := by
  cases h with
  | @source file source _ h =>
    obtain ⟨s', hread, hnil⟩ := read_of_ofSource h
    refine ⟨file, source, .lowest, .ofSource file source, s', .start, hread, ?_⟩
    unfold Session.taken
    rw [hnil]
    exact List.take_length
  | stream hs h => exact ⟨_, _, _, _, _, hs, h, rfl⟩

/-- The leaves of a tree stand in it in the order of the source. -/
theorem Obtained.leaves_eq (h : Obtained w e) : e.leaves = w.filter (·.kind.isAtom) := by
  obtain ⟨file, source, m, s, s', -, hread, rfl⟩ := h.exists_read
  exact (derives_of_read hread).leaves_eq

theorem Obtained.wellShaped (h : Obtained w e) : WellShaped e := by
  obtain ⟨file, source, m, s, s', hs, hread, rfl⟩ := h.exists_read
  exact (derives_of_read hread).wellShaped fun t ht => hs.lexed (List.mem_of_mem_take ht)

end

end Expr

end FxLang
