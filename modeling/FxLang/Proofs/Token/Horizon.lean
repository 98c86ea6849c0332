import FxLang.Proofs.Token.Places

/-!
# A stream sees one character behind what it has read

Two texts agree up to a place, and in the character there. Streams on them that have not read beyond
the place give the same results: to find the end of a lexeme takes one look at the character behind
it, and nothing further on is looked at. `TokenStream.Beside` relates the two streams, and
`Alongside` the results of reading from them.

`TokenStream.Stands` says where a stream is that was looked at and taken from: at one of the results
of the source, with or without having shown it. `TokenStream.RightBehind` names the result that was
read last.

* `Beside.peek`, `Beside.next`: as long as the first stream has the place ahead of it, both give the
  same.
* `Stands.peek`, `Stands.next`: one look or one taken token, and what was read last.
* `outcome_peek_rest`, `outcome_next_rest_isSuffix`: the text to come only gets shorter.
-/

namespace FxLang

/-- The results are the same but for the states, which are related. -/
inductive Alongside {σ α : Type} (R : σ → σ → Prop) :
    EStateM.Result Error σ α → EStateM.Result Error σ α → Prop
  | goes {a : α} {s s' : σ} (h : R s s') : Alongside R (.ok a s) (.ok a s')
  | fails {e : Error} {s s' : σ} (h : R s s') : Alongside R (.error e s) (.error e s')

/-- A cursor goes over the same characters whatever stands behind them. -/
theorem Text.Cursor.skip_withRest {c : Text.Cursor} {x y : List Char} (h : c.rest = x ++ y)
    (z : List Char) :
    ({ c with rest := x ++ z } : Text.Cursor).skip x.length =
      { c.skip x.length with rest := z } := by
  induction x generalizing c with
  | nil => rfl
  | cons a x ih =>
    have hread := read_of_cons h
    have hread' : ({ c with rest := a :: (x ++ z) } : Text.Cursor).read.2 =
        { c.read.2 with rest := x ++ z } := by
      rw [hread]
      rfl
    simp only [List.length_cons, List.cons_append, skip, hread']
    exact ih (by rw [hread]; rfl)

namespace TokenStream

variable {s s' : TokenStream} {t : Token}

/-! ## What is left -/

/-- Reading from a text leaves an end of it. -/
theorem outcome_scan_rest (s : TokenStream) :
    (outcome (scan s)).2.cursor.rest <:+ s.cursor.rest := by
  rcases gap_eq_self_or_splits s.cursor.rest with hgap | ⟨g, l, r, hsplit⟩
  · rw [scan_of_gap hgap]
    simp [outcome]
  · rw [scan_of_splits hsplit]
    have hrest := (skip_of_splits hsplit).1
    have hsuffix : r <:+ s.cursor.rest := ⟨g ++ l, by rw [hsplit.text_eq, List.append_assoc]⟩
    rw [← hrest] at hsuffix
    cases classify l <;> exact hsuffix

theorem outcome_next_rest_isSuffix (s : TokenStream) :
    (outcome (next s)).2.cursor.rest <:+ s.cursor.rest := by
  unfold next
  split
  · exact List.suffix_rfl
  · exact outcome_scan_rest s

theorem outcome_peek_rest (s : TokenStream) :
    (outcome (peek s)).2.cursor.rest = (outcome (next s)).2.cursor.rest := by
  rw [peek_eq_next]
  cases next s <;> rfl

/-- An error takes what it is about from the text, as a token does. -/
theorem remaining_of_next_error {e : Error} (h : next s = .error e s') :
    s'.remaining ≤ s.remaining := by
  have hrest := (outcome_next_rest_isSuffix s).length_le
  cases hp : s.peeked with
  | some t => rw [next_of_peeked hp] at h; cases h
  | none =>
    have hp' := outcome_next_peeked hp
    rw [h] at hrest hp'
    have hp' : s'.peeked = none := hp'
    rw [remaining_of_not_peeked hp, remaining_of_not_peeked hp']
    exact hrest

theorem remaining_outcome_peek (s : TokenStream) :
    (outcome (peek s)).2.remaining ≤ s.remaining := by
  cases hpeek : peek s with
  | ok t s' => exact remaining_peek_le hpeek
  | error e s' =>
    rw [peek_eq_next] at hpeek
    cases hn : next s with
    | ok t s₁ => rw [hn] at hpeek; cases hpeek
    | error e₁ s₁ =>
      rw [hn] at hpeek
      cases hpeek
      exact remaining_of_next_error hn

theorem remaining_outcome_next (s : TokenStream) :
    (outcome (next s)).2.remaining ≤ s.remaining := by
  cases hn : next s with
  | error e s' => exact remaining_of_next_error hn
  | ok t s' =>
    -- Nothing is shown any more, and what is shown only adds to the count.
    have hrest := (outcome_next_rest_isSuffix s).length_le
    have hnone : s'.peeked = none := by
      cases hp : s.peeked with
      | some t => rw [next_of_peeked hp] at hn; cases hn; rfl
      | none =>
        have := outcome_next_peeked hp
        rwa [hn] at this
    rw [hn] at hrest
    calc s'.remaining = s'.cursor.rest.length := remaining_of_not_peeked hnone
      _ ≤ s.cursor.rest.length := hrest
      _ ≤ s.remaining := Nat.le_add_right _ _

/-! ## Two texts -/

/-- The stream with another text to come. -/
def withRest (s : TokenStream) (rest : List Char) : TokenStream :=
  { s with cursor := { s.cursor with rest } }

/-- The streams are at the same place in front of `old` and of `new`, and have not looked at the end
of the input. -/
structure Beside (old new : List Char) (s s' : TokenStream) : Prop where
  eq : ∃ x, s.cursor.rest = x ++ old ∧ s' = s.withRest (x ++ new)
  isEof_eq : ∀ t, s.peeked = some t → t.isEof = false

section
variable {c : Char} {q q' : List Char}

/-- There is as much to come as stands behind the place. -/
theorem Beside.length_le {old new : List Char} (h : Beside old new s s') :
    old.length ≤ s.remaining := by
  obtain ⟨x, hrest, -⟩ := h.eq
  unfold remaining
  rw [hrest, List.length_append]
  omega

theorem Beside.peeked_eq {old new : List Char} (h : Beside old new s s') :
    s'.peeked = s.peeked := by
  obtain ⟨x, -, rfl⟩ := h.eq
  rfl

/-- The counts of what remains differ by what stands behind the place. -/
theorem Beside.remaining_eq {old new : List Char} (h : Beside old new s s') :
    s'.remaining + old.length = s.remaining + new.length := by
  obtain ⟨x, hrest, rfl⟩ := h.eq
  have hrest' : (s.withRest (x ++ new)).cursor.rest = x ++ new := rfl
  have hpeeked : (s.withRest (x ++ new)).peeked = s.peeked := rfl
  unfold remaining
  rw [hrest, hrest', hpeeked, List.length_append, List.length_append]
  omega

/-- Only the first character behind a lexeme has to do with it. -/
theorem splits_withSuffix {text g l y : List Char} (h : Splits text g l (y ++ c :: q))
    (q' : List Char) : Splits (g ++ (l ++ (y ++ c :: q'))) g l (y ++ c :: q') := by
  cases y with
  | nil => exact h.behind q'
  | cons d y => exact h.behind (y ++ c :: q')

/-- A stream that comes to the place and not beyond gives the same on both texts. -/
theorem Beside.scan (h : Beside (c :: q) (c :: q') s s')
    (hahead : c :: q <:+ (outcome (scan s)).2.cursor.rest) :
    Alongside (Beside (c :: q) (c :: q')) (scan s) (scan s') ∧
      ∀ t s₁, scan s = .ok t s₁ → t.isEof = false := by
  obtain ⟨x, hrest, rfl⟩ := h.eq
  rcases gap_eq_self_or_splits s.cursor.rest with hgap | ⟨g, l, r, hsplit⟩
  · -- The end of the input is behind the place.
    rw [scan_of_gap hgap] at hahead
    simp [outcome] at hahead
  · have hscan := scan_of_splits hsplit
    have hbehind := (skip_of_splits hsplit).1
    obtain ⟨y, rfl⟩ : c :: q <:+ r := by
      rw [hscan] at hahead
      rw [← hbehind]
      cases hclass : classify l <;> rw [hclass] at hahead <;> exact hahead
    obtain rfl : x = g ++ (l ++ y) := by
      have htext := hsplit.text_eq
      rw [hrest, ← List.append_assoc, ← List.append_assoc] at htext
      rw [List.append_cancel_right htext, List.append_assoc]
    have hrest' : (s.withRest (g ++ (l ++ y) ++ c :: q')).cursor.rest =
        g ++ (l ++ (y ++ c :: q')) := by
      simp [withRest]
    have hsplit' : Splits (s.withRest (g ++ (l ++ y) ++ c :: q')).cursor.rest g l
        (y ++ c :: q') := by
      rw [hrest']
      exact splits_withSuffix hsplit q'
    have hcursor :
        ((s.withRest (g ++ (l ++ y) ++ c :: q')).cursor.skip g.length).skip l.length =
          { (s.cursor.skip g.length).skip l.length with rest := y ++ c :: q' } := by
      have hstart : (s.withRest (g ++ (l ++ y) ++ c :: q')).cursor =
          { s.cursor with rest := g ++ (l ++ (y ++ c :: q')) } := by
        simp [withRest]
      rw [hstart, Text.Cursor.skip_withRest hsplit.text_eq]
      exact Text.Cursor.skip_withRest (skip_of_append hsplit.text_eq).1 _
    have hbeside : Beside (c :: q) (c :: q')
        { s with cursor := (s.cursor.skip g.length).skip l.length }
        { s with cursor := { (s.cursor.skip g.length).skip l.length with rest := y ++ c :: q' } } :=
      ⟨⟨y, hbehind, rfl⟩, h.isEof_eq⟩
    rw [hscan, scan_of_splits hsplit', hcursor]
    cases hclass : classify l with
    | ok value =>
      refine ⟨.goes hbeside, ?_⟩
      intro t s₁ ht
      cases ht
      simpa [Token.isEof] using kind_ne_eof_of_classify hsplit.ne_nil hclass
    | error cause => exact ⟨.fails hbeside, by simp⟩

theorem Beside.next (h : Beside (c :: q) (c :: q') s s')
    (hahead : c :: q <:+ (outcome (next s)).2.cursor.rest) :
    Alongside (Beside (c :: q) (c :: q')) (next s) (next s') ∧
      ∀ t s₁, next s = .ok t s₁ → t.isEof = false := by
  cases hp : s.peeked with
  | none =>
    rw [next_of_not_peeked hp] at hahead ⊢
    rw [next_of_not_peeked (h.peeked_eq.trans hp)]
    exact h.scan hahead
  | some t =>
    rw [next_of_peeked hp, next_of_peeked (h.peeked_eq.trans hp)]
    obtain ⟨x, hrest, rfl⟩ := h.eq
    refine ⟨.goes ⟨⟨x, hrest, rfl⟩, by simp⟩, ?_⟩
    intro t' s₁ ht
    cases ht
    exact h.isEof_eq t hp

theorem Beside.peek (h : Beside (c :: q) (c :: q') s s')
    (hahead : c :: q <:+ (outcome (peek s)).2.cursor.rest) :
    Alongside (Beside (c :: q) (c :: q')) (peek s) (peek s') := by
  rw [outcome_peek_rest] at hahead
  obtain ⟨hnext, hne⟩ := h.next hahead
  rw [peek_eq_next, peek_eq_next]
  generalize TokenStream.next s = r at hnext hne
  generalize TokenStream.next s' = r' at hnext
  cases hnext with
  | @goes t s₁ s₁' hbeside =>
    obtain ⟨x, hrest, rfl⟩ := hbeside.eq
    refine .goes ⟨⟨x, hrest, rfl⟩, ?_⟩
    rintro _ ⟨⟩
    exact hne t s₁ rfl
  | fails hbeside => exact .fails hbeside

end

/-! ## Places in a source -/

variable {src : TokenStream} {k : Nat} {e : Error}

theorem behind_succ (src : TokenStream) (k : Nat) :
    src.behind (k + 1) = (outcome (next (src.behind k))).2 := by
  induction k generalizing src with
  | zero => rfl
  | succ k ih => exact ih _

theorem results_eq (src : TokenStream) (k : Nat) :
    src.results k = (outcome (next (src.behind k))).1 := by
  induction k generalizing src with
  | zero => rfl
  | succ k ih => exact ih _

theorem behind_peeked (hp : src.peeked = none) (k : Nat) : (src.behind k).peeked = none := by
  induction k with
  | zero => exact hp
  | succ k ih =>
    rw [behind_succ]
    exact outcome_next_peeked ih

/-- The errors among the results of a source are lexical. -/
theorem isLexical_of_results (h : src.results k = .error e) : e.category = .lexical := by
  rw [results_eq] at h
  cases hn : next (src.behind k) with
  | ok t s' => rw [hn] at h; cases h
  | error e' s' =>
    rw [hn] at h
    cases h
    exact isLexical_of_next hn

/-- The stream is one that reading from `src` comes to: it stands behind some of the results, and
may have shown the one that comes next. -/
def Stands (src s : TokenStream) : Prop :=
  ∃ k, s = src.behind k ∨
    ∃ t, src.results k = .ok t ∧ s = { src.behind (k + 1) with peeked := some t }

/-- The result is the last that was read from `src`, whether it was taken or only shown. -/
def RightBehind (src : TokenStream) (r : Except Error Token) (s : TokenStream) : Prop :=
  ∃ k, src.results k = r ∧ s.cursor = (src.behind (k + 1)).cursor

theorem Stands.rightBehind (h : src.Stands s) (hp : src.peeked = none) (ht : s.peeked = some t) :
    src.RightBehind (.ok t) s := by
  obtain ⟨k, rfl | ⟨t', hr, rfl⟩⟩ := h
  · rw [behind_peeked hp] at ht
    cases ht
  · cases ht
    exact ⟨k, hr, rfl⟩

/-- What taking a token does, or meeting an error in its place. -/
theorem Stands.next (h : src.Stands s) (hp : src.peeked = none) :
    src.RightBehind (outcome (next s)).1 (outcome (next s)).2 ∧
      src.Stands (outcome (next s)).2 := by
  obtain ⟨k, rfl | ⟨t, hr, rfl⟩⟩ := h
  · rw [← results_eq, ← behind_succ]
    exact ⟨⟨k, rfl, rfl⟩, k + 1, .inl rfl⟩
  · rw [next_of_peeked rfl]
    refine ⟨⟨k, hr, rfl⟩, k + 1, .inl ?_⟩
    have hnone := behind_peeked hp (k + 1)
    generalize src.behind (k + 1) = s at hnone
    obtain ⟨file, cursor, peeked⟩ := s
    cases hnone
    rfl

/-- What a look does, at a token or at an error in its place. -/
theorem Stands.peek (h : src.Stands s) :
    src.RightBehind (outcome (peek s)).1 (outcome (peek s)).2 ∧
      src.Stands (outcome (peek s)).2 := by
  obtain ⟨k, rfl | ⟨t, hr, rfl⟩⟩ := h
  · have hresult := results_eq src k
    have hbehind := behind_succ src k
    rw [peek_eq_next]
    cases hn : TokenStream.next (src.behind k) with
    | ok t s' =>
      rw [hn] at hresult hbehind
      refine ⟨⟨k, hresult, ?_⟩, k, .inr ⟨t, hresult, ?_⟩⟩
      · rw [hbehind]
        rfl
      · rw [hbehind]
        rfl
    | error e s' =>
      rw [hn] at hresult hbehind
      refine ⟨⟨k, hresult, ?_⟩, k + 1, .inl hbehind.symm⟩
      rw [hbehind]
  · rw [peek_of_peeked rfl]
    exact ⟨⟨k, hr, rfl⟩, k, .inr ⟨t, hr, rfl⟩⟩

end TokenStream

end FxLang
