import FxLang.Proofs.Grammar.Abort
import FxLang.Proofs.Grammar.Endings

/-!
# Diagnostics in the order of the source

Every diagnostic is about a token of the source: about the next one, or about one that an expression
tripped over, which may have been taken already. `PointsInto T i ds` says that the diagnostics `ds`
are about tokens of `T` that come one behind the other, none of them behind the place `i`.

The invariant goes by the rules of `Tandem`: a parser only reports a token in sight, and no
diagnostic so far is about a token behind the one in sight.

* `TokenStream.given_inOrder`: the tokens of a source are on lines that never go back, where a word
  can count them.
* `Tandem.lands`: what a parser records is in order, if it was before.
* `Program.diagnostics_in_order`: the diagnostics of a source are in the order of its tokens.
-/

namespace FxLang

/-! ## The tokens of a source -/

namespace TokenStream

variable {s s' : TokenStream} {t : Token}

/-- The tokens that a stream gives one after the other, the end included, up to the first error. -/
def given (s : TokenStream) : List Token := s.tokens ++ s.ending.toOption.toList

theorem given_congr (h : s.upcoming = s'.upcoming) : s.given = s'.given := by
  simp [given, tokens, ending, h]

theorem given_of_next (h : next s = .ok t s') (ht : t.isEof = false) : s.given = t :: s'.given := by
  simp [given, tokens, ending, upcoming_of_next h ht]

theorem given_of_next_eof (h : next s = .ok t s') (ht : t.isEof = true) : s.given = [t] := by
  simp [given, tokens, ending, upcoming_of_next_eof h ht, Except.toOption]

theorem given_of_next_error {e : Error} (h : next s = .error e s') : s.given = [] := by
  simp [given, tokens, ending, upcoming_of_next_error h, Except.toOption]

/-- A token that was shown is given first. -/
theorem head?_given (h : s.peeked = some t) : s.given.head? = some t := by
  have hn := next_of_peeked h
  cases ht : t.isEof with
  | true => rw [given_of_next_eof hn ht]; rfl
  | false => rw [given_of_next hn ht]; rfl

theorem given_of_toList {ts : List Token} (h : s.toList = .ok ts) : s.given = ts := by
  obtain ⟨t, he, rfl⟩ := (toList_eq_ok_iff s ts).1 h
  simp [given, he, Except.toOption]

/-- The tokens given are the first results of the stream. -/
theorem results_of_given {k : Nat} (h : s.given[k]? = some t) : s.results k = .ok t := by
  have hok : (s.given.map Except.ok)[k]? = some (.ok t : Except Error Token) := by simp [h]
  have hprefix : s.given.map .ok <+: s.tokens.map .ok ++ [s.ending] := by
    unfold given
    cases s.ending with
    | ok u => simp [Except.toOption]
    | error e => simp [Except.toOption]
  obtain ⟨rest, hrest⟩ := hprefix
  obtain ⟨hlt, -⟩ := List.getElem?_eq_some_iff.1 hok
  refine results_of_getElem? ?_
  rw [← hrest, List.getElem?_append_left hlt]
  exact hok

/-- The tokens of a stream stand in its file. -/
theorem file_of_given (s : TokenStream) (hp : s.peeked = none) :
    ∀ t ∈ s.given, t.position.file = s.file := by
  induction hr : s.remaining using Nat.strongRecOn generalizing s with
  | ind n ih =>
    have hnext := next_of_not_peeked hp
    cases hs : scan s with
    | error e s' =>
      rw [given_of_next_error (hnext.trans hs)]
      simp
    | ok t s' =>
      have hn := hnext.trans hs
      rcases scan_eq_ok hs with ⟨ht, -, -, hposition⟩ | ⟨ht, g, hcuts⟩
      · rw [given_of_next_eof hn ht]
        simp [hposition]
      · rw [given_of_next hn ht]
        have hlt := remaining_next_lt hn ht
        have hrest := ih s'.remaining (by omega) s' (hcuts.peeked_eq.trans hp) rfl
        rw [hcuts.file_eq] at hrest
        exact List.forall_mem_cons.2 ⟨by rw [hcuts.position_eq], hrest⟩

/-- Where the word of the line does not run over, the lines of the tokens never go back, and none of
them stands before the line that was come to. -/
theorem given_inOrder (s : TokenStream) (hp : s.peeked = none)
    (hlines : s.cursor.line.toNat + s.cursor.rest.count '\n' < UInt32.size) :
    (∀ t ∈ s.given, s.cursor.line ≤ t.position.line) ∧
      s.given.Pairwise fun t u => t.position.line ≤ u.position.line := by
  simp only [UInt32.le_iff_toNat_le]
  induction hr : s.remaining using Nat.strongRecOn generalizing s with
  | ind n ih =>
    have hnext := next_of_not_peeked hp
    cases hs : scan s with
    | error e s' =>
      rw [given_of_next_error (hnext.trans hs)]
      simp
    | ok t s' =>
      have hn := hnext.trans hs
      rcases scan_eq_ok hs with ⟨ht, -, -, hposition⟩ | ⟨ht, g, hcuts⟩
      · rw [given_of_next_eof hn ht]
        simp [hposition, Text.toNat_add_newlines hlines]
      · rw [given_of_next hn ht]
        have hlt := remaining_next_lt hn ht
        have hcount := congrArg (List.count '\n') hcuts.rest_eq
        simp only [List.count_append] at hcount
        have hline : s'.cursor.line.toNat = s.cursor.line.toNat + (g ++ t.text.toList).count '\n' := by
          rw [hcuts.line_eq]
          exact Text.toNat_add_newlines (by rw [List.count_append]; omega)
        have hstands : t.position.line.toNat = s.cursor.line.toNat + g.count '\n' := by
          rw [hcuts.position_eq]
          exact Text.toNat_add_newlines (by omega)
        rw [List.count_append] at hline
        obtain ⟨hstand, hpairs⟩ := ih s'.remaining (by omega) s' (hcuts.peeked_eq.trans hp)
          (by omega) rfl
        refine ⟨List.forall_mem_cons.2 ⟨by omega, fun u hu => ?_⟩,
          List.pairwise_cons.2 ⟨fun u hu => ?_, hpairs⟩⟩
        · have hle := hstand u hu
          omega
        · have hle := hstand u hu
          omega

end TokenStream

open Session

/-! ## Diagnostics about tokens in order -/

section
variable {T : List Token} {i j : Nat} {ds : List Diagnostic}

/-- The diagnostics are about tokens of `T` that come one behind the other, the last of them at the
place `i` or before it, and each stands at the position of its token. -/
def PointsInto (T : List Token) (i : Nat) (ds : List Diagnostic) : Prop :=
  ∃ ks : List Nat, ks.Pairwise (· ≤ ·) ∧ (∀ k ∈ ks, k ≤ i) ∧
    ds.map (fun d => some (d.found, d.position)) = ks.map fun k => T[k]?.map fun t => (t, t.position)

namespace PointsInto

theorem nil : PointsInto T i [] := ⟨[], by simp⟩

theorem mono (h : PointsInto T i ds) (hij : i ≤ j) : PointsInto T j ds := by
  obtain ⟨ks, hks, hle, hds⟩ := h
  exact ⟨ks, hks, fun k hk => Nat.le_trans (hle k hk) hij, hds⟩

/-- One more diagnostic, about the token at the place. -/
theorem concat {d : Diagnostic} (h : PointsInto T i ds) (hd : T[i]? = some d.found)
    (hposition : d.position = d.found.position) : PointsInto T i (ds ++ [d]) := by
  obtain ⟨ks, hks, hle, hds⟩ := h
  refine ⟨ks ++ [i], ?_, ?_, by simp [hds, hd, hposition]⟩
  · rw [List.pairwise_append]
    exact ⟨hks, by simp, by simpa using hle⟩
  · rw [List.forall_mem_append]
    exact ⟨hle, by simp⟩

theorem mem_of_mem {d : Diagnostic} (h : PointsInto T i ds) (hd : d ∈ ds) :
    d.found ∈ T ∧ d.position = d.found.position := by
  obtain ⟨ks, -, -, hds⟩ := h
  have hmem : some (d.found, d.position) ∈ ks.map fun k => T[k]?.map fun t => (t, t.position) := by
    rw [← hds]
    exact List.mem_map.2 ⟨d, hd, rfl⟩
  obtain ⟨k, -, hk⟩ := List.mem_map.1 hmem
  obtain ⟨t, ht, hpair⟩ := Option.map_eq_some_iff.1 hk
  obtain ⟨rfl, hposition⟩ := Prod.mk.inj hpair
  exact ⟨List.mem_of_getElem? ht, hposition.symm⟩

/-- What holds of any two tokens of `T` in their order holds of what two diagnostics are about. -/
theorem pairwise {R : Token → Token → Prop} (h : PointsInto T i ds) (hrefl : ∀ t, R t t)
    (hT : T.Pairwise R) : ds.Pairwise fun d d' => R d.found d'.found := by
  obtain ⟨ks, hks, -, hds⟩ := h
  have hplaces (j k : Nat) (hjk : j ≤ k) (t u : Token) (ht : T[j]? = some t) (hu : T[k]? = some u) :
      R t u := by
    obtain ⟨hj, rfl⟩ := List.getElem?_eq_some_iff.1 ht
    obtain ⟨hk, rfl⟩ := List.getElem?_eq_some_iff.1 hu
    rcases Nat.lt_or_eq_of_le hjk with hlt | rfl
    · exact List.pairwise_iff_getElem.1 hT j k hj hk hlt
    · exact hrefl _
  have hfound : (ds.map fun d => some (d.found, d.position)).Pairwise
      fun a b => ∀ t u : Token × Position, a = some t → b = some u → R t.1 u.1 := by
    rw [hds, List.pairwise_map]
    refine hks.imp fun {j k} hjk a b ha hb => ?_
    obtain ⟨t, ht, rfl⟩ := Option.map_eq_some_iff.1 ha
    obtain ⟨u, hu, rfl⟩ := Option.map_eq_some_iff.1 hb
    exact hplaces j k hjk t u ht hu
  exact (List.pairwise_map.1 hfound).imp fun hR => hR _ _ rfl rfl

end PointsInto

end

/-! ## Where a parser has come to -/

section
variable {T : List Token} {i : Nat} {o : Sight} {stream : TokenStream} {ds : List Diagnostic}
  {t : Token}

/-- A number of the tokens `T` was taken, `i` of them at least, and the diagnostics are in order up
to the place `i`. -/
structure Reached (T : List Token) (i : Nat) (stream : TokenStream) (ds : List Diagnostic) :
    Prop where
  given : ∃ n, i ≤ n ∧ stream.given = T.drop n
  points : PointsInto T i ds

/-- The sight is right: the token in it stands in `T`, and no diagnostic is about a later one. -/
def Sight.Finds (T : List Token) : Sight → TokenStream → List Diagnostic → Prop
  | .nothing, stream, ds => ∃ i, Reached T i stream ds
  | .shown t, stream, ds => (∃ i, Reached T i stream ds) ∧ stream.peeked = some t
  | .taken t, stream, ds => ∃ i, Reached T i stream ds ∧ T[i]? = some t

namespace Sight.Finds

theorem forget (h : o.Finds T stream ds) : ∃ i, Reached T i stream ds := by
  cases o with
  | nothing => exact h
  | shown t => exact h.1
  | taken t =>
    obtain ⟨i, hi, -⟩ := h
    exact ⟨i, hi⟩

theorem shows (h : o.Finds T stream ds) : o.Shows stream := by
  cases o with
  | shown t => exact h.2
  | nothing => trivial
  | taken t => trivial

/-- A token that was shown stands at the place that was come to. -/
theorem of_shown (h : Sight.Finds T (.shown t) stream ds) :
    ∃ n, stream.given = T.drop n ∧ T[n]? = some t ∧ PointsInto T n ds := by
  obtain ⟨⟨i, ⟨n, hin, hgiven⟩, hpoints⟩, hpeeked⟩ := h
  refine ⟨n, hgiven, ?_, hpoints.mono hin⟩
  rw [← List.head?_drop, ← hgiven]
  exact TokenStream.head?_given hpeeked

/-- A token in sight stands in `T`, and no diagnostic is about a later one. -/
theorem of_sees (h : o.Finds T stream ds) (ht : o.Sees t) :
    ∃ i, Reached T i stream ds ∧ T[i]? = some t := by
  cases o with
  | nothing => exact ht.elim
  | shown t' =>
    obtain rfl : t' = t := ht
    obtain ⟨n, hgiven, hn, hpoints⟩ := h.of_shown
    exact ⟨n, ⟨⟨n, Nat.le_refl n, hgiven⟩, hpoints⟩, hn⟩
  | taken t' =>
    obtain rfl : t' = t := ht
    exact h

/-- A diagnostic about the token in sight leaves it in sight. -/
theorem concat {d : Diagnostic} (h : o.Finds T stream ds) (hd : o.Sees d.found)
    (hposition : d.position = d.found.position) : o.Finds T stream (ds ++ [d]) := by
  obtain ⟨i, ⟨hgiven, hpoints⟩, hi⟩ := h.of_sees hd
  have hreached : Reached T i stream (ds ++ [d]) := ⟨hgiven, hpoints.concat hi hposition⟩
  cases o with
  | nothing => exact hd.elim
  | shown t => exact ⟨⟨i, hreached⟩, h.2⟩
  | taken t =>
    obtain rfl : t = d.found := hd
    exact ⟨i, hreached, hi⟩

end Sight.Finds

/-- A parser goes on with the diagnostics in order and fewer than `l` characters to come, or it
fails with the diagnostics in order. An error that may be caught is about a token that was in
sight. -/
inductive Lands {α : Type} (T : List Token) (l : Nat) : EStateM.Result Error Session α → Prop
  | goes {a : α} {s : Session} (h : ∃ i, Reached T i s.stream s.diagnostics)
      (hl : s.stream.remaining < l) : Lands T l (.ok a s)
  | halts {e : Error} {s : Session} (h : ∃ i, PointsInto T i s.diagnostics)
      (hcaught : e.isFatal = false → (Sight.behind e).Finds T s.stream s.diagnostics) :
      Lands T l (.error e s)

namespace Lands

variable {α β : Type} {k l : Nat} {s : Session}

theorem points {r : EStateM.Result Error Session α} (h : Lands T l r) :
    ∃ i, PointsInto T i (final r).diagnostics := by
  cases h with
  | goes h =>
    obtain ⟨i, hi⟩ := h
    exact ⟨i, hi.points⟩
  | halts h => exact h

theorem bind {x : ParseM α} {f : α → ParseM β} (hx : Lands T k (x s))
    (hf : ∀ a s₁, x s = .ok a s₁ → (∃ i, Reached T i s₁.stream s₁.diagnostics) →
      s₁.stream.remaining < k → Lands T l (f a s₁)) : Lands T l ((x >>= f) s) := by
  generalize hr : x s = r at hx
  cases hx with
  | goes h hk =>
    rw [bind_of_ok hr]
    exact hf _ _ hr h hk
  | halts h hcaught =>
    rw [bind_of_error hr]
    exact .halts h hcaught

theorem mono {r : EStateM.Result Error Session α} (h : Lands T k r) (hk : k ≤ l) : Lands T l r := by
  cases h with
  | goes h hl => exact .goes h (Nat.lt_of_lt_of_le hl hk)
  | halts h hcaught => exact .halts h hcaught

theorem peek (h : ∃ i, Reached T i s.stream s.diagnostics) (hl : s.stream.remaining < l) :
    Lands T l (peek s) := by
  obtain ⟨i, hgiven, hpoints⟩ := h
  unfold Session.peek onStream
  cases hr : TokenStream.peek s.stream with
  | ok t stream =>
    have hle := TokenStream.remaining_peek_le hr
    refine .goes ⟨i, ?_, hpoints⟩ (Nat.lt_of_le_of_lt hle hl)
    rwa [TokenStream.given_congr (TokenStream.upcoming_peek hr)]
  | error e stream =>
    refine .halts ⟨i, hpoints⟩ fun he => ?_
    simp [Error.isFatal, TokenStream.isLexical_of_peek hr] at he

theorem report {expected context : String}
    (h : ∃ i, Reached T i s.stream (s.diagnostics ++ [{ expected, context, found := t }]))
    (hl : s.stream.remaining < l) : Lands T l (report expected context t s) := by
  rw [report_apply]
  by_cases hlimit : maxErrors ≤ s.errorCount + 1
  · simp only [if_pos hlimit]
    obtain ⟨i, hi⟩ := h
    refine .halts ⟨i, hi.points⟩ fun he => ?_
    simp [Error.isFatal, Error.category, Cause.category] at he
  · simp only [if_neg hlimit]
    exact .goes h hl

end Lands

end

namespace Tandem

variable {α : Type} {m l : Nat} {o : Sight} {x x' : ParseM α} {T : List Token}

/-- The first of two parsers in tandem keeps the diagnostics in order. -/
theorem lands (h : Tandem m o x x' l) {s : Session} (ho : o.Finds T s.stream s.diagnostics)
    (hm : s.stream.remaining < m) : Lands T l (x s) := by
  induction h generalizing s with
  | pure a => exact .goes ho.forget hm
  | bind _ _ ihx ihf => exact (ihx ho hm).bind fun a _ _ h₁ hk => ihf a h₁ hk
  | mono _ hmk hln ih => exact (ih ho (Nat.lt_of_lt_of_le hm hmk)).mono hln
  | forget _ ih => exact ih ho.forget hm
  | emit event _ ih => exact ih (s := { s with log := s.log.push event }) ho hm
  | count _ ih => exact ih _ ho hm
  | look _ ih =>
    exact (Lands.peek ho.forget hm).bind fun t _ h h₁ hk =>
      ih t (ho.shows.allows h) ⟨h₁, shown_of_peek h⟩ hk
  | @take _ _ _ t _ _ ht _ ih =>
    have hless := remaining_take ho.2 ht
    obtain ⟨n, hgiven, hn, hpoints⟩ := ho.of_shown
    have hnext := TokenStream.given_of_next (TokenStream.next_of_peeked ho.2)
      (by simpa [Token.isEof] using ht)
    rw [bind_of_ok (advance_of_shown ho.2)]
    refine ih (s := s.take t) ⟨n, ⟨⟨n + 1, Nat.le_succ n, ?_⟩, hpoints⟩, hn⟩ (by omega)
    rw [← List.tail_drop, ← hgiven, hnext]
    rfl
  | @report _ _ _ _ t expected context _ _ ht _ ih =>
    have hfinds := ho.concat (d := { expected, context, found := t }) ht rfl
    refine (Lands.report hfinds.forget hm).bind fun _ s₁ h _ hk => ih ?_ hk
    have hdiagnostics := (report_moves expected context t s).diagnostics_eq
    rw [h, final_ok] at hdiagnostics
    rwa [stream_of_report h, hdiagnostics]
  | @trip _ _ _ _ t e ht he =>
    obtain ⟨i, hi, hfound⟩ := ho.of_sees ht
    refine .halts ⟨i, hi.points⟩ fun _ => ?_
    unfold Sight.behind
    rw [he]
    exact ⟨i, hi, hfound⟩
  | starve =>
    obtain ⟨i, hi⟩ := ho.forget
    refine .halts ⟨i, hi.points⟩ fun he => ?_
    simp [Error.isFatal, Error.category, Cause.category] at he
  | @attempt _ _ _ _ _ _ x x' f f' hx _ _ hfatal ihx ihok ihcaught =>
    have hle := (hx.shrinks s ho.shows).2
    have hstep := ihx ho hm
    cases hr : x s with
    | ok a s₁ =>
      rw [hr] at hstep
      rw [bind_of_ok (attempt_of_ok hr)]
      cases hstep with
      | goes h₁ hk => exact ihok a h₁ hk
    | error e s₁ =>
      rw [hr] at hstep hle
      rw [bind_of_ok (attempt_of_error hr)]
      cases hstep with
      | halts h hcaught =>
        cases he : e.isFatal with
        | true =>
          rw [(hfatal e he).1]
          exact .halts h hcaught
        | false => exact ihcaught e he (hcaught he) (Nat.lt_of_le_of_lt hle hm)
  | rounds _ ih =>
    have hlt := Nat.lt_succ_self s.stream.remaining
    exact ih (s.stream.remaining + 1) _ _ hm (Nat.le_refl _) (Nat.le_refl _) ho hlt
  | done => exact absurd hm (Nat.not_lt_zero _)

end Tandem

/-! ## Whole sources -/

namespace Program

theorem pointsInto_diagnostics (file source : String) :
    ∃ i, PointsInto (TokenStream.ofSource file source).given i
      (ofSource file source).diagnostics := by
  have hstart : Sight.Finds (TokenStream.ofSource file source).given .nothing
      (start file source).stream (start file source).diagnostics :=
    ⟨0, ⟨0, Nat.le_refl 0, rfl⟩, .nil⟩
  have hlands := read_tandem.lands hstart (Nat.lt_succ_self _)
  rw [(ofSource_start file source).1]
  exact hlands.points

/-- The diagnostics of a source come in the order of its tokens, whatever the outcome: each is about
one of the tokens that the source is cut into, it has the position of this token, and it is about
none that stands before the one of the diagnostic before. All stand in the file of the source, and
on lines that never go back as long as a word can count the lines. -/
theorem diagnostics_in_order (file source : String) :
    (∀ ts, tokenize file source = .ok ts → (TokenStream.ofSource file source).given = ts) ∧
    (∀ k t, (TokenStream.ofSource file source).given[k]? = some t →
      (TokenStream.ofSource file source).results k = .ok t) ∧
    (∃ ks : List Nat, ks.Pairwise (· ≤ ·) ∧
      (ofSource file source).diagnostics.map (fun d => some (d.found, d.position)) =
        ks.map fun k =>
          (TokenStream.ofSource file source).given[k]?.map fun t => (t, t.position)) ∧
    (source.toList.count '\n' < UInt32.size - 1 →
      (ofSource file source).diagnostics.Pairwise
        fun d d' => d.position.line ≤ d'.position.line) ∧
    ∀ d ∈ (ofSource file source).diagnostics, d.position.file = file := by
  obtain ⟨i, hpoints⟩ := pointsInto_diagnostics file source
  have hfile := (TokenStream.ofSource file source).file_of_given rfl
  refine ⟨fun ts => TokenStream.given_of_toList, fun k t => TokenStream.results_of_given,
    ?_, fun hlines => ?_, fun d hd => ?_⟩
  · obtain ⟨ks, hks, -, hds⟩ := hpoints
    exact ⟨ks, hks, hds⟩
  · have hsize : (1 : UInt32).toNat + source.toList.count '\n' < UInt32.size := by
      rw [UInt32.toNat_one]
      simp only [UInt32.size] at hlines ⊢
      omega
    obtain ⟨-, hpairs⟩ := (TokenStream.ofSource file source).given_inOrder rfl hsize
    have hfound := hpoints.pairwise (fun t => UInt32.le_refl t.position.line) hpairs
    refine hfound.imp_of_mem fun {d d'} hd hd' hle => ?_
    rw [(hpoints.mem_of_mem hd).2, (hpoints.mem_of_mem hd').2]
    exact hle
  · obtain ⟨hmem, hposition⟩ := hpoints.mem_of_mem hd
    rw [hposition]
    exact hfile _ hmem

/-- A word that starts no function, and on the next line a function without a name. -/
theorem diagnostics_in_order_two_lines :
    (ofSource "f" "x\nfunc").diagnostics.map (·.position) = [⟨"f", 1⟩, ⟨"f", 2⟩] ∧
      (ofSource "f" "x\nfunc").diagnostics.Pairwise
        fun d d' => d.position.line ≤ d'.position.line :=
  ⟨by decide +kernel, (diagnostics_in_order "f" "x\nfunc").2.2.2.1 (by decide +kernel)⟩

/-- The first of two diagnostics is about the word on line 1, the other one about the end, which is
said to stand on line 0. -/
theorem diagnostics_line_runs_over :
    ∃ d d', (ofSource "f" (linesBehind (UInt32.size - 1))).diagnostics = [d, d'] ∧
      d'.position.line < d.position.line := by
  have htokens := tokenize_linesBehind (UInt32.size - 1)
  obtain ⟨hbare, -⟩ := ending_of_linesBehind (UInt32.size - 1)
  obtain ⟨i, hpoints⟩ := pointsInto_diagnostics "f" (linesBehind (UInt32.size - 1))
  rw [TokenStream.given_of_toList htokens] at hpoints
  have hkinds := congrArg (List.map fun d : Diagnostic => d.found.kind) hbare
  have hshort : ((ofSource "f" (linesBehind 0)).diagnostics.map Diagnostic.bare).map
      (fun d => d.found.kind) = [.identifier, .eof] := by decide +kernel
  rw [hshort, List.map_map] at hkinds
  obtain ⟨d, ds, hds, hd, hkinds⟩ := List.map_eq_cons_iff.1 hkinds
  obtain ⟨d', ds, rfl, hd', hkinds⟩ := List.map_eq_cons_iff.1 hkinds
  rw [List.map_eq_nil_iff.1 hkinds] at hds
  rw [hds] at hpoints ⊢
  refine ⟨d, d', rfl, ?_⟩
  obtain ⟨hmem, hposition⟩ := hpoints.mem_of_mem (d := d) (by simp)
  obtain ⟨hmem', hposition'⟩ := hpoints.mem_of_mem (d := d') (by simp)
  have hkind : d.found.kind = .identifier := hd
  have hkind' : d'.found.kind = .eof := hd'
  have hline : d.position.line = 1 := by
    rw [hposition]
    simp only [List.mem_cons, List.not_mem_nil, or_false] at hmem
    rcases hmem with hfound | hfound | hfound
    · rw [hfound]
    · cases hfound ▸ hkind
    · cases hfound ▸ hkind
  have hline' : d'.position.line = 0 := by
    rw [hposition']
    simp only [List.mem_cons, List.not_mem_nil, or_false] at hmem'
    rcases hmem' with hfound | hfound | hfound
    · cases hfound ▸ hkind'
    · cases hfound ▸ hkind'
    · rw [hfound]
      decide
  rw [hline, hline']
  decide

end Program

end FxLang
