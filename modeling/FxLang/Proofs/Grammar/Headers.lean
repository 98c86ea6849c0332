import FxLang.Proofs.Grammar.Braces

/-!
# Loop headers that fall out of step

The header of a loop has six pieces, each with a token of its own, and three of them with an
expression behind it. A piece that is missing is skipped up to a token that opens a later one, and
the pieces behind it are not reported until one of them is there again.

`Stmt.Turns` cuts the events of a header into the turns of its pieces, so that a token that a piece
takes as its own can be told from one that is skipped.

* `Stmt.HeaderPiece.read_trace`: the events of one turn, and where it leaves the session.
* `Stmt.Turns.risesFrom`: between two diagnostics a piece takes its own token in its turn.
* `Stmt.marker_of_header`: a header without its `)` ends in front of a `{` or a `}`.
* `Stmt.readLoop_reports_once_per_loss`: both for the loop around the header.
-/

namespace FxLang.Stmt

open Session

/-! ## Pieces -/

/-- A piece of a header: its own token, how that is asked for, the tokens in front of which a broken
piece ends, and whether an expression stands behind its token. -/
structure HeaderPiece where
  kind : Kind
  expected : String
  markers : List Kind
  valued : Bool
  kind_ne_eof : kind ≠ .eof := by decide

/-- The pieces of a header, in order. -/
def headerPieces : List HeaderPiece :=
  [{ kind := .openParen, expected := "'('", markers := headerMarkers, valued := false },
    { kind := .identifier, expected := "Id", markers := headerMarkers.drop 1, valued := false },
    { kind := .define, expected := "':='", markers := headerMarkers.drop 2, valued := true },
    { kind := .semicolon, expected := "';'", markers := headerMarkers.drop 3, valued := true },
    { kind := .comma, expected := "','", markers := headerMarkers.drop 4, valued := true },
    { kind := .closeParen, expected := "')'", markers := headerMarkers.drop 5, valued := false }]

/-- Reads a piece behind one that was `lost` or not, and tells whether this one was. -/
def HeaderPiece.read (p : HeaderPiece) (lost : Bool) : ParseM Bool :=
  if p.valued then do
    let value ← headerSection p.kind p.expected p.markers lost
    pure value.isNone
  else do
    let token ← headerToken p.kind p.expected p.markers lost
    pure token.isNone

/-- Reads pieces one behind the other. -/
def readPieces : List HeaderPiece → Bool → ParseM Bool
  | [], lost => pure lost
  | p :: ps, lost => do
    let lost ← p.read lost
    readPieces ps lost

/-- A header is its pieces; its `)` is there if the last of them was not lost. -/
theorem header_eq_readPieces :
    (header >>= fun h => pure h.closed.isNone) = readPieces headerPieces false := by
  simp [header, readPieces, headerPieces, HeaderPiece.read]

theorem readPieces_append (ps qs : List HeaderPiece) (lost : Bool) :
    readPieces (ps ++ qs) lost = readPieces ps lost >>= readPieces qs := by
  induction ps generalizing lost with
  | nil => simp [readPieces]
  | cons p ps ih => simp [readPieces, ih]

/-! ## One turn -/

/-- What a piece logged when it was its turn. -/
structure Turn where
  piece : HeaderPiece
  events : List Event

/-- The piece took its own token, before anything else. -/
def Turn.takesOwn (u : Turn) : Bool :=
  match u.events with
  | .taken t :: _ => t.kind = u.piece.kind
  | _ => false

/-- No more than `n` diagnostics were recorded. -/
def AtMost (n : Nat) (l : List Event) : Prop := (Event.diagnostics l).length ≤ n

/-- What the turn of a piece may leave behind: its own token and then a diagnostic at most, or else
a diagnostic at most, and none if the piece before was lost. -/
inductive InTurn (p : HeaderPiece) (lost : Bool) : List Event → Prop
  | own {t : Token} {l : List Event} (ht : t.kind = p.kind) (hl : AtMost 1 l) :
      InTurn p lost (.taken t :: l)
  | missing {l : List Event} (hl : AtMost (!lost).toNat l) : InTurn p lost l

/-- The next token is one of those in front of which a broken piece ends. -/
def AtMarkerOf (p : HeaderPiece) (s' : Session) : Prop :=
  ∃ marker, s'.front = .ok marker ∧ marker.kind ∈ p.markers

/-- What holds of a turn that goes on: the piece is there and nothing was recorded, or it is lost
and the next token is one of its markers. -/
inductive Settles (p : HeaderPiece) (l : List Event) : Bool → Session → Prop
  | there {s' : Session} (hown : Turn.takesOwn ⟨p, l⟩ = true) (hl : Event.diagnostics l = []) :
      Settles p l false s'
  | lost {s' : Session} (hf : AtMarkerOf p s') : Settles p l true s'

section
variable {s : Session} {l l' : List Event} {n : Nat} {t : Token} {p : HeaderPiece} {lost : Bool}

@[simp] theorem takesOwn_taken : Turn.takesOwn ⟨p, .taken t :: l⟩ = decide (t.kind = p.kind) := rfl

theorem AtMost.of_nil (h : Event.diagnostics l = []) : AtMost n l := by
  simp [AtMost, h]

/-- Nothing more is recorded behind it. -/
theorem AtMost.append (h : AtMost n l) (h' : Event.diagnostics l' = []) : AtMost n (l ++ l') := by
  unfold AtMost
  rwa [Event.diagnostics_append, h', List.append_nil]

theorem atMost_of_expression {d : Option Diagnostic} (h : ExpressionLog d l) : AtMost 1 l := by
  unfold AtMost
  rw [h.diagnostics_eq]
  cases d <;> simp

/-- The token of a piece is taken, or else it is missing and what stands in its place is skipped. -/
theorem headerToken_trace (p : HeaderPiece) (lost : Bool) (s : Session) :
    Trace s (AtMost (!lost).toNat)
      (fun l r s' => (∃ t, r = some t ∧ t.kind = p.kind ∧ l = [.taken t]) ∨
        (r = none ∧ AtMost (!lost).toNat l ∧ AtMarkerOf p s'))
      (headerToken p.kind p.expected p.markers lost s) := by
  refine .nextIs_ite (.of_nil rfl) (fun t s₁ _ hf ht => ?_) fun t s₁ _ hf _ => ?_
  · exact .advance_bind hf (by rw [ht]; exact p.kind_ne_eof) fun s₂ _ =>
      .pure (.inl ⟨t, rfl, ht, rfl⟩)
  cases lost with
  | true =>
    exact .synchronize_pure (fun _ hl => .of_nil hl) fun _ marker _ hl hmem hf =>
      .inr ⟨rfl, .of_nil hl, marker, hf, hmem⟩
  | false =>
    have hreport (l : List Event) (hl : Event.diagnostics l = []) (d : Diagnostic) :
        AtMost 1 (.reported d :: l) := AtMost.append (l := [_]) (Nat.le_refl 1) hl
    exact .reportNext_bind hf (Nat.le_refl 1) fun s₂ _ _ =>
      .synchronize_pure (fun l hl => hreport l hl _) fun l marker _ hl hmem hf =>
        .inr ⟨rfl, hreport l hl _, marker, hf, hmem⟩

/-- The expression of a piece behind its token. -/
theorem headerValue_trace (p : HeaderPiece) (s : Session) :
    Trace s (AtMost 1)
      (fun l r s' => AtMost 1 l ∧ (r.isNone = true → AtMarkerOf p s') ∧
        (r.isNone = false → Event.diagnostics l = []))
      ((expression Context.iter >>= fun r =>
        match r with
        | some e => pure (some e)
        | none => synchronize p.markers Context.iter >>= fun _ => pure none) s) := by
  refine ((expression_trace _ s).imp ?_ fun _ _ _ _ h => h).bind ?_
  · intro l ⟨d, hl⟩
    exact atMost_of_expression hl
  intro l r s₁ _ _ ⟨d, hl, hd⟩
  have hone := atMost_of_expression hl
  cases r with
  | some e =>
    have hnone : d = none := by simpa using hd
    have hsilent : Event.diagnostics l = [] := by simp [hl.diagnostics_eq, hnone]
    exact .pure (by simp [hone, hsilent])
  | none =>
    exact .synchronize_pure (fun _ h => hone.append h) fun _ marker _ h hmem hf =>
      ⟨hone.append h, fun _ => ⟨marker, hf, hmem⟩, by simp⟩

/-- One turn: what it logs, and where it leaves the session. -/
theorem HeaderPiece.read_trace (p : HeaderPiece) (lost : Bool) (s : Session) :
    Trace s (InTurn p lost) (fun l lost' s' => InTurn p lost l ∧ Settles p l lost' s')
      (p.read lost s) := by
  have hmissing (l : List Event) (hl : AtMost (!lost).toNat l) : InTurn p lost l := .missing hl
  have htoken := (headerToken_trace p lost s).imp hmissing fun _ _ _ _ h => h
  unfold HeaderPiece.read headerSection
  cases p.valued with
  | false =>
    simp only [Bool.false_eq_true, if_false]
    refine htoken.bind ?_
    rintro l r s₁ - - (⟨t, rfl, ht, rfl⟩ | ⟨rfl, hl, hf⟩)
    · exact .pure ⟨.own ht (.of_nil rfl), .there (by simp [ht]) rfl⟩
    · exact .pure ⟨.missing (by simpa using hl), .lost hf⟩
  | true =>
    simp only [if_true, bind_assoc]
    refine htoken.bind ?_
    rintro l r s₁ - - (⟨t, rfl, ht, rfl⟩ | ⟨rfl, hl, hf⟩)
    · refine ((headerValue_trace p s₁).imp (fun _ h => InTurn.own ht h) fun _ _ _ _ h => h).bind ?_
      intro l r s₂ _ _ ⟨hl, hmarker, hsilent⟩
      refine .pure ⟨.own ht (by simpa using hl), ?_⟩
      cases r with
      | some e => exact .there (by simp [ht]) (by simpa using hsilent rfl)
      | none => exact .lost (hmarker rfl)
    · exact .pure ⟨.missing (by simpa using hl), .lost hf⟩

end

/-! ## One turn behind the other -/

/-- The turns in which pieces were read from `s` on, with what each of them logged. A turn that
fails is the last. -/
inductive Turns : List HeaderPiece → Bool → Session → List Turn →
    EStateM.Result Error Session Bool → Prop
  | done {lost : Bool} {s : Session} : Turns [] lost s [] (.ok lost s)
  | goes {p : HeaderPiece} {ps : List HeaderPiece} {lost lost' : Bool} {s s₁ : Session}
      {l : List Event} {turns : List Turn} {r : EStateM.Result Error Session Bool}
      (hread : p.read lost s = .ok lost' s₁) (hl : s.Trail l s₁)
      (hrest : Turns ps lost' s₁ turns r) : Turns (p :: ps) lost s (⟨p, l⟩ :: turns) r
  | fails {p : HeaderPiece} {ps : List HeaderPiece} {lost : Bool} {s s' : Session} {e : Error}
      {l : List Event} (hread : p.read lost s = .error e s') (hl : s.Tells l (p.read lost s)) :
      Turns (p :: ps) lost s [⟨p, l⟩] (.error e s')

/-- The diagnostics of turns, each with the number of pieces that took their own token before it;
`n` of them did so before the turns. -/
def Turn.blames : Nat → List Turn → List (Nat × Diagnostic)
  | _, [] => []
  | n, u :: us =>
    (Event.diagnostics u.events).map (n + u.takesOwn.toNat, ·) ++
      blames (n + u.takesOwn.toNat) us

/-- The number goes up from one diagnostic to the next, and it is `n` or more at the first. -/
def RisesFrom (n : Nat) (blames : List (Nat × Diagnostic)) : Prop :=
  blames.Pairwise (fun b b' => b.1 < b'.1) ∧ ∀ b ∈ blames, n ≤ b.1

/-- The events of all turns. -/
def Turn.log (turns : List Turn) : List Event := turns.flatMap Turn.events

theorem Turn.map_snd_blames (n : Nat) (turns : List Turn) :
    (Turn.blames n turns).map Prod.snd = Event.diagnostics (Turn.log turns) := by
  induction turns generalizing n with
  | nil => rfl
  | cons u us ih => simp [Turn.blames, Turn.log, ih, Function.comp_def]

/-- Pieces that are read are read in turns. -/
theorem exists_turns (ps : List HeaderPiece) (lost : Bool) (s : Session) :
    ∃ turns, Turns ps lost s turns (readPieces ps lost s) ∧
      s.Tells (Turn.log turns) (readPieces ps lost s) := by
  induction ps generalizing lost s with
  | nil => exact ⟨[], .done, .goes (.refl s)⟩
  | cons p ps ih =>
    have htrace := p.read_trace lost s
    unfold readPieces
    generalize hr : p.read lost s = r at htrace
    cases htrace with
    | @goes l lost' s₁ hl _ =>
      obtain ⟨turns, hturns, htells⟩ := ih lost' s₁
      rw [bind_of_ok hr]
      exact ⟨⟨p, l⟩ :: turns, .goes hr hl hturns, .of_trail hl htells⟩
    | @fails l e s₁ s' hl hs _ =>
      have htells : s.Tells l (p.read lost s) := by
        rw [hr]
        exact .fails hl hs
      rw [bind_of_error hr]
      refine ⟨[⟨p, l⟩], .fails hr htells, ?_⟩
      simpa [Turn.log] using Tells.fails hl hs

section
variable {p : HeaderPiece} {ps : List HeaderPiece} {lost lost' : Bool} {s s₁ : Session}
  {l : List Event} {turns : List Turn} {r : EStateM.Result Error Session Bool}

theorem HeaderPiece.inTurn (h : s.Tells l (p.read lost s)) : InTurn p lost l := by
  obtain ⟨l', hl', hturn⟩ := (p.read_trace lost s).exists_tells (fun _ h => h) fun _ _ _ h => h.1
  rwa [h.unique hl']

theorem HeaderPiece.settles (hread : p.read lost s = .ok lost' s₁) (hl : s.Trail l s₁) :
    Settles p l lost' s₁ := by
  have htrace := p.read_trace lost s
  rw [hread] at htrace
  obtain ⟨l', hl', -, hsettles⟩ := htrace.of_ok
  have heq : l = l' := Tells.unique (.goes (a := lost') hl) (.goes hl')
  rwa [heq]

/-- A turn records one diagnostic at most, and behind a piece that was lost it records one only if
its own token was taken. -/
theorem InTurn.blames (h : InTurn p lost l) :
    (Event.diagnostics l).length ≤ 1 ∧
      (lost = true → Event.diagnostics l ≠ [] → Turn.takesOwn ⟨p, l⟩ = true) := by
  cases h with
  | own ht hl => exact ⟨by simpa [AtMost] using hl, fun _ _ => by simp [ht]⟩
  | missing hl =>
    unfold AtMost at hl
    have hle := (!lost).toNat_le
    refine ⟨by omega, fun hlost hne => ?_⟩
    have hzero : (Event.diagnostics l).length = 0 := by simpa [hlost] using hl
    exact absurd (List.length_eq_zero_iff.1 hzero) hne

theorem RisesFrom.mono {m n : Nat} {bs : List (Nat × Diagnostic)} (h : RisesFrom n bs)
    (hle : m ≤ n) : RisesFrom m bs :=
  ⟨h.1, fun b hb => Nat.le_trans hle (h.2 b hb)⟩

theorem RisesFrom.cons {n : Nat} {bs : List (Nat × Diagnostic)} (h : RisesFrom (n + 1) bs)
    (d : Diagnostic) : RisesFrom n ((n, d) :: bs) := by
  refine ⟨List.pairwise_cons.2 ⟨h.2, h.1⟩, List.forall_mem_cons.2 ⟨Nat.le_refl n, ?_⟩⟩
  intro b hb
  have hlt := h.2 b hb
  omega

/-- A turn in front of others; `lost'` tells whether its piece was lost. -/
theorem InTurn.risesFrom (h : InTurn p lost l)
    (hthere : lost' = false → Turn.takesOwn ⟨p, l⟩ = true ∧ Event.diagnostics l = []) {n n' : Nat}
    (hn : n' = n + (Turn.takesOwn ⟨p, l⟩).toNat)
    (hrest : RisesFrom (n' + lost'.toNat) (Turn.blames n' turns)) :
    RisesFrom (n + lost.toNat) (Turn.blames n (⟨p, l⟩ :: turns)) := by
  obtain ⟨hone, hown⟩ := h.blames
  simp only [Turn.blames, ← hn]
  generalize hds : Event.diagnostics l = ds at hone hown hthere
  cases ds with
  | nil =>
    have hlost := lost.toNat_le
    refine hrest.mono ?_
    cases lost' with
    | true =>
      have htrue : true.toNat = 1 := rfl
      omega
    | false =>
      have htakes : (Turn.takesOwn ⟨p, l⟩).toNat = 1 := by simp [(hthere rfl).1]
      omega
  | cons d ds =>
    obtain rfl : ds = [] := by simpa using hone
    obtain rfl : lost' = true := by
      cases lost' with
      | true => rfl
      | false => simp at hthere
    refine RisesFrom.mono (RisesFrom.cons hrest d) ?_
    cases lost with
    | false => simp [hn]
    | true => simp [hn, hown rfl]

/-- The number of own tokens goes up from one diagnostic to the next. It is above that at the start
if the turns start behind a piece that was lost. -/
theorem Turns.risesFrom (h : Turns ps lost s turns r) (n : Nat) :
    RisesFrom (n + lost.toNat) (Turn.blames n turns) := by
  induction h generalizing n with
  | done => simp [RisesFrom, Turn.blames]
  | @goes p ps lost lost' s s₁ l turns r hread hl _ ih =>
    have htells : s.Tells l (p.read lost s) := by
      rw [hread]
      exact .goes hl
    refine (HeaderPiece.inTurn htells).risesFrom (fun hthere => ?_) rfl (ih _)
    subst hthere
    obtain ⟨hown, hsilent⟩ := HeaderPiece.settles hread hl
    exact ⟨hown, hsilent⟩
  | fails hread hl =>
    exact (HeaderPiece.inTurn hl).risesFrom (fun h : true = false => by cases h) rfl
      (by simp [RisesFrom, Turn.blames])

/-! ## Where a header ends -/

/-- Pieces that end out of step end at a marker of the last of them. -/
theorem readPieces_marker (h : readPieces (ps ++ [p]) lost s = .ok true s₁) : AtMarkerOf p s₁ := by
  rw [readPieces_append] at h
  obtain ⟨lost', s₂, -, hlast⟩ := bind_eq_ok h
  obtain ⟨lost'', s₃, hread, hpure⟩ := bind_eq_ok hlast
  cases hpure
  have htrace := p.read_trace lost' s₂
  rw [hread] at htrace
  obtain ⟨l, -, -, ⟨⟩ | hmarker⟩ := htrace.of_ok
  exact hmarker

/-- A header without its `)` ends in front of a `{` or a `}`. -/
theorem marker_of_header {h : Header} (hr : header s = .ok h s₁) (hclosed : h.closed = none) :
    ∃ t, s₁.front = .ok t ∧ t.kind ∈ [.openCurly, .closeCurly] := by
  have hpieces : readPieces headerPieces false s = .ok true s₁ := by
    rw [← header_eq_readPieces, bind_of_ok hr, hclosed]
    rfl
  have hlast : headerPieces = headerPieces.dropLast ++ [headerPieces.getLast (by decide)] := rfl
  rw [hlast] at hpieces
  exact readPieces_marker hpieces

/-- A loop from its block on. -/
def loopFrom (block : String → ParseM (List Stmt)) (errors : Nat) (keyword : Token) (h : Header) :
    ParseM (Option Stmt) := do
  let body ← block Context.iter
  let loop ← unlessReported errors (ofHeader? h body keyword.position)
  pure loop.join

variable {block : String → ParseM (List Stmt)} {keyword : Token}

/-- A loop reads its header right behind the keyword. -/
theorem readLoop_of_front (block : String → ParseM (List Stmt)) (hf : s.front = .ok keyword)
    (hk : keyword.kind ≠ .eof) :
    ∃ s₀, s.Trail [.entering "iter", .taken keyword] s₀ ∧
      readLoop block s = (header >>= fun h => abandoned h >>= fun b =>
        if b = true then pure none else loopFrom block s.errorCount keyword h) s₀ := by
  have hremark : (Event.entering "iter").IsRemark := ⟨rfl, rfl⟩
  have hentering := trail_emit hremark s
  obtain ⟨s₀, hs₀, htaken⟩ := trail_advance (hentering.moves.front_eq.trans hf) hk
  refine ⟨s₀, hentering.trans htaken, ?_⟩
  unfold readLoop
  rw [bind_of_ok (emit_apply _ s), bind_of_ok (countErrors_apply _), bind_of_ok hs₀]
  rfl

/-- How a loop whose header gave the result goes on: it fails with its header; or it reads its
block, with a `{` in front of it unless the header has its `)`; or there is no loop, and the `}`
around it is next. -/
inductive HeaderEnd (block : String → ParseM (List Stmt)) (s : Session) (keyword : Token) :
    EStateM.Result Error Session Header → Prop
  | fails {e : Error} {s' : Session} (hloop : readLoop block s = .error e s') :
      HeaderEnd block s keyword (.error e s')
  | block {h : Header} {s₁ s₂ : Session} (hmoves : s₁.Moves [] [] s₂)
      (hnext : h.closed.isSome = true ∨ ∃ t, s₂.front = .ok t ∧ t.kind = .openCurly)
      (hloop : readLoop block s = loopFrom block s.errorCount keyword h s₂) :
      HeaderEnd block s keyword (.ok h s₁)
  | abandoned {h : Header} {s₁ s₂ : Session} (hmoves : s₁.Moves [] [] s₂) {t : Token}
      (hf : s₂.front = .ok t) (ht : t.kind = .closeCurly) (hloop : readLoop block s = .ok none s₂) :
      HeaderEnd block s keyword (.ok h s₁)

theorem headerEnd_of_readLoop {s₀ : Session}
    (hloop : readLoop block s = (header >>= fun h => abandoned h >>= fun b =>
      if b = true then pure none else loopFrom block s.errorCount keyword h) s₀) :
    HeaderEnd block s keyword (header s₀) := by
  cases hr : header s₀ with
  | error e s' => exact .fails (hloop.trans (bind_of_error hr))
  | ok h s₁ =>
    rw [bind_of_ok hr] at hloop
    cases hclosed : h.closed with
    | some close =>
      have hsome : h.closed.isSome = true := by simp [hclosed]
      rw [bind_of_ok (abandoned_of_closed hsome)] at hloop
      exact .block (.refl s₁) (.inl hsome) hloop
    | none =>
      obtain ⟨t, hf, hmem⟩ := marker_of_header hr hclosed
      obtain ⟨s₂, hnext, hmoves⟩ := nextIs_of_front .openCurly hf
      have habandoned : abandoned h s₁ = .ok (!decide (t.kind = .openCurly)) s₂ := by
        rw [abandoned, if_neg (by simp [hclosed]), bind_of_ok hnext]
        rfl
      rw [bind_of_ok habandoned] at hloop
      have hf₂ := hmoves.front_eq.trans hf
      by_cases ht : t.kind = .openCurly
      · rw [if_neg (by simp [ht])] at hloop
        exact .block hmoves (.inr ⟨t, hf₂, ht⟩) hloop
      · rw [if_pos (by simp [ht])] at hloop
        exact .abandoned hmoves hf₂ (by simpa [ht] using hmem) hloop

end

/-- A loop header reports once for each time it falls out of step, and it always ends at the border
of a block. Its events are those of its pieces, each in its turn; of two diagnostics the later one
stands behind more pieces that took their own token in their turn; and unless the header fails, the
loop goes on to its block, with a `{` next or the `)` of the header before it, or else there is no
loop and the `}` around it is next. -/
theorem readLoop_reports_once_per_loss (block : String → ParseM (List Stmt)) (s : Session)
    (keyword : Token) (hf : s.front = .ok keyword) (hk : keyword.kind = .iter) :
    ∃ s₀ turns, s.Trail [.entering "iter", .taken keyword] s₀ ∧
      Turns headerPieces false s₀ turns ((header >>= fun h => pure h.closed.isNone) s₀) ∧
      s₀.Tells (Turn.log turns) (header s₀) ∧
      (Turn.blames 0 turns).map Prod.snd = Event.diagnostics (Turn.log turns) ∧
      (Turn.blames 0 turns).Pairwise (fun b b' => b.1 < b'.1) ∧
      HeaderEnd block s keyword (header s₀) := by
  obtain ⟨s₀, htrail, hloop⟩ := readLoop_of_front block hf (by simp [hk])
  obtain ⟨turns, hturns, htells⟩ := exists_turns headerPieces false s₀
  rw [← header_eq_readPieces] at hturns htells
  exact ⟨s₀, turns, htrail, hturns, htells.of_bind_pure, Turn.map_snd_blames 0 turns,
    (hturns.risesFrom 0).1, headerEnd_of_readLoop hloop⟩

/-- The `:=` of this header is missing, and so is the value behind its `;`. -/
theorem readLoop_reports_define_and_value :
    let s := Session.ofSource "f" "iter (i 0; , 1) \x7b \x7d"
    (final (readLoop Stmt.block s)).diagnostics.length = 2 ∧
    ∃ keyword, s.front = .ok keyword ∧ keyword.kind = .iter ∧
      ∃ s₀ turns, s.Trail [.entering "iter", .taken keyword] s₀ ∧
        Turns headerPieces false s₀ turns ((header >>= fun h => pure h.closed.isNone) s₀) ∧
        s₀.Tells (Turn.log turns) (header s₀) ∧
        (Turn.blames 0 turns).map Prod.snd = Event.diagnostics (Turn.log turns) ∧
        (Turn.blames 0 turns).Pairwise (fun b b' => b.1 < b'.1) ∧
        HeaderEnd Stmt.block s keyword (header s₀) := by
  intro s
  refine ⟨by decide +kernel, ?_⟩
  have hiter : s.front.toOption.map Token.kind = some .iter := by decide +kernel
  obtain ⟨keyword, hf, hk⟩ := exists_of_toOption_map hiter
  exact ⟨keyword, hf, hk, readLoop_reports_once_per_loss Stmt.block s keyword hf hk⟩

end FxLang.Stmt
