import Mathlib.Data.List.Chain
import FxLang.Proofs.Session.Trail
import FxLang.Grammar.Function

/-!
# What is reported in a parameter list

A parameter list is read in rounds, one for each pair of a type and a name. `Func.PairsLog` tells
which events the rounds leave behind, and `Func.Leaves` where they end.

A `,` that is missing in front of a type is reported, and the next round starts with this very type.
So a pair may be reported twice, for its `,` and for its name, and the list need not get back in
step at a `)` or a `{` when it is read out.

* `Func.parametersWithin_readsPairs`: the events and the end of the rounds.
* `Func.parameters_blame_first_missing`: each diagnostic is about the first missing piece of a pair,
  and a pair lies between two of them, unless both are about the `,` and the name of one pair.
* `Func.signature_ends`: where the signature around a parameter list ends.
* `Func.parameters_end_at_marker`: a list that had to be reported ends at a `)` or a `{`, unless it
  was read out.
-/

namespace FxLang

open Session

/-! ## Diagnostics and the tokens before them -/

namespace Event

/-- The diagnostics of a log, each with the tokens that were taken before it; those in `w` were
taken before the log. -/
def blames : List Token → List Event → List (List Token × Diagnostic)
  | _, [] => []
  | w, .reported d :: l => (w, d) :: blames w l
  | w, .taken t :: l => blames (w ++ [t]) l
  | w, _ :: l => blames w l

variable {w : List Token} {l : List Event}

@[simp] theorem blames_nil : blames w [] = [] := by
  simp [blames]

@[simp] theorem blames_reported (d : Diagnostic) :
    blames w (.reported d :: l) = (w, d) :: blames w l := by
  simp [blames]

@[simp] theorem blames_taken (t : Token) : blames w (.taken t :: l) = blames (w ++ [t]) l := by
  simp [blames]

@[simp] theorem blames_entering (rule : String) : blames w (.entering rule :: l) = blames w l := by
  simp [blames]

theorem blames_of_diagnostics (h : diagnostics l = []) : blames w l = [] := by
  fun_induction blames w l with
  | case1 => rfl
  | case2 => simp at h
  | case3 w t l ih => exact ih (by simpa using h)
  | case4 w e l hd ht ih =>
    rw [diagnostics_cons] at h
    exact ih (List.append_eq_nil_iff.1 h).2

/-- What was taken before the log comes first. -/
theorem isPrefix_of_blames {b : List Token × Diagnostic} (h : b ∈ blames w l) : w <+: b.1 := by
  fun_induction blames w l with
  | case1 => cases h
  | case2 w d l ih =>
    rcases List.mem_cons.1 h with rfl | h
    · exact List.prefix_rfl
    · exact ih h
  | case3 w t l ih => exact (List.prefix_append w [t]).trans (ih h)
  | case4 w e l hd ht ih => exact ih h

end Event

namespace Func

/-! ## The events of a parameter list -/

/-- The token names a type. -/
def IsType (t : Token) : Prop := (typeName? t.kind).isSome = true

/-- The tokens end in the type and the name of a parameter. -/
def EndsInPair (w : List Token) : Prop :=
  ∃ u type name, w = u ++ [type, name] ∧ IsType type ∧ name.kind = .identifier

/-- What is logged from the start of a parameter on: the pairs that are there, and behind each of
them what stands in place of the next. -/
inductive PairsLog : List Event → Prop
  /-- There is an error of the text in place of the type, or the limit was reached before it. -/
  | cut : PairsLog []
  | noType {d : Diagnostic} {rest : List Event} (hd : d.expected = "type")
      (hfound : ¬ IsType d.found) (hrest : Event.diagnostics rest = []) :
      PairsLog (.reported d :: rest)
  /-- There is an error of the text in place of the name. -/
  | cutName {type : Token} (ht : IsType type) : PairsLog [.taken type]
  | noName {type : Token} {d : Diagnostic} {rest : List Event} (ht : IsType type)
      (hd : d.expected = "Id") (hfound : d.found.kind ≠ .identifier)
      (hrest : Event.diagnostics rest = []) : PairsLog (.taken type :: .reported d :: rest)
  /-- The list goes no further. -/
  | last {type name : Token} (ht : IsType type) (hn : name.kind = .identifier) :
      PairsLog [.taken type, .taken name]
  | comma {type name comma : Token} {l : List Event} (ht : IsType type)
      (hn : name.kind = .identifier) (hc : comma.kind = .comma) (h : PairsLog l) :
      PairsLog (.taken type :: .taken name :: .taken comma :: l)
  /-- A type without a `,` in front of it is reported, and then taken all the same. -/
  | noComma {type name : Token} {d : Diagnostic} {l : List Event} (ht : IsType type)
      (hn : name.kind = .identifier) (hd : d.expected = "','") (hfound : IsType d.found)
      (hnext : l = [] ∨ ∃ l', l = .taken d.found :: l') (h : PairsLog l) :
      PairsLog (.taken type :: .taken name :: .reported d :: l)
  | noPair {type name : Token} {d : Diagnostic} {rest : List Event} (ht : IsType type)
      (hn : name.kind = .identifier) (hd : d.expected = "','") (hfound : d.found.kind = .identifier)
      (hrest : Event.diagnostics rest = []) :
      PairsLog (.taken type :: .taken name :: .reported d :: rest)

/-- The list was read out: nothing but `,` in front of types was missing, the last tokens that were
taken are a pair, and the next one is none that the list could go on with. -/
structure ReadOut (l : List Event) (s' : Session) : Prop where
  commas : ∀ d ∈ Event.diagnostics l, d.expected = "','" ∧ IsType d.found
  pair : EndsInPair (Event.tokens l)
  front : ∃ t, s'.front = .ok t ∧ t.kind ∉ [.comma, .int, .bool, .identifier]

/-- The next token is one at which a broken list ends. -/
def AtMarker (s' : Session) : Prop :=
  ∃ t, s'.front = .ok t ∧ t.kind ∈ parameterMarkers

/-- What holds of a parameter list that goes on: it ends at a marker, or else it was read out. -/
def Leaves (l : List Event) (r : Option (List Param)) (s' : Session) : Prop :=
  (AtMarker s' ∨ ReadOut l s') ∧ (r = none → Event.diagnostics l ≠ [])

section
variable {s s' : Session} {t : Token} {expected : String} {r : Option (List Param)}
  {l l' : List Event}

/-- Giving up a list records nothing more and ends at a marker. -/
theorem skipped_trace (s : Session) :
    Trace s (fun l => Event.diagnostics l = [])
      (fun l r s' => Event.diagnostics l = [] ∧ r = none ∧ AtMarker s')
      ((synchronize parameterMarkers Context.parameters >>= fun _ =>
        (pure none : ParseM (Option (List Param)))) s) :=
  .synchronize_pure (fun _ hl => hl) fun _ marker _ hl hmem hf => ⟨hl, rfl, marker, hf, hmem⟩

theorem abandonParameters_trace (hf : s.front = .ok t) :
    Trace s
      (fun l => ∃ rest, Event.diagnostics rest = [] ∧
        l = .reported { expected, context := Context.parameters, found := t } :: rest)
      (fun l r s' => (∃ rest, Event.diagnostics rest = [] ∧
        l = .reported { expected, context := Context.parameters, found := t } :: rest) ∧
        r = none ∧ AtMarker s')
      (abandonParameters expected s) := by
  refine .reportNext_bind hf ⟨[], rfl, rfl⟩ fun s₁ _ _ => (skipped_trace s₁).imp ?_ ?_
  · exact fun l hl => ⟨l, hl, rfl⟩
  · exact fun l _ _ _ h => ⟨⟨l, h.1, rfl⟩, h.2⟩

theorem isType_iff : IsType t ↔ t.kind = .int ∨ t.kind = .bool := by
  unfold IsType typeName?
  cases t.kind <;> simp

theorem Leaves.of_marker (h : AtMarker s') (hl : Event.diagnostics l ≠ []) : Leaves l r s' :=
  ⟨.inl h, fun _ => hl⟩

/-- A pair and its `,` come before. -/
theorem Leaves.comma {type name comma : Token} {r' : Option (List Param)} (h : Leaves l r s')
    (hr : r' = none → r = none) :
    Leaves (.taken type :: .taken name :: .taken comma :: l) r' s' := by
  refine ⟨h.1.imp id fun h => ⟨h.commas, ?_, h.front⟩, fun hnone => h.2 (hr hnone)⟩
  obtain ⟨u, type', name', hl, hpair⟩ := h.pair
  exact ⟨type :: name :: comma :: u, type', name', by simp [hl], hpair⟩

/-- A pair comes before, and a report about the type that stands behind it without a `,`. -/
theorem Leaves.noComma {type name : Token} {d : Diagnostic} {r' : Option (List Param)}
    (h : Leaves l r s') (hd : d.expected = "','") (hfound : IsType d.found) :
    Leaves (.taken type :: .taken name :: .reported d :: l) r' s' := by
  refine ⟨h.1.imp id fun h => ⟨?_, ?_, h.front⟩, fun _ => ?_⟩
  · simpa [hd, hfound] using h.commas
  · obtain ⟨u, type', name', hl, hpair⟩ := h.pair
    exact ⟨type :: name :: u, type', name', by simp [hl], hpair⟩
  · simp

/-- The events of the parser go on with those in `before`, as far as a parameter list was read. -/
def Rounds (before : List Event) (s : Session)
    (r : EStateM.Result Error Session (Option (List Param))) : Prop :=
  Trace s (fun l => PairsLog (before ++ l))
    (fun l r s' => PairsLog (before ++ l) ∧ Leaves (before ++ l) r s') r

/-- A type that is next is taken first. -/
def TakesType (s : Session) (l : List Event) : Prop :=
  ∀ t, s.front = .ok t → IsType t → l = [] ∨ ∃ l', l = .taken t :: l'

/-- The parser reads a parameter list from `s` on. -/
def ReadsPairs (s : Session) (r : EStateM.Result Error Session (Option (List Param))) : Prop :=
  Trace s (fun l => PairsLog l ∧ TakesType s l)
    (fun l r s' => (PairsLog l ∧ TakesType s l) ∧ Leaves l r s') r

section
variable {type name : Token} {rest : ParseM (Option (List Param))}

theorem comma_rounds (ht : IsType type) (hn : name.kind = .identifier) (hf : s.front = .ok t)
    (hk : t.kind = .comma) (p : Param)
    (hrest : ∀ s' : Session, s'.tokens.length ≤ s.tokens.length → ReadsPairs s' (rest s')) :
    Rounds [.taken type, .taken name] s
      ((advance >>= fun _ => rest >>= fun ps => pure (ps.map (p :: ·))) s) := by
  refine .advance_bind hf (by simp [hk]) fun s₁ h₁ => ?_
  refine ((hrest s₁ h₁.moves.length_le).imp (fun l h => .comma ht hn hk h.1)
    fun _ _ _ _ h => h).bind ?_
  rintro l ps s₂ - - ⟨⟨hl, -⟩, hleaves⟩
  refine .pure ?_
  simp only [List.append_nil]
  exact ⟨.comma ht hn hk hl, hleaves.comma (by simp)⟩

/-- A missing `,` in front of a type: the type is still there for the next round. -/
theorem spoilt_rounds (ht : IsType type) (hn : name.kind = .identifier) (hf : s.front = .ok t)
    (hk : IsType t)
    (hrest : ∀ s' : Session, s'.tokens.length ≤ s.tokens.length → ReadsPairs s' (rest s')) :
    Rounds [.taken type, .taken name] s
      ((reportNext "','" Context.parameters >>= fun _ => rest >>= fun _ =>
        (pure none : ParseM (Option (List Param)))) s) := by
  refine .reportNext_bind hf (.noComma ht hn rfl hk (.inl rfl) .cut) fun s₁ h₁ hf₁ => ?_
  refine ((hrest s₁ h₁.moves.length_le).imp (fun l h => ?_) fun _ _ _ _ h => h).bind ?_
  · exact .noComma ht hn rfl hk (h.2 t hf₁ hk) h.1
  rintro l ps s₂ - - ⟨⟨hl, hnext⟩, hleaves⟩
  refine .pure ?_
  simp only [List.append_nil]
  exact ⟨.noComma ht hn rfl hk (hnext t hf₁ hk) hl, hleaves.noComma rfl hk⟩

end

/-- What the rounds of a parameter list log, and where they end. -/
theorem parametersWithin_readsPairs (n : Nat) (hn : s.tokens.length < n) :
    ReadsPairs s (parametersWithin n s) := by
  induction n generalizing s with
  | zero => omega
  | succ n ih =>
    refine .peekKind_bind ⟨.cut, fun _ _ _ => .inl rfl⟩ fun t s₁ h₁ hf => ?_
    have hfirst {u : Token} (hu : s.front = .ok u) : u = t := by
      rw [h₁.front_eq, hu] at hf
      cases hf
      rfl
    split
    next hk =>
      have hfound : ¬ IsType t := by simp [IsType, hk]
      have hstart (l : List Event) : TakesType s l :=
        fun u hu ht => absurd (hfirst hu ▸ ht) hfound
      refine (abandonParameters_trace hf).imp ?_ ?_
      · rintro _ ⟨rest, hrest, rfl⟩
        exact ⟨.noType rfl hfound hrest, hstart _⟩
      · rintro _ _ _ _ ⟨⟨rest, hrest, rfl⟩, -, hm⟩
        exact ⟨⟨.noType rfl hfound hrest, hstart _⟩, .of_marker hm (by simp)⟩
    next type hk =>
      have ht : IsType t := by simp [IsType, hk]
      have hne : t.kind ≠ .eof := by
        intro hk'
        simp [hk', typeName?] at hk
      have hstart (l : List Event) : TakesType s (.taken t :: l) :=
        fun u hu _ => .inr ⟨l, by rw [hfirst hu]⟩
      refine .advance_bind hf hne fun s₂ h₂ => ?_
      suffices hpair : Rounds [.taken t] s₂ _ from
        hpair.imp (fun l h => ⟨h, hstart l⟩) fun l _ _ _ h => ⟨⟨h.1, hstart l⟩, h.2⟩
      refine (Trace.expect (by simp) (.cutName ht) fun o ho hko => ?_).bind ?_
      · exact .noName ht rfl hko rfl
      rintro _ _ s₃ - h₃ (⟨name, rfl, -, hname, rfl⟩ | ⟨o, rfl, -, hko, -, rfl⟩)
      · refine .peekKind_bind (.last ht hname) fun c s₄ h₄ hc => ?_
        have hrest (s' : Session) (hs' : s'.tokens.length ≤ s₄.tokens.length) :
            ReadsPairs s' (parametersWithin n s') := by
          have hlen₁ := h₁.moves.length_le
          have hlen₂ := h₂.moves.tokens_length
          have hlen₄ := (h₃.trans h₄).moves.length_le
          simp at hlen₂
          exact ih (by omega)
        split
        next hk => exact comma_rounds ht hname hc hk _ hrest
        next hk => exact spoilt_rounds ht hname hc (isType_iff.2 (.inl hk)) hrest
        next hk => exact spoilt_rounds ht hname hc (isType_iff.2 (.inr hk)) hrest
        next hk =>
          refine (abandonParameters_trace hc).imp ?_ ?_
          · rintro _ ⟨rest, hrest, rfl⟩
            exact .noPair ht hname rfl hk hrest
          · rintro _ _ _ _ ⟨⟨rest, hrest, rfl⟩, -, hm⟩
            exact ⟨.noPair ht hname rfl hk hrest, .of_marker hm (by simp)⟩
        next hcomma hint hbool hid =>
          refine .pure ⟨.last ht hname, .inr ⟨by simp, ?_, c, hc, ?_⟩, by simp⟩
          · exact ⟨[], t, name, rfl, ht, hname⟩
          · simpa using ⟨hcomma, hint, hbool, hid⟩
      · refine (skipped_trace s₃).imp (fun l hl => .noName ht rfl hko hl) ?_
        rintro l _ s₄ - ⟨hl, -, hm⟩
        exact ⟨.noName ht rfl hko hl, .of_marker hm (by simp)⟩

theorem parameters_trace (s : Session) :
    Trace s (fun l => ∃ l', l = .entering "parameter declarations" :: l' ∧ PairsLog l')
      (fun l r s' => ∃ l', l = .entering "parameter declarations" :: l' ∧ PairsLog l' ∧
        Leaves l' r s')
      (parameters s) := by
  refine .emit_bind fun s₁ _ => ?_
  rw [bind_of_ok (rounds_apply s₁)]
  refine (parametersWithin_readsPairs _ s₁.length_tokens_lt).imp ?_ ?_
  · exact fun l h => ⟨l, rfl, h.1⟩
  · exact fun l _ _ _ h => ⟨l, rfl, h.1.1, h.2⟩

end

/-! ## The first missing piece -/

/-- The tokens hold a type and the name behind it. -/
def HoldsPair (w : List Token) : Prop := ∃ u v, w = u ++ v ∧ EndsInPair u

/-- The next pair starts here: nothing was taken yet, or a `,` was taken last. -/
def AtPairStart (w : List Token) : Prop :=
  w = [] ∨ ∃ u comma, w = u ++ [comma] ∧ comma.kind = .comma

/-- Where the tokens `w` were taken, what the diagnostic misses is the first of the pieces of a pair
that is missing there. -/
inductive FirstMissing : List Token → Diagnostic → Prop
  | comma {w : List Token} {d : Diagnostic} (hd : d.expected = "','") (hw : EndsInPair w)
      (hfound : IsType d.found ∨ d.found.kind = .identifier) : FirstMissing w d
  | type {w : List Token} {d : Diagnostic} (hd : d.expected = "type") (hw : AtPairStart w)
      (hfound : ¬ IsType d.found) : FirstMissing w d
  | name {w : List Token} {type : Token} {d : Diagnostic} (hd : d.expected = "Id")
      (ht : IsType type) (hfound : d.found.kind ≠ .identifier) : FirstMissing (w ++ [type]) d

/-- Behind the report about a missing `,` comes one about the name of the same pair: the type
without a `,` is taken, and its name is missing as well. -/
def MissesNameToo (d : Diagnostic) (w : List Token) (d' : Diagnostic) : Prop :=
  d.expected = "','" ∧ IsType d.found ∧ w = [d.found] ∧ d'.expected = "Id"

/-- Between two diagnostics that follow each other a pair was taken, or else both are about one
pair. -/
def Apart (b b' : List Token × Diagnostic) : Prop :=
  ∃ w, b'.1 = b.1 ++ w ∧ (HoldsPair w ∨ MissesNameToo b.2 w b'.2)

namespace PairsLog

variable {l : List Event} {w : List Token}

theorem firstMissing (h : PairsLog l) (hw : ∀ d l', l = .reported d :: l' → AtPairStart w) :
    ∀ b ∈ Event.blames w l, FirstMissing b.1 b.2 := by
  induction h generalizing w with
  | cut => simp
  | noType hd hfound hrest =>
    simp only [Event.blames_reported, Event.blames_of_diagnostics hrest, List.forall_mem_singleton]
    exact .type hd (hw _ _ rfl) hfound
  | cutName => simp
  | noName ht hd hfound hrest =>
    simp only [Event.blames_taken, Event.blames_reported, Event.blames_of_diagnostics hrest,
      List.forall_mem_singleton]
    exact .name hd ht hfound
  | last => simp
  | @comma type name comma l ht hn hc _ ih =>
    simp only [Event.blames_taken]
    exact ih fun _ _ _ => .inr ⟨_, comma, rfl, hc⟩
  | @noComma type name d l ht hn hd hfound hnext _ ih =>
    simp only [Event.blames_taken, Event.blames_reported, List.forall_mem_cons]
    refine ⟨.comma hd ⟨w, type, name, by simp, ht, hn⟩ (.inl hfound), ih fun d' l' hl => ?_⟩
    obtain rfl | ⟨_, rfl⟩ := hnext <;> cases hl
  | @noPair type name d rest ht hn hd hfound hrest =>
    simp only [Event.blames_taken, Event.blames_reported, Event.blames_of_diagnostics hrest,
      List.forall_mem_singleton]
    exact .comma hd ⟨w, type, name, by simp, ht, hn⟩ (.inr hfound)

/-- A diagnostic behind a type: the type is part of a pair by then, or its name is missing. -/
theorem head_blames {t : Token} (h : PairsLog (.taken t :: l)) :
    ∀ b ∈ Event.blames w (.taken t :: l), ∃ v, b.1 = w ++ v ∧
      (HoldsPair v ∨ v = [t] ∧ b.2.expected = "Id") := by
  intro b hb
  -- Behind the name, whatever is recorded has the pair before it.
  have hpair {name : Token} {l' : List Event} (ht : IsType t) (hn : name.kind = .identifier)
      (hb : b ∈ Event.blames w (.taken t :: .taken name :: l')) :
      ∃ v, b.1 = w ++ v ∧ (HoldsPair v ∨ v = [t] ∧ b.2.expected = "Id") := by
    rw [Event.blames_taken, Event.blames_taken] at hb
    obtain ⟨v, hv⟩ := Event.isPrefix_of_blames hb
    exact ⟨[t, name] ++ v, by simp [← hv], .inl ⟨[t, name], v, rfl, [], t, name, rfl, ht, hn⟩⟩
  cases h with
  | cutName => simp at hb
  | noName ht hd hfound hrest =>
    simp only [Event.blames_taken, Event.blames_reported, Event.blames_of_diagnostics hrest,
      List.mem_singleton] at hb
    subst hb
    exact ⟨[t], rfl, .inr ⟨rfl, hd⟩⟩
  | last => simp at hb
  | comma ht hn => exact hpair ht hn hb
  | noComma ht hn => exact hpair ht hn hb
  | noPair ht hn => exact hpair ht hn hb

theorem isChain_apart (h : PairsLog l) : (Event.blames w l).IsChain Apart := by
  induction h generalizing w with
  | cut => simp
  | noType hd hfound hrest => simp [Event.blames_of_diagnostics hrest]
  | cutName => simp
  | noName ht hd hfound hrest => simp [Event.blames_of_diagnostics hrest]
  | last => simp
  | comma ht hn hc _ ih =>
    simp only [Event.blames_taken]
    exact ih
  | noComma ht hn hd hfound hnext h ih =>
    simp only [Event.blames_taken, Event.blames_reported]
    refine List.isChain_cons.2 ⟨fun b hb => ?_, ih⟩
    obtain rfl | ⟨l', rfl⟩ := hnext
    · simp at hb
    · obtain ⟨v, hv, hpair | ⟨rfl, hid⟩⟩ := h.head_blames b (List.mem_of_mem_head? hb)
      · exact ⟨v, hv, .inl hpair⟩
      · exact ⟨_, hv, .inr ⟨hd, hfound, rfl, hid⟩⟩
  | noPair ht hn hd hfound hrest => simp [Event.blames_of_diagnostics hrest]

end PairsLog

/-- In a parameter list each diagnostic is about the first missing piece of a pair. Two that follow
each other have a whole pair between them, with one exception: a type without a `,` in front of it
is reported, and the name of this type is reported too if it is missing. -/
theorem parameters_blame_first_missing (s : Session) :
    ∃ l, s.Tells l (parameters s) ∧ (∀ b ∈ Event.blames [] l, FirstMissing b.1 b.2) ∧
      (Event.blames [] l).IsChain Apart := by
  obtain ⟨l, hl, l', rfl, hpairs⟩ := (parameters_trace s).exists_tells (fun _ h => h)
    fun _ _ _ ⟨l', hl', hpairs, _⟩ => ⟨l', hl', hpairs⟩
  refine ⟨_, hl, ?_, ?_⟩
  · rw [Event.blames_entering]
    exact hpairs.firstMissing fun _ _ _ => .inl rfl
  · rw [Event.blames_entering]
    exact hpairs.isChain_apart

theorem HoldsPair.two_le {w : List Token} (h : HoldsPair w) : 2 ≤ w.length := by
  obtain ⟨_, v, rfl, u, type, name, rfl, -⟩ := h
  simp only [List.length_append, List.length_cons, List.length_nil]
  omega

/-- The `,` and the name of the second pair are both reported, with no pair between them. -/
theorem parameters_blame_twice :
    ¬ ∃ l, (Session.ofSource "f" "int a int)").Tells l
        (parameters (Session.ofSource "f" "int a int)")) ∧
      (Event.blames [] l).IsChain fun b b' => ∃ w, b'.1 = b.1 ++ w ∧ HoldsPair w := by
  rintro ⟨l, hl, hchain⟩
  have hlog : (final (parameters (Session.ofSource "f" "int a int)"))).log.toList = l := hl.log_eq
  have htaken : (Event.blames [] l).map (·.1.length) = [2, 3] := by
    rw [← hlog]
    decide +kernel
  have hlengths : ((Event.blames [] l).map (·.1.length)).IsChain fun m n => m + 2 ≤ n := by
    refine (List.isChain_map _).2 (hchain.imp ?_)
    rintro b b' ⟨w, hw, hpair⟩
    have htwo := hpair.two_le
    simp [hw, htwo]
  rw [htaken] at hlengths
  simp at hlengths

/-! ## Where a list and a signature end -/

section
variable {s s' s₁ : Session} {l l' : List Event}

/-- Where the signature of a function ends: in front of the `{` of the body or behind the `)` of the
parameters, or else behind a list without all of its `,` that was read out. -/
inductive SignatureEnd : List Event → Session → Prop
  | body {l : List Event} {s' : Session} {t : Token} (hf : s'.front = .ok t)
      (hk : t.kind = .openCurly) : SignatureEnd l s'
  | closed {l : List Event} {s' : Session} {w : List Token} {close : Token}
      (hw : Event.tokens l = w ++ [close]) (hk : close.kind = .closeParen) : SignatureEnd l s'
  | readOut {l l' : List Event} {s' : Session} (hd : Event.diagnostics l' ≠ [])
      (h : ReadOut l' s') : SignatureEnd (l ++ l') s'

theorem SignatureEnd.append (h : SignatureEnd l s') (before : List Event) :
    SignatureEnd (before ++ l) s' := by
  cases h with
  | body hf hk => exact .body hf hk
  | @closed _ _ w close hw hk => exact .closed (w := Event.tokens before ++ w) (by simp [hw]) hk
  | readOut hd h =>
    rw [← List.append_assoc]
    exact .readOut hd h

/-- The parser ends where a signature does, if it goes on. -/
def EndsSignature {α : Type} (s : Session) (r : EStateM.Result Error Session α) : Prop :=
  Trace s (fun _ => True) (fun l _ s' => SignatureEnd l s') r

namespace EndsSignature

variable {α β : Type} {r : EStateM.Result Error Session α} {x : ParseM α} {f : α → ParseM β}
  {t : Token}

theorem behind (before : List Event) (h : EndsSignature s r) :
    Trace s (fun _ => True) (fun l _ s' => SignatureEnd (before ++ l) s') r :=
  Trace.imp h (fun _ h => h) fun _ _ _ _ h => h.append before

/-- The rest of the parser ends there. -/
theorem of_bind {Q : List Event → α → Session → Prop} (hx : Trace s (fun _ => True) Q (x s))
    (hf : ∀ l a s₁, s.Trail l s₁ → Q l a s₁ → EndsSignature s₁ (f a s₁)) :
    EndsSignature s ((x >>= f) s) :=
  Trace.bind hx fun l a s₁ _ h₁ hq => (hf l a s₁ h₁ hq).behind l

end EndsSignature

theorem synchronize_marker (markers : List Kind) (context : String) (s : Session) :
    Trace s (fun _ => True) (fun _ marker s' => marker.kind ∈ markers ∧ s'.front = .ok marker)
      (synchronize markers context s) :=
  Trace.imp (Only.synchronize (p := fun _ => True) (fun _ _ => trivial) fun _ _ => trivial)
    (fun _ _ => trivial) fun _ _ _ _ h => h.2

theorem listLost_trace (params : Option (List Param)) (s : Session) :
    Trace s (fun _ => True)
      (fun l lost s' => l = [] ∧ s'.front = s.front ∧ (lost = true → params = none ∧
        ∃ t, s'.front = .ok t ∧ t.kind ≠ .closeParen))
      (listLost params s) := by
  cases params with
  | some ps => exact .pure ⟨rfl, rfl, by simp⟩
  | none =>
    have hnext : listLost none = (peekKind >>= fun k => pure (!decide (k = .closeParen))) := by
      simp [listLost, nextIs]
    rw [hnext]
    refine .peekKind_bind trivial fun t s₁ h₁ hf => .pure ⟨rfl, h₁.front_eq, fun h => ?_⟩
    exact ⟨rfl, t, hf, by simpa using h⟩

/-- A list that was given up ends at the `{` of the body, unless it was read out. -/
theorem SignatureEnd.of_leaves {t : Token} (h : Leaves l none s') (hf : s'.front = .ok t)
    (ht : t.kind ≠ .closeParen) : SignatureEnd l s' := by
  obtain ⟨marker, hmarker, hmem⟩ | hread := h.1
  · rw [hf] at hmarker
    cases hmarker
    exact .body hf (by simpa [parameterMarkers, ht] using hmem)
  · exact .readOut (l := []) (h.2 rfl) hread

theorem Leaves.congr {r : Option (List Param)} (h : Leaves l r s') (hf : s₁.front = s'.front) :
    Leaves l r s₁ := by
  refine ⟨h.1.imp ?_ fun h => ⟨h.commas, h.pair, by rw [hf]; exact h.front⟩, h.2⟩
  rintro ⟨t, ht⟩
  exact ⟨t, by rwa [hf]⟩

/-- The `)` of a list, or what stands in its place, up to the body. -/
theorem closeList_ends (params : Option (List Param)) (s : Session) :
    EndsSignature s ((expect .closeParen "')'" Context.functionDeclaration >>= fun closed =>
      match closed with
      | some _ => pure params
      | none =>
        synchronize [.openCurly] Context.functionDeclaration >>= fun _ => pure none) s) := by
  refine (Trace.expect (by simp) trivial fun _ _ _ => trivial).bind ?_
  rintro _ _ s₁ - - (⟨close, rfl, -, hk, rfl⟩ | ⟨t, rfl, -, -, -, rfl⟩)
  · exact .pure (.closed (w := []) (by simp) hk)
  · refine EndsSignature.behind _ (.of_bind (synchronize_marker _ _ s₁) ?_)
    rintro _ marker s₂ - ⟨hmem, hf⟩
    exact .pure (.body hf (by simpa using hmem))

theorem parameterList_ends (s : Session) : EndsSignature s (parameterList s) := by
  refine .emit_bind fun s₁ _ => .nextIs_ite trivial (fun t s₂ _ hf ht => ?_) fun t s₂ _ hf ht => ?_
  · exact .advance_bind hf (by simp [ht]) fun s₃ _ =>
      .pure (.closed (w := []) (by simp) ht)
  refine ((parameters_trace s₂).imp (fun _ _ => trivial) fun _ _ _ _ h => h).bind ?_
  rintro _ params s₃ - - ⟨l, rfl, -, hleaves⟩
  refine (listLost_trace params s₃).bind ?_
  rintro _ lost s₄ - - ⟨rfl, hfront, hlost⟩
  cases lost with
  | true =>
    obtain ⟨rfl, u, hu, hne⟩ := hlost rfl
    have hend : SignatureEnd l s₄ := .of_leaves (hleaves.congr hfront) hu hne
    exact .pure (by simpa using hend.append [.entering "function parameters",
      .entering "parameter declarations"])
  | false => exact (closeList_ends params s₄).behind (_ :: _ :: l)

theorem signatureFrom_ends (position : Position) (name : Option Token) (s : Session) :
    EndsSignature s (signatureFrom position name s) := by
  refine (Trace.expect (by simp) trivial fun _ _ _ => trivial).bind ?_
  rintro opening _ s₁ - - (⟨opened, rfl, -, -, -⟩ | ⟨t, rfl, -, -, -, -⟩)
  · refine ((parameterList_ends s₁).behind opening).bind ?_
    intro l params s₂ _ _ hend
    split
    · exact .pure (by simpa using hend)
    · exact .pure (by simpa using hend)
  · refine EndsSignature.behind _ (.of_bind (synchronize_marker _ _ s₁) ?_)
    rintro _ marker s₂ - ⟨hmem, hf⟩
    unfold takeMarker
    by_cases hk : marker.kind = .closeParen
    · rw [if_pos hk, bind_assoc]
      exact .advance_bind hf (by simp [hk]) fun s₃ _ => .pure (.closed (w := []) (by simp) hk)
    · rw [if_neg hk, pure_bind]
      exact .pure (.body hf (by simpa [hk] using hmem))

theorem signature_ends (s : Session) : EndsSignature s (signature s) := by
  refine .emit_bind fun s₁ _ => .peek_bind trivial fun first s₂ _ _ =>
    EndsSignature.behind [_] (.of_bind
      (Trace.expect (by simp) trivial fun _ _ _ => trivial) ?_)
  rintro _ _ s₃ - (⟨keyword, rfl, -, -, rfl⟩ | ⟨t, rfl, -, -, -, rfl⟩)
  · refine .peekKind_bind trivial fun t s₄ _ hf => ?_
    have hnamed (hk : t.kind ≠ .eof) : EndsSignature s₄ ((advance >>= fun name =>
        signatureFrom first.position (some name)) s₄) :=
      .advance_bind hf hk fun s₅ _ => (signatureFrom_ends _ _ s₅).behind [_]
    split
    next hk => exact hnamed (by simp [hk])
    next hk => exact hnamed (by simp [hk])
    next =>
      refine .reportNext_bind hf trivial fun s₅ _ _ => ?_
      refine EndsSignature.behind [_] (.of_bind (synchronize_marker _ _ s₅) ?_)
      rintro _ marker s₆ - ⟨-, hf₆⟩
      split
      next hk => exact .pure (.body hf₆ hk)
      next => exact signatureFrom_ends _ _ s₆
  · refine .of_bind (synchronize_marker _ _ s₃) ?_
    rintro _ marker s₄ - ⟨hmem, hf⟩
    exact .pure (.body hf (by simpa using hmem))

/-- A parameter list that had to be reported ends at a `)` or at a `{`, with one exception: if
nothing but `,` in front of types was missing, the list was read out, and it ends at whatever stands
behind its last name. In the same way a signature that had to be reported ends in front of a `{` or
behind a `)`, unless its parameters were read out. -/
theorem parameters_end_at_marker (s : Session) :
    (∀ s', parameters s = .ok none s' →
      AtMarker s' ∨ ∃ l, s.Trail l s' ∧ Event.diagnostics l ≠ [] ∧ ReadOut l s') ∧
    ∀ s', signature s = .ok none s' → ∃ l, s.Trail l s' ∧ SignatureEnd l s' := by
  constructor
  · intro s' h
    have htrace := parameters_trace s
    rw [h] at htrace
    obtain ⟨_, hl, l, rfl, -, hend, hreported⟩ := htrace.of_ok
    refine hend.imp id fun hread => ⟨_, hl, hreported rfl, ?_⟩
    exact ⟨hread.commas, hread.pair, hread.front⟩
  · intro s' h
    have htrace := signature_ends s
    rw [h] at htrace
    exact htrace.of_ok

/-- What a parser gives, the kind of the last token that was taken since the session was started,
and the kind of the next. -/
def probe {α : Type} (x : ParseM α) : ParseM (α × Option Kind × Kind) := do
  let a ← x
  let s ← get
  let next ← peekKind
  pure (a, (Event.tokens s.log.toList).getLast?.map Token.kind, next)

theorem of_probe {α : Type} {x : ParseM α} {a : α} {last : Option Kind} {next : Kind}
    (h : (probe x).run' s = some (a, last, next)) :
    ∃ s' t, x s = .ok a s' ∧ (Event.tokens s'.log.toList).getLast?.map Token.kind = last ∧
      s'.front = .ok t ∧ t.kind = next := by
  unfold EStateM.run' EStateM.run at h
  cases hp : probe x s with
  | error e s' =>
    rw [hp] at h
    cases h
  | ok v s₁ =>
    rw [hp] at h
    cases h
    obtain ⟨a', s', hx, hrest⟩ := bind_eq_ok hp
    obtain ⟨k, s₂, hk, hv⟩ := bind_eq_ok (x := peekKind) hrest
    obtain ⟨u, s₃, hpeek, hu⟩ := bind_eq_ok hk
    cases hu
    cases hv
    exact ⟨s', u, hx, rfl, front_before_peek hpeek, rfl⟩

/-- A list that was read out may end at a `;`, and so may its signature. -/
theorem parameters_end_at_semicolon :
    ¬ (∀ s', parameters (Session.ofSource "f" "int a int b;)") = .ok none s' → AtMarker s') ∧
    ¬ ∀ s', signature (Session.ofSource "f" "func f(int a int b;) \x7b\x7d") = .ok none s' →
      ∃ l, (Session.ofSource "f" "func f(int a int b;) \x7b\x7d").Trail l s' ∧
        ((∃ t, s'.front = .ok t ∧ t.kind = .openCurly) ∨
          ∃ w close, Event.tokens l = w ++ [close] ∧ close.kind = .closeParen) := by
  have hlist : (probe parameters).run' (.ofSource "f" "int a int b;)") =
      some (none, some .identifier, .semicolon) := by decide +kernel
  have hsignature : (probe signature).run' (.ofSource "f" "func f(int a int b;) \x7b\x7d") =
      some (none, some .identifier, .semicolon) := by decide +kernel
  constructor
  · intro h
    obtain ⟨s', t, hr, -, hf, hk⟩ := of_probe hlist
    obtain ⟨marker, hmarker, hmem⟩ := h s' hr
    rw [hf] at hmarker
    cases hmarker
    simp [hk, parameterMarkers] at hmem
  · intro h
    obtain ⟨s', t, hr, hlast, hf, hk⟩ := of_probe hsignature
    obtain ⟨l, hl, ⟨o, ho, hcurly⟩ | ⟨w, close, hw, hclose⟩⟩ := h s' hr
    · rw [hf] at ho
      cases ho
      simp [hk] at hcurly
    · have hlog : s'.log.toList = l := hl.log_eq
      simp [hlog, hw, hclose] at hlast

end

end Func

end FxLang
