import FxLang.Proofs.Grammar.Layout
import FxLang.Proofs.Session.Tally
import FxLang.Proofs.Token.Relexing

/-!
# Why reading a source ends

Reading a source as a program ends with a program or for one of three reasons: there is a lexical
error, there are too many diagnostics, or the input ends while tokens are skipped. Errors about the
syntax of an expression never get out of a session, since they are reported on the way.

What `Fate` says of every rule tells the reasons apart, `Tally` gives the number of diagnostics, and
the segments of a source give the place of its end. The line of the end is counted in a word, which
runs over behind so many lines as it has values.

* `Session.position_of_ending`: where the end of a source is.
* `Program.ending_reasons`: the reasons, and what is known in each case.
* `Program.ending_of_linesBehind`: a source whose end stands on a line as far down as one likes.
-/

namespace FxLang

open Session

/-- Where a source ends: on the line behind all of its newlines. -/
def endPosition (file source : String) : Position :=
  { file, line := Text.lineBehind source.toList }

namespace Session

/-- The next token to be taken is the end of the input, and it stands at the position. -/
def AtEnd (s : Session) (position : Position) : Prop :=
  ∃ t rest, TokenStream.next s.stream = .ok t rest ∧ t.isEof = true ∧ t.position = position

variable {file source : String} {s : Session} {t : Token}

theorem position_of_ending (h : (ofSource file source).ending = .ok t) :
    t.position = endPosition file source := by
  obtain ⟨row, last, -, hseg⟩ := TokenStream.exists_segmentation _ t rfl h
  exact hseg.eof_position_eq

/-- A session on a source that has come to the end of the input. -/
theorem atEnd_of_front {w : List Token} {ds : List Diagnostic}
    (hm : (ofSource file source).Moves w ds s) (hf : s.front = .ok t) (hk : t.isEof = true) :
    s.AtEnd (endPosition file source) ∧ t.position = endPosition file source := by
  have hend : s.ending = .ok t := (tokens_of_front_eof hf (by simpa [Token.isEof] using hk)).2
  have hpos : t.position = endPosition file source := position_of_ending (hm.ending_eq ▸ hend)
  obtain ⟨rest, hnext⟩ := TokenStream.next_of_front hf
  exact ⟨⟨t, rest, hnext, hk, hpos⟩, hpos⟩

end Session

namespace Program

/-- Where the input ends while tokens are skipped, the error stands at the end of the source. -/
theorem position_of_unexpectedEof {file source context : String} {e : Error}
    (h : (ofSource file source).outcome = .error e) (hcause : e.cause = .unexpectedEof context) :
    e.position = endPosition file source ∧
      (ofSource file source).session.AtEnd (endPosition file source) := by
  obtain ⟨s, hm, hlog, hout⟩ := (Session.ofSource file source).parseProgram_moves
  have hfate := read_fate_nil s
  rw [show (ofSource file source).outcome = _ from hout] at h
  generalize read s = r at hfate hlog h
  cases hfate with
  | goes => cases h
  | ends he _ _ =>
    cases h
    obtain ⟨w, t, hm', -, hf, heof, hposition⟩ := he.eof_of_cause hcause
    have hfront := hlog.front_eq.trans hf
    obtain ⟨hend, ht⟩ := atEnd_of_front ((hm.trans hm').trans hlog) hfront heof
    exact ⟨hposition.trans ht, hend⟩
  | trips hsilent => exact hsilent.elim

/-- Reading a source as a program fails only with a lexical error, with too many diagnostics or at
the end of the input. At the end of the input something was reported before, the error stands where
the source ends, and the end is what comes next. A program that is read stays below the limit of
diagnostics, and the end of the input is what comes next. The line of the end is one more than the
number of newlines as long as a word can count them. -/
theorem ending_reasons (file source : String) :
    (∀ e, (ofSource file source).outcome = .error e →
      IsReason e ∧ e.category ≠ .syntactic ∧ e.category ≠ .evaluation) ∧
    (∀ e context, (ofSource file source).outcome = .error e → e.cause = .unexpectedEof context →
      1 ≤ (ofSource file source).diagnostics.length ∧
      (ofSource file source).diagnostics.length < maxErrors ∧
      e.position = endPosition file source ∧
      (source.toList.count '\n' < UInt32.size - 1 →
        e.position.line.toNat = 1 + source.toList.count '\n') ∧
      (ofSource file source).session.AtEnd (endPosition file source)) ∧
    ∀ p, (ofSource file source).outcome = .ok p →
      (ofSource file source).diagnostics.length < maxErrors ∧
      (ofSource file source).session.AtEnd (endPosition file source) := by
  obtain ⟨s, hm, hlog, hout⟩ := (Session.ofSource file source).parseProgram_moves
  have hdiag : (ofSource file source).diagnostics = (final (read s)).diagnostics :=
    hlog.diagnostics_eq.trans (List.append_nil _)
  have hstart : (Session.ofSource file source).InStep := rfl
  have hstep := hstart.of_moves hm
  have hcount := hstep.of_tally (tally_lasting.program s)
  have hlt := length_lt_of_program hstep (diagnostics_of_moves hm)
  have hfate := read_fate_nil s
  have heof := @position_of_unexpectedEof file source
  have hline : source.toList.count '\n' < UInt32.size - 1 →
      (endPosition file source).line.toNat = 1 + source.toList.count '\n' :=
    Text.toNat_lineBehind
  rw [hdiag] at *
  rw [show (ofSource file source).outcome = _ from hout] at heof ⊢
  generalize read s = r at hfate hlog hlt hcount heof
  cases hfate with
  | @goes _ _ p s' hm' _ _ hq =>
    obtain ⟨hnil, t, hend⟩ := hq
    refine ⟨?_, ?_, ?_⟩
    · intro e h
      cases h
    · intro e context h
      cases h
    · intro _ _
      have hfront := hlog.front_eq.trans ((front_of_nil hnil).trans hend)
      have heof := (TokenStream.isEof_upcoming s'.stream).2 t hend
      exact ⟨hlt (by simp [failure]), (atEnd_of_front ((hm.trans hm').trans hlog) hfront heof).1⟩
  | @ends ds e s' he _ _ =>
    refine ⟨?_, ?_, ?_⟩
    · intro _ h
      cases h
      exact ⟨he.isReason, he.isReason.category_ne⟩
    · intro _ context h hcause
      cases h
      obtain ⟨hposition, hend⟩ := heof rfl hcause
      obtain ⟨-, -, -, hpos, -⟩ := he.eof_of_cause hcause
      have hbelow : s'.diagnostics.length < maxErrors := hlt (by simp [failure, hcause])
      exact ⟨hcount ▸ hpos, hbelow, hposition, hposition ▸ hline, hend⟩
    · intro p h
      cases h
  | trips hsilent => exact hsilent.elim

/-- In `func f ;\n` the input ends while the `{` of the function is looked for. -/
theorem ending_reasons_skipping :
    ∃ e, (ofSource "f" "func f ;\n").outcome = .error e ∧
      e.cause = .unexpectedEof Context.functionDeclaration ∧
      e.position = ⟨"f", 2⟩ ∧ (ofSource "f" "func f ;\n").session.AtEnd ⟨"f", 2⟩ := by
  have he : (ofSource "f" "func f ;\n").outcome =
      .error { cause := .unexpectedEof Context.functionDeclaration, position := ⟨"f", 2⟩ } := by
    decide +kernel
  have hposition : endPosition "f" "func f ;\n" = ⟨"f", 2⟩ := by decide +kernel
  obtain ⟨-, -, -, -, hend⟩ := (ending_reasons "f" "func f ;\n").2.1 _ _ he rfl
  exact ⟨_, he, rfl, rfl, hposition ▸ hend⟩

/-! ## Behind as many lines as one likes -/

/-- A word that starts no function, a function without a name, and `n` newlines behind them. -/
def linesBehind (n : Nat) : String :=
  String.ofList (['x', ' ', 'f', 'u', 'n', 'c'] ++ List.replicate n '\n')

/-- The two words stand on the first line, and the end stands behind all lines. -/
theorem tokenize_linesBehind (n : Nat) :
    tokenize "f" (linesBehind n) =
      .ok [{ kind := .identifier, text := "x", position := ⟨"f", 1⟩ },
        { kind := .func, text := "func", position := ⟨"f", 1⟩ }, .eof ⟨"f", 1 + UInt32.ofNat n⟩] := by
  have hblanks : ∀ c ∈ List.replicate n '\n', Text.isBlank c = true := by
    intro c hc
    rw [List.eq_of_mem_replicate hc]
    exact Text.isBlank_newline
  have hspace : Text.isBlank ' ' = true := by decide
  have hword : classify ['x'] = .ok (.identifier, .none) := by decide +kernel
  have hfunc : classify ['f', 'u', 'n', 'c'] = .ok (.func, .none) := by decide +kernel
  have hisWord : IsLexeme ['x'] := .word (by decide) (by decide) (by simp)
  have hisFunc : IsLexeme ['f', 'u', 'n', 'c'] :=
    .word (by decide) (by decide) (List.all_eq_true.1 (by decide))
  have hrest : (TokenStream.ofSource "f" (linesBehind n)).cursor.rest =
      [] ++ (['x'] ++ ([' '] ++ (['f', 'u', 'n', 'c'] ++ List.replicate n '\n'))) := by
    simp [TokenStream.ofSource, Text.Cursor.ofText, linesBehind]
  obtain ⟨s₁, hp₁, hfile₁, hrest₁, hline₁, hn₁⟩ :=
    TokenStream.next_of_text rfl hrest (by simp) hisWord hword (by simpa using hspace)
  obtain ⟨s₂, hp₂, hfile₂, hrest₂, hline₂, hn₂⟩ :=
    TokenStream.next_of_text hp₁ hrest₁ (by simpa using hspace) hisFunc hfunc
      (fun c hc => hblanks c (List.mem_of_mem_head? hc))
  obtain ⟨s₃, hn₃⟩ := TokenStream.next_of_blanks hp₂ (hrest₂ ▸ hblanks)
  have hline : s₁.cursor.line = 1 := hline₁
  have hline' : s₂.cursor.line = 1 := by rw [hline₂, hline]; rfl
  rw [hline, hfile₁] at hn₂
  rw [hline', hrest₂, hfile₂, hfile₁, Text.newlines_replicate] at hn₃
  have hu₃ := TokenStream.upcoming_of_next_eof hn₃ rfl
  have hu₂ := TokenStream.upcoming_of_next hn₂ rfl
  have hu₁ := TokenStream.upcoming_of_next hn₁ rfl
  refine (TokenStream.toList_eq_ok_iff _ _).2 ⟨.eof ⟨"f", 1 + UInt32.ofNat n⟩, ?_, ?_⟩
  · simp only [TokenStream.ending, hu₁, hu₂, hu₃]
    rfl
  · simp only [TokenStream.tokens, hu₁, hu₂, hu₃]
    rfl

/-- However many lines stand behind the words, reading ends like without them, and on the last line. -/
theorem ending_of_linesBehind (n : Nat) :
    (ofSource "f" (linesBehind n)).diagnostics.map Diagnostic.bare =
      (ofSource "f" (linesBehind 0)).diagnostics.map Diagnostic.bare ∧
    ∃ e, (ofSource "f" (linesBehind n)).outcome = .error e ∧
      e.cause = .unexpectedEof Context.functionDeclaration ∧
      e.position = ⟨"f", 1 + UInt32.ofNat n⟩ := by
  obtain ⟨m, htwins⟩ := twins_ofSource (tokenize_linesBehind n) (tokenize_linesBehind 0) rfl
  obtain ⟨hdiagnostics, houtcome⟩ := ofSource_alike htwins
  refine ⟨hdiagnostics, ?_⟩
  have hshort : ((ofSource "f" (linesBehind 0)).outcome.map bare).mapError Error.cause =
      .error (.unexpectedEof Context.functionDeclaration) := by decide +kernel
  rw [hshort] at houtcome
  cases he : (ofSource "f" (linesBehind n)).outcome with
  | ok p =>
    rw [he] at houtcome
    cases houtcome
  | error e =>
    rw [he] at houtcome
    have hcause : e.cause = .unexpectedEof Context.functionDeclaration := Except.error.inj houtcome
    refine ⟨e, rfl, hcause, ?_⟩
    have hfront : Text.newlines ['x', ' ', 'f', 'u', 'n', 'c'] = 0 := by decide
    rw [(position_of_unexpectedEof he hcause).1, endPosition, Text.lineBehind, linesBehind,
      String.toList_ofList, Text.newlines_append, Text.newlines_replicate, hfront, UInt32.zero_add]

/-- Behind so many lines as a word has values the end is said to stand on line 0. -/
theorem ending_line_runs_over :
    ∃ e, (ofSource "f" (linesBehind (UInt32.size - 1))).outcome = .error e ∧
      e.cause = .unexpectedEof Context.functionDeclaration ∧
      e.position.line.toNat = 0 ∧
      1 + (linesBehind (UInt32.size - 1)).toList.count '\n' = UInt32.size := by
  obtain ⟨-, e, he, hcause, hposition⟩ := ending_of_linesBehind (UInt32.size - 1)
  refine ⟨e, he, hcause, by rw [hposition]; decide, ?_⟩
  rw [linesBehind, String.toList_ofList, List.count_append, List.count_replicate_self]
  decide

end Program

end FxLang
