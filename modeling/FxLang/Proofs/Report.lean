import FxLang.Report
import FxLang.Proofs.Grammar.Endings
import FxLang.Proofs.Token.Places

/-!
# What reports show of a source

The line of a token or an error was counted while the source was cut into tokens. A report cuts the
source at its newlines and takes the line of that number, without the carriage returns at its end
and the indentation at its front. Both ways lead to the same line: in it stands the text of the
token, or the text that makes none, and the trimming leaves it whole, since it has no blank in it.

`Report.Frames` says how the lines of a snippet are laid out, `Report.Shows` that the line in it has
a text in it.

* `Text.getElem?_split`: the piece that a text stands in is told by the separators in front of it.
* `Report.frames_of_line?`: a line that the source has is laid out in a snippet of three lines.
* `Report.shows_of_results`: what a result is about stands on the line that is shown for it.
* `Program.reports_show_lines`: the tokens, errors and diagnostics of a source.
-/

namespace FxLang

open Text (isBlank split line? lineBehind dropIndentation dropFinalReturns)

/-! ## Pieces of a text -/

namespace Text

variable {sep : Char} {v x : List Char}

/-- A text without separators is put in front of the first piece. -/
theorem split_append (h : sep ∉ v) (x : List Char) :
    ∃ first rest, split sep x = first :: rest ∧ split sep (v ++ x) = (v ++ first) :: rest := by
  obtain ⟨first, rest, hx⟩ := List.exists_cons_of_ne_nil (split_ne_nil sep x)
  refine ⟨first, rest, hx, ?_⟩
  induction v with
  | nil => exact hx
  | cons c v ih =>
    simp only [List.mem_cons, not_or] at h
    rw [List.cons_append, split, if_neg (Ne.symm h.1), ih h.2]
    rfl

theorem split_append_cons (h : sep ∉ v) (x : List Char) :
    split sep (v ++ sep :: x) = v :: split sep x := by
  obtain ⟨first, rest, hx, hsplit⟩ := split_append h (sep :: x)
  rw [split, if_pos rfl] at hx
  obtain ⟨rfl, rfl⟩ := List.cons.inj hx
  rw [hsplit, List.append_nil]

theorem split_of_not_mem (h : sep ∉ v) : split sep v = [v] := by
  obtain ⟨first, rest, hx, hsplit⟩ := split_append h []
  obtain ⟨rfl, rfl⟩ := List.cons.inj hx
  simpa using hsplit

theorem not_mem_of_mem_split {piece : List Char} (h : piece ∈ split sep x) : sep ∉ piece := by
  induction x generalizing piece with
  | nil =>
    obtain rfl := List.mem_singleton.1 h
    simp
  | cons c x ih =>
    rw [split] at h
    by_cases hc : c = sep
    · rw [if_pos hc] at h
      rcases List.mem_cons.1 h with rfl | h
      · simp
      · exact ih h
    · obtain ⟨first, rest, hx⟩ := List.exists_cons_of_ne_nil (split_ne_nil sep x)
      rw [hx] at ih h
      rw [if_neg hc] at h
      rcases List.mem_cons.1 h with rfl | h
      · simp [Ne.symm hc, ih List.mem_cons_self]
      · exact ih (List.mem_cons_of_mem _ h)

/-- The number of the piece that a text stands in is the number of the separators in front of it. -/
theorem getElem?_split (h : sep ∉ v) (before after : List Char) :
    ∃ piece, (split sep (before ++ (v ++ after)))[before.count sep]? = some piece ∧
      v <:+: piece := by
  induction before with
  | nil =>
    obtain ⟨first, rest, -, hsplit⟩ := split_append h after
    exact ⟨v ++ first, by simp [hsplit], (List.prefix_append v first).isInfix⟩
  | cons c before ih =>
    obtain ⟨piece, hpiece, hv⟩ := ih
    rw [List.cons_append, split]
    by_cases hc : c = sep
    · exact ⟨piece, by simpa [hc] using hpiece, hv⟩
    · obtain ⟨first, rest, hx⟩ := List.exists_cons_of_ne_nil
        (split_ne_nil sep (before ++ (v ++ after)))
      rw [if_neg hc, List.count_cons_of_ne hc, hx]
      rw [hx] at hpiece
      cases hn : before.count sep with
      | zero =>
        rw [hn] at hpiece
        obtain rfl : first = piece := by simpa using hpiece
        exact ⟨c :: first, by simp, hv.trans (List.suffix_cons c first).isInfix⟩
      | succ n => exact ⟨piece, by simpa [hn] using hpiece, hv⟩

/-! ## Trimming -/

/-- What has none of the dropped characters in it is not touched. -/
theorem isInfix_dropWhile {p : Char → Bool} {l : List Char} (h : v <:+: l)
    (hv : ∀ c ∈ v, p c = false) : v <:+: l.dropWhile p := by
  cases v with
  | nil => exact (List.nil_prefix).isInfix
  | cons c v =>
    have hkeep : ∀ r, (c :: r).dropWhile p = c :: r := by
      intro r
      rw [List.dropWhile_cons, hv c List.mem_cons_self]
      rfl
    obtain ⟨a, b, rfl⟩ := h
    rw [List.append_assoc, List.dropWhile_append, List.cons_append, hkeep]
    split
    · exact (List.prefix_append (c :: v) b).isInfix
    · exact List.infix_append' _ (c :: v) b

theorem isInfix_dropFinalReturns {l : List Char} (h : v <:+: l) (hv : ∀ c ∈ v, isBlank c = false) :
    v <:+: dropFinalReturns l := by
  have hreturn : ∀ c ∈ v.reverse, decide (c = '\r') = false := by
    intro c hc
    have hblank := hv c (by simpa using hc)
    rw [decide_eq_false_iff_not]
    rintro rfl
    cases hblank
  have hdrop := (isInfix_dropWhile h.reverse hreturn).reverse
  rwa [List.reverse_reverse] at hdrop

theorem isInfix_dropIndentation {text : String} (h : v <:+: text.toList)
    (hv : ∀ c ∈ v, isBlank c = false) : v <:+: (dropIndentation text).toList := by
  rw [dropIndentation, String.toList_ofList]
  refine isInfix_dropWhile h ?_
  intro c hc
  have hblank := hv c hc
  simp only [Bool.or_eq_false_iff, decide_eq_false_iff_not]
  constructor <;> (rintro rfl; cases hblank)

theorem not_mem_of_line? {source text : String} {number : UInt32}
    (h : line? source number = some text) :
    '\n' ∉ text.toList := by
  unfold line? at h
  split at h
  · cases h
  · obtain ⟨piece, hpiece, rfl⟩ := Option.map_eq_some_iff.1 h
    have hnot := not_mem_of_mem_split (List.mem_of_getElem? hpiece)
    intro hmem
    rw [String.toList_ofList, dropFinalReturns, List.mem_reverse] at hmem
    exact hnot (by simpa using (List.dropWhile_sublist _).subset hmem)

end Text

/-! ## Snippets -/

namespace Report

/-- The line of the source with the number is `text`, and the snippet has three lines: the number, a
bar and the text without its indentation, between two that have nothing but a bar in the column of
the first bar of the second line. -/
def Frames (source : String) (line : UInt32) (text : String) : Prop :=
  line? source line = some text ∧
    let shown := (toString line ++ " | " ++ dropIndentation text).toList
    let bar := List.replicate (shown.idxOf '|') ' ' ++ ['|']
    split '\n' (snippet source line).toList = [bar, shown, bar]

/-- The line of the source with the number has the text `shown` in it, as it stands in the source
and in the snippet. -/
def Shows (source : String) (line : UInt32) (shown : String) : Prop :=
  ∃ text, Frames source line text ∧ shown.toList <:+: text.toList ∧
    shown.toList <:+: (dropIndentation text).toList

variable {source text : String} {line : UInt32}

theorem not_mem_toString {c : Char} (hc : c.isDigit = false) (n : UInt32) :
    c ∉ (toString n).toList := by
  intro hmem
  have hnat : c ∈ (toString n.toNat).toList := hmem
  have hdigit : c.isDigit = true :=
    Nat.isDigit_of_mem_toDigits (b := 10) (by decide) (by decide) (by simpa using hnat)
  rw [hc] at hdigit
  cases hdigit

/-- In front of the first bar of the second line stand the number and a space. -/
theorem idxOf_bar (line : UInt32) (text : String) :
    (toString line ++ " | " ++ text).toList.idxOf '|' = (toString line).length + 1 := by
  have hbar := not_mem_toString (c := '|') (by decide) line
  rw [String.toList_append, String.toList_append, List.append_assoc, List.idxOf_append,
    if_neg hbar, String.length_toList]
  have hfirst : (" | ".toList ++ text.toList).idxOf '|' = 1 := rfl
  rw [hfirst, Nat.add_comm]

/-- A line that the source has is laid out in three lines. -/
theorem frames_of_line? (h : line? source line = some text) : Frames source line text := by
  refine ⟨h, ?_⟩
  intro shown bar
  have hbar : bar = (Report.bar (toString line).length).toList := by
    rw [Report.bar, String.toList_ofList, ← idxOf_bar line (dropIndentation text)]
  have hindent : '\n' ∉ (dropIndentation text).toList := by
    rw [dropIndentation, String.toList_ofList]
    exact fun hmem => Text.not_mem_of_line? h ((List.dropWhile_sublist _).subset hmem)
  have hshown : '\n' ∉ shown := by
    have hnumber := not_mem_toString (c := '\n') (by decide) line
    simp only [shown, String.toList_append, List.mem_append, not_or]
    exact ⟨⟨hnumber, by decide⟩, hindent⟩
  have hblank : '\n' ∉ bar := by simp [bar]
  have hsnippet : (snippet source line).toList = bar ++ '\n' :: (shown ++ '\n' :: bar) := by
    simp only [snippet, h, Option.getD_some, String.toList_append, ← hbar, shown]
    simp [List.append_assoc]
  rw [hsnippet, Text.split_append_cons hblank, Text.split_append_cons hshown,
    Text.split_of_not_mem hblank]

theorem Shows.exists_frames {shown : String} (h : Shows source line shown) :
    ∃ text, Frames source line text := by
  obtain ⟨text, hframes, -⟩ := h
  exact ⟨text, hframes⟩

/-- A text without blanks is shown with the line that it starts on. -/
theorem shows_of_append {before shown after : List Char}
    (hlines : source.toList.count '\n' < UInt32.size - 1)
    (hsource : source.toList = before ++ (shown ++ after))
    (hblank : ∀ c ∈ shown, isBlank c = false) :
    Shows source (lineBehind before) (String.ofList shown) := by
  have hnewline : '\n' ∉ shown := fun hmem => absurd (hblank _ hmem) (by decide)
  obtain ⟨piece, hpiece, hin⟩ := Text.getElem?_split hnewline before after
  have hcount : before.count '\n' < UInt32.size - 1 := by
    rw [hsource, List.count_append] at hlines
    omega
  have hnumber := Text.toNat_lineBehind hcount
  have hpos : lineBehind before ≠ 0 := by
    intro hzero
    rw [hzero, UInt32.toNat_zero] at hnumber
    omega
  have hindex : (lineBehind before - 1).toNat = before.count '\n' := by
    have hone : (1 : UInt32) ≤ lineBehind before := by
      rw [UInt32.le_iff_toNat_le, hnumber]
      exact Nat.le_add_right 1 _
    rw [UInt32.toNat_sub_of_le _ _ hone, hnumber, UInt32.toNat_one, Nat.add_sub_cancel_left]
  have hline : line? source (lineBehind before) = some (String.ofList (dropFinalReturns piece)) := by
    rw [line?, if_neg hpos, hindex, hsource, hpiece]
    rfl
  have htext := Text.isInfix_dropFinalReturns hin hblank
  rw [← String.toList_ofList (l := dropFinalReturns piece)] at htext
  refine ⟨_, frames_of_line? hline, ?_, ?_⟩
  · rwa [String.toList_ofList]
  · rw [String.toList_ofList]
    exact Text.isInfix_dropIndentation htext hblank

/-! ## Results -/

/-- What a result of a source is about is shown with its line. -/
theorem shows_of_results {file : String} {k : Nat} {r : Except Error Token}
    (hlines : source.toList.count '\n' < UInt32.size - 1)
    (h : (TokenStream.ofSource file source).results k = r) :
    ∃ shown, TokenStream.shownText r = some shown ∧
      Shows source (TokenStream.shownPosition r).line shown := by
  obtain ⟨before, shown, after, hplace⟩ :=
    TokenStream.exists_place (s := .ofSource file source) rfl k
  rw [← h, hplace.position_eq]
  exact ⟨_, hplace.text_eq, shows_of_append hlines hplace.rest_eq hplace.isBlank_eq⟩

theorem shows_of_token {file : String} {t : Token}
    (hlines : source.toList.count '\n' < UInt32.size - 1)
    (h : (Session.ofSource file source).Shows t) : Shows source t.position.line t.text := by
  have hmem : Except.ok t ∈ (TokenStream.ofSource file source).tokens.map Except.ok ++
      [(TokenStream.ofSource file source).ending] := by
    rcases h with h | h
    · exact List.mem_append_left _ (List.mem_map_of_mem h)
    · exact List.mem_append_right _ (List.mem_singleton.2 h.symm)
  obtain ⟨k, hk⟩ := TokenStream.exists_results hmem
  obtain ⟨shown, htext, hshows⟩ := shows_of_results hlines hk
  cases htext
  exact hshows

theorem shows_of_ending {file : String} {e : Error}
    (hlines : source.toList.count '\n' < UInt32.size - 1)
    (h : (TokenStream.ofSource file source).ending = .error e) :
    ∃ shown, e.cause.offending = some shown ∧ Shows source e.position.line shown := by
  obtain ⟨k, hk⟩ := TokenStream.exists_results (s := .ofSource file source) (r := .error e)
    (by simp [h])
  exact shows_of_results hlines hk

end Report

/-! ## Whole sources -/

namespace Session

variable {s s' : Session} {ds : List Diagnostic} {e : Error}

/-- A session that is given up at the limit or at the end of the input is given up at a token that
was shown. -/
theorem Ends.shows_of_fatal (h : s.Ends ds e s') (hf : ∀ d ∈ ds, s.Founded d)
    (he : e.category = .fatal) : ∃ t, s.Shows t ∧ e.position = t.position := by
  cases h with
  | lexical hend =>
    have hlexical := isLexical_of_ending hend
    rw [he] at hlexical
    cases hlexical
  | @limit w d hm hlast _ heq =>
    have hfounded := hf d (List.mem_of_getLast? hlast)
    exact ⟨d.found, hfounded.shows, by rw [heq, ← hfounded.position_eq]⟩
  | @eof w t context hm _ ht _ heq =>
    exact ⟨t, (shows_of_front ht).of_moves hm, by rw [heq]⟩

end Session

namespace Program

open Session Report

/-- Every report shows the line that it is about, where a word can count the lines of the source. The
text of every token of a source, of the token that a diagnostic found, and the text that makes a
lexical error stand in the line that the report takes from the source, and in the part of it that
the snippet shows. A session that is given up for another reason is reported with a line that the
source has. -/
theorem reports_show_lines (file source : String)
    (hlines : source.toList.count '\n' < UInt32.size - 1) :
    (∀ T, tokenize file source = .ok T → ∀ t ∈ T, Report.Shows source t.position.line t.text) ∧
    (∀ e, tokenize file source = .error e →
      ∃ shown, e.cause.offending = some shown ∧ Report.Shows source e.position.line shown) ∧
    (∀ d ∈ (ofSource file source).diagnostics,
      Report.Shows source d.position.line d.found.text) ∧
    ∀ e, (ofSource file source).outcome = .error e →
      e.category = .lexical ∧ (∃ shown, e.cause.offending = some shown ∧
        Report.Shows source e.position.line shown) ∨
      ((∃ n, e.cause = .tooManyErrors n) ∨ ∃ context, e.cause = .unexpectedEof context) ∧
        ∃ text, Frames source e.position.line text := by
  have htokens : ∀ T, tokenize file source = .ok T →
      ∀ t ∈ T, Report.Shows source t.position.line t.text := by
    intro T hT t ht
    obtain ⟨eof, hend, rfl⟩ := (TokenStream.toList_eq_ok_iff _ _).1 hT
    have hshows : (Session.ofSource file source).Shows t := by
      rcases List.mem_append.1 ht with ht | ht
      · exact .inl ht
      · obtain rfl := List.mem_singleton.1 ht
        exact .inr hend
    exact shows_of_token hlines hshows
  have herror : ∀ e, tokenize file source = .error e →
      ∃ shown, e.cause.offending = some shown ∧ Report.Shows source e.position.line shown :=
    fun e he => shows_of_ending hlines ((tokenize_eq_error_iff file source e).1 he)
  refine ⟨htokens, herror, ?_⟩
  obtain ⟨s, hm, hdiag, hout⟩ := ofSource_eq file source
  have hnone := diagnostics_of_moves hm
  have hfate := read_fate s
  rw [hdiag, hout]
  generalize read s = r at hfate
  cases hfate with
  | goes hm' hf =>
    refine ⟨?_, ?_⟩
    · intro d hd
      rw [final_ok, hm'.diagnostics_eq, hnone, List.nil_append] at hd
      rw [(hf d hd).position_eq]
      exact shows_of_token hlines ((hf d hd).shows.of_moves hm)
    · intro e h
      cases h
  | @ends ds e s' he hf =>
    refine ⟨?_, ?_⟩
    · intro d hd
      rw [final_error, he.diagnostics_eq, hnone, List.nil_append] at hd
      rw [(hf d hd).position_eq]
      exact shows_of_token hlines ((hf d hd).shows.of_moves hm)
    · intro _ h
      cases h
      rcases he.isReason with hlexical | hfatal
      · have hend : (Session.ofSource file source).ending = .error e :=
          hm.ending_eq ▸ he.ending_of_lexical hlexical
        exact .inl ⟨hlexical, shows_of_ending hlines hend⟩
      · have hcategory : e.category = .fatal := by
          unfold Error.category
          rcases hfatal with ⟨n, h⟩ | ⟨context, h⟩ <;> rw [h] <;> rfl
        obtain ⟨t, ht, hposition⟩ := he.shows_of_fatal hf hcategory
        rw [hposition]
        exact .inr ⟨hfatal, (shows_of_token hlines (ht.of_moves hm)).exists_frames⟩
  | trips hsilent => exact hsilent.elim

/-- The `;` stands behind an indentation and in front of a carriage return, the `@` on a line
without a newline. -/
theorem reports_show_lines_returns :
    "x\n \t;\r\n  @\r".toList.count '\n' < UInt32.size - 1 ∧
      tokenize "f" "x\n \t;\r\n  @\r" =
        .error { cause := .unrecognised "@", position := ⟨"f", 3⟩ } ∧
      Report.Shows "x\n \t;\r\n  @\r" 3 "@" ∧
      Report.snippet "x\n \t;\r\n  @\r" 3 = "  |\n3 | @\n  |" ∧
      Report.Shows "x\n \t;\r" 2 ";" := by
  have hlines : "x\n \t;\r\n  @\r".toList.count '\n' < UInt32.size - 1 := by decide +kernel
  have he : tokenize "f" "x\n \t;\r\n  @\r" =
      .error { cause := .unrecognised "@", position := ⟨"f", 3⟩ } := by decide +kernel
  obtain ⟨shown, hshown, hshows⟩ := (reports_show_lines "f" "x\n \t;\r\n  @\r" hlines).2.1 _ he
  cases hshown
  have hsemicolon : tokenize "f" "x\n \t;\r" = .ok [⟨.identifier, "x", ⟨"f", 1⟩, .none⟩,
      ⟨.semicolon, ";", ⟨"f", 2⟩, .none⟩, .eof ⟨"f", 2⟩] := by decide +kernel
  refine ⟨hlines, he, hshows, by decide +kernel, ?_⟩
  exact (reports_show_lines "f" "x\n \t;\r" (by decide +kernel)).1 _ hsemicolon
    ⟨.semicolon, ";", ⟨"f", 2⟩, .none⟩ (by simp)

end Program

end FxLang
