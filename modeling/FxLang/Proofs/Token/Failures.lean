import FxLang.Proofs.Token.Horizon
import FxLang.Proofs.Token.Lexer
import FxLang.Proofs.Token.Relexing

/-!
# What cannot be cut into tokens

A source fails to be cut into tokens at one of three things: a character that starts nothing, `0x`
without a digit behind it, or an integer above the limit. `Offends` lists them, with the cause that
each of them gives. What stands in front of the first of them is a row of token texts with gaps
between them, which `Segmented` describes without running anything: each text is the longest of its
place.

A lexer that has met an error stands behind the offending text, and what it had read of that text
and what it could put back is all that it remembers. The next token starts without either, so what
comes is told by the text that is left and its line.

* `Splits.offends`, `Offends.splits`: the lexemes that make no token are the offending texts.
* `Segmented.fails`: a stream comes through the token texts and stops at the offending one.
* `TokenStream.exists_breaks`: where a stream stops with an error, its text has this form.
* `TokenStream.Fails.shows_startingAt`: behind the error a stream is like a lexer that starts there.
* `tokenize_error_exact`: all of this for a source.
-/

namespace FxLang

open Text (isBlank isAlphabetic newlines lineBehind)

/-! ## Token starts -/

/-- Neither a blank nor a comment stands at the front of the text. -/
structure AtTokenStart (text : List Char) : Prop where
  not_blank : ∀ c ∈ text.head?, isBlank c = false
  not_comment : ¬ ['/', '/'] <+: text

/-- The places where no gap starts. -/
theorem gap_eq_nil_iff (text : List Char) : gap text = [] ↔ AtTokenStart text := by
  cases text with
  | nil => exact ⟨fun _ => ⟨by simp, by simp⟩, fun _ => by rw [gap]⟩
  | cons c cs =>
    have hcomment : (c = '/' → cs.head? ≠ some '/') ↔ ¬ ['/', '/'] <+: c :: cs := by
      cases cs with
      | nil => simp
      | cons d ds => grind
    rw [gap_cons_eq_nil_iff, hcomment]
    exact ⟨fun ⟨hblank, hslash⟩ => ⟨by simpa using hblank, hslash⟩,
      fun h => ⟨h.not_blank c rfl, h.not_comment⟩⟩

/-! ## Symbols -/

/-- The characters that start operators and separators. -/
def symbolChars : List Char := "+-*/><=:%|&!^(),;[]\x7b\x7d.".toList

theorem mem_symbolChars_iff (c : Char) :
    c ∈ symbolChars ↔ c ∈ operatorStarts ∨ c ∈ separatorStarts := by
  have hall : symbolChars.all (fun d => d ∈ operatorStarts || d ∈ separatorStarts) = true := by decide
  have hall' : (operatorStarts ++ separatorStarts).all (· ∈ symbolChars) = true := by decide
  rw [List.all_eq_true] at hall hall'
  exact ⟨fun hc => by simpa using hall c hc, fun hc => by simpa using hall' c (by simpa using hc)⟩

/-- The handlers know every lexeme that is handed to them: an operator is handed over by itself, or
with a character behind it only where the two are one. -/
theorem isSome_lookup_of_isLexeme {c : Char} {cs : List Char} (h : IsLexeme (c :: cs)) :
    (Start.of c = .operator → (operators.lookup (c :: cs)).isSome = true) ∧
      (Start.of c = .separator → (separators.lookup (c :: cs)).isSome = true) := by
  have hoperators : ∀ d ∈ operatorStarts, (operators.lookup [d]).isSome = true :=
    List.all_eq_true.1 (by decide)
  have hseparators : ∀ d ∈ separatorStarts, (separators.lookup [d]).isSome = true :=
    List.all_eq_true.1 (by decide)
  cases h with
  | number hc => simp [Start.of_isDigit hc]
  | word hc hw => simp [Start.of_isWordStart hc hw]
  | single =>
    exact ⟨fun hstart => hoperators c (Start.suits_of hstart),
      fun hstart => hseparators c (Start.suits_of hstart)⟩
  | pair _ _ hpair =>
    have hmem : c ∈ operatorStarts := @mem_operatorStarts_of_pair c _ [] hpair
    refine ⟨fun _ => ?_, fun hstart => ?_⟩
    · rwa [← isSome_symbolKind?_of_operator hmem]
    · rw [Start.of, if_pos hmem] at hstart
      cases hstart

/-- So neither handler refuses a lexeme. -/
theorem IsLexeme.exists_classify {c : Char} {cs : List Char} (h : IsLexeme (c :: cs))
    (hstart : Start.of c = .operator ∨ Start.of c = .separator) :
    ∃ value, classify (c :: cs) = .ok value := by
  obtain ⟨hoperator, hseparator⟩ := isSome_lookup_of_isLexeme h
  rcases hstart with hstart | hstart
  · obtain ⟨kind, hkind⟩ := Option.isSome_iff_exists.1 (hoperator hstart)
    exact ⟨(kind, .none), by rw [classify, hstart]; simp [operatorValue, hkind]⟩
  · obtain ⟨kind, hkind⟩ := Option.isSome_iff_exists.1 (hseparator hstart)
    exact ⟨(kind, .none), by rw [classify, hstart]; simp [separatorValue, hkind]⟩

/-- A character that starts nothing. -/
theorem Start.of_stray {c : Char} (hsymbol : c ∉ symbolChars) (hdigit : c.isDigit = false)
    (hletter : isAlphabetic c = false) (hline : c ≠ '_') : Start.of c = .stray := by
  rw [mem_symbolChars_iff, not_or] at hsymbol
  rw [Start.of, if_neg hsymbol.1, if_neg hsymbol.2, if_neg (by simp [hdigit]),
    if_neg (by simp [isWordStart, hletter, hline])]

/-! ## Offending texts -/

/-- The text `v`, with `r` behind it, makes no token, for this cause. -/
inductive Offends : (v r : List Char) → Cause → Prop
  /-- A character that starts no gap and no lexeme. -/
  | stray {c : Char} {r : List Char} (hblank : isBlank c = false) (hsymbol : c ∉ symbolChars)
      (hdigit : c.isDigit = false) (hletter : isAlphabetic c = false) (hline : c ≠ '_') :
      Offends [c] r (.unrecognised (String.ofList [c]))
  /-- `0x` without a digit. -/
  | bareHex {r : List Char} (h : ∀ c ∈ r.head?, isHexDigit c = false) :
      Offends ['0', 'x'] r (.malformedNumber "0x")
  /-- An integer above the limit. -/
  | tooLarge {numeral : Numeral} {r : List Char} {n : Nat} (h : numeral.Fronts r)
      (hn : numeral.Writes n) (hlt : 2 ^ 63 - 1 < n) :
      Offends numeral.text r (.numberTooLarge (String.ofList numeral.text))

/-- A numeral writes one number. -/
theorem Numeral.Writes.unique {numeral : Numeral} {n m : Nat} (hn : numeral.Writes n)
    (hm : numeral.Writes m) : n = m := by
  cases numeral with
  | hex digits => rw [hn.2.eq_ofDigits, hm.2.eq_ofDigits]
  | whole digits => rw [Denotes.eq_ofDigits hn, Denotes.eq_ofDigits hm]
  | fraction digits further => exact hn.elim

/-- A numeral for a number other than zero starts with a digit. -/
theorem Numeral.Fronts.exists_digit {numeral : Numeral} {r : List Char} {n : Nat}
    (h : numeral.Fronts r) (hn : numeral.Writes n) (hpos : 0 < n) :
    ∃ c cs, numeral.text = c :: cs ∧ c.isDigit = true := by
  cases h with
  | @hex digits => exact ⟨'0', 'x' :: digits, rfl, rfl⟩
  | @whole digits _ h =>
    cases digits with
    | nil =>
      have hzero : n = 0 := Denotes.eq_ofDigits hn
      omega
    | cons c cs => exact ⟨c, cs, rfl, h.all c (by simp)⟩
  | fraction => exact hn.elim

namespace Offends

variable {v r : List Char} {cause : Cause}

/-- The causes are those of numbers and of single characters. -/
theorem cause_ne (h : Offends v r cause) (text : String) :
    cause ≠ .badOperator text ∧ cause ≠ .badSeparator text := by
  cases h <;> simp

/-- The offending text is what is cut off at its place. -/
theorem splits (h : Offends v r cause) : Splits (v ++ r) [] v r := by
  cases h with
  | @stray c r hblank hsymbol hdigit hletter hline =>
    have hstart : gap (c :: r) = [] := by
      refine (gap_eq_nil_iff _).2 ⟨by simpa using hblank, fun hslash => hsymbol ?_⟩
      rw [← (List.cons_prefix_cons.1 hslash).1]
      decide
    refine ⟨rfl, .nil, hstart, by simp, ?_⟩
    rw [List.singleton_append, lexeme, Start.of_stray hsymbol hdigit hletter hline]
  | bareHex h =>
    have hfronts : (Numeral.hex []).Fronts r := .hex ⟨by simp, h⟩
    exact TokenStream.splits_numeral (by decide) rfl hfronts
  | @tooLarge numeral r n h hn hlt =>
    obtain ⟨c, cs, htext, hc⟩ := h.exists_digit hn (by omega)
    have hstart : numeral.text ++ r = c :: (cs ++ r) := by rw [htext, List.cons_append]
    rw [hstart]
    exact TokenStream.splits_numeral hc hstart.symm h

theorem classify_eq (h : Offends v r cause) : classify v = .error cause := by
  cases h with
  | @stray c r hblank hsymbol hdigit hletter hline =>
    rw [classify, Start.of_stray hsymbol hdigit hletter hline]
  | bareHex h => rfl
  | @tooLarge numeral r n h hn hlt =>
    obtain ⟨c, cs, htext, hc⟩ := h.exists_digit hn (by omega)
    have hclass : classify numeral.text = numberValue numeral.text := by
      rw [htext, classify_of_isDigit cs hc]
    have hmeans := h.means
    rw [hclass]
    generalize numberValue numeral.text = value at hmeans
    cases hmeans with
    | malformed => exact absurd rfl hn.1
    | integer hm hle =>
      have := hm.unique hn
      omega
    | tooLarge => rfl
    | float => exact hn.elim

end Offends

/-- A number that makes no token is an offending text. -/
theorem Splits.offends_of_isDigit {text g r : List Char} {c : Char} {cs : List Char}
    {cause : Cause} (h : Splits text g (c :: cs) r) (hdigit : c.isDigit = true)
    (hclass : classify (c :: cs) = .error cause) : Offends (c :: cs) r cause := by
  have hlexeme := h.lexeme_eq
  obtain ⟨numeral, after, htext, hfronts⟩ := Numeral.exists_fronts (c :: (cs ++ r))
  rw [List.cons_append, lexeme_cons, if_pos hdigit, htext, hfronts.numberText_eq] at hlexeme
  obtain rfl : r = after := by
    rw [hlexeme, List.cons_append] at htext
    exact List.append_cancel_left (List.cons.inj htext).2
  rw [classify_of_isDigit cs hdigit, ← hlexeme] at hclass
  rw [← hlexeme]
  have hmeans := hfronts.means
  rw [hclass] at hmeans
  cases hmeans with
  | malformed =>
    obtain ⟨hrun⟩ := hfronts
    exact .bareHex hrun.behind
  | tooLarge hn hlt => exact .tooLarge hfronts hn hlt

/-- A lexeme that makes no token is an offending text. -/
theorem Splits.offends {text g l r : List Char} {cause : Cause} (h : Splits text g l r)
    (hclass : classify l = .error cause) : Offends l r cause := by
  obtain ⟨c, cs, rfl⟩ := List.exists_cons_of_ne_nil h.ne_nil
  cases hstart : Start.of c with
  | operator =>
    obtain ⟨value, hvalue⟩ := h.isLexeme.exists_classify (.inl hstart)
    rw [hclass] at hvalue
    cases hvalue
  | separator =>
    obtain ⟨value, hvalue⟩ := h.isLexeme.exists_classify (.inr hstart)
    rw [hclass] at hvalue
    cases hvalue
  | number => exact h.offends_of_isDigit (Start.suits_of hstart) hclass
  | word =>
    rw [classify, hstart] at hclass
    cases hclass
  | stray =>
    have hlexeme := h.lexeme_eq
    rw [List.cons_append, lexeme, hstart] at hlexeme
    obtain rfl : [] = cs := (List.cons.inj hlexeme).2
    rw [classify, hstart] at hclass
    cases hclass
    obtain ⟨hoperator, hseparator, hdigit, hword⟩ := Start.suits_of hstart
    have hletter : isAlphabetic c = false ∧ c ≠ '_' := by simpa [isWordStart] using hword
    refine .stray (gap_cons_eq_nil_iff.1 h.gap_eq).1 (fun hmem => ?_) hdigit hletter.1 hletter.2
    exact ((mem_symbolChars_iff c).1 hmem).elim hoperator hseparator

/-! ## What stands in front -/

/-- The text `p`, with `rest` behind it, consists of gaps and of the token texts `texts`, each of
them reaching as far as any lexeme at its place, and a token start stands behind the last gap. -/
inductive Segmented : (texts : List (List Char)) → (p rest : List Char) → Prop
  | gap {g rest : List Char} (hg : IsGap False g) (hstart : AtTokenStart rest) :
      Segmented [] g rest
  | token {texts : List (List Char)} {g l p rest : List Char} (hg : IsGap False g)
      (hstart : AtTokenStart (l ++ (p ++ rest))) (hne : l ≠ []) (hl : TokenStream.IsTokenText l)
      (hlongest : ∀ m, IsLexeme m → m <+: l ++ (p ++ rest) → m <+: l)
      (hp : Segmented texts p rest) : Segmented (l :: texts) (g ++ (l ++ p)) rest

/-- The source consists of the token texts `texts` with the gaps between them, which are `p`, of the
offending text `v`, and of the rest `r`. -/
structure Breaks (source : List Char) (texts : List (List Char)) (p v r : List Char)
    (cause : Cause) : Prop where
  text_eq : source = p ++ (v ++ r)
  segmented : Segmented texts p (v ++ r)
  offends : Offends v r cause

/-- The longest lexeme at a place is the one that is cut off there. -/
theorem splits_of_longest {g l rest : List Char} (hg : IsGap False g)
    (hstart : AtTokenStart (l ++ rest)) (hl : IsLexeme l)
    (hlongest : ∀ m, IsLexeme m → m <+: l ++ rest → m <+: l) :
    Splits (g ++ (l ++ rest)) g l rest where
  text_eq := rfl
  isGap := hg
  gap_eq := (gap_eq_nil_iff _).2 hstart
  ne_nil := hl.ne_nil
  lexeme_eq := by
    have hcut : IsLexeme (lexeme (l ++ rest)) := isLexeme_lexeme (by simp [hl.ne_nil])
    have hle := hlongest _ hcut (lexeme_isPrefix _)
    have hge := hl.isPrefix_lexeme (List.prefix_append l rest)
    exact hle.eq_of_length_le hge.length_le

theorem Splits.longest {text g l r : List Char} (h : Splits text g l r) {m : List Char}
    (hm : IsLexeme m) (hfront : m <+: l ++ r) : m <+: l := by
  have := hm.isPrefix_lexeme hfront
  rwa [h.lexeme_eq] at this

namespace TokenStream

variable {s : TokenStream}

theorem IsTokenText.classify_eq {l : List Char} (h : IsTokenText l) (hne : l ≠ []) :
    ∃ value, classify l = .ok value := by
  obtain ⟨s, s', t, hscan, rfl⟩ := h
  rcases scan_eq_ok hscan with ⟨-, htext, -⟩ | ⟨ht, -⟩
  · simp [htext] at hne
  · exact ⟨_, (classify_of_scan hscan ht).2⟩

/-! ## Streams at their first error -/

/-- Behind the tokens with these texts the stream meets the error `e`, and goes on with `r` on the
line of the error. -/
structure Fails (s : TokenStream) (texts : List (List Char)) (e : Error) (r : List Char) :
    Prop where
  texts_eq : s.tokens.map (·.text.toList) = texts
  ending_eq : s.ending = .error e
  rest_eq : (s.behind (texts.length + 1)).cursor.rest = r
  line_eq : (s.behind (texts.length + 1)).cursor.line = e.position.line
  file_eq : (s.behind (texts.length + 1)).file = s.file

/-- What one lexeme does to a stream: a token in front of what the stream behind it gives. -/
theorem next_of_splits {g l r : List Char} {value : Kind × Literal} (hp : s.peeked = none)
    (hsplit : Splits s.cursor.rest g l r) (hclass : classify l = .ok value) :
    ∃ t s', next s = .ok t s' ∧ t.isEof = false ∧ t.text.toList = l ∧ s'.cursor.rest = r ∧
      s'.cursor.line = s.cursor.line + newlines (g ++ l) ∧ s'.file = s.file ∧
      s'.peeked = none := by
  obtain ⟨kind, literal⟩ := value
  have hn := (next_of_not_peeked hp).trans (scan_of_splits hsplit)
  rw [hclass] at hn
  have hkind := kind_ne_eof_of_classify hsplit.ne_nil hclass
  obtain ⟨hrest, hline⟩ := skip_of_splits hsplit
  exact ⟨_, _, hn, by simpa [Token.isEof] using hkind, by simp, hrest, hline, rfl, hp⟩

/-- The offending text behind the last gap stops the stream. -/
theorem fails_of_offends {g v r : List Char} {cause : Cause} (hp : s.peeked = none)
    (hg : IsGap False g) (hrest : s.cursor.rest = g ++ (v ++ r)) (h : Offends v r cause) :
    s.Fails [] { cause, position := { file := s.file, line := s.cursor.line + newlines g } }
      r := by
  have hsplit : Splits s.cursor.rest g v r :=
    ⟨hrest, hg, h.splits.gap_eq, h.splits.ne_nil, h.splits.lexeme_eq⟩
  have hn := (next_of_not_peeked hp).trans (scan_of_splits hsplit)
  rw [h.classify_eq] at hn
  obtain ⟨hbehind, hline⟩ := skip_of_splits hsplit
  have hinside : newlines v = 0 :=
    Text.newlines_eq_zero fun hmem => absurd (h.splits.isBlank_eq_false _ hmem) (by decide)
  have hstream : s.behind 1 = { s with cursor := (s.cursor.skip g.length).skip v.length } := by
    unfold behind behind
    rw [hn]
    rfl
  constructor
  · simp [tokens, upcoming_of_next_error hn]
  · simp [ending, upcoming_of_next_error hn]
  · rw [List.length_nil, hstream, hbehind]
  · rw [List.length_nil, hstream, hline, Text.newlines_append, hinside, UInt32.add_zero]
  · rw [List.length_nil, hstream]

/-- A token in front of the stream changes nothing about the error. -/
theorem Fails.cons {s' : TokenStream} {t : Token} {texts : List (List Char)} {e : Error}
    {r : List Char} (hn : next s = .ok t s') (ht : t.isEof = false) (hfile : s'.file = s.file)
    (h : s'.Fails texts e r) : s.Fails (t.text.toList :: texts) e r := by
  have hstream : s.behind (texts.length + 1 + 1) = s'.behind (texts.length + 1) := by
    rw [behind, hn]
    rfl
  have hupcoming := upcoming_of_next hn ht
  constructor
  · rw [tokens, hupcoming, List.map_cons, h.texts_eq]
  · rw [ending, hupcoming, h.ending_eq]
  · rw [List.length_cons, hstream, h.rest_eq]
  · rw [List.length_cons, hstream, h.line_eq]
  · rw [List.length_cons, hstream, h.file_eq, hfile]

/-- The tokens to come and the error behind them are the first results. -/
theorem Fails.results_eq {texts : List (List Char)} {e : Error} {r : List Char}
    (h : s.Fails texts e r) : s.results texts.length = .error e := by
  have hlength : texts.length = s.tokens.length := by
    rw [← h.texts_eq, List.length_map]
  apply results_of_getElem?
  simp [hlength, h.ending_eq]

/-- The stream at the start of a text whose first line has this number. -/
def startingAt (file : String) (line : UInt32) (text : List Char) : TokenStream :=
  { file, cursor := { rest := text, last := none, line }, peeked := none }

/-- Behind the error a lexer that starts there shows what the stream shows. -/
theorem Fails.shows_startingAt {texts : List (List Char)} {e : Error} {r : List Char}
    (h : s.Fails texts e r) (hp : s.peeked = none) :
    (Lexer.startingAt s.file e.position.line r).Shows (s.behind (texts.length + 1)) where
  ahead_eq := h.rest_eq.symm
  line_eq := h.line_eq.symm
  file_eq := h.file_eq.symm
  peeked_eq := (behind_peeked hp _).symm

end TokenStream

/-! ## Sources -/

open TokenStream (Call startingAt)

/-- A stream comes through the token texts and stops at the offending one. -/
theorem Segmented.fails {texts : List (List Char)} {p v r : List Char} {cause : Cause}
    (h : Segmented texts p (v ++ r)) (hv : Offends v r cause) {s : TokenStream}
    (hp : s.peeked = none) (hrest : s.cursor.rest = p ++ (v ++ r)) :
    s.Fails texts { cause, position := { file := s.file, line := s.cursor.line + newlines p } }
      r := by
  generalize hrest' : v ++ r = rest at h
  induction h generalizing s with
  | gap hg hstart => exact TokenStream.fails_of_offends hp hg hrest hv
  | @token texts g l p rest hg hstart hne hl hlongest _ ih =>
    subst hrest'
    obtain ⟨value, hclass⟩ := hl.classify_eq hne
    have hlexeme : IsLexeme l := hl.isLexeme.resolve_left hne
    have hsplit : Splits s.cursor.rest g l (p ++ (v ++ r)) := by
      rw [hrest, List.append_assoc, List.append_assoc]
      exact splits_of_longest hg hstart hlexeme hlongest
    obtain ⟨t, s', hn, ht, htext, hrest', hline, hfile, hp'⟩ :=
      TokenStream.next_of_splits hp hsplit hclass
    have hfails := (ih hp' hrest' rfl).cons hn ht hfile
    rwa [htext, hline, hfile, UInt32.add_assoc, ← Text.newlines_append, List.append_assoc] at hfails

/-- Where a stream stops with an error, token texts and an offending text stand in front of it. -/
theorem TokenStream.exists_breaks {s : TokenStream} {e : Error} (hp : s.peeked = none)
    (h : s.ending = .error e) : ∃ texts p v r cause, Breaks s.cursor.rest texts p v r cause := by
  induction hr : s.remaining using Nat.strongRecOn generalizing s with
  | ind n ih =>
    rcases gap_eq_self_or_splits s.cursor.rest with hgap | ⟨g, l, r, hsplit⟩
    · -- At its last gap a stream gives the end.
      have hn := (next_of_not_peeked hp).trans (scan_of_gap hgap)
      rw [ending, upcoming_of_next_eof hn rfl] at h
      cases h
    · have hstart := (gap_eq_nil_iff _).1 hsplit.gap_eq
      cases hclass : classify l with
      | error cause =>
        exact ⟨[], g, l, r, cause, hsplit.text_eq, .gap hsplit.isGap hstart, hsplit.offends hclass⟩
      | ok value =>
        obtain ⟨t, s', hn, ht, htext, hrest, -, -, hp'⟩ := next_of_splits hp hsplit hclass
        have hlt := remaining_next_lt hn ht
        rw [ending, upcoming_of_next hn ht] at h
        obtain ⟨texts, p, v, r', cause, hbreaks⟩ := ih s'.remaining (by omega) hp' h rfl
        have hr : r = p ++ (v ++ r') := hrest.symm.trans hbreaks.text_eq
        have hl : IsTokenText l := ⟨s, s', t, (next_of_not_peeked hp).symm.trans hn, htext⟩
        subst hr
        refine ⟨l :: texts, g ++ (l ++ p), v, r', cause, ?_, ?_, hbreaks.offends⟩
        · rw [hsplit.text_eq]
          simp
        · exact .token hsplit.isGap hstart hsplit.ne_nil hl (fun m => hsplit.longest)
            hbreaks.segmented

/-- What an error of a source says, and how the stream of the source goes on behind it. -/
theorem Breaks.fails {source : String} {texts : List (List Char)} {p v r : List Char}
    {cause : Cause} (h : Breaks source.toList texts p v r cause) (file : String) :
    (TokenStream.ofSource file source).Fails texts
      { cause, position := { file, line := lineBehind p } } r :=
  h.segmented.fails h.offends rfl h.text_eq

/-- A source fails to be cut into tokens exactly if it consists of token texts and gaps and of an
offending text behind them, which is the one that the error carries, with the line that it stands
on, as long as the word for the line does not run over. The same stream goes on behind it like one
that starts there, and so does the same lexer. An operator or a separator is never the reason. -/
theorem tokenize_error_exact (file source : String) :
    (∀ e text, tokenize file source = .error e →
      e.cause ≠ .badOperator text ∧ e.cause ≠ .badSeparator text) ∧
    ((∃ e, tokenize file source = .error e) ↔
      ∃ texts p v r cause, Breaks source.toList texts p v r cause) ∧
    ∀ texts p v r cause, Breaks source.toList texts p v r cause →
      let e : Error := { cause, position := { file, line := lineBehind p } }
      let stream := TokenStream.ofSource file source
      let lexer := Lexer.ofSource file source
      tokenize file source = .error e ∧ cause.offending = some (String.ofList v) ∧
      (p.count '\n' < UInt32.size - 1 → e.position.line.toNat = 1 + p.count '\n') ∧
      stream.tokens.map (·.text.toList) = texts ∧ stream.results texts.length = .error e ∧
      (lexer.behind texts.length).next.1 = .error e ∧
      (∀ calls, (answers Call.run calls (stream.behind (texts.length + 1))).map Prod.fst =
        (answers Call.run calls (startingAt file (lineBehind p) r)).map Prod.fst) ∧
      ∀ calls, (answers Lexer.run calls (lexer.behind (texts.length + 1))).map Prod.fst =
        (answers Lexer.run calls (Lexer.startingAt file (lineBehind p) r)).map Prod.fst := by
  have hbreaks {e : Error} (h : tokenize file source = .error e) :
      ∃ texts p v r cause, Breaks source.toList texts p v r cause :=
    TokenStream.exists_breaks rfl ((tokenize_eq_error_iff file source e).1 h)
  refine ⟨fun e text h => ?_, ⟨fun ⟨e, h⟩ => hbreaks h, ?_⟩, ?_⟩
  · obtain ⟨texts, p, v, r, cause, hb⟩ := hbreaks h
    have hcause := (tokenize_eq_error_iff file source e).1 h
    rw [(hb.fails file).ending_eq] at hcause
    cases hcause
    exact hb.offends.cause_ne text
  · rintro ⟨texts, p, v, r, cause, hb⟩
    exact ⟨_, (tokenize_eq_error_iff file source _).2 (hb.fails file).ending_eq⟩
  · intro texts p v r cause hb e stream lexer
    have hfails : stream.Fails texts e r := hb.fails file
    have hlexer : lexer.Shows stream := Lexer.shows_ofSource file source
    have hbehind : (Lexer.startingAt file (lineBehind p) r).Shows
        (stream.behind (texts.length + 1)) := hfails.shows_startingAt rfl
    have hfresh : (Lexer.startingAt file (lineBehind p) r).Shows
        (startingAt file (lineBehind p) r) := ⟨rfl, rfl, rfl, rfl⟩
    refine ⟨(tokenize_eq_error_iff file source _).2 hfails.ending_eq,
      offending_of_classify hb.offends.classify_eq, Text.toNat_lineBehind, hfails.texts_eq,
      hfails.results_eq, ?_, fun calls => ?_, fun calls => ?_⟩
    · rw [(hlexer.behind texts.length).next.1, ← hfails.results_eq]
      exact (TokenStream.results_eq stream texts.length).symm
    · rw [← hbehind.answers_eq, ← hfresh.answers_eq]
    · rw [(hlexer.behind _).answers_eq, ← hbehind.answers_eq]

/-- `0x` on the second line, behind a word and in front of a semicolon. -/
theorem tokenize_error_exact_bare_hex :
    tokenize "f" "a\n0x;" =
      .error { cause := .malformedNumber "0x", position := ⟨"f", 2⟩ } ∧
    ∀ calls, (answers Lexer.run calls ((Lexer.ofSource "f" "a\n0x;").behind 2)).map Prod.fst =
      (answers Lexer.run calls (Lexer.startingAt "f" 2 [';'])).map Prod.fst := by
  have hcut : lexeme ['a', '\n', '0', 'x', ';'] = ['a'] := by decide +kernel
  have hsegmented : Segmented [['a']] ['a', '\n'] ['0', 'x', ';'] := by
    refine .token (g := []) .nil ((gap_eq_nil_iff _).1 (by decide +kernel)) (by simp)
      ⟨.ofSource "f" "a", _, _, rfl, rfl⟩ (fun m hm hfront => ?_)
      (.gap (.blank (by decide) .nil) ((gap_eq_nil_iff _).1 (by decide +kernel)))
    exact hcut ▸ hm.isPrefix_lexeme hfront
  have hoffends : Offends ['0', 'x'] [';'] (.malformedNumber "0x") :=
    .bareHex (by rintro c ⟨⟩; decide)
  obtain ⟨herror, -, -, -, -, -, -, hgoes⟩ :=
    (tokenize_error_exact "f" "a\n0x;").2.2 [['a']] _ _ _ _ ⟨rfl, hsegmented, hoffends⟩
  exact ⟨herror, hgoes⟩

/-- A stray character behind `n` newlines. -/
def strayBehind (n : Nat) : String :=
  String.ofList (List.replicate n '\n' ++ ['@'])

theorem breaks_strayBehind (n : Nat) :
    Breaks (strayBehind n).toList [] (List.replicate n '\n') ['@'] [] (.unrecognised "@") where
  text_eq := String.toList_ofList
  segmented := by
    refine .gap (isGap_of_isBlank fun c hc => ?_) ((gap_eq_nil_iff _).1 (by decide +kernel))
    rw [List.eq_of_mem_replicate hc]
    exact Text.isBlank_newline
  offends := .stray (by decide) (by decide) (by decide) (by decide +kernel) (by decide)

/-- Behind so many newlines as a word has values, less one, the stray character is said to stand on
line 0. -/
theorem tokenize_error_line_runs_over :
    ∃ e, tokenize "f" (strayBehind (UInt32.size - 1)) = .error e ∧ e.cause = .unrecognised "@" ∧
      e.position.line.toNat = 0 ∧
      1 + (List.replicate (UInt32.size - 1) '\n').count '\n' = UInt32.size := by
  have hfails := (breaks_strayBehind (UInt32.size - 1)).fails "f"
  refine ⟨_, (tokenize_eq_error_iff _ _ _).2 hfails.ending_eq, rfl, ?_, ?_⟩
  · rw [lineBehind, Text.newlines_replicate]
    decide
  · rw [List.count_replicate_self]
    decide

end FxLang
