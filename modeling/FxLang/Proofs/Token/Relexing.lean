import Mathlib.Data.List.Forall2
import FxLang.Proofs.Token.Boundary
import FxLang.Proofs.Token.Lookahead

/-!
# Reading the texts of tokens again

What a text makes depends on where it was cut off only through its characters. So the texts of
tokens can be taken from where they stand and written one behind the other, with blanks in between,
and they are read as the same tokens again: a blank ends every lexeme, and nothing that a token was
made of looks like the start of a gap in front of one.

* `Token.Lexed.classify_text`: the text of a token is a lexeme, and makes the token.
* `Splits.of_classify`: such a text is cut off again in front of a blank.
* `TokenStream.tokens_of_texts`: a row of such texts, by induction.
* `tokenize_texts`: whole sources.
-/

namespace FxLang

open Text (isBlank newlines)
open Segment (texts)

/-! ## Texts that make tokens -/

/-- The token stands in some source, be it behind errors. -/
def Token.Lexed (t : Token) : Prop :=
  ∃ file source k, (TokenStream.ofSource file source).results k = .ok t

theorem TokenStream.classify_of_scan {s s' : TokenStream} {t : Token} (h : scan s = .ok t s')
    (ht : t.isEof = false) :
    IsLexeme t.text.toList ∧ classify t.text.toList = .ok (t.kind, t.literal) := by
  rcases gap_eq_self_or_splits s.cursor.rest with hgap | ⟨g, l, r, hsplit⟩
  · rw [scan_of_gap hgap] at h
    cases h
    cases ht
  · rw [scan_of_splits hsplit] at h
    cases hclass : classify l with
    | error cause => simp [hclass] at h
    | ok value =>
      obtain ⟨kind, literal⟩ := value
      simp only [hclass, EStateM.Result.ok.injEq] at h
      obtain ⟨rfl, -⟩ := h
      simp only [String.toList_ofList]
      exact ⟨hsplit.isLexeme, hclass⟩

theorem TokenStream.classify_of_results {s : TokenStream} {k : Nat} {t : Token}
    (hp : s.peeked = none) (h : s.results k = .ok t) (ht : t.isEof = false) :
    IsLexeme t.text.toList ∧ classify t.text.toList = .ok (t.kind, t.literal) := by
  induction k generalizing s with
  | zero =>
    cases hn : next s with
    | error e s' =>
      unfold results at h
      rw [hn] at h
      cases h
    | ok t' s' =>
      unfold results at h
      rw [hn] at h
      cases h
      exact classify_of_scan ((next_of_not_peeked hp).symm.trans hn) ht
  | succ k ih => exact ih (outcome_next_peeked hp) h

/-- The text of a token is a lexeme, and what it makes is the token. -/
theorem Token.Lexed.classify_text {t : Token} (h : t.Lexed) (ht : t.isEof = false) :
    IsLexeme t.text.toList ∧ classify t.text.toList = .ok (t.kind, t.literal) := by
  obtain ⟨file, source, k, h⟩ := h
  exact TokenStream.classify_of_results rfl h ht

/-! ## In front of a blank -/

/-- No token's text starts with a blank. -/
theorem isBlank_of_classify {c : Char} {cs : List Char} {value : Kind × Literal}
    (h : classify (c :: cs) = .ok value) : isBlank c = false := by
  have hall : ∀ p ∈ symbols, p.1.any isBlank = false := by decide
  rw [← Bool.not_eq_true]
  intro hblank
  have hmem := mem_symbols_of_classify (isDigit_of_isBlank hblank) (isWordStart_of_isBlank hblank) h
  simpa [hblank] using hall _ hmem

/-- Behind a slash at the front of a lexeme there is no other. -/
theorem IsLexeme.head?_ne_slash {cs : List Char} (h : IsLexeme ('/' :: cs)) :
    cs.head? ≠ some '/' := by
  cases h with
  | number hc => simp at hc
  | word _ hw => exact absurd hw (by decide)
  | single => simp
  | pair _ _ h =>
    rcases eq_of_isSome_symbolKind? h with rfl | rfl
    · simp
    · simp

/-- The text of a token is cut off again where a blank or the end of the text stands behind it,
whatever gap stands in front. -/
theorem Splits.of_classify {g l r : List Char} {value : Kind × Literal} (hg : IsGap False g)
    (hl : IsLexeme l) (hclass : classify l = .ok value) (hr : ∀ c ∈ r.head?, isBlank c = true) :
    Splits (g ++ (l ++ r)) g l r where
  text_eq := rfl
  isGap := hg
  gap_eq := by
    obtain ⟨c, cs, rfl⟩ := List.exists_cons_of_ne_nil hl.ne_nil
    refine gap_cons_eq_nil_iff.2 ⟨isBlank_of_classify hclass, ?_⟩
    rintro rfl
    cases cs with
    | cons d ds => simpa using hl.head?_ne_slash
    | nil =>
      intro hslash
      exact absurd (hr '/' hslash) (by decide)
  ne_nil := hl.ne_nil
  lexeme_eq := hl.lexeme_append hr

/-! ## Rows of texts -/

theorem isGap_of_isBlank {last : Prop} {g : List Char} (h : ∀ c ∈ g, isBlank c = true) :
    IsGap last g := by
  induction g with
  | nil => exact .nil
  | cons c g ih =>
    rw [List.forall_mem_cons] at h
    exact .blank h.1 (ih h.2)

/-- Every text in the row stands behind blanks, and behind at least one if it is not the first. -/
structure Segment.Spaced (row : List Segment) : Prop where
  isBlank : ∀ p ∈ row, ∀ c ∈ p.gap, isBlank c = true
  ne_nil : ∀ p ∈ row.tail, p.gap ≠ []

variable {p : Segment} {row : List Segment} {last : List Char}

theorem Segment.Spaced.tail (h : Spaced (p :: row)) : Spaced row where
  isBlank q hq := h.isBlank q (List.mem_cons_of_mem _ hq)
  ne_nil q hq := h.ne_nil q (List.mem_of_mem_tail hq)

/-- Behind the first text of a row stands a blank, or nothing at all. -/
theorem Segment.Spaced.isBlank_of_head? (h : Spaced (p :: row))
    (hlast : ∀ c ∈ last, Text.isBlank c = true) :
    ∀ c ∈ (texts row ++ last).head?, Text.isBlank c = true := by
  intro c hc
  cases row with
  | nil => exact hlast c (List.mem_of_mem_head? hc)
  | cons q row =>
    obtain ⟨d, ds, hgap⟩ := List.exists_cons_of_ne_nil (h.ne_nil q (by simp))
    obtain rfl : d = c := by simpa [texts_cons, hgap] using hc
    exact h.isBlank q (by simp) d (by simp [hgap])

/-- The token is read as the other one is, up to its position. -/
def Token.Reads (t u : Token) : Prop :=
  t.kind = u.kind ∧ t.text = u.text ∧ t.literal = u.literal

namespace TokenStream

/-- The text of a token between blanks is the next token of a stream, on the line it stands on. -/
theorem next_of_text {s : TokenStream} {g l r : List Char} {kind : Kind} {literal : Literal}
    (hp : s.peeked = none) (hrest : s.cursor.rest = g ++ (l ++ r)) (hg : ∀ c ∈ g, isBlank c = true)
    (hl : IsLexeme l) (hclass : classify l = .ok (kind, literal))
    (hr : ∀ c ∈ r.head?, isBlank c = true) :
    ∃ s' : TokenStream, s'.peeked = none ∧ s'.file = s.file ∧ s'.cursor.rest = r ∧
      s'.cursor.line = s.cursor.line + newlines (g ++ l) ∧
      next s = .ok { kind, text := String.ofList l, literal,
                     position := { file := s.file, line := s.cursor.line + newlines g } } s' := by
  have hsplit : Splits s.cursor.rest g l r := hrest ▸ .of_classify (isGap_of_isBlank hg) hl hclass hr
  have hscan := scan_of_splits hsplit
  simp only [hclass] at hscan
  obtain ⟨hbehind, hline⟩ := skip_of_splits hsplit
  exact ⟨{ s with cursor := (s.cursor.skip g.length).skip l.length }, hp, rfl, hbehind, hline,
    (next_of_not_peeked hp).trans hscan⟩

/-- Blanks and nothing behind them are the end of a stream. -/
theorem next_of_blanks {s : TokenStream} (hp : s.peeked = none)
    (hblank : ∀ c ∈ s.cursor.rest, isBlank c = true) :
    ∃ s', next s = .ok (.eof { file := s.file, line := s.cursor.line + newlines s.cursor.rest }) s' := by
  have hgap : gap s.cursor.rest = s.cursor.rest := by
    simpa [gap] using gap_append (isGap_of_isBlank hblank) []
  exact ⟨_, (next_of_not_peeked hp).trans (scan_of_gap hgap)⟩

/-- A stream over the texts of tokens gives tokens like these, and the end of the input behind. -/
theorem tokens_of_texts {s : TokenStream} (hp : s.peeked = none)
    (hrest : s.cursor.rest = texts row ++ last) (hlexed : ∀ p ∈ row, p.token.Lexed)
    (heof : ∀ p ∈ row, p.token.isEof = false) (hrow : Segment.Spaced row)
    (hlast : ∀ c ∈ last, isBlank c = true) :
    List.Forall₂ (fun t (p : Segment) => t.Reads p.token) s.tokens row ∧
      ∃ eof, s.ending = .ok eof := by
  induction row generalizing s with
  | nil =>
    obtain ⟨s', hn⟩ := next_of_blanks hp (by simpa [hrest] using hlast)
    have hu := upcoming_of_next_eof hn rfl
    unfold tokens ending
    rw [hu]
    exact ⟨.nil, _, rfl⟩
  | cons p row ih =>
    rw [List.forall_mem_cons] at hlexed heof
    obtain ⟨hl, hclass⟩ := hlexed.1.classify_text heof.1
    obtain ⟨s', hp', -, hrest', -, hn⟩ := next_of_text hp
      (by rw [hrest, Segment.texts_cons, List.append_assoc, List.append_assoc])
      (hrow.isBlank p (by simp)) hl hclass (hrow.isBlank_of_head? hlast)
    have hu := upcoming_of_next hn heof.1
    obtain ⟨htokens, hending⟩ := ih hp' hrest' hlexed.2 heof.2 hrow.tail
    unfold tokens ending
    rw [hu]
    exact ⟨.cons ⟨rfl, by simp, rfl⟩ htokens, hending⟩

end TokenStream

/-! ## Whole sources -/

/-- The texts of tokens that were read in any sources, written one behind the other with blanks in
between, and with or without blanks at both ends, are read as tokens of the same kinds, texts and
values, and nothing else. -/
theorem tokenize_texts (file : String) (row : List Segment) (last : List Char)
    (hlexed : ∀ p ∈ row, p.token.Lexed ∧ p.token.isEof = false) (hrow : Segment.Spaced row)
    (hlast : ∀ c ∈ last, isBlank c = true) :
    ∃ T eof, tokenize file (String.ofList (texts row ++ last)) = .ok (T ++ [eof]) ∧
      eof.isEof = true ∧ List.Forall₂ (fun t (p : Segment) => t.Reads p.token) T row := by
  obtain ⟨htokens, eof, hending⟩ := TokenStream.tokens_of_texts
    (s := .ofSource file (String.ofList (texts row ++ last))) rfl
    (by simp [TokenStream.ofSource, Text.Cursor.ofText]) (fun p hp => (hlexed p hp).1)
    (fun p hp => (hlexed p hp).2) hrow hlast
  refine ⟨_, eof, (tokenize_eq_ok_iff _ _ _ _).2 ⟨rfl, hending⟩, ?_, htokens⟩
  exact (TokenStream.isEof_upcoming _).2 eof hending

/-- A slash of `a/0x1F`, a keyword and a number behind an error, from three sources. -/
theorem tokenize_texts_slash :
    ∃ row : List Segment, texts row ++ ['\n'] = "/ iter\t0x1F\n".toList ∧
      row.map (·.token.kind) = [.slash, .iter, .integer] ∧
      ∃ T eof, tokenize "f" (String.ofList (texts row ++ ['\n'])) = .ok (T ++ [eof]) ∧
        eof.isEof = true ∧ List.Forall₂ (fun t (p : Segment) => t.Reads p.token) T row := by
  let row : List Segment :=
    [{ gap := [], token := ⟨.slash, "/", ⟨"g", 1⟩, .none⟩ },
     { gap := [' '], token := ⟨.iter, "iter", ⟨"h", 2⟩, .none⟩ },
     { gap := ['\t'], token := ⟨.integer, "0x1F", ⟨"i", 1⟩, .integer 31⟩ }]
  have hspace : isBlank ' ' = true := by decide
  have htab : isBlank '\t' = true := by decide
  have hspaced : Segment.Spaced row := ⟨by simp [row, hspace, htab], by simp [row]⟩
  have hlast : ∀ c ∈ ['\n'], isBlank c = true := by simpa using Text.isBlank_newline
  refine ⟨row, rfl, rfl, tokenize_texts "f" row ['\n'] ?_ hspaced hlast⟩
  simp only [row, List.forall_mem_cons]
  refine ⟨⟨⟨"g", "a/0x1F", 1, ?_⟩, rfl⟩, ⟨⟨"h", "//\niter(", 0, ?_⟩, rfl⟩,
    ⟨⟨"i", "@0x1F.5", 1, ?_⟩, rfl⟩, by simp⟩
  · decide +kernel
  · decide +kernel
  · decide +kernel

end FxLang
