import Mathlib.Data.List.TakeWhile
import FxLang.Proofs.Token.Upcoming

/-!
# Sources as gaps and token texts

A source that is cut into tokens is the alternation of gaps and token texts, with nothing lost,
nothing added and nothing moved. A gap holds blanks and comments only, and the text of a token is
the longest text of any token at its place. The line of a token is told by the newlines in front of
its text.

* `isGap_gap`: what is skipped in front of a lexeme is a gap.
* `isLexeme_lexeme`, `IsLexeme.isPrefix_lexeme`: what is cut off behind the gap is a lexeme, and
  every other lexeme at its place is a part of it.
* `makes_of_classify`: the kinds and literals that a text can make.
* `TokenStream.scan_eq_ok`: what one token takes from the text.
* `tokenize_segmentation`: what all tokens of a source take.
-/

namespace FxLang

open Text (isBlank newlines newlines_append)

/-! ## Gaps -/

/-- Blanks and comments one behind the other. A comment runs from `//` through the next newline; one
without a newline stands only where the gap is `last` in its source. -/
inductive IsGap (last : Prop) : List Char → Prop
  | nil : IsGap last []
  | blank {c : Char} {g : List Char} (hc : isBlank c = true) (hg : IsGap last g) :
      IsGap last (c :: g)
  | comment {body g : List Char} (hbody : '\n' ∉ body) (hg : IsGap last g) :
      IsGap last ('/' :: '/' :: (body ++ '\n' :: g))
  | openComment {body : List Char} (hlast : last) (hbody : '\n' ∉ body) :
      IsGap last ('/' :: '/' :: body)

theorem IsGap.imp {p q : Prop} {g : List Char} (hpq : p → q) (h : IsGap p g) : IsGap q g := by
  induction h with
  | nil => exact .nil
  | blank hc _ ih => exact .blank hc ih
  | comment hbody _ ih => exact .comment hbody ih
  | openComment hlast hbody => exact .openComment (hpq hlast) hbody

/-- The rest of a comment: through its newline and the gap behind it, or up to the end of the
text. -/
def IsCommentRest (last : Prop) (g : List Char) : Prop :=
  (∃ body g', g = body ++ '\n' :: g' ∧ '\n' ∉ body ∧ IsGap last g') ∨ last ∧ '\n' ∉ g

theorem IsCommentRest.imp {p q : Prop} {g : List Char} (hpq : p → q) (h : IsCommentRest p g) :
    IsCommentRest q g := by
  rcases h with ⟨body, g', hg, hbody, hg'⟩ | ⟨hp, hg⟩
  · exact .inl ⟨body, g', hg, hbody, hg'.imp hpq⟩
  · exact .inr ⟨hpq hp, hg⟩

theorem IsCommentRest.cons {last : Prop} {c : Char} {g : List Char} (hc : c ≠ '\n')
    (h : IsCommentRest last g) : IsCommentRest last (c :: g) := by
  rcases h with ⟨body, g', rfl, hbody, hg'⟩ | ⟨hlast, hg⟩
  · exact .inl ⟨c :: body, g', rfl, by simp [hbody, hc.symm], hg'⟩
  · exact .inr ⟨hlast, by simp [hg, hc.symm]⟩

/-- `//` and the rest of a comment is a gap. -/
theorem IsCommentRest.isGap {last : Prop} {g : List Char} (h : IsCommentRest last ('/' :: g)) :
    IsGap last ('/' :: '/' :: g) := by
  rcases h with ⟨body, g', hg, hbody, hg'⟩ | ⟨hlast, hg⟩
  · cases body with
    | nil => cases hg
    | cons c body =>
      cases hg
      exact .comment (fun h => hbody (List.mem_cons_of_mem _ h)) hg'
  · exact .openComment hlast fun h => hg (List.mem_cons_of_mem _ h)

mutual

theorem isGap_gap : ∀ text : List Char, IsGap (gap text = text) (gap text)
  | [] => by rw [gap]; exact .nil
  | c :: cs => by
    rw [gap]
    split
    · rename_i hc
      exact .blank hc ((isGap_gap cs).imp fun h => by rw [h])
    · split
      · rename_i hc
        simp only [Bool.and_eq_true, decide_eq_true_eq] at hc
        obtain ⟨rfl, hcs⟩ := hc
        have hrest := (isCommentRest_commentGap cs).imp (congrArg ('/' :: ·))
        cases cs with
        | nil => cases hcs
        | cons d ds =>
          obtain rfl : d = '/' := by simpa using hcs
          rw [commentGap, if_neg (by decide)] at hrest ⊢
          exact hrest.isGap
      · exact .nil

theorem isCommentRest_commentGap :
    ∀ text : List Char, IsCommentRest (commentGap text = text) (commentGap text)
  | [] => .inr ⟨by rw [commentGap], by rw [commentGap]; simp⟩
  | c :: cs => by
    rw [commentGap]
    split
    · rename_i hc
      exact .inl ⟨[], gap cs, by simp [hc], by simp, (isGap_gap cs).imp fun h => by rw [h]⟩
    · rename_i hc
      exact .cons hc ((isCommentRest_commentGap cs).imp fun h => by rw [h])

end

/-! ## Lexemes

A lexeme is a number, a word or a symbol. Of the lexemes at the front of a text, `lexeme` takes the
longest. -/

/-- A number: `0x` with hexadecimal digits, or digits, or digits around a point. -/
inductive IsNumber : List Char → Prop
  | hex {ds : List Char} (h : ∀ c ∈ ds, isHexDigit c = true) : IsNumber ('0' :: 'x' :: ds)
  | whole {ds : List Char} (h : ∀ c ∈ ds, c.isDigit = true) : IsNumber ds
  | fraction {ds fs : List Char} (h : ∀ c ∈ ds, c.isDigit = true)
      (h' : ∀ c ∈ fs, c.isDigit = true) : IsNumber (ds ++ '.' :: fs)

theorem isNumber_numberText (text : List Char) : IsNumber (numberText text) := by
  unfold numberText
  split
  · exact .hex fun c => List.mem_takeWhile_imp
  · split
    · exact .fraction (fun c => List.mem_takeWhile_imp) fun c => List.mem_takeWhile_imp
    · exact .whole fun c => List.mem_takeWhile_imp

/-- What all has a property is part of the longest such front. -/
theorem isPrefix_takeWhile {p : Char → Bool} {l r : List Char} (hl : ∀ c ∈ l, p c = true)
    (h : l <+: r) : l <+: r.takeWhile p := by
  obtain ⟨z, rfl⟩ := h
  rw [List.takeWhile_append_of_pos hl]
  exact List.prefix_append l _

theorem takeWhile_isPrefix_numberText {text : List Char}
    (hx : ∀ rest, text ≠ '0' :: 'x' :: rest) : text.takeWhile Char.isDigit <+: numberText text := by
  rw [numberText.eq_2 text hx]
  split
  · exact List.prefix_append _ _
  · exact List.prefix_rfl

/-- Every number at the front of a text is part of the one that is cut off. -/
theorem IsNumber.isPrefix_numberText {l r : List Char} (h : IsNumber l) (hl : l <+: r) :
    l <+: numberText r := by
  cases h with
  | @hex ds hds =>
    obtain ⟨z, rfl⟩ := hl
    simpa [numberText] using isPrefix_takeWhile hds (List.prefix_append ds z)
  | whole hds =>
    by_cases hx : ∃ rest, r = '0' :: 'x' :: rest
    · -- Of `0x` only the `0` is made of digits.
      obtain ⟨rest, rfl⟩ := hx
      have hzero : l <+: ['0'] := by simpa using isPrefix_takeWhile hds hl
      exact hzero.trans (by simp [numberText])
    · exact (isPrefix_takeWhile hds hl).trans (takeWhile_isPrefix_numberText (not_exists.1 hx))
  | @fraction ds fs hds hfs =>
    obtain ⟨z, rfl⟩ := hl
    have hx : ∀ rest, ds ++ '.' :: fs ++ z ≠ '0' :: 'x' :: rest := by
      intro rest h
      match ds, hds, h with
      | [_], _, h => simp at h
      | _ :: c :: _, hds, h =>
        have hc := hds c (by simp)
        simp at h
        rw [h.2.1] at hc
        cases hc
    have hdrop : (ds ++ '.' :: fs ++ z).dropWhile Char.isDigit = '.' :: (fs ++ z) := by
      rw [List.append_assoc, List.dropWhile_append_of_pos hds]
      rfl
    have htake : (ds ++ '.' :: fs ++ z).takeWhile Char.isDigit = ds := by
      rw [List.append_assoc, List.takeWhile_append_of_pos hds]
      simp
    rw [numberText.eq_2 _ hx]
    simp only [hdrop, htake]
    simpa using isPrefix_takeWhile hfs (List.prefix_append fs z)

/-- The shapes of the texts of tokens. -/
inductive IsLexeme : List Char → Prop
  | number {c : Char} {cs : List Char} (hc : c.isDigit = true) (h : IsNumber (c :: cs)) :
      IsLexeme (c :: cs)
  | word {c : Char} {cs : List Char} (hc : c.isDigit = false) (hw : isWordStart c = true)
      (h : ∀ d ∈ cs, isWordPart d = true) : IsLexeme (c :: cs)
  | single {c : Char} (hc : c.isDigit = false) (hw : isWordStart c = false) : IsLexeme [c]
  | pair {c d : Char} (hc : c.isDigit = false) (hw : isWordStart c = false)
      (h : (symbolKind? [c, d]).isSome = true) : IsLexeme [c, d]

theorem mem_of_lookup {table : List (List Char × Kind)} {text : List Char} {kind : Kind}
    (h : table.lookup text = some kind) : (text, kind) ∈ table := by
  obtain ⟨l₁, l₂, rfl, -⟩ := List.lookup_eq_some_iff.1 h
  simp

theorem mem_symbols {text : List Char} {kind : Kind} (h : symbolKind? text = some kind) :
    (text, kind) ∈ symbols :=
  mem_of_lookup h

/-- A symbol of two characters is an operator. -/
theorem mem_operatorStarts_of_pair {c d : Char} {cs : List Char}
    (h : (symbolKind? (c :: (d :: cs).take 1)).isSome = true) : c ∈ operatorStarts := by
  obtain ⟨kind, hkind⟩ := Option.isSome_iff_exists.1 h
  have hall : ∀ p ∈ symbols, p.1.length = 2 → p.1.head?.all (· ∈ operatorStarts) = true := by decide
  simpa using hall _ (mem_symbols hkind) (by simp)

/-- The separators have nothing to do with what an operator starts. -/
theorem isSome_symbolKind?_of_operator {c : Char} {cs : List Char} (h : c ∈ operatorStarts) :
    (symbolKind? (c :: cs)).isSome = (operators.lookup (c :: cs)).isSome := by
  have hall : ∀ p ∈ separators, p.1.head?.all (· ∉ operatorStarts) = true := by decide
  have hnone : separators.lookup (c :: cs) = none := by
    rw [List.lookup_eq_none_iff]
    intro p hp
    have hp := hall p hp
    rw [bne_iff_ne]
    rintro heq
    simp [← heq, h] at hp
  rw [symbolKind?, symbols, List.lookup_append, hnone, Option.or_none]

/-- Operators and separators start with neither a digit nor a word. -/
theorem not_mem_starts {c : Char} (h : c.isDigit = true ∨ isWordStart c = true) :
    c ∉ operatorStarts ∧ c ∉ separatorStarts := by
  have hall : ∀ d ∈ operatorStarts ++ separatorStarts, (!d.isDigit && !isWordStart d) = true :=
    List.all_eq_true.1 (by decide +kernel)
  simp only [List.mem_append, Bool.and_eq_true, Bool.not_eq_true'] at hall
  refine ⟨fun hc => ?_, fun hc => ?_⟩
  · simp [hall c (.inl hc)] at h
  · simp [hall c (.inr hc)] at h

theorem Start.of_isDigit {c : Char} (hc : c.isDigit = true) : Start.of c = .number := by
  obtain ⟨hoperator, hseparator⟩ := not_mem_starts (.inl hc)
  rw [Start.of, if_neg hoperator, if_neg hseparator, if_pos hc]

theorem Start.of_isWordStart {c : Char} (hc : c.isDigit = false) (hw : isWordStart c = true) :
    Start.of c = .word := by
  obtain ⟨hoperator, hseparator⟩ := not_mem_starts (.inr hw)
  rw [Start.of, if_neg hoperator, if_neg hseparator, if_neg (by simp [hc]), if_pos hw]

theorem exists_numberText_eq_cons {c : Char} (cs : List Char) (hc : c.isDigit = true) :
    ∃ ds, numberText (c :: cs) = c :: ds := by
  unfold numberText
  split
  · rename_i h
    cases h
    exact ⟨_, rfl⟩
  · split
    · exact ⟨_, by simp [hc]; rfl⟩
    · exact ⟨_, by simp [hc]; rfl⟩

/-- Told by the classes of its first character, what is cut off. -/
theorem lexeme_cons (c : Char) (cs : List Char) :
    lexeme (c :: cs) =
      if c.isDigit then numberText (c :: cs)
      else if isWordStart c then c :: cs.takeWhile isWordPart
      else if (symbolKind? (c :: cs.take 1)).isSome then c :: cs.take 1 else [c] := by
  by_cases hdigit : c.isDigit = true
  · rw [lexeme, Start.of_isDigit hdigit, if_pos hdigit]
  by_cases hword : isWordStart c = true
  · rw [lexeme, Start.of_isWordStart (by simpa using hdigit) hword, if_neg hdigit, if_pos hword]
  rw [if_neg hdigit, if_neg hword]
  by_cases hoperator : c ∈ operatorStarts
  · rw [lexeme, Start.of, if_pos hoperator, isSome_symbolKind?_of_operator hoperator]
  · -- No other character starts a symbol of two characters.
    have hsingle : lexeme (c :: cs) = [c] := by
      rw [lexeme, Start.of, if_neg hoperator, if_neg hdigit, if_neg hword]
      by_cases hseparator : c ∈ separatorStarts
      · rw [if_pos hseparator]
      · rw [if_neg hseparator]
    rw [hsingle]
    cases cs with
    | nil => simp
    | cons d ds => rw [if_neg fun hpair => hoperator (mem_operatorStarts_of_pair hpair)]

theorem isLexeme_lexeme {text : List Char} (h : text ≠ []) : IsLexeme (lexeme text) := by
  cases text with
  | nil => exact absurd rfl h
  | cons c cs =>
    rw [lexeme_cons]
    split
    · rename_i hc
      have hnumber := isNumber_numberText (c :: cs)
      obtain ⟨ds, hds⟩ := exists_numberText_eq_cons cs hc
      rw [hds] at hnumber ⊢
      exact .number hc hnumber
    · rename_i hc
      have hc : c.isDigit = false := by simpa using hc
      split
      · rename_i hw
        exact .word hc hw fun d => List.mem_takeWhile_imp
      · rename_i hw
        have hw : isWordStart c = false := by simpa using hw
        split
        · rename_i hsymbol
          cases cs with
          | nil => exact .single hc hw
          | cons d ds => exact .pair hc hw hsymbol
        · exact .single hc hw

/-- Every lexeme at the front of a text is part of the one that is cut off. -/
theorem IsLexeme.isPrefix_lexeme {l r : List Char} (h : IsLexeme l) (hl : l <+: r) :
    l <+: lexeme r := by
  cases h with
  | @number c cs hc h =>
    obtain ⟨z, rfl⟩ := hl
    rw [List.cons_append, lexeme_cons, if_pos hc]
    exact h.isPrefix_numberText (List.prefix_append (c :: cs) z)
  | @word c cs hc hw h =>
    obtain ⟨z, rfl⟩ := hl
    rw [List.cons_append, lexeme_cons, if_neg (by simp [hc]), if_pos hw]
    simpa using isPrefix_takeWhile h (List.prefix_append cs z)
  | @single c hc hw =>
    obtain ⟨z, rfl⟩ := hl
    rw [List.cons_append, lexeme_cons, if_neg (by simp [hc]), if_neg (by simp [hw])]
    split
    · exact List.prefix_append [c] _
    · exact List.prefix_rfl
  | @pair c d hc hw h =>
    obtain ⟨z, rfl⟩ := hl
    rw [List.cons_append, lexeme_cons, if_neg (by simp [hc]), if_neg (by simp [hw])]
    simp [h]

/-! ## What texts make -/

/-- The kinds and literals that a text can make. -/
inductive Makes (text : List Char) : Kind → Literal → Prop
  | nothing (h : text = []) : Makes text .eof .none
  | integer (value : Int64) : Makes text .integer (.integer value)
  | float (value : Float) : Makes text .float (.float value)
  | reserved {kind : Kind} {literal : Literal} (h : (String.ofList text, kind) ∈ reservedWords) :
      Makes text kind literal
  | identifier : Makes text .identifier .none
  | symbol {kind : Kind} (h : (text, kind) ∈ symbols) : Makes text kind .none

section
variable {text : List Char} {kind : Kind} {literal : Literal}

theorem makes_of_integerLiteral {number : List Char} {value : Nat}
    (h : integerLiteral number value = .ok (kind, literal)) : Makes text kind literal := by
  unfold integerLiteral at h
  split at h
  · cases h
    exact .integer _
  · cases h

theorem makes_of_numberValue (h : numberValue text = .ok (kind, literal)) :
    Makes text kind literal := by
  unfold numberValue at h
  split at h
  · cases h
  · exact makes_of_integerLiteral h
  · split at h
    · cases h
      exact .float _
    · exact makes_of_integerLiteral h

theorem mem_reservedWords {word : String} (h : reservedKind? word = some kind) :
    (word, kind) ∈ reservedWords := by
  obtain ⟨l₁, l₂, hwords, -⟩ := List.lookup_eq_some_iff.1 h
  rw [hwords]
  simp

theorem makes_of_wordValue (h : wordValue (String.ofList text) = (kind, literal)) :
    Makes text kind literal := by
  unfold wordValue at h
  split at h
  next hword =>
    cases h
    exact .reserved (mem_reservedWords hword)
  next hword =>
    cases h
    exact .reserved (mem_reservedWords hword)
  next =>
    cases h
    exact .identifier

theorem classify_of_isDigit {c : Char} (cs : List Char) (hc : c.isDigit = true) :
    classify (c :: cs) = numberValue (c :: cs) := by
  rw [classify, Start.of_isDigit hc]

theorem mem_symbols_of_operatorValue (h : operatorValue text = .ok (kind, literal)) :
    (text, kind) ∈ symbols ∧ literal = .none := by
  unfold operatorValue at h
  split at h
  next hlookup =>
    cases h
    exact ⟨List.mem_append_left _ (mem_of_lookup hlookup), rfl⟩
  next => cases h

theorem mem_symbols_of_separatorValue (h : separatorValue text = .ok (kind, literal)) :
    (text, kind) ∈ symbols ∧ literal = .none := by
  unfold separatorValue at h
  split at h
  next hlookup =>
    cases h
    exact ⟨List.mem_append_right _ (mem_of_lookup hlookup), rfl⟩
  next => cases h

theorem makes_of_classify (h : classify text = .ok (kind, literal)) : Makes text kind literal := by
  unfold classify at h
  split at h
  · cases h
    exact .nothing rfl
  · split at h
    · obtain ⟨hmem, rfl⟩ := mem_symbols_of_operatorValue h
      exact .symbol hmem
    · obtain ⟨hmem, rfl⟩ := mem_symbols_of_separatorValue h
      exact .symbol hmem
    · exact makes_of_numberValue h
    · exact makes_of_wordValue (Except.ok.inj h)
    · cases h

/-- A text that starts neither a number nor a word is a symbol. -/
theorem mem_symbols_of_classify {c : Char} {cs : List Char} (hc : c.isDigit = false)
    (hw : isWordStart c = false) (h : classify (c :: cs) = .ok (kind, literal)) :
    (c :: cs, kind) ∈ symbols := by
  rw [classify] at h
  split at h
  · exact (mem_symbols_of_operatorValue h).1
  · exact (mem_symbols_of_separatorValue h).1
  next hstart => exact absurd (Start.suits_of hstart) (by simp [Start.Suits, hc])
  next hstart => exact absurd (Start.suits_of hstart) (by simp [Start.Suits, hw])
  · cases h

/-- Only an empty text is the end of the input. -/
theorem kind_ne_eof_of_classify (ht : text ≠ []) (h : classify text = .ok (kind, literal)) :
    kind ≠ .eof := by
  have hreserved : ∀ p ∈ reservedWords, p.2 ≠ .eof := by decide
  have hsymbols : ∀ p ∈ symbols, p.2 ≠ .eof := by decide
  cases makes_of_classify h with
  | nothing hnil => exact absurd hnil ht
  | integer | float | identifier => simp
  | reserved hmem => exact hreserved _ hmem
  | symbol hmem => exact hsymbols _ hmem

end

namespace TokenStream

/-! ## One token -/

/-- From `s` to `s'` the gap `g` was passed over and the token `t` was cut off behind it. -/
structure Cuts (s : TokenStream) (g : List Char) (t : Token) (s' : TokenStream) : Prop where
  isGap : IsGap False g
  rest_eq : s.cursor.rest = g ++ (t.text.toList ++ s'.cursor.rest)
  lexeme_eq : lexeme (t.text.toList ++ s'.cursor.rest) = t.text.toList
  position_eq : t.position = { file := s.file, line := s.cursor.line + newlines g }
  file_eq : s'.file = s.file
  peeked_eq : s'.peeked = s.peeked
  line_eq : s'.cursor.line = s.cursor.line + newlines (g ++ t.text.toList)

variable {s s' : TokenStream} {t : Token}

/-- Where a cursor stands behind the front `a` of its rest. -/
theorem skip_of_append {c : Text.Cursor} {a b : List Char} (h : c.rest = a ++ b) :
    (c.skip a.length).rest = b ∧ (c.skip a.length).line = c.line + newlines a := by
  rw [Text.Cursor.skip_rest, Text.Cursor.skip_line, h, List.drop_left, List.take_left]
  exact ⟨rfl, rfl⟩

/-- A token is the end of the input behind the last gap, or it is cut off behind a gap. -/
theorem scan_eq_ok (h : scan s = .ok t s') :
    t.isEof = true ∧ t.text = "" ∧ IsGap True s.cursor.rest ∧
      t.position = { file := s.file, line := s.cursor.line + newlines s.cursor.rest } ∨
    t.isEof = false ∧ ∃ g, s.Cuts g t s' := by
  have hgap := isGap_gap s.cursor.rest
  obtain ⟨r, hr⟩ := gap_isPrefix s.cursor.rest
  obtain ⟨hrest, hline⟩ := skip_of_append hr.symm
  simp only [scan, hrest, hline] at h
  split at h
  · rename_i hnil
    cases h
    rw [hnil, List.append_nil] at hr
    rw [hr] at hgap ⊢
    exact .inl ⟨rfl, rfl, hgap.imp fun _ => trivial, rfl⟩
  · rename_i hne
    split at h
    · rename_i kind literal hclass
      cases h
      obtain ⟨z, hz⟩ := lexeme_isPrefix r
      obtain ⟨hrest', hline'⟩ := skip_of_append (hrest.trans hz.symm)
      have hkind := kind_ne_eof_of_classify (lexeme_ne_nil hne) hclass
      refine .inr ⟨by simpa [Token.isEof] using hkind, gap s.cursor.rest, ?_⟩
      constructor
      · refine hgap.imp fun hall => hne ?_
        rw [hall] at hr
        simpa using hr
      · simp only [String.toList_ofList, hrest', hz, hr]
      · simp only [String.toList_ofList, hrest', hz]
      · rfl
      · rfl
      · rfl
      · simp only [String.toList_ofList, hline', hline, newlines_append, UInt32.add_assoc]
    · cases h

/-- The text of a token that is cut off at some place of some source. -/
def IsTokenText (l : List Char) : Prop :=
  ∃ (s s' : TokenStream) (t : Token), scan s = .ok t s' ∧ t.text.toList = l

theorem IsTokenText.isLexeme {l : List Char} (h : IsTokenText l) : l = [] ∨ IsLexeme l := by
  obtain ⟨s, s', t, h, rfl⟩ := h
  rcases scan_eq_ok h with ⟨-, htext, -⟩ | ⟨-, g, hcut⟩
  · exact .inl (by simp [htext])
  · by_cases hl : t.text.toList = []
    · exact .inl hl
    · rw [← hcut.lexeme_eq]
      exact .inr (isLexeme_lexeme (by simp [hl]))

end TokenStream

/-! ## Whole sources -/

/-- A token and the gap in front of it. -/
structure Segment where
  gap : List Char
  token : Token

namespace Segment

/-- The text of a gap and of the token behind it. -/
def text (p : Segment) : List Char := p.gap ++ p.token.text.toList

/-- The text of segments one behind the other. -/
def texts (row : List Segment) : List Char := row.flatMap text

@[simp] theorem texts_nil : texts [] = [] := rfl

@[simp] theorem texts_cons (p : Segment) (row : List Segment) :
    texts (p :: row) = p.gap ++ (p.token.text.toList ++ texts row) := by
  simp [texts, text]

theorem texts_append (row row' : List Segment) : texts (row ++ row') = texts row ++ texts row' := by
  simp [texts]

end Segment

open Segment (texts)

/-- The text `source`, whose first line has the number `line`, consists of the segments `row` and
the gap `last`, behind which the token `eof` stands for the end. -/
structure Segmentation (file : String) (line : UInt32) (source : List Char) (row : List Segment)
    (last : List Char) (eof : Token) : Prop where
  source_eq : source = texts row ++ last
  isGap : ∀ p ∈ row, IsGap False p.gap
  isGap_last : IsGap True last
  /-- The end of the input is the last token and no other. -/
  isEof_iff : eof.isEof = true ∧ ∀ p ∈ row, p.token.isEof = false
  /-- Of what is left of the source at the place of a token, no longer front is the text of a
  token. -/
  longest : ∀ before p after, row = before ++ p :: after →
    ∀ l, l <+: p.token.text.toList ++ (texts after ++ last) → TokenStream.IsTokenText l →
      l.length ≤ p.token.text.toList.length
  /-- The line of a token is told by the newlines in front of its text. -/
  position_eq : ∀ before p after, row = before ++ p :: after →
    p.token.position = { file, line := line + newlines (texts before ++ p.gap) }
  eof_position_eq : eof.position = { file, line := line + newlines source }

/-- A token is put in front of the segments of the text behind it. -/
theorem Segmentation.cons {s s' : TokenStream} {g last : List Char} {t eof : Token}
    {row : List Segment} (ht : t.isEof = false) (hcut : s.Cuts g t s')
    (h : Segmentation s'.file s'.cursor.line s'.cursor.rest row last eof) :
    Segmentation s.file s.cursor.line s.cursor.rest ({ gap := g, token := t } :: row) last eof where
  source_eq := by
    have := h.source_eq
    rw [hcut.rest_eq, this]
    simp
  isGap := List.forall_mem_cons.2 ⟨hcut.isGap, h.isGap⟩
  isGap_last := h.isGap_last
  isEof_iff := ⟨h.isEof_iff.1, List.forall_mem_cons.2 ⟨ht, h.isEof_iff.2⟩⟩
  longest before p after hrow l hl htext := by
    cases before with
    | nil =>
      cases hrow
      rcases htext.isLexeme with rfl | hlex
      · exact Nat.zero_le _
      · rw [← h.source_eq] at hl
        have := hlex.isPrefix_lexeme hl
        rw [hcut.lexeme_eq] at this
        exact this.length_le
    | cons q before =>
      cases hrow
      exact h.longest before p after rfl l hl htext
  position_eq before p after hrow := by
    cases before with
    | nil =>
      cases hrow
      simpa using hcut.position_eq
    | cons q before =>
      cases hrow
      rw [h.position_eq before p after rfl, hcut.file_eq, hcut.line_eq]
      simp [UInt32.add_assoc]
  eof_position_eq := by
    rw [h.eof_position_eq, hcut.file_eq, hcut.line_eq, hcut.rest_eq]
    simp [UInt32.add_assoc]

/-- Where a word can count the lines of a source, the line of a token is the number of newlines in
front of its text and one. -/
theorem Segmentation.toNat_line {file : String} {source last : List Char} {row : List Segment}
    {eof : Token} (h : Segmentation file 1 source row last eof)
    (hlines : source.count '\n' < UInt32.size - 1) :
    (∀ before p after, row = before ++ p :: after →
      p.token.position.line.toNat = 1 + (texts before ++ p.gap).count '\n') ∧
    eof.position.line.toNat = 1 + source.count '\n' := by
  refine ⟨?_, ?_⟩
  · intro before p after hrow
    have hfront : texts before ++ p.gap <+: source := by
      rw [h.source_eq, hrow, Segment.texts_append, Segment.texts_cons]
      simp
    rw [h.position_eq before p after hrow]
    exact Text.toNat_lineBehind (Nat.lt_of_le_of_lt (hfront.sublist.count_le '\n') hlines)
  · rw [h.eof_position_eq]
    exact Text.toNat_lineBehind hlines

/-- The tokens up to the end of the input make a segmentation of the text. -/
theorem TokenStream.exists_segmentation (s : TokenStream) (eof : Token) (hp : s.peeked = none)
    (he : s.ending = .ok eof) : ∃ row last, row.map Segment.token = s.tokens ∧
      Segmentation s.file s.cursor.line s.cursor.rest row last eof := by
  induction hr : s.remaining using Nat.strongRecOn generalizing s with
  | ind n ih =>
    unfold ending tokens at *
    cases hn : next s with
    | error e s' =>
      rw [upcoming_of_next_error hn] at he
      cases he
    | ok t s' =>
      have hscan : scan s = .ok t s' := next_of_not_peeked hp ▸ hn
      rcases scan_eq_ok hscan with ⟨ht, -, hgap, hpos⟩ | ⟨ht, g, hcut⟩
      · rw [upcoming_of_next_eof hn ht] at he ⊢
        cases he
        refine ⟨[], s.cursor.rest, rfl, rfl, by simp, hgap, ⟨ht, by simp⟩, ?_, ?_, hpos⟩
        · intro before p after hrow
          simp at hrow
        · intro before p after hrow
          simp at hrow
      · rw [upcoming_of_next hn ht] at he ⊢
        have hlt := remaining_next_lt hn ht
        obtain ⟨row, last, hrow, hseg⟩ := ih s'.remaining (by omega) s' (hcut.peeked_eq.trans hp)
          he rfl
        exact ⟨{ gap := g, token := t } :: row, last, by simp [hrow, tokens], hseg.cons ht hcut⟩

/-- A source that is cut into tokens consists of gaps and token texts, one behind the other, each
token being the longest at its place, and the line of a token is one more than the number of
newlines in front of its text, as a word counts them; where the word does not run over it is that
number. -/
theorem tokenize_segmentation (file source : String) (T : List Token)
    (h : tokenize file source = .ok T) :
    ∃ row last eof, T = row.map Segment.token ++ [eof] ∧
      Segmentation file 1 source.toList row last eof ∧
      (source.toList.count '\n' < UInt32.size - 1 →
        (∀ before p after, row = before ++ p :: after →
          p.token.position.line.toNat = 1 + (texts before ++ p.gap).count '\n') ∧
        eof.position.line.toNat = 1 + source.toList.count '\n') := by
  obtain ⟨eof, he, rfl⟩ := (TokenStream.toList_eq_ok_iff _ _).1 h
  obtain ⟨row, last, hrow, hseg⟩ := TokenStream.exists_segmentation _ eof rfl he
  exact ⟨row, last, eof, by rw [hrow], hseg, hseg.toNat_line⟩

/-- Two comments, a newline, and operators without a gap between them. -/
theorem tokenize_segmentation_comments :
    ∃ T, tokenize "f" "x//a\n:=0x1F**y//b" = .ok T ∧ T.length = 6 ∧
      "x//a\n:=0x1F**y//b".toList.count '\n' < UInt32.size - 1 ∧
      ∃ row last eof, T = row.map Segment.token ++ [eof] ∧
        Segmentation "f" 1 "x//a\n:=0x1F**y//b".toList row last eof ∧
        eof.position.line.toNat = 2 := by
  have hlines : "x//a\n:=0x1F**y//b".toList.count '\n' < UInt32.size - 1 := by decide +kernel
  have hlength : (tokenize "f" "x//a\n:=0x1F**y//b").map List.length = .ok 6 := by decide +kernel
  cases hT : tokenize "f" "x//a\n:=0x1F**y//b" with
  | error e =>
    rw [hT] at hlength
    cases hlength
  | ok T =>
    rw [hT] at hlength
    obtain ⟨row, last, eof, hrow, hseg, hline⟩ := tokenize_segmentation _ _ T hT
    refine ⟨T, rfl, Except.ok.inj hlength, hlines, row, last, eof, hrow, hseg, ?_⟩
    exact (hline hlines).2.trans (by decide +kernel)

end FxLang
