import FxLang.Proofs.Token.Segments

/-!
# Where a token ends

A lexeme goes on for as long as what is taken is still a lexeme. Every front of a lexeme is one, so
a single character decides: the text `l` is cut off in front of the character `d` if and only if `l`
is a lexeme and `l ++ [d]` is none. What stands behind `d` is not looked at.

A blank ends every lexeme, since it is neither a digit nor part of a word or of a symbol.

* `lexeme_append_cons_iff`: the character that ends a lexeme.
* `gap_append`, `gap_eq_nil_congr`: where a gap ends.
* `IsLexeme.isWordPart_or_mem`, `IsLexeme.isBlank_eq_false`: what stands behind the first character
  of a lexeme, and that it is no blank.
* `gap_eq_self_or_splits`, `Splits.behind`: the gap and the lexeme at the front of a text, and what
  of the text behind them they depend on.
* `TokenStream.scan_of_splits`: what a stream gives for them.
-/

namespace FxLang

open Text (newlines isBlank isAlphabetic isNumeric Ranges blankRanges alphabeticRanges numericRanges)

/-! ## Fronts of lexemes -/

theorem IsNumber.of_isPrefix {l m : List Char} (h : IsNumber m) (hl : l <+: m) : IsNumber l := by
  cases h with
  | @hex ds hds =>
    match l, hl with
    | [], _ => exact .whole (by simp)
    | [c], hl =>
      obtain rfl : c = '0' := by simpa using hl
      exact .whole (by simp)
    | c :: d :: l, hl =>
      obtain ⟨rfl, rfl, hl'⟩ : c = '0' ∧ d = 'x' ∧ l <+: ds := by simpa using hl
      exact .hex fun c hc => hds c (hl'.subset hc)
  | whole hds => exact .whole fun c hc => hds c (hl.subset hc)
  | @fraction ds fs hds hfs =>
    rcases List.prefix_or_prefix_of_prefix hl (List.prefix_append ds ('.' :: fs)) with hl' | hl'
    · exact .whole fun c hc => hds c (hl'.subset hc)
    · obtain ⟨r, rfl⟩ := hl'
      rw [List.prefix_append_right_inj] at hl
      rcases List.prefix_cons_iff.1 hl with rfl | ⟨r, rfl, hr⟩
      · exact .whole (by simpa using hds)
      · exact .fraction hds fun c hc => hfs c (hr.subset hc)

/-- Every front of a lexeme that is not empty is a lexeme. -/
theorem IsLexeme.of_isPrefix {l m : List Char} (h : IsLexeme m) (hl : l <+: m) (hne : l ≠ []) :
    IsLexeme l := by
  obtain ⟨a, l, rfl⟩ := List.exists_cons_of_ne_nil hne
  cases h with
  | number hc h =>
    have hnumber := h.of_isPrefix hl
    obtain ⟨rfl, -⟩ := List.cons_prefix_cons.1 hl
    exact .number hc hnumber
  | word hc hw h =>
    obtain ⟨rfl, hl'⟩ := List.cons_prefix_cons.1 hl
    exact .word hc hw fun d hd => h d (hl'.subset hd)
  | single hc hw =>
    obtain ⟨rfl, hl'⟩ := List.cons_prefix_cons.1 hl
    obtain rfl := List.prefix_nil.1 hl'
    exact .single hc hw
  | pair hc hw h =>
    obtain ⟨rfl, hl'⟩ := List.cons_prefix_cons.1 hl
    rcases List.prefix_cons_iff.1 hl' with rfl | ⟨r, rfl, hr⟩
    · exact .single hc hw
    · obtain rfl := List.prefix_nil.1 hr
      exact .pair hc hw h

theorem IsLexeme.ne_nil {l : List Char} (h : IsLexeme l) : l ≠ [] := by
  cases h <;> simp

/-- At the end of a text a lexeme is cut off as it is. -/
theorem IsLexeme.lexeme_eq {l : List Char} (h : IsLexeme l) : lexeme l = l :=
  (lexeme_isPrefix l).eq_of_length_le (h.isPrefix_lexeme List.prefix_rfl).length_le

/-- A text is cut off in front of a character if and only if it is a lexeme, and it is none together
with the character. -/
theorem lexeme_append_cons_iff {l r : List Char} {d : Char} :
    lexeme (l ++ d :: r) = l ↔ IsLexeme l ∧ ¬ IsLexeme (l ++ [d]) := by
  have hmunch : IsLexeme (lexeme (l ++ d :: r)) := isLexeme_lexeme (by simp)
  constructor
  · intro h
    refine ⟨h ▸ hmunch, ?_⟩
    intro hlonger
    have hle := (hlonger.isPrefix_lexeme (r := l ++ d :: r) (by simp)).length_le
    rw [h, List.length_append, List.length_singleton] at hle
    omega
  · rintro ⟨hl, hlonger⟩
    obtain ⟨m, hm⟩ := hl.isPrefix_lexeme (List.prefix_append l (d :: r))
    cases m with
    | nil => simpa using hm.symm
    | cons x m =>
      -- What is cut off goes on with `d`, and its front up to there is a lexeme.
      have hfront : l ++ x :: m <+: l ++ d :: r := hm ▸ lexeme_isPrefix _
      rw [List.prefix_append_right_inj] at hfront
      obtain ⟨rfl, -⟩ := List.cons_prefix_cons.1 hfront
      rw [← hm] at hmunch
      exact absurd (hmunch.of_isPrefix (by simp) (by simp)) hlonger

/-! ## Blanks -/

/-- Two tables have no code point in common. -/
def Text.Ranges.Apart (a b : Ranges) : Prop :=
  ∀ p ∈ a, ∀ q ∈ b, p.2 < q.1 ∨ q.2 < p.1

instance (a b : Ranges) : Decidable (a.Apart b) :=
  inferInstanceAs (Decidable (∀ p ∈ a, ∀ q ∈ b, p.2 < q.1 ∨ q.2 < p.1))

theorem Text.Ranges.Apart.has_eq_false {a b : Ranges} {c : Char} (h : a.Apart b)
    (hc : a.has c = true) : b.has c = false := by
  rw [← Bool.not_eq_true]
  intro hb
  simp only [has, List.any_eq_true, Bool.and_eq_true, decide_eq_true_eq] at hc hb
  obtain ⟨p, hp, hc⟩ := hc
  obtain ⟨q, hq, hb⟩ := hb
  have := h p hp q hq
  omega

section
variable {c : Char}

/-- The blanks of ASCII stand in front of its visible characters. -/
theorem toNat_of_isBlank (h : isBlank c = true) : c.toNat ≤ 0x20 ∨ 0x80 ≤ c.toNat := by
  simp [isBlank, blankRanges, Ranges.has] at h
  omega

/-- The digits and letters of ASCII are among its visible characters. -/
theorem toNat_of_isAlphanum (h : c.isAlphanum = true) : 0x20 < c.toNat ∧ c.toNat < 0x80 := by
  delta Char.isAlphanum Char.isAlpha Char.isUpper Char.isLower Char.isDigit at h
  simp [UInt32.le_iff_toNat_le] at h
  omega

theorem isDigit_of_isBlank (h : isBlank c = true) : c.isDigit = false := by
  rw [← Bool.not_eq_true]
  intro hc
  have hblank := toNat_of_isBlank h
  have hvisible := toNat_of_isAlphanum (c := c) (by simp [Char.isAlphanum, hc])
  omega

theorem isAlphabetic_of_isBlank (h : isBlank c = true) : isAlphabetic c = false := by
  have hapart : blankRanges.Apart alphabeticRanges := by decide +kernel
  have halpha : c.isAlpha = false := by
    rw [← Bool.not_eq_true]
    intro hc
    have hblank := toNat_of_isBlank h
    have hvisible := toNat_of_isAlphanum (c := c) (by simp [Char.isAlphanum, hc])
    omega
  simp [isAlphabetic, halpha, hapart.has_eq_false h]

theorem isNumeric_of_isBlank (h : isBlank c = true) : isNumeric c = false := by
  have hapart : blankRanges.Apart numericRanges := by decide +kernel
  simp [isNumeric, isDigit_of_isBlank h, hapart.has_eq_false h]

/-- A blank is none of the visible characters of ASCII. -/
theorem ne_of_isBlank {d : Char} (h : isBlank c = true)
    (hd : 0x20 < d.toNat ∧ d.toNat < 0x80) : c ≠ d := by
  rintro rfl
  have hblank := toNat_of_isBlank h
  omega

theorem isWordPart_of_isBlank (h : isBlank c = true) : isWordPart c = false := by
  simp [isWordPart, isAlphabetic_of_isBlank h, isNumeric_of_isBlank h,
    ne_of_isBlank h (d := '_') (by decide)]

theorem isWordStart_of_isBlank (h : isBlank c = true) : isWordStart c = false := by
  simp [isWordStart, isAlphabetic_of_isBlank h, ne_of_isBlank h (d := '_') (by decide)]

theorem isWordPart_of_isHexDigit (h : isHexDigit c = true) : isWordPart c = true := by
  have halnum : c.isDigit = true ∨ c.isAlpha = true := by
    delta isHexDigit Char.isAlpha Char.isUpper Char.isLower Char.isDigit at *
    simp [Char.le_def, UInt32.le_iff_toNat_le] at *
    omega
  rcases halnum with h | h
  · simp [isWordPart, isNumeric, h]
  · simp [isWordPart, isAlphabetic, h]

theorem isWordPart_of_isDigit (h : c.isDigit = true) : isWordPart c = true :=
  isWordPart_of_isHexDigit (by simp [isHexDigit, h])

end

/-- The symbols of two characters end in `*` or `=`. -/
theorem eq_of_isSome_symbolKind? {b c : Char} (h : (symbolKind? [b, c]).isSome = true) :
    c = '*' ∨ c = '=' := by
  obtain ⟨kind, hkind⟩ := Option.isSome_iff_exists.1 h
  have hall : ∀ p ∈ symbols, p.1.length = 2 →
      p.1.getLast? = some '*' ∨ p.1.getLast? = some '=' := by decide
  simpa using hall _ (mem_symbols hkind) rfl

/-- The characters of a number could stand in a word, but for a point. -/
theorem IsNumber.isWordPart_or_point {l : List Char} {c : Char} (h : IsNumber l) (hc : c ∈ l) :
    isWordPart c = true ∨ c = '.' := by
  cases h with
  | hex hds =>
    left
    rcases List.mem_cons.1 hc with rfl | hc
    · decide
    rcases List.mem_cons.1 hc with rfl | hc
    · decide
    · exact isWordPart_of_isHexDigit (hds c hc)
  | whole hds => exact .inl (isWordPart_of_isDigit (hds c hc))
  | fraction hds hfs =>
    rcases List.mem_append.1 hc with hc | hc
    · exact .inl (isWordPart_of_isDigit (hds c hc))
    rcases List.mem_cons.1 hc with rfl | hc
    · exact .inr rfl
    · exact .inl (isWordPart_of_isDigit (hfs c hc))

/-- Behind its first character a lexeme has parts of words and three other characters only. -/
theorem IsLexeme.isWordPart_or_mem {l : List Char} {a c : Char} (h : IsLexeme (a :: l))
    (hc : c ∈ l) : isWordPart c = true ∨ c ∈ ['.', '*', '='] := by
  cases h with
  | number _ h =>
    refine (h.isWordPart_or_point (List.mem_cons_of_mem _ hc)).imp_right fun hpoint => ?_
    simp [hpoint]
  | word _ _ h => exact .inl (h c hc)
  | single => cases hc
  | pair _ _ h =>
    obtain rfl := List.mem_singleton.1 hc
    rcases eq_of_isSome_symbolKind? h with rfl | rfl
    · simp
    · simp

/-- No lexeme has a blank behind its first character. -/
theorem IsLexeme.isBlank_eq_false {l : List Char} {a c : Char} (h : IsLexeme (a :: l))
    (hc : c ∈ l) : isBlank c = false := by
  rw [← Bool.not_eq_true]
  intro hblank
  rcases h.isWordPart_or_mem hc with hword | hmem
  · simp [isWordPart_of_isBlank hblank] at hword
  · simp only [List.mem_cons, ne_of_isBlank hblank (d := '.') (by decide),
      ne_of_isBlank hblank (d := '*') (by decide), ne_of_isBlank hblank (d := '=') (by decide),
      List.not_mem_nil, or_self] at hmem

/-- A blank ends every lexeme, and so does the end of the text. -/
theorem IsLexeme.lexeme_append {l r : List Char} (h : IsLexeme l)
    (hr : ∀ c ∈ r.head?, isBlank c = true) : lexeme (l ++ r) = l := by
  cases r with
  | nil => simpa using h.lexeme_eq
  | cons c r =>
    refine lexeme_append_cons_iff.2 ⟨h, ?_⟩
    intro hlonger
    obtain ⟨a, l, rfl⟩ := List.exists_cons_of_ne_nil h.ne_nil
    have hblank := hr c rfl
    have := hlonger.isBlank_eq_false (c := c) (by simp)
    simp [hblank] at this

/-! ## Gaps -/

theorem commentGap_append {body x : List Char} (h : '\n' ∉ body) :
    commentGap (body ++ '\n' :: x) = body ++ '\n' :: gap x := by
  induction body with
  | nil => simp [commentGap]
  | cons c body ih =>
    simp only [List.mem_cons, not_or] at h
    rw [List.cons_append, commentGap, if_neg (Ne.symm h.1), ih h.2]
    rfl

/-- A gap that does not end its source goes on with the gap behind it. -/
theorem gap_append {g : List Char} (h : IsGap False g) (x : List Char) :
    gap (g ++ x) = g ++ gap x := by
  induction h with
  | nil => rfl
  | blank hc _ ih => rw [List.cons_append, gap, if_pos hc, ih]; rfl
  | @comment body g hbody _ ih =>
    have hslash : isBlank '/' = false := by decide
    have hline : '\n' ∉ '/' :: body := by simpa using hbody
    have hrest := commentGap_append (x := g ++ x) hline
    simp only [List.cons_append, List.append_assoc, gap, hslash] at hrest ⊢
    simp [hrest, ih]
  | openComment hlast => exact hlast.elim

/-- Whether a gap starts at a character is told by that one and the next. -/
theorem gap_eq_nil_congr {a : Char} {x y : List Char} (hxy : x.head? = y.head?)
    (h : gap (a :: x) = []) : gap (a :: y) = [] := by
  rw [gap] at h ⊢
  rw [← hxy]
  split at h
  · cases h
  · split at h
    · cases h
    · rename_i h₁ h₂
      rw [if_neg h₁, if_neg h₂]

/-! ## Cutting off -/

/-- The text `text` has the gap `g` at its front, behind it the lexeme `l`, and goes on with `r`. -/
structure Splits (text g l r : List Char) : Prop where
  text_eq : text = g ++ (l ++ r)
  isGap : IsGap False g
  gap_eq : gap (l ++ r) = []
  ne_nil : l ≠ []
  lexeme_eq : lexeme (l ++ r) = l

/-- A text is a gap, or it has a gap and a lexeme at its front. -/
theorem gap_eq_self_or_splits (text : List Char) :
    gap text = text ∨ ∃ g l r, Splits text g l r := by
  obtain ⟨rest, hrest⟩ := gap_isPrefix text
  by_cases hnil : rest = []
  · left
    simpa [hnil] using hrest
  · right
    obtain ⟨r, hr⟩ := lexeme_isPrefix rest
    have hgap : IsGap False (gap text) := by
      refine (isGap_gap text).imp ?_
      intro hall
      exact hnil (List.append_right_eq_self.1 (hrest.trans hall.symm))
    have hnext : gap text = gap text ++ gap rest := by
      rw [← gap_append hgap, hrest]
    refine ⟨gap text, lexeme rest, r, ?_, hgap, ?_, lexeme_ne_nil hnil, ?_⟩
    · rw [hr, hrest]
    · rw [hr]
      exact List.append_right_eq_self.1 hnext.symm
    · rw [hr]

namespace Splits

variable {text g l r : List Char}

theorem gap_text (h : Splits text g l r) : gap text = g := by
  rw [h.text_eq, gap_append h.isGap, h.gap_eq, List.append_nil]

theorem isLexeme (h : Splits text g l r) : IsLexeme l := by
  rw [← h.lexeme_eq]
  exact isLexeme_lexeme (by simp [h.ne_nil])

/-- Of what stands behind a lexeme, only the first character has to do with it. -/
theorem behind {d : Char} (h : Splits text g l (d :: r)) (r' : List Char) :
    Splits (g ++ (l ++ d :: r')) g l (d :: r') where
  text_eq := rfl
  isGap := h.isGap
  gap_eq := by
    obtain ⟨a, m, rfl⟩ := List.exists_cons_of_ne_nil h.ne_nil
    refine gap_eq_nil_congr ?_ h.gap_eq
    cases m <;> rfl
  ne_nil := h.ne_nil
  lexeme_eq := lexeme_append_cons_iff.2 (lexeme_append_cons_iff.1 h.lexeme_eq)

end Splits

namespace TokenStream

/-- At its last gap, a stream gives the end of the input. -/
theorem scan_of_gap {s : TokenStream} (h : gap s.cursor.rest = s.cursor.rest) :
    scan s = .ok (.eof { file := s.file, line := s.cursor.line + newlines s.cursor.rest })
      { s with cursor := s.cursor.skip s.cursor.rest.length } := by
  simp [scan, h]

/-- Where a cursor stands behind the gap and the lexeme. -/
theorem skip_of_splits {c : Text.Cursor} {g l r : List Char} (h : Splits c.rest g l r) :
    ((c.skip g.length).skip l.length).rest = r ∧
      ((c.skip g.length).skip l.length).line = c.line + newlines (g ++ l) := by
  obtain ⟨hrest, hline⟩ := skip_of_append h.text_eq
  obtain ⟨hrest', hline'⟩ := skip_of_append hrest
  rw [hline', hline, Text.newlines_append, UInt32.add_assoc]
  exact ⟨hrest', rfl⟩

/-- Behind the gap `g` and the lexeme `l`, a stream gives the token or the error of the lexeme. -/
theorem scan_of_splits {s : TokenStream} {g l r : List Char} (h : Splits s.cursor.rest g l r) :
    scan s =
      let position : Position := { file := s.file, line := s.cursor.line + newlines g }
      let behind := { s with cursor := (s.cursor.skip g.length).skip l.length }
      match classify l with
      | .ok (kind, literal) => .ok { kind, text := String.ofList l, position, literal } behind
      | .error cause => .error { cause, position } behind := by
  obtain ⟨hrest, hline⟩ := skip_of_append h.text_eq
  have hne : l ++ r ≠ [] := by simp [h.ne_nil]
  simp only [scan, h.gap_text, hrest, hline, h.lexeme_eq]
  refine (if_neg hne).trans ?_
  cases classify l <;> rfl

end TokenStream

end FxLang
