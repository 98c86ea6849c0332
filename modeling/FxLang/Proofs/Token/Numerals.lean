import Mathlib.Data.List.Forall2
import Mathlib.Data.List.Induction
import Mathlib.Data.Nat.Digits.Defs
import FxLang.Proofs.Token.Boundary

/-!
# Numerals and the numbers they write

A numeral is `0x` with hexadecimal digits, a row of decimal digits, or two such rows with a point
between them. `Numeral.Fronts` says which numeral stands at a place of a text: the one that goes on
for as long as there are digits. `Numeral.Means` says what comes of it, with the digits read as a
number in their base and not as a machine does it.

* `denotes_ofDigits`, `Denotes.eq_ofDigits`: a row of digits writes one number, the one that is
  computed for it.
* `Numeral.exists_fronts`: at every place stands a numeral.
* `Numeral.Fronts.numberText_eq`: this numeral is what is cut off there.
* `Numeral.Fronts.means`: what it is read as, on both sides of the largest integer.
* `TokenStream.scan_numeral`: all of this for a stream in front of a digit.
-/

namespace FxLang

/-! ## Numbers in a base -/

/-- The character is the digit for `n`, in lower or in upper case. -/
def Weighs (c : Char) (n : Nat) : Prop :=
  "0123456789abcdef".toList[n]? = some c ∨ "0123456789ABCDEF".toList[n]? = some c

/-- The digits write the number `n` in a base, the first being the most significant. -/
def Denotes (base : Nat) (digits : List Char) (n : Nat) : Prop :=
  ∃ weights, List.Forall₂ Weighs digits weights ∧ n = Nat.ofDigits base weights.reverse

theorem weighs_digitValue {c : Char} (h : isHexDigit c = true) : Weighs c (digitValue c) := by
  have hall : ∀ n < 128, isHexDigit (Char.ofNat n) = true →
      "0123456789abcdef".toList[digitValue (Char.ofNat n)]? = some (Char.ofNat n) ∨
        "0123456789ABCDEF".toList[digitValue (Char.ofNat n)]? = some (Char.ofNat n) := by
    decide +kernel
  have hascii : c.toNat < 128 := by
    delta isHexDigit Char.isDigit at h
    simp [Char.le_def, UInt32.le_iff_toNat_le] at h
    omega
  simpa [Weighs] using hall c.toNat hascii (by simpa using h)

/-- In a row of digits in their order, a digit stands at its value. -/
theorem eq_digitValue_of_row {row : List Char} {c : Char} {n : Nat}
    (hrow : ∀ n < row.length, row[n]?.map digitValue = some n) (h : row[n]? = some c) :
    n = digitValue c := by
  obtain ⟨hlt, -⟩ := List.getElem?_eq_some_iff.1 h
  have hvalue := hrow n hlt
  rw [h] at hvalue
  exact (Option.some.inj hvalue).symm

/-- A character is the digit for one number only. -/
theorem Weighs.eq_digitValue {c : Char} {n : Nat} (h : Weighs c n) : n = digitValue c := by
  rcases h with h | h
  · exact eq_digitValue_of_row (by decide +kernel) h
  · exact eq_digitValue_of_row (by decide +kernel) h

theorem ofDigits_eq (base : Nat) (digits : List Char) :
    ofDigits base digits = Nat.ofDigits base (digits.map digitValue).reverse := by
  induction digits using List.reverseRecOn with
  | nil => rfl
  | append_singleton digits d ih =>
    have hlast : ofDigits base (digits ++ [d]) = ofDigits base digits * base + digitValue d := by
      simp [ofDigits]
    rw [hlast, ih]
    simp only [List.map_append, List.map_cons, List.map_nil, List.reverse_append,
      List.reverse_singleton, List.singleton_append, Nat.ofDigits_cons]
    rw [Nat.mul_comm, Nat.add_comm]

/-- The number that is computed for a row of digits is the one that the row writes. -/
theorem denotes_ofDigits (base : Nat) {digits : List Char}
    (h : ∀ c ∈ digits, isHexDigit c = true) : Denotes base digits (ofDigits base digits) := by
  refine ⟨digits.map digitValue, ?_, ofDigits_eq base digits⟩
  rw [List.forall₂_map_right_iff, List.forall₂_same]
  exact fun c hc => weighs_digitValue (h c hc)

/-- A row of digits writes one number. -/
theorem Denotes.eq_ofDigits {base n : Nat} {digits : List Char} (h : Denotes base digits n) :
    n = ofDigits base digits := by
  obtain ⟨weights, hweights, rfl⟩ := h
  have hvalues : weights = digits.map digitValue := by
    induction hweights with
    | nil => rfl
    | cons hc _ ih => rw [List.map_cons, ← hc.eq_digitValue, ← ih]
  rw [hvalues, ofDigits_eq]

theorem isHexDigit_of_isDigit {c : Char} (h : c.isDigit = true) : isHexDigit c = true := by
  simp [isHexDigit, h]

/-! ## Runs of characters -/

/-- All characters of `run` have the property, and the one behind it does not. -/
structure IsRun (p : Char → Bool) (run after : List Char) : Prop where
  all : ∀ c ∈ run, p c = true
  behind : ∀ c ∈ after.head?, p c = false

theorem isRun_takeWhile (p : Char → Bool) (text : List Char) :
    IsRun p (text.takeWhile p) (text.dropWhile p) where
  all _ := List.mem_takeWhile_imp
  behind c hc := by
    have hnot := List.head?_dropWhile_not p text
    rw [Option.mem_def.1 hc] at hnot
    simpa using hnot

namespace IsRun

variable {p : Char → Bool} {run after : List Char}

theorem takeWhile_eq (h : IsRun p run after) : (run ++ after).takeWhile p = run := by
  rw [List.takeWhile_append_of_pos h.all]
  cases after with
  | nil => simp
  | cons c after => simp [h.behind c rfl]

theorem dropWhile_eq (h : IsRun p run after) : (run ++ after).dropWhile p = after := by
  rw [List.dropWhile_append_of_pos h.all]
  cases after with
  | nil => rfl
  | cons c after => simp [h.behind c rfl]

end IsRun

/-! ## Numerals -/

/-- A number as it is written. -/
inductive Numeral where
  /-- `0x` and hexadecimal digits. -/
  | hex (digits : List Char)
  /-- Decimal digits. -/
  | whole (digits : List Char)
  /-- Decimal digits before and after a point. -/
  | fraction (digits further : List Char)

namespace Numeral

/-- The characters of the numeral. -/
def text : Numeral → List Char
  | .hex digits => '0' :: 'x' :: digits
  | .whole digits => digits
  | .fraction digits further => digits ++ '.' :: further

/-- The numeral stands in front of `after`: it is hexadecimal if `0x` is in front, it has a point if
there is one behind its digits, and no more of its digits stand behind it. -/
inductive Fronts : Numeral → List Char → Prop
  | hex {digits after : List Char} (h : IsRun isHexDigit digits after) :
      Fronts (.hex digits) after
  | whole {digits after : List Char} (h : IsRun Char.isDigit digits after)
      (hx : ∀ rest, digits ++ after ≠ '0' :: 'x' :: rest) (hpoint : after.head? ≠ some '.') :
      Fronts (.whole digits) after
  | fraction {digits further after : List Char} (h : ∀ c ∈ digits, c.isDigit = true)
      (hfurther : IsRun Char.isDigit further after) : Fronts (.fraction digits further) after

/-- The integer that a numeral without a point writes. -/
def Writes : Numeral → Nat → Prop
  | .hex digits, n => digits ≠ [] ∧ Denotes 16 digits n
  | .whole digits, n => Denotes 10 digits n
  | .fraction .., _ => False

/-- What a numeral is read as. -/
inductive Means : Numeral → Except Cause (Kind × Literal) → Prop
  | malformed : Means (.hex []) (.error (.malformedNumber "0x"))
  | integer {numeral : Numeral} {n : Nat} {value : Int64} (hn : numeral.Writes n)
      (hle : n ≤ 2 ^ 63 - 1) (hvalue : value.toInt = n) :
      Means numeral (.ok (.integer, .integer value))
  | tooLarge {numeral : Numeral} {n : Nat} (hn : numeral.Writes n) (hlt : 2 ^ 63 - 1 < n) :
      Means numeral (.error (.numberTooLarge (String.ofList numeral.text)))
  /-- The digits on both sides of the point, scaled down by as many tens as stand behind it. -/
  | float {digits further : List Char} {n : Nat} (hn : Denotes 10 (digits ++ further) n) :
      Means (.fraction digits further)
        (.ok (.float, .float (Float.ofScientific n true further.length)))

/-- At every place of a text stands a numeral, without digits if there are none. -/
theorem exists_fronts (text : List Char) :
    ∃ (numeral : Numeral) (after : List Char), text = numeral.text ++ after ∧
      numeral.Fronts after := by
  by_cases hx : ∃ rest, text = '0' :: 'x' :: rest
  · obtain ⟨rest, rfl⟩ := hx
    refine ⟨.hex (rest.takeWhile isHexDigit), rest.dropWhile isHexDigit, ?_,
      .hex (isRun_takeWhile isHexDigit rest)⟩
    simp [Numeral.text]
  · have hrun := isRun_takeWhile Char.isDigit text
    have htext := List.takeWhile_append_dropWhile (p := Char.isDigit) (l := text)
    by_cases hpoint : ∃ rest, text.dropWhile Char.isDigit = '.' :: rest
    · obtain ⟨rest, hrest⟩ := hpoint
      refine ⟨.fraction (text.takeWhile Char.isDigit) (rest.takeWhile Char.isDigit),
        rest.dropWhile Char.isDigit, ?_, .fraction hrun.all (isRun_takeWhile Char.isDigit rest)⟩
      rw [hrest] at htext
      simp [Numeral.text, htext]
    · refine ⟨.whole (text.takeWhile Char.isDigit), text.dropWhile Char.isDigit, htext.symm,
        .whole hrun ?_ ?_⟩
      · rw [htext]
        exact not_exists.1 hx
      · intro hhead
        obtain ⟨rest, hrest⟩ := List.head?_eq_some_iff.1 hhead
        exact hpoint ⟨rest, hrest⟩

/-- No `x` stands behind the first of decimal digits and a point. -/
theorem ne_hex_of_point {digits : List Char} (h : ∀ c ∈ digits, c.isDigit = true)
    (further rest : List Char) : digits ++ '.' :: further ≠ '0' :: 'x' :: rest := by
  intro heq
  match digits, h with
  | [], _ => simp at heq
  | [_], _ => simp at heq
  | _ :: c :: _, h =>
    have hc := h c (by simp)
    obtain ⟨-, rfl, -⟩ : _ ∧ c = 'x' ∧ _ := by simpa using heq
    cases hc

/-- The numeral that stands at a place is what is cut off there. -/
theorem Fronts.numberText_eq {numeral : Numeral} {after : List Char} (h : numeral.Fronts after) :
    numberText (numeral.text ++ after) = numeral.text := by
  cases h with
  | hex h => simp [Numeral.text, numberText, h.takeWhile_eq]
  | @whole digits after h hx hpoint =>
    rw [Numeral.text, numberText.eq_2 _ hx, h.dropWhile_eq, h.takeWhile_eq]
    split
    · simp at hpoint
    · rfl
  | @fraction digits further after h hfurther =>
    have hrun : IsRun Char.isDigit digits ('.' :: (further ++ after)) := ⟨h, by simp⟩
    have htext : (Numeral.fraction digits further).text ++ after =
        digits ++ '.' :: (further ++ after) := by
      simp [Numeral.text]
    rw [htext, numberText.eq_2 _ (ne_hex_of_point h _), hrun.dropWhile_eq, hrun.takeWhile_eq]
    simp only [hfurther.takeWhile_eq]
    rfl

/-! ## What numerals are read as -/

theorem means_integerLiteral (numeral : Numeral) {n : Nat} (h : numeral.Writes n) :
    numeral.Means (integerLiteral numeral.text n) := by
  have hmax : maxInteger = 2 ^ 63 - 1 := rfl
  unfold integerLiteral
  rw [hmax]
  by_cases hle : n ≤ 2 ^ 63 - 1
  · rw [if_pos hle]
    exact .integer h hle (Int64.toInt_ofNat_of_lt (by omega))
  · rw [if_neg hle]
    exact .tooLarge h (by omega)

/-- What the numeral at a place is read as. -/
theorem Fronts.means {numeral : Numeral} {after : List Char} (h : numeral.Fronts after) :
    numeral.Means (numberValue numeral.text) := by
  cases h with
  | @hex digits after h =>
    have hvalue := denotes_ofDigits 16 h.all
    cases digits with
    | nil => exact .malformed
    | cons d digits => exact means_integerLiteral (.hex (d :: digits)) ⟨by simp, hvalue⟩
  | @whole digits after h hx hpoint =>
    have hvalue := denotes_ofDigits 10 fun c hc => isHexDigit_of_isDigit (h.all c hc)
    have hdrop : digits.dropWhile Char.isDigit = [] := by simpa using h.all
    have hhex (rest : List Char) : digits ≠ '0' :: 'x' :: rest := by
      rintro rfl
      exact hx (rest ++ after) rfl
    rw [Numeral.text, numberValue.eq_3 _ (hhex []) hhex, hdrop]
    exact means_integerLiteral (.whole digits) hvalue
  | @fraction digits further after h hfurther =>
    have hrun : IsRun Char.isDigit digits ('.' :: further) := ⟨h, by simp⟩
    have hhex := ne_hex_of_point h further
    rw [Numeral.text, numberValue.eq_3 _ (hhex []) hhex, hrun.dropWhile_eq, hrun.takeWhile_eq]
    refine .float (denotes_ofDigits 10 fun c hc => isHexDigit_of_isDigit ?_)
    rcases List.mem_append.1 hc with hc | hc
    · exact h c hc
    · exact hfurther.all c hc

/-- No line ends inside a numeral. -/
theorem Fronts.newlines_eq_zero {numeral : Numeral} {after : List Char} (h : numeral.Fronts after) :
    Text.newlines numeral.text = 0 := by
  refine Text.newlines_eq_zero fun hmem => ?_
  cases h with
  | @hex digits after h =>
    have hline : '\n' ∈ digits := by simpa [Numeral.text] using hmem
    exact absurd (h.all _ hline) (by decide)
  | whole h => exact absurd (h.all _ hmem) (by decide)
  | @fraction digits further after h hfurther =>
    have hline : '\n' ∈ digits ∨ '\n' ∈ further := by simpa [Numeral.text] using hmem
    rcases hline with hline | hline
    · exact absurd (h _ hline) (by decide)
    · exact absurd (hfurther.all _ hline) (by decide)

end Numeral

/-! ## Streams in front of a digit -/

namespace TokenStream

/-- At a digit, the numeral that stands there is cut off. -/
theorem splits_numeral {c : Char} {cs after : List Char} {numeral : Numeral} (hc : c.isDigit = true)
    (htext : c :: cs = numeral.text ++ after) (h : numeral.Fronts after) :
    Splits (c :: cs) [] numeral.text after := by
  have hlexeme : lexeme (c :: cs) = numeral.text := by
    rw [lexeme_cons, if_pos hc, htext, h.numberText_eq]
  have hblank : Text.isBlank c = false := by
    rw [← Bool.not_eq_true]
    intro hblank
    simp [isDigit_of_isBlank hblank] at hc
  have hslash : c ≠ '/' := by
    rintro rfl
    simp at hc
  refine ⟨htext, .nil, ?_, ?_, ?_⟩
  · rw [← htext]
    exact gap_cons_eq_nil_iff.2 ⟨hblank, fun h => absurd h hslash⟩
  · rw [← hlexeme]
    exact lexeme_ne_nil (by simp)
  · rw [← htext, hlexeme]

/-- In front of a digit, a stream takes the numeral that stands there and nothing else, and gives
what the numeral is read as: an integer up to the largest, with its exact value, a fraction, or the
reason why it is neither. There is always such a numeral. -/
theorem scan_numeral (s : TokenStream) (c : Char) (cs : List Char) (hrest : s.cursor.rest = c :: cs)
    (hc : c.isDigit = true) :
    (∃ (numeral : Numeral) (after : List Char), s.cursor.rest = numeral.text ++ after ∧
      numeral.Fronts after) ∧
    ∀ (numeral : Numeral) (after : List Char), s.cursor.rest = numeral.text ++ after →
      numeral.Fronts after →
      ∃ (r : Except Cause (Kind × Literal)) (behind : TokenStream), numeral.Means r ∧
        behind.cursor.rest = after ∧ behind.cursor.line = s.cursor.line ∧ behind.file = s.file ∧
        behind.peeked = s.peeked ∧
        scan s =
          let position : Position := { file := s.file, line := s.cursor.line }
          match r with
          | .ok (kind, literal) =>
            .ok { kind, text := String.ofList numeral.text, position, literal } behind
          | .error cause => .error { cause, position } behind := by
  refine ⟨Numeral.exists_fronts _, fun numeral after htext hfronts => ?_⟩
  have hsplit : Splits s.cursor.rest [] numeral.text after :=
    hrest ▸ splits_numeral hc (hrest ▸ htext) hfronts
  obtain ⟨hbehind, hline⟩ := skip_of_splits hsplit
  have hclass : classify numeral.text = numberValue numeral.text := by
    obtain ⟨d, ds, hd⟩ := List.exists_cons_of_ne_nil hsplit.ne_nil
    rw [htext, hd] at hrest
    obtain ⟨rfl, -⟩ := List.cons.inj hrest
    rw [hd, classify_of_isDigit ds hc]
  let behind : TokenStream := { s with cursor := (s.cursor.skip 0).skip numeral.text.length }
  refine ⟨numberValue numeral.text, behind, hfronts.means, hbehind, ?_, rfl, rfl, ?_⟩
  · rwa [List.nil_append, hfronts.newlines_eq_zero, UInt32.add_zero] at hline
  · rw [scan_of_splits hsplit, hclass, Text.newlines_nil, UInt32.add_zero]
    rfl

/-- One above the largest integer, with a zero in front and a sign behind. -/
theorem scan_numeral_above_limit :
    ∃ behind, behind.cursor.rest = "+1".toList ∧
      scan (.ofSource "f" "09223372036854775808+1") =
        .error { cause := .numberTooLarge "09223372036854775808", position := ⟨"f", 1⟩ }
          behind := by
  obtain ⟨r, behind, hmeans, hrest, -, -, -, hscan⟩ :=
    (scan_numeral (.ofSource "f" "09223372036854775808+1") '0' _ rfl (by decide)).2
      (.whole "09223372036854775808".toList) "+1".toList rfl
      (.whole ⟨List.all_eq_true.1 rfl, by simp⟩ (by simp) (by decide))
  have hvalue : ofDigits 10 "09223372036854775808".toList = 2 ^ 63 := by decide +kernel
  cases hmeans with
  | @integer _ n _ hn hle =>
    have hdenotes : n = _ := Denotes.eq_ofDigits hn
    omega
  | tooLarge => exact ⟨behind, hrest, hscan⟩

end TokenStream

end FxLang
