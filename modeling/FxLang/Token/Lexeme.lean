import FxLang.Text.Alphabetic
import FxLang.Text.Blank
import FxLang.Text.Numeric
import FxLang.Token.Number

/-!
# Gaps and lexemes

A source text is an alternation of gaps and lexemes. A gap holds blanks and comments, where a
comment runs from `//` through the next newline. A lexeme is the longest text of a token at its
place; what token it makes depends on its characters alone. `Start.of` tells by the first of them
which handler takes the text.

* `gap_cons_eq_nil_iff`: the characters at which no gap starts.
* `gap_isPrefix`, `lexeme_isPrefix`: both are taken from the front of the text.
* `lexeme_ne_nil`: where there is text left, the lexeme is not empty.
-/

namespace FxLang

open Text (isBlank isAlphabetic isNumeric)

/-! ## Gaps -/

mutual

/-- The blanks and comments at the front of a text. Mirrors the rounds of `scan` that go on. -/
def gap : List Char → List Char
  | [] => []
  | c :: cs =>
    if isBlank c then c :: gap cs
    else if c = '/' && cs.head? = some '/' then c :: commentGap cs
    else []

/-- The rest of a comment, through its newline, and the gap after it. Mirrors `comment_handler`. -/
def commentGap : List Char → List Char
  | [] => []
  | c :: cs => if c = '\n' then c :: gap cs else c :: commentGap cs

end

/-! ## Lexemes -/

/-- A character that starts a word. -/
def isWordStart (c : Char) : Bool :=
  isAlphabetic c || c = '_'

/-- A character that goes on with a word. -/
def isWordPart (c : Char) : Bool :=
  isAlphabetic c || isNumeric c || c = '_'

/-- The operators, with the kinds they make. Mirrors the arms of `operator_handler`. -/
def operators : List (List Char × Kind) :=
  [(['*', '*'], .power), (['*'], .star), (['>', '='], .greaterEquals), (['>'], .greater),
   (['<', '='], .lessEquals), (['<'], .less), (['=', '='], .equals), (['='], .assignment),
   ([':', '='], .define), ([':'], .colon), (['+'], .plus), (['-'], .dash), (['/'], .slash),
   (['%'], .percent), (['|'], .pipe), (['&'], .ampersand), (['!'], .not), (['^'], .caret)]

/-- The separators, with the kinds they make. Mirrors the arms of `separator_handler`. -/
def separators : List (List Char × Kind) :=
  [(['('], .openParen), ([')'], .closeParen), ([','], .comma), ([';'], .semicolon),
   (['['], .openBracket), ([']'], .closeBracket), (['\x7b'], .openCurly), (['\x7d'], .closeCurly),
   (['.'], .dot)]

/-- The operators and separators. -/
def symbols : List (List Char × Kind) :=
  operators ++ separators

/-- The kind of an operator or separator. -/
def symbolKind? (text : List Char) : Option Kind :=
  symbols.lookup text

/-- What takes a text that starts no gap. -/
inductive Start where
  | operator | separator | number | word
  /-- Nothing does. -/
  | stray
deriving DecidableEq, Repr

/-- The characters that lead to the operators. -/
def operatorStarts : List Char :=
  ['/', '+', '-', '*', '>', '<', '=', ':', '%', '|', '&', '!', '^']

/-- The characters that lead to the separators. -/
def separatorStarts : List Char :=
  ['(', ')', ',', ';', '[', ']', '\x7b', '\x7d', '.']

/-- Tells by the first character what takes a text. Mirrors the dispatch of `scan`. -/
def Start.of (c : Char) : Start :=
  if c ∈ operatorStarts then .operator
  else if c ∈ separatorStarts then .separator
  else if c.isDigit then .number
  else if isWordStart c then .word
  else .stray

/-- What a start says about the character. -/
def Start.Suits (c : Char) : Start → Prop
  | .operator => c ∈ operatorStarts
  | .separator => c ∈ separatorStarts
  | .number => c.isDigit = true
  | .word => isWordStart c = true
  | .stray =>
    c ∉ operatorStarts ∧ c ∉ separatorStarts ∧ c.isDigit = false ∧ isWordStart c = false

theorem Start.suits_of {c : Char} {start : Start} (h : Start.of c = start) : start.Suits c := by
  subst h
  unfold Start.of
  split
  · assumption
  split
  · assumption
  split
  · assumption
  split
  · assumption
  · exact ⟨by assumption, by assumption, by simp_all, by simp_all⟩

/-- The kind of an operator. Mirrors `operator_handler`. -/
def operatorValue (text : List Char) : Except Cause (Kind × Literal) :=
  match operators.lookup text with
  | some kind => .ok (kind, .none)
  | none => .error (.badOperator (String.ofList text))

/-- The kind of a separator. Mirrors `separator_handler`. -/
def separatorValue (text : List Char) : Except Cause (Kind × Literal) :=
  match separators.lookup text with
  | some kind => .ok (kind, .none)
  | none => .error (.badSeparator (String.ofList text))

/-- The kind and value of a word: reserved, or else an identifier. Mirrors `symbol_handler`. -/
def wordValue (word : String) : Kind × Literal :=
  match reservedKind? word with
  | some .boolean => (.boolean, .boolean (word = "True"))
  | some kind => (kind, .none)
  | none => (.identifier, .none)

/-- The lexeme at the front of a text that starts with no gap: an operator of one or two characters,
a number, a word or else a single character. -/
def lexeme : List Char → List Char
  | [] => []
  | c :: cs =>
    match Start.of c with
    | .operator => if (operators.lookup (c :: cs.take 1)).isSome then c :: cs.take 1 else [c]
    | .separator => [c]
    | .number => numberText (c :: cs)
    | .word => c :: cs.takeWhile isWordPart
    | .stray => [c]

/-- The token that a lexeme makes, or the reason why it makes none. -/
def classify : List Char → Except Cause (Kind × Literal)
  | [] => .ok (.eof, .none)
  | c :: cs =>
    match Start.of c with
    | .operator => operatorValue (c :: cs)
    | .separator => separatorValue (c :: cs)
    | .number => numberValue (c :: cs)
    | .word => .ok (wordValue (String.ofList (c :: cs)))
    | .stray => .error (.unrecognised (String.ofList (c :: cs)))

/-! ## Where no gap starts -/

/-- A gap starts at a blank and at two slashes, and nowhere else. -/
theorem gap_cons_eq_nil_iff {c : Char} {cs : List Char} :
    gap (c :: cs) = [] ↔ isBlank c = false ∧ (c = '/' → cs.head? ≠ some '/') := by
  rw [gap]
  split
  · simp_all
  · split <;> simp_all

/-! ## Both are taken from the front -/

mutual

theorem gap_isPrefix : ∀ text : List Char, gap text <+: text
  | [] => by simp [gap]
  | c :: cs => by
    rw [gap]
    split
    · simpa using gap_isPrefix cs
    · split
      · simpa using commentGap_isPrefix cs
      · simp

theorem commentGap_isPrefix : ∀ text : List Char, commentGap text <+: text
  | [] => by simp [commentGap]
  | c :: cs => by
    rw [commentGap]
    split
    · simpa using gap_isPrefix cs
    · simpa using commentGap_isPrefix cs

end

theorem lexeme_isPrefix (text : List Char) : lexeme text <+: text := by
  cases text with
  | nil => simp [lexeme]
  | cons c cs =>
    have hsingle : [c] <+: c :: cs := List.prefix_append [c] cs
    rw [lexeme]
    split
    · split
      · simpa using List.take_prefix 1 cs
      · exact hsingle
    · exact hsingle
    · exact numberText_isPrefix _
    · simpa using List.takeWhile_prefix _
    · exact hsingle

theorem numberText_ne_nil {c : Char} (cs : List Char) (hc : c.isDigit = true) :
    numberText (c :: cs) ≠ [] := by
  unfold numberText
  split
  · simp
  · split <;> simp [hc]

theorem lexeme_ne_nil {text : List Char} (h : text ≠ []) : lexeme text ≠ [] := by
  cases text with
  | nil => exact absurd rfl h
  | cons c cs =>
    rw [lexeme]
    split
    next => split <;> simp
    next => simp
    next hstart => exact numberText_ne_nil cs (Start.suits_of hstart)
    next => simp
    next => simp

end FxLang
