import FxLang.Text.Reader
import FxLang.Token.Lexeme

/-!
# A lexer that reads character by character

`Lexer` gets its characters from a `Reader`, one at a time, and keeps those of the token that it is
at. A character that does not belong to the token is put back. Each kind of token has a handler,
which goes on behind the first character.

A handler has an answer for characters that it is never called with, and a number that was read is
compared with the shapes of numbers once more. That none of this makes a difference is not seen from
a single handler, only from the texts that lead to it. A `TokenStream` gives the same tokens and the
same errors, and cuts its text at once.

* `get_eq`: a character is taken from the front of what is to come.
* `unget_get`: a character that is put back at once is the first to come again.
* `get_length_lt`, `comment_length_le`: reading takes from what is to come and adds nothing to it.
-/

namespace FxLang

open Text (Reader isBlank)

/-! ## The shapes of numbers -/

/-- `0x` and hexadecimal digits, at least one. Mirrors `HEX_PATTERN`. -/
def isHexPattern : List Char → Bool
  | '0' :: 'x' :: digits => !digits.isEmpty && digits.all isHexDigit
  | _ => false

/-- Digits, at least one. Mirrors `INTEGER_PATTERN`. -/
def isIntegerPattern (text : List Char) : Bool :=
  !text.isEmpty && text.all Char.isDigit

/-- Digits, at least one, then a point and digits, of which there may be none. Mirrors
`FLOAT_PATTERN`. -/
def isFloatPattern (text : List Char) : Bool :=
  match text.dropWhile Char.isDigit with
  | '.' :: fraction => !(text.takeWhile Char.isDigit).isEmpty && fraction.all Char.isDigit
  | _ => false

/-- The kind and value of a text by the first shape that it has. -/
def patternValue (text : List Char) : Except Cause (Kind × Literal) :=
  if isHexPattern text then integerLiteral text (ofDigits 16 (text.drop 2))
  else if isIntegerPattern text then integerLiteral text (ofDigits 10 text)
  else if isFloatPattern text then
    .ok (.float, .float (decimalFloat (text.takeWhile Char.isDigit)
      ((text.dropWhile Char.isDigit).drop 1)))
  else .error (.malformedNumber (String.ofList text))

/-! ## Lexers -/

/-- A source that is being cut into tokens, character by character. -/
structure Lexer where
  reader : Reader
  /-- The name of the source, shown in positions. -/
  file : String
  /-- The token that was looked at and not yet taken. -/
  peeked : Option Token
  /-- What was read of the token that is being cut. -/
  accepted : List Char
deriving DecidableEq, Repr

namespace Lexer

/-- A lexer in front of a text that starts on the line. -/
def startingAt (file : String) (line : UInt32) (text : List Char) : Lexer :=
  { reader := { Reader.ofText text with line }, file, peeked := none, accepted := [] }

/-- The lexer at the start of a source. Mirrors `from_source`. -/
def ofSource (file source : String) : Lexer :=
  startingAt file 1 source.toList

/-- The characters to come. -/
def ahead (l : Lexer) : List Char :=
  l.reader.ahead

/-- Reads a character and keeps it. Mirrors `get`. -/
def get (l : Lexer) : Option Char × Lexer :=
  match l.reader.read with
  | (none, reader) => (none, { l with reader })
  | (some c, reader) => (some c, { l with reader, accepted := l.accepted ++ [c] })

/-- Puts the character read last back and keeps it no longer. Mirrors `unget`. -/
def unget (l : Lexer) : Lexer :=
  match l.reader.unread with
  | (none, reader) => { l with reader }
  | (some _, reader) => { l with reader, accepted := l.accepted.dropLast }

/-- Keeps nothing. Mirrors `accept`, which gives away what was kept. -/
def accept (l : Lexer) : Lexer :=
  { l with accepted := [] }

theorem get_eq (l : Lexer) :
    l.get = (l.ahead.head?,
      { l with reader := l.reader.read.2, accepted := l.accepted ++ l.ahead.head?.toList }) := by
  rw [get, Reader.read_eq]
  cases h : l.reader.ahead.head? <;> simp [ahead, h]

/-- A character that is put back at once is not kept either. -/
theorem unget_get (l : Lexer) :
    l.get.2.unget = { l with
      reader := {
        source := l.ahead.tail, slot := l.ahead.head?, last := none, line := l.reader.line } } := by
  rw [get_eq, unget, Reader.unread_read]
  simp only [ahead]
  cases l.reader.ahead <;> simp

theorem ahead_get (l : Lexer) : l.get.2.ahead = l.ahead.tail := by
  rw [get_eq, ahead, Reader.read_eq]
  rfl

theorem get_length_lt {l l' : Lexer} {c : Char} (h : l.get = (some c, l')) :
    l'.ahead.length < l.ahead.length := by
  have hhead : l.ahead.head? = some c := by
    rw [get_eq] at h
    exact congrArg Prod.fst h
  have htail : l'.ahead = l.ahead.tail := by
    rw [← ahead_get, h]
  have hpos : l.ahead ≠ [] := by
    rintro hnil
    rw [hnil] at hhead
    cases hhead
  rw [htail, List.length_tail]
  have := List.length_pos_iff.2 hpos
  omega

/-- Reads on as long as the characters have a property. Mirrors `take_while`. -/
def takeWhile (p : Char → Bool) (l : Lexer) : Lexer :=
  match _h : l.get with
  | (some c, l') => if p c then takeWhile p l' else l'.unget
  | (none, l') => l'.unget
termination_by l.ahead.length
decreasing_by exact get_length_lt ‹_›

/-- The first kind if the character comes next, which is then read, and else the second. Mirrors
`follow`. -/
def follow (next : Char) (matched single : Kind) (l : Lexer) : Option Kind × Lexer :=
  if l.get.1 = some next then (some matched, l.get.2) else (some single, l.get.2.unget)

/-- Reads a comment through its newline. Mirrors `comment_handler`. -/
def comment (l : Lexer) : Lexer :=
  match _h : l.get with
  | (some c, l') => if c = '\n' then l'.accept else comment l'
  | (none, l') => l'.accept
termination_by l.ahead.length
decreasing_by exact get_length_lt ‹_›

theorem comment_length_le (l : Lexer) : l.comment.ahead.length ≤ l.ahead.length := by
  rw [comment]
  split
  · rename_i c l' h
    have hcut := get_length_lt h
    split
    · exact Nat.le_of_lt hcut
    · exact Nat.le_trans (comment_length_le l') (Nat.le_of_lt hcut)
  · rename_i l' h
    have htail : l'.ahead = l.ahead.tail := by rw [← ahead_get, h]
    show l'.ahead.length ≤ l.ahead.length
    rw [htail, List.length_tail]
    omega
termination_by l.ahead.length

/-! ## Handlers -/

/-- The kept text as a token on the line, or as the reason why it is none. -/
def finish (l : Lexer) (line : UInt32) (value : Except Cause (Kind × Literal)) :
    Except Error Token × Lexer :=
  let position : Position := { file := l.file, line }
  match value with
  | .ok (kind, literal) =>
    (.ok { kind, text := String.ofList l.accepted, position, literal }, l.accept)
  | .error cause => (.error { cause, position }, l.accept)

/-- The kind of the operator that a character starts. -/
def operatorKind (first : Char) (l : Lexer) : Option Kind × Lexer :=
  match first with
  | '*' => l.follow '*' .power .star
  | '>' => l.follow '=' .greaterEquals .greater
  | '<' => l.follow '=' .lessEquals .less
  | '=' => l.follow '=' .equals .assignment
  | ':' => l.follow '=' .define .colon
  | '+' => (some .plus, l)
  | '-' => (some .dash, l)
  | '/' => (some .slash, l)
  | '%' => (some .percent, l)
  | '|' => (some .pipe, l)
  | '&' => (some .ampersand, l)
  | '!' => (some .not, l)
  | '^' => (some .caret, l)
  | _ => (none, l)

/-- Mirrors `operator_handler`. -/
def operator (first : Char) (line : UInt32) (l : Lexer) : Except Error Token × Lexer :=
  match l.operatorKind first with
  | (some kind, l) => l.finish line (.ok (kind, .none))
  | (none, l) => l.finish line (.error (.badOperator (String.ofList l.accepted)))

/-- The kind of the separator that a character is. -/
def separatorKind : Char → Option Kind
  | '(' => some .openParen
  | ')' => some .closeParen
  | ',' => some .comma
  | ';' => some .semicolon
  | '[' => some .openBracket
  | ']' => some .closeBracket
  | '\x7b' => some .openCurly
  | '\x7d' => some .closeCurly
  | '.' => some .dot
  | _ => none

/-- Mirrors `separator_handler`. -/
def separator (first : Char) (line : UInt32) (l : Lexer) : Except Error Token × Lexer :=
  match separatorKind first with
  | some kind => l.finish line (.ok (kind, .none))
  | none => l.finish line (.error (.badSeparator (String.ofList l.accepted)))

/-- Reads decimal digits, and behind a point once more. -/
def decimalRest (l : Lexer) : Lexer :=
  let l := l.takeWhile Char.isDigit
  if l.get.1 = some '.' then l.get.2.takeWhile Char.isDigit else l.get.2.unget

/-- Reads the rest of a number. -/
def numberRest (first : Char) (l : Lexer) : Lexer :=
  if first = '0' then
    if l.get.1 = some 'x' then l.get.2.takeWhile isHexDigit else l.get.2.unget.decimalRest
  else l.decimalRest

/-- Mirrors `number_handler`. -/
def number (first : Char) (line : UInt32) (l : Lexer) : Except Error Token × Lexer :=
  let l := l.numberRest first
  l.finish line (patternValue l.accepted)

/-- Mirrors `symbol_handler`. -/
def word (line : UInt32) (l : Lexer) : Except Error Token × Lexer :=
  let l := l.takeWhile isWordPart
  l.finish line (.ok (wordValue (String.ofList l.accepted)))

/-- Calls the handler of a character, if it has one. -/
def dispatch (first : Char) (line : UInt32) (l : Lexer) : Except Error Token × Lexer :=
  match Start.of first with
  | .operator => l.operator first line
  | .separator => l.separator first line
  | .number => l.number first line
  | .word => l.word line
  | .stray =>
    let position : Position := { file := l.file, line }
    (.error { cause := .unrecognised (String.ofList [first]), position }, l)

/-! ## Tokens -/

/-- Cuts the next token from the source. Mirrors `scan`. -/
def scan (l : Lexer) : Except Error Token × Lexer :=
  match _h : l.accept.get with
  | (none, l') => (.ok (.eof { file := l'.file, line := l'.reader.line }), l')
  | (some c, l') =>
    let line := l'.reader.line
    if isBlank c then scan l'
    else if c = '/' then
      if l'.get.1 = some '/' then scan l'.get.2.comment
      else l'.get.2.unget.operator c line
    else l'.dispatch c line
termination_by l.ahead.length
decreasing_by
  · exact @get_length_lt l.accept _ _ ‹_›
  · have hcut : l'.ahead.length < l.ahead.length := @get_length_lt l.accept _ _ ‹_›
    have hcomment := l'.get.2.comment_length_le
    rw [ahead_get, List.length_tail] at hcomment
    omega

/-- Shows the next token without taking it. Mirrors `peek`. -/
def peek (l : Lexer) : Except Error Token × Lexer :=
  match l.peeked with
  | some token => (.ok token, l)
  | none =>
    match l.scan with
    | (.ok token, l) => (.ok token, { l with peeked := some token })
    | (.error e, l) => (.error e, l)

/-- Shows the kind of the next token. Mirrors `peek_kind`. -/
def peekKind (l : Lexer) : Except Error Kind × Lexer :=
  (l.peek.1.map Token.kind, l.peek.2)

/-- Takes the next token. Mirrors `lex`. -/
def next (l : Lexer) : Except Error Token × Lexer :=
  match l.peeked with
  | some token => (.ok token, { l with peeked := none })
  | none => l.scan

end Lexer

end FxLang
