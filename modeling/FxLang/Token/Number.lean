import FxLang.Error

/-!
# Number literals

A number is `0x` with hexadecimal digits, or decimal digits, or decimal digits with a point and
further digits, of which there may be none. `numberText` takes the longest such text from the front
of the input and `numberValue` reads it. The digits are the ASCII ones.

Integers are 64-bit signed; one that is too large is an error. A decimal fraction is rounded to the
nearest `Float`, and to infinity beyond the largest.

* `numberText_isPrefix`: the text of a number is the front of the input.
-/

namespace FxLang

/-- A digit in base sixteen. -/
def isHexDigit (c : Char) : Bool :=
  c.isDigit || ('a' ≤ c && c ≤ 'f') || ('A' ≤ c && c ≤ 'F')

/-- What a hexadecimal digit counts. -/
def digitValue (c : Char) : Nat :=
  if c.isDigit then c.toNat - '0'.toNat
  else if 'a' ≤ c then c.toNat - 'a'.toNat + 10
  else c.toNat - 'A'.toNat + 10

/-- The number that a row of digits writes, the first being the most significant. -/
def ofDigits (base : Nat) (digits : List Char) : Nat :=
  digits.foldl (fun n d => n * base + digitValue d) 0

/-- The largest integer literal. -/
def maxInteger : Nat := Nat.pow 2 63 - 1

/-- The longest number at the front of a text that starts with a digit. Mirrors what
`number_handler` reads. -/
def numberText : List Char → List Char
  | '0' :: 'x' :: rest => '0' :: 'x' :: rest.takeWhile isHexDigit
  | text =>
    match text.dropWhile Char.isDigit with
    | '.' :: rest => text.takeWhile Char.isDigit ++ '.' :: rest.takeWhile Char.isDigit
    | _ => text.takeWhile Char.isDigit

/-- The integer literal of a value, unless it is too large. -/
def integerLiteral (text : List Char) (value : Nat) : Except Cause (Kind × Literal) :=
  if value ≤ maxInteger then .ok (.integer, .integer (Int64.ofNat value))
  else .error (.numberTooLarge (String.ofList text))

/-- The `Float` nearest to a decimal fraction given by its digits before and after the point. -/
def decimalFloat (whole fraction : List Char) : Float :=
  Float.ofScientific (ofDigits 10 (whole ++ fraction)) true fraction.length

/-- The kind and value of a number's text. Mirrors what `number_handler` makes of it. -/
def numberValue : List Char → Except Cause (Kind × Literal)
  | ['0', 'x'] => .error (.malformedNumber "0x")
  | '0' :: 'x' :: digits => integerLiteral ('0' :: 'x' :: digits) (ofDigits 16 digits)
  | text =>
    match text.dropWhile Char.isDigit with
    | '.' :: fraction =>
      .ok (.float, .float (decimalFloat (text.takeWhile Char.isDigit) fraction))
    | _ => integerLiteral text (ofDigits 10 text)

theorem numberText_isPrefix (text : List Char) : numberText text <+: text := by
  unfold numberText
  split
  · simpa using List.takeWhile_prefix _
  · split
    · rename_i rest h
      have := List.takeWhile_append_dropWhile (p := Char.isDigit) (l := text)
      rw [h] at this
      conv => rhs; rw [← this]
      simpa using List.takeWhile_prefix _
    · exact List.takeWhile_prefix _

end FxLang
