import FxLang.Text.Extending
import FxLang.Text.Printable

/-!
# Quoted text

A text quoted for a message: between double quotes, with a backslash before a quote or a backslash,
the short escapes `\t`, `\r`, `\n` and `\0`, and the code point in hexadecimal for every other
character that would not show by itself. An apostrophe stands as it is.
-/

namespace FxLang.Text

/-- The code point in braces, in lower-case hexadecimal without leading zeros. -/
def codePointEscape (c : Char) : String :=
  "\\u\x7b" ++ String.ofList (Nat.toDigits 16 c.toNat) ++ "\x7d"

/-- How one character stands in a quoted text. -/
def quotedChar (c : Char) : String :=
  if c = '"' then "\\\""
  else if c = '\\' then "\\\\"
  else if c = '\t' then "\\t"
  else if c = '\r' then "\\r"
  else if c = '\n' then "\\n"
  else if c = '\x00' then "\\0"
  else if isExtending c || !isPrintable c then codePointEscape c
  else c.toString

/-- The text between double quotes, escaped. -/
def quoted (text : String) : String :=
  "\"" ++ String.join (text.toList.map quotedChar) ++ "\""

end FxLang.Text
