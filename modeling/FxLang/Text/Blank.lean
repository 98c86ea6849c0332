import FxLang.Text.Ranges

/-!
# Blanks

The 25 characters with the Unicode property `White_Space`. Between tokens they are skipped.
-/

namespace FxLang.Text

/-- The `White_Space` characters: tab to carriage return, space, next line, no-break space, the
spaces of general punctuation, the line and paragraph separators and the ideographic space. -/
def blankRanges : Ranges :=
  [(0x9, 0xd), (0x20, 0x20), (0x85, 0x85), (0xa0, 0xa0), (0x1680, 0x1680), (0x2000, 0x200a),
   (0x2028, 0x2029), (0x202f, 0x202f), (0x205f, 0x205f), (0x3000, 0x3000)]

/-- A blank, newlines included. -/
def isBlank (c : Char) : Bool :=
  blankRanges.has c

theorem isBlank_newline : isBlank '\n' = true := by decide

end FxLang.Text
