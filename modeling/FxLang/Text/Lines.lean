/-!
# Lines of a text

A text is cut at a character into the pieces between its occurrences. Cut at newlines, it gives the
lines; a carriage return at the end of a line is not part of it.

* `split_ne_nil`: there is always a piece.
-/

namespace FxLang.Text

/-- The pieces between the occurrences of a character. -/
def split (sep : Char) : List Char → List (List Char)
  | [] => [[]]
  | c :: cs =>
    if c = sep then [] :: split sep cs
    else
      match split sep cs with
      | [] => [[c]]
      | first :: rest => (c :: first) :: rest

/-- The text without carriage returns at its end. -/
def dropFinalReturns (text : List Char) : List Char :=
  (text.reverse.dropWhile (· = '\r')).reverse

/-- The text of a line, counted from 1, without its line end. Mirrors `get_source_line`. -/
def line? (source : String) (number : UInt32) : Option String :=
  if number = 0 then none
  else ((split '\n' source.toList)[(number - 1).toNat]?).map fun text =>
    String.ofList (dropFinalReturns text)

/-- The text without spaces and tabs at its front. Mirrors `remove_starting_whitespace`. -/
def dropIndentation (text : String) : String :=
  String.ofList (text.toList.dropWhile fun c => c = ' ' || c = '\t')

theorem split_ne_nil (sep : Char) (text : List Char) : split sep text ≠ [] := by
  cases text with
  | nil => simp [split]
  | cons c cs =>
    rw [split]
    split
    · simp
    · split <;> simp

end FxLang.Text
