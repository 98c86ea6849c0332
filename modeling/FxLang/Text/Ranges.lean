/-!
# Sets of characters as ranges of code points

The Unicode properties this library needs are tables of closed ranges of code points, in ascending
order. A character has the property when one range holds its code point.
-/

namespace FxLang.Text

/-- Closed ranges of code points. -/
abbrev Ranges := List (Nat × Nat)

/-- Some range holds the character's code point. -/
def Ranges.has (ranges : Ranges) (c : Char) : Bool :=
  ranges.any fun range => range.1 ≤ c.toNat && c.toNat ≤ range.2

end FxLang.Text
