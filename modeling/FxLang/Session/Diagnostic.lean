import FxLang.Token.Basic

/-!
# Diagnostics

A diagnostic says what was wanted, within which construct, what was found there and where.
-/

namespace FxLang

/-- A syntax error that parsing got over. -/
structure Diagnostic where
  expected : String
  /-- The construct that was being read. -/
  context : String
  found : Token
  /-- Where the diagnostic stands: at the token found, unless it is said otherwise. -/
  position : Position := found.position
deriving DecidableEq, Repr

namespace Diagnostic

/-- The diagnostic in words. -/
def text (d : Diagnostic) : String :=
  d.position.text ++ ": Expected " ++ d.expected ++ " in " ++ d.context ++ ", found "
    ++ d.found.display

end Diagnostic

end FxLang
