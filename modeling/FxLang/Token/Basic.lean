import FxLang.Token.Kind

/-!
# Tokens

A token is a kind, the text it was read from, the place of that text and, for a literal, the value.
-/

namespace FxLang

/-- A line of a named input. -/
structure Position where
  file : String
  line : UInt32
deriving DecidableEq, Repr

/-- The name shown for an input that has none. -/
def Position.unnamed : String := "shell"

/-- The position as reports show it, `file:line`. -/
def Position.text (p : Position) : String :=
  p.file ++ ":" ++ toString p.line

/-- The value of a literal token. -/
inductive Literal where
  | none
  | integer (value : Int64)
  | float (value : Float)
  | boolean (value : Bool)
deriving DecidableEq, Repr

/-- A token of a source text. -/
structure Token where
  kind : Kind
  /-- The characters of the token; empty for the end of the input. -/
  text : String
  position : Position
  literal : Literal := .none
deriving DecidableEq, Repr

namespace Token

/-- The token that stands for the end of the input. -/
def eof (position : Position) : Token :=
  { kind := .eof, text := "", position }

/-- The token is the end of the input. Mirrors `is_eof`. -/
def isEof (t : Token) : Bool :=
  t.kind = .eof

@[simp] theorem isEof_eof (p : Position) : (eof p).isEof = true := rfl

/-- The token as diagnostics show it. -/
def display (t : Token) : String :=
  if t.isEof then "end of file" else t.text

/-- The kinds whose texts differ from token to token. -/
def hasOwnText (t : Token) : Bool :=
  t.kind ∈ [Kind.identifier, .integer, .float, .boolean]

/-- The token as the session log shows it: kind, text where the kind does not fix it, and line.
Mirrors `debug`. -/
def describe (t : Token) : String :=
  t.kind.name ++ " (" ++ (if t.hasOwnText then t.text else "") ++ ") line "
    ++ toString t.position.line

end Token

end FxLang
