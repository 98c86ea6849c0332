/-!
# Kinds of token

The closed list of token kinds with the names they are shown under, and the reserved words.
-/

namespace FxLang

/-- What sort of token it is. -/
inductive Kind where
  | eof
  | identifier | integer | float | boolean
  | openBracket | closeBracket | openCurly | closeCurly | openParen | closeParen
  | assignment | equals | colon | define | not
  | less | lessEquals | greater | greaterEquals
  | pipe | ampersand
  | dot | semicolon | comma
  | plus | dash | slash | star | power | caret | percent
  | func | mainWord | typeDef | record | ifWord | elseWord | iter | int | bool
deriving DecidableEq, Repr

namespace Kind

/-- Every kind, in order of declaration. -/
def all : List Kind :=
  [.eof, .identifier, .integer, .float, .boolean,
   .openBracket, .closeBracket, .openCurly, .closeCurly, .openParen, .closeParen,
   .assignment, .equals, .colon, .define, .not,
   .less, .lessEquals, .greater, .greaterEquals, .pipe, .ampersand, .dot, .semicolon, .comma,
   .plus, .dash, .slash, .star, .power, .caret, .percent,
   .func, .mainWord, .typeDef, .record, .ifWord, .elseWord, .iter, .int, .bool]

/-- The name a kind is shown under. -/
def name : Kind → String
  | .eof => "EOF"
  | .identifier => "Identifier"
  | .integer => "Integer"
  | .float => "Float"
  | .boolean => "Boolean"
  | .openBracket => "OpenBracket"
  | .closeBracket => "CloseBracket"
  | .openCurly => "OpenCurly"
  | .closeCurly => "CloseCurly"
  | .openParen => "OpenParen"
  | .closeParen => "CloseParen"
  | .assignment => "Assignment"
  | .equals => "Equals"
  | .colon => "Colon"
  | .define => "Define"
  | .not => "Not"
  | .less => "Less"
  | .lessEquals => "LessEquals"
  | .greater => "Greater"
  | .greaterEquals => "GreaterEquals"
  | .pipe => "Pipe"
  | .ampersand => "Ampersand"
  | .dot => "Dot"
  | .semicolon => "Semicolon"
  | .comma => "Comma"
  | .plus => "Plus"
  | .dash => "Dash"
  | .slash => "Slash"
  | .star => "Star"
  | .power => "Power"
  | .caret => "Caret"
  | .percent => "Percent"
  | .func => "Func"
  | .mainWord => "Main"
  | .typeDef => "TypeDef"
  | .record => "Record"
  | .ifWord => "If"
  | .elseWord => "Else"
  | .iter => "Iter"
  | .int => "Int"
  | .bool => "Bool"

/-- The kind shown under a name. -/
def ofName? (name : String) : Option Kind :=
  all.find? fun kind => kind.name = name

/-- The two kinds that name a type. Mirrors `is_type`. -/
def isType : Kind → Bool
  | .int | .bool => true
  | _ => false

end Kind

/-! ## Reserved words -/

/-- The words that cannot be identifiers, with the kind of token each makes. Mirrors
`RESERVED_LOOKUP`. -/
def reservedWords : List (String × Kind) :=
  [("func", .func), ("main", .mainWord), ("type", .typeDef), ("record", .record), ("if", .ifWord),
   ("else", .elseWord), ("iter", .iter), ("int", .int), ("bool", .bool), ("True", .boolean),
   ("False", .boolean)]

/-- The kind of a reserved word, matched letter for letter. -/
def reservedKind? (word : String) : Option Kind :=
  reservedWords.lookup word

end FxLang
