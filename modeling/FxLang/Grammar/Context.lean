/-!
# Names of constructs

Diagnostics and fatal errors name the construct that was being read. These are the names, as they
are shown.
-/

namespace FxLang.Context

/-- The whole input, between functions. -/
def program : String := "program"

/-- The signature of a function, apart from its parameters. -/
def functionDeclaration : String := "function declaration"

/-- The parameters of a function. -/
def parameters : String := "function arguments"

/-- The block of a function. -/
def function : String := "function"

/-- A statement that goes wrong behind its first token. -/
def statement : String := "statement"

/-- The place of a statement. -/
def functionBody : String := "function body"

/-- A call. -/
def call : String := "function call"

/-- An assignment. -/
def assignment : String := "assignment"

/-- The declaration of a variable. -/
def declaration : String := "declaration"

/-- A loop: its header and its block. -/
def iter : String := "iter definition"

end FxLang.Context
