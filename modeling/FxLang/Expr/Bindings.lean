import FxLang.Token.Kind

/-!
# Binding powers

How tokens combine into expressions is data. For each kind of token a table says what the token does
where an operand is expected (its null denotation, `Nud`), whether it joins two operands (its left
denotation), how tightly it binds on its left, and which way it associates. `Bindings.standard` is
the table of the language; `Bindings.register` changes one entry.
-/

namespace FxLang

/-- How tightly a token binds the operand on its left. Higher is tighter. -/
abbrev BindingPower := Int32

namespace BindingPower

/-- The power of a token without an entry, and the minimum for a whole expression. -/
def lowest : BindingPower := 0
/-- The power of a closing parenthesis, below every operator. -/
def closeParen : BindingPower := 1
def additive : BindingPower := 20
def multiplicative : BindingPower := 30
def power : BindingPower := 40
def grouping : BindingPower := 50

/-- The next lower power. A right-associative operator takes a right operand of its own power.
Mirrors `lowered`. -/
def lowered (p : BindingPower) : BindingPower := p - 1

end BindingPower

/-- Which operand a row of equal operators is grouped with first. -/
inductive Associativity where
  | left | right
deriving DecidableEq, Repr

/-- What a token does where an operand is expected. -/
inductive Nud where
  /-- It is an operand by itself. -/
  | primary
  /-- It is an operator in front of its operand. -/
  | unary
  /-- It opens a group that `)` closes. -/
  | grouping
deriving DecidableEq, Repr

/-- The roles of the token kinds in expressions. -/
structure Bindings where
  /-- The role where an operand is expected. -/
  nud : Kind → Option Nud
  /-- The kinds that join two operands. -/
  led : Kind → Bool
  power : Kind → BindingPower
  associativity : Kind → Associativity

namespace Bindings

/-- The table of the language: `^` binds tightest and to the right, then `*`, then `+` and `-`, all
three to the left. A sign binds its operand as tightly as the binary operator of the same kind.
Mirrors `create_token_lookups`. -/
def standard : Bindings where
  nud
    | .integer | .float | .boolean | .identifier => some .primary
    | .plus | .dash => some .unary
    | .openParen => some .grouping
    | _ => none
  led
    | .plus | .dash | .star | .caret => true
    | _ => false
  power
    | .closeParen => .closeParen
    | .plus | .dash => .additive
    | .star => .multiplicative
    | .caret => .power
    | .openParen => .grouping
    | _ => .lowest
  associativity
    | .caret => .right
    | _ => .left

/-- The least power that an operator on the right of `kind` needs to take over its operand. -/
def rightPower (table : Bindings) (kind : Kind) : BindingPower :=
  match table.associativity kind with
  | .left => table.power kind
  | .right => (table.power kind).lowered

/-- A change to one entry of a table. -/
inductive Registration where
  /-- Sets a power and nothing else. -/
  | power (kind : Kind) (power : BindingPower)
  /-- Makes a kind join two operands. -/
  | led (kind : Kind) (power : BindingPower) (associativity : Associativity)
  /-- Sets the role where an operand is expected; the power stays as it is. -/
  | nud (kind : Kind) (role : Nud)
deriving DecidableEq, Repr

/-- The function that differs from `f` at one kind. -/
def update {α : Type} (f : Kind → α) (kind : Kind) (value : α) : Kind → α :=
  fun k => if k = kind then value else f k

/-- Makes one change. -/
def register (table : Bindings) : Registration → Bindings
  | .power kind p => { table with power := update table.power kind p }
  | .led kind p associativity =>
    { table with
      power := update table.power kind p
      associativity := update table.associativity kind associativity
      led := update table.led kind true }
  | .nud kind role => { table with nud := update table.nud kind (some role) }

/-- Makes changes one after the other. -/
def registerAll (table : Bindings) (changes : List Registration) : Bindings :=
  changes.foldl register table

end Bindings

end FxLang
