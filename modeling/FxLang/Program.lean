import FxLang.Expr.Basic

/-!
# Programs

The tree of a source file: functions with typed parameters, and four kinds of statement.
-/

namespace FxLang

/-- The type of a parameter or a local variable. -/
inductive TypeName where
  | int | bool
deriving DecidableEq, Repr

/-- A typed parameter. -/
structure Param where
  type : TypeName
  name : String
deriving DecidableEq, Repr

/-- A statement. The position is that of the identifier a call or an assignment starts with, of the
name declared, or of the keyword of a loop. -/
inductive Stmt where
  | call (callee : String) (args : List Expr) (position : Position)
  | assign (target : String) (value : Expr) (position : Position)
  | declare (type : TypeName) (name : String) (position : Position)
  | iter (counter : String) (start stop step : Expr) (body : List Stmt) (position : Position)
deriving Repr

mutual

/-- Equality of statements is decidable. -/
def Stmt.decEq : (a b : Stmt) → Decidable (a = b)
  | .call f xs p, .call g ys q =>
    decidable_of_decidable_of_iff (p := f = g ∧ xs = ys ∧ p = q) (by simp)
  | .assign x e p, .assign y d q =>
    decidable_of_decidable_of_iff (p := x = y ∧ e = d ∧ p = q) (by simp)
  | .declare t x p, .declare u y q =>
    decidable_of_decidable_of_iff (p := t = u ∧ x = y ∧ p = q) (by simp)
  | .iter x a b c body p, .iter y a₁ b₁ c₁ body₁ q =>
    have := Stmt.decEqList body body₁
    decidable_of_decidable_of_iff
      (p := x = y ∧ a = a₁ ∧ b = b₁ ∧ c = c₁ ∧ body = body₁ ∧ p = q) (by simp)
  | .call .., .assign .. | .call .., .declare .. | .call .., .iter ..
  | .assign .., .call .. | .assign .., .declare .. | .assign .., .iter ..
  | .declare .., .call .. | .declare .., .assign .. | .declare .., .iter ..
  | .iter .., .call .. | .iter .., .assign .. | .iter .., .declare .. => isFalse (by simp)

/-- Equality of lists of statements is decidable. -/
def Stmt.decEqList : (a b : List Stmt) → Decidable (a = b)
  | [], [] => isTrue rfl
  | [], _ :: _ | _ :: _, [] => isFalse (by simp)
  | a :: as, b :: bs =>
    have := Stmt.decEq a b
    have := Stmt.decEqList as bs
    decidable_of_decidable_of_iff (p := a = b ∧ as = bs) (by simp)

end

instance : DecidableEq Stmt := Stmt.decEq

/-- A function. The position is that of its keyword. -/
structure Func where
  name : String
  params : List Param
  body : List Stmt
  position : Position
deriving DecidableEq, Repr

/-- The entry point is told by its name, which is reserved. Mirrors `is_main`. -/
def Func.isMain (f : Func) : Bool :=
  f.name = "main"

/-- The functions of a source file, in order. What could not be understood is left out. -/
structure Program where
  functions : List Func
deriving DecidableEq, Repr

/-- The first function of a name. Mirrors `find_function`. -/
def Program.find? (p : Program) (name : String) : Option Func :=
  p.functions.find? fun f => f.name = name

end FxLang
