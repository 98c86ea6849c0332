import FxLang.Grammar.Function
import FxLang.Proofs.Expr.Phrase

/-!
# The grammar of the language

The grammar as relations between a list of tokens and the tree it makes, without reference to any
parser:

```text
Prog  := Func*
Func  := 'func' (Id | 'main') '(' [Type Id (',' Type Id)*] ')' '{' Stmnt* '}'
Stmnt := Id '(' [Expr (',' Expr)*] ')' ';' | Id '=' Expr ';' | Type Id ';'
       | 'iter' '(' Id ':=' Expr ';' Expr ',' Expr ')' '{' Stmnt* '}'
Expr  := Atom | ('+'|'-') Expr | '(' Expr ')' | Expr ('+'|'-'|'*'|'^') Expr
```

The rule for expressions is ambiguous. `Expr.Derives` is the rule as it stands, with all its trees;
`Expr.Tree` is the tree that the standard binding powers single out. The rules above expressions
take either as a parameter.

* `Expr.Tree.derives`, `Expr.Derives.exists_tree`: the binding powers choose among the trees of a
  text, and choose one for every text.
* `Program.sentence_iff`: so both readings make the same programs.
-/

namespace FxLang

/-! ## Kinds in expressions -/

namespace Kind

/-- An operand by itself. -/
def isAtom : Kind → Bool
  | .integer | .float | .boolean | .identifier => true
  | _ => false

/-- An operator in front of an operand. -/
def isSign : Kind → Bool
  | .plus | .dash => true
  | _ => false

/-- An operator between two operands. -/
def isOperator : Kind → Bool
  | .plus | .dash | .star | .caret => true
  | _ => false

theorem isSign_of_isAtom {k : Kind} (h : k.isAtom = true) : k.isSign = false := by
  revert h; cases k <;> decide

theorem isAtom_of_isOperator {k : Kind} (h : k.isOperator = true) : k.isAtom = false := by
  revert h; cases k <;> decide

theorem isAtom_iff {k : Kind} :
    k.isAtom = true ↔ k = .integer ∨ k = .float ∨ k = .boolean ∨ k = .identifier := by
  cases k <;> decide

theorem isOperator_iff {k : Kind} :
    k.isOperator = true ↔ k = .plus ∨ k = .dash ∨ k = .star ∨ k = .caret := by
  cases k <;> decide

theorem isOperator_of_isSign {k : Kind} (h : k.isSign = true) : k.isOperator = true := by
  revert h; cases k <;> decide

theorem standard_nud_eq_primary {k : Kind} :
    Bindings.standard.nud k = some .primary ↔ k.isAtom := by
  cases k <;> decide

theorem standard_nud_eq_unary {k : Kind} : Bindings.standard.nud k = some .unary ↔ k.isSign := by
  cases k <;> decide

theorem standard_nud_eq_grouping {k : Kind} :
    Bindings.standard.nud k = some .grouping ↔ k = .openParen := by
  cases k <;> decide

theorem standard_led {k : Kind} : Bindings.standard.led k = k.isOperator := by
  cases k <;> rfl

end Kind

namespace Token

variable {t : Token}

theorem endsExpression_iff : t.endsExpression = true ↔ t.kind = .eof ∨ t.kind = .closeParen := by
  simp [endsExpression]

theorem endsExpression_eq_false (h₁ : t.kind ≠ .eof) (h₂ : t.kind ≠ .closeParen) :
    t.endsExpression = false := by
  simp [endsExpression, h₁, h₂]

theorem endsExpression_of_isOperator (h : t.kind.isOperator = true) :
    t.endsExpression = false :=
  endsExpression_eq_false (by intro hk; simp [hk, Kind.isOperator] at h)
    (by intro hk; simp [hk, Kind.isOperator] at h)

/-- Every operator binds above the minimum of a whole expression. -/
theorem leftPower_of_isOperator (h : t.kind.isOperator = true) :
    0 < Bindings.standard.leftPower t := by
  unfold Bindings.leftPower
  revert h
  cases t.kind <;> decide

theorem isOperator_of_leftPower (h : 0 < Bindings.standard.leftPower t)
    (he : t.endsExpression = false) (ho : t.kind ≠ .openParen) : t.kind.isOperator = true := by
  rw [endsExpression] at he
  unfold Bindings.leftPower at h
  revert h he ho
  cases t.kind <;> decide

end Token

/-! ## Expressions -/

namespace Expr

/-- The trees of an expression by the ambiguous rule. -/
inductive Derives : List Token → Expr → Prop
  | atom {t : Token} (ht : t.kind.isAtom = true) : Derives [t] (.leaf t)
  | sign {p : Token} {w : List Token} {e : Expr} (hp : p.kind.isSign = true) (h : Derives w e) :
      Derives (p :: w) (.unary p e)
  | group {o c : Token} {w : List Token} {e : Expr} (ho : o.kind = .openParen) (h : Derives w e)
      (hc : c.kind = .closeParen) : Derives (o :: (w ++ [c])) e
  | join {o : Token} {w₁ w₂ : List Token} {e₁ e₂ : Expr} (h₁ : Derives w₁ e₁)
      (ho : o.kind.isOperator = true) (h₂ : Derives w₂ e₂) :
      Derives (w₁ ++ o :: w₂) (.binary o e₁ e₂)

/-- The tree of an expression under the standard binding powers. -/
def Tree (w : List Token) (e : Expr) : Prop :=
  ∃ le re, Phrase .standard w e le re

end Expr

namespace Phrase

variable {w : List Token} {e : Expr} {le : List Token} {re : List EdgeOperator}

theorem derives (h : Phrase .standard w e le re) : Expr.Derives w e := by
  induction h with
  | leaf _ hn => exact .atom (Kind.standard_nud_eq_primary.1 hn)
  | group _ hn _ _ hc ih => exact .group (Kind.standard_nud_eq_grouping.1 hn) ih hc
  | unary _ hn _ _ ih => exact .sign (Kind.standard_nud_eq_unary.1 hn) ih
  | binary _ _ hl _ _ _ ih₁ ih₂ => exact .join ih₁ (by rwa [← Kind.standard_led]) ih₂

/-- Standard operators on the left edge are above the minimum of a whole expression. -/
theorem leftPower_pos (h : Phrase .standard w e le re) :
    ∀ y ∈ le, 0 < Bindings.standard.leftPower y := by
  induction h with
  | leaf | group | unary => simp
  | binary _ _ hl _ _ _ ih₁ _ =>
    simp only [List.mem_cons, forall_eq_or_imp]
    exact ⟨Token.leftPower_of_isOperator (by rwa [← Kind.standard_led]), ih₁⟩

/-! ### Every text of the ambiguous rule is a phrase

An operator and an operand are added to a phrase on its right, where the operator takes over the
operand that it binds tighter than its owner, or else the whole phrase. -/

/-- An operator takes over some operand on a right edge, or none. -/
theorem takes_over_or_not (re : List EdgeOperator) (o : Token) :
    (∃ x ∈ re, Bindings.standard.rightBound x < Bindings.standard.leftPower o) ∨
      ∀ x ∈ re, Bindings.standard.leftPower o ≤ Bindings.standard.rightBound x := by
  by_cases h : ∃ x ∈ re, Bindings.standard.rightBound x < Bindings.standard.leftPower o
  · exact .inl h
  · exact .inr fun x hx => Int.not_lt.1 fun hlt => h ⟨x, hx, hlt⟩

section
variable {o : Token} {w₂ : List Token} {e₂ : Expr} {re₂ : List EdgeOperator}

/-- An operator that takes over an operand on the right edge goes inside the phrase; the left edge
stays as it is. -/
theorem insert (h : Phrase .standard w e le re) (ho : o.kind.isOperator = true)
    (h₂ : Phrase .standard w₂ e₂ [] re₂)
    (hx : ∃ x ∈ re, Bindings.standard.rightBound x < Bindings.standard.leftPower o) :
    ∃ e' re', Phrase .standard (w ++ o :: w₂) e' le re' := by
  have hl : Bindings.standard.led o.kind = true := by rwa [Kind.standard_led]
  have hends := Token.endsExpression_of_isOperator ho
  induction h with
  | leaf | group => simp at hx
  | @unary p w e le re hp hn h hle ih =>
    rcases takes_over_or_not re o with hin | hre
    · obtain ⟨e', re', h'⟩ := ih hin
      exact ⟨_, _, .unary hp hn h' hle⟩
    · -- Nothing inside gives way to the operator, so the sign does.
      have hpo : Bindings.standard.leftPower p < Bindings.standard.leftPower o := by
        obtain ⟨x, hmem, hlt⟩ := hx
        rcases List.mem_cons.1 hmem with rfl | hmem
        · exact hlt
        · have := hre x hmem; omega
      exact ⟨_, _, .unary hp hn (.binary h hends hl h₂ hre (by simp)) (by simpa using ⟨hpo, hle⟩)⟩
  | @binary q w₁ w₃ e₁ e₃ le₁ le₃ re₁ re₃ h₁ hq hql h₃ hre hle _ ih =>
    rcases takes_over_or_not re₃ o with hin | hre₃
    · obtain ⟨e', re', h'⟩ := ih hin
      exact ⟨_, _, by simpa using Phrase.binary h₁ hq hql h' hre hle⟩
    · have hqo : Bindings.standard.rightBound (.binary q) < Bindings.standard.leftPower o := by
        obtain ⟨x, hmem, hlt⟩ := hx
        rcases List.mem_cons.1 hmem with rfl | hmem
        · exact hlt
        · have := hre₃ x hmem; omega
      have h' := Phrase.binary h₁ hq hql (.binary h₃ hends hl h₂ hre₃ (by simp)) hre
        (by simpa using ⟨hqo, hle⟩)
      exact ⟨_, _, by simpa using h'⟩

/-- An operator and an operand with no operator on its left edge can be added to any phrase. -/
theorem append_operand (h : Phrase .standard w e le re) (ho : o.kind.isOperator = true)
    (h₂ : Phrase .standard w₂ e₂ [] re₂) : ∃ e', Expr.Tree (w ++ o :: w₂) e' := by
  rcases takes_over_or_not re o with hin | hre
  · obtain ⟨e', re', h'⟩ := h.insert ho h₂ hin
    exact ⟨e', le, re', h'⟩
  · exact ⟨_, _, _, .binary h (Token.endsExpression_of_isOperator ho)
      (by rwa [Kind.standard_led]) h₂ hre (by simp)⟩

end

/-- Two phrases are joined by adding the operands of the second to the first one after another. -/
theorem append {o : Token} {w₂ : List Token} {e₂ : Expr} {le₂ : List Token}
    {re₂ : List EdgeOperator} (h₂ : Phrase .standard w₂ e₂ le₂ re₂)
    (ho : o.kind.isOperator = true) (h : Phrase .standard w e le re) :
    ∃ e', Expr.Tree (w ++ o :: w₂) e' := by
  induction h₂ generalizing w e le re o with
  | leaf ht hn => exact h.append_operand ho (.leaf ht hn)
  | group hg hn hin hle hc => exact h.append_operand ho (.group hg hn hin hle hc)
  | unary hp hn hin hle => exact h.append_operand ho (.unary hp hn hin hle)
  | @binary q w₁ w₃ e₁ e₃ le₁ le₃ re₁ re₃ _ _ hl _ _ _ ih₁ ih₃ =>
    obtain ⟨e', le', re', h'⟩ := ih₁ ho h
    simpa using ih₃ (by rwa [Kind.standard_led] at hl) h'

/-- A sign can be put in front of any phrase. -/
theorem cons_sign {p : Token} (hp : p.kind.isSign = true) (h : Phrase .standard w e le re) :
    ∃ e', Expr.Tree (p :: w) e' := by
  have hends : p.endsExpression = false :=
    Token.endsExpression_eq_false (by intro hk; simp [hk, Kind.isSign] at hp)
      (by intro hk; simp [hk, Kind.isSign] at hp)
  have hn := Kind.standard_nud_eq_unary.2 hp
  induction h with
  | leaf ht hn' => exact ⟨_, _, _, .unary hends hn (.leaf ht hn') (by simp)⟩
  | group hg hn' hin hle hc => exact ⟨_, _, _, .unary hends hn (.group hg hn' hin hle hc) (by simp)⟩
  | unary hq hn' hin hle => exact ⟨_, _, _, .unary hends hn (.unary hq hn' hin hle) (by simp)⟩
  | binary _ _ hl h₂ _ _ ih₁ _ =>
    obtain ⟨e', le', re', h'⟩ := ih₁
    exact h₂.append (by rwa [Kind.standard_led] at hl) h'

end Phrase

namespace Expr

variable {w : List Token} {e : Expr}

theorem Tree.derives (h : Tree w e) : Derives w e := by
  obtain ⟨le, re, h⟩ := h
  exact h.derives

/-- The binding powers choose a tree for every text of the ambiguous rule. -/
theorem Derives.exists_tree (h : Derives w e) : ∃ e', Tree w e' := by
  induction h with
  | atom ht =>
    have hk := ht
    refine ⟨_, _, _, .leaf (Token.endsExpression_eq_false ?_ ?_)
      (Kind.standard_nud_eq_primary.2 ht)⟩
    · intro h; simp [h, Kind.isAtom] at hk
    · intro h; simp [h, Kind.isAtom] at hk
  | sign hp _ ih =>
    obtain ⟨e', le, re, h'⟩ := ih
    exact h'.cons_sign hp
  | group ho _ hc ih =>
    obtain ⟨e', le, re, h'⟩ := ih
    exact ⟨e', _, _, .group (by simp [Token.endsExpression, ho])
      (Kind.standard_nud_eq_grouping.2 ho) h' h'.leftPower_pos hc⟩
  | join _ ho _ ih₁ ih₂ =>
    obtain ⟨e₁, le₁, re₁, h₁⟩ := ih₁
    obtain ⟨e₂, le₂, re₂, h₂⟩ := ih₂
    exact h₂.append ho h₁

end Expr

/-! ## Rows and lists -/

/-- Texts one behind the other, each with what it makes. -/
abbrev Row (α : Type) := List (List Token × α)

namespace Row

variable {α : Type}

/-- The whole text of a row. -/
def text (row : Row α) : List Token := (row.map Prod.fst).flatten

/-- What the texts of a row make. -/
def values (row : Row α) : List α := row.map Prod.snd

@[simp] theorem text_nil : text ([] : Row α) = [] := rfl

@[simp] theorem text_cons (p : List Token × α) (row : Row α) : text (p :: row) = p.1 ++ text row :=
  rfl

@[simp] theorem values_nil : values ([] : Row α) = [] := rfl

@[simp] theorem values_cons (p : List Token × α) (row : Row α) :
    values (p :: row) = p.2 :: values row := rfl

end Row

/-- One or more items with commas between them. -/
inductive Listed {α : Type} (item : List Token → α → Prop) : List Token → List α → Prop
  | one {w : List Token} {a : α} (h : item w a) : Listed item w [a]
  | more {w w' : List Token} {a : α} {as : List α} {c : Token} (h : item w a)
      (hc : c.kind = .comma) (hr : Listed item w' as) : Listed item (w ++ c :: w') (a :: as)

/-- Nothing, or a list of items. -/
def MaybeListed {α : Type} (item : List Token → α → Prop) (w : List Token) (as : List α) : Prop :=
  w = [] ∧ as = [] ∨ Listed item w as

/-! ## Statements -/

section
variable (E : List Token → Expr → Prop)

/-- The text in front of the body of a loop, `{` included, and the loop it makes of a body. -/
inductive Stmt.HeaderText : List Token → (List Stmt → Stmt) → Prop
  | mk {keyword opened counter define semicolon comma closed brace : Token}
      {w₁ w₂ w₃ : List Token} {start stop step : Expr}
      (hkeyword : keyword.kind = .iter) (hopened : opened.kind = .openParen)
      (hcounter : counter.kind = .identifier) (hdefine : define.kind = .define) (h₁ : E w₁ start)
      (hsemicolon : semicolon.kind = .semicolon) (h₂ : E w₂ stop) (hcomma : comma.kind = .comma)
      (h₃ : E w₃ step) (hclosed : closed.kind = .closeParen) (hbrace : brace.kind = .openCurly) :
      HeaderText (keyword :: opened :: counter :: define ::
          (w₁ ++ semicolon :: (w₂ ++ comma :: (w₃ ++ [closed, brace]))))
        fun body => .iter counter.text start stop step body keyword.position

/-- The trees of statements. -/
inductive Stmt.Derives : List Token → Stmt → Prop
  | call {name opened closed semicolon : Token} {w : List Token} {args : List Expr}
      (hname : name.kind = .identifier) (hopened : opened.kind = .openParen)
      (hargs : MaybeListed E w args) (hclosed : closed.kind = .closeParen)
      (hsemicolon : semicolon.kind = .semicolon) :
      Stmt.Derives (name :: opened :: (w ++ [closed, semicolon]))
        (.call name.text args name.position)
  | assign {name equals semicolon : Token} {w : List Token} {value : Expr}
      (hname : name.kind = .identifier) (hequals : equals.kind = .assignment) (hvalue : E w value)
      (hsemicolon : semicolon.kind = .semicolon) :
      Stmt.Derives (name :: equals :: (w ++ [semicolon])) (.assign name.text value name.position)
  | declare {type name semicolon : Token} {ty : TypeName}
      (htype : Func.typeName? type.kind = some ty) (hname : name.kind = .identifier)
      (hsemicolon : semicolon.kind = .semicolon) :
      Stmt.Derives [type, name, semicolon] (.declare ty name.text name.position)
  | iter {header : List Token} {loop : List Stmt → Stmt} {body : Row Stmt} {brace : Token}
      (hheader : Stmt.HeaderText E header loop) (hbody : ∀ p ∈ body, Stmt.Derives p.1 p.2)
      (hbrace : brace.kind = .closeCurly) :
      Stmt.Derives (header ++ (body.text ++ [brace])) (loop body.values)

/-! ## Functions and programs -/

omit E in
theorem Func.exists_typeName_iff {k : Kind} :
    (∃ ty, Func.typeName? k = some ty) ↔ k.isType = true := by
  cases k <;> simp [Func.typeName?, Kind.isType]

omit E in
/-- The type as a declaration finds it out. -/
theorem Func.ite_of_typeName {k : Kind} {ty : TypeName} (h : Func.typeName? k = some ty) :
    (if k = .bool then TypeName.bool else .int) = ty := by
  revert h
  cases k <;> simp [Func.typeName?]

/-- A parameter: its type and its name. -/
inductive Param.Derives : List Token → Param → Prop
  | mk {type name : Token} {ty : TypeName} (htype : Func.typeName? type.kind = some ty)
      (hname : name.kind = .identifier) :
      Param.Derives [type, name] { type := ty, name := name.text }

/-- The trees of functions. -/
inductive Func.Derives : List Token → Func → Prop
  | mk {keyword name opened closed brace brace' : Token} {w : List Token} {params : List Param}
      {body : Row Stmt} (hkeyword : keyword.kind = .func)
      (hname : name.kind = .identifier ∨ name.kind = .mainWord) (hopened : opened.kind = .openParen)
      (hparams : MaybeListed Param.Derives w params) (hclosed : closed.kind = .closeParen)
      (hbrace : brace.kind = .openCurly) (hbody : ∀ p ∈ body, Stmt.Derives E p.1 p.2)
      (hbrace' : brace'.kind = .closeCurly) :
      Func.Derives (keyword :: name :: opened ::
          (w ++ closed :: brace :: (body.text ++ [brace'])))
        { name := name.text, params, body := body.values, position := keyword.position }

/-- The trees of programs. -/
def Program.Derives (w : List Token) (p : Program) : Prop :=
  ∃ row : Row Func, (∀ q ∈ row, Func.Derives E q.1 q.2) ∧ row.text = w ∧ row.values = p.functions

end

/-- The tree of a program, with expressions under the standard binding powers. -/
def Program.Tree (w : List Token) (p : Program) : Prop :=
  Program.Derives Expr.Tree w p

/-- The token list is a program by the grammar as it stands. -/
def Program.Sentence (w : List Token) : Prop :=
  ∃ p, Program.Derives Expr.Derives w p

/-! ## The texts do not depend on the choice of trees -/

/-- If each text of a row also makes something of another sort, so does the row. -/
theorem Row.exists_of_forall {α β : Type} {item : List Token → β → Prop} (row : Row α)
    (h : ∀ p ∈ row, ∃ b, item p.1 b) :
    ∃ row' : Row β, (∀ p ∈ row', item p.1 p.2) ∧ row'.text = row.text := by
  induction row with
  | nil => exact ⟨[], by simp, rfl⟩
  | cons p row ih =>
    obtain ⟨b, hb⟩ := h p List.mem_cons_self
    obtain ⟨row', h', htext⟩ := ih fun q hq => h q (List.mem_cons_of_mem _ hq)
    exact ⟨(p.1, b) :: row', by simpa using ⟨hb, fun w a => h' (w, a)⟩, by simp [htext]⟩

section
variable {E E' : List Token → Expr → Prop} (hE : ∀ w e, E w e → ∃ e', E' w e')

include hE

theorem Listed.transfer {w : List Token} {es : List Expr} (h : Listed E w es) :
    ∃ es', Listed E' w es' := by
  induction h with
  | one h =>
    obtain ⟨e', h'⟩ := hE _ _ h
    exact ⟨[e'], .one h'⟩
  | more h hc _ ih =>
    obtain ⟨e', h'⟩ := hE _ _ h
    obtain ⟨es', hs'⟩ := ih
    exact ⟨e' :: es', .more h' hc hs'⟩

theorem Stmt.HeaderText.transfer {w : List Token} {loop : List Stmt → Stmt}
    (h : HeaderText E w loop) : ∃ loop', HeaderText E' w loop' := by
  obtain ⟨hk, ho, hc, hd, h₁, hs, h₂, hcm, h₃, hcl, hb⟩ := h
  obtain ⟨e₁, h₁⟩ := hE _ _ h₁
  obtain ⟨e₂, h₂⟩ := hE _ _ h₂
  obtain ⟨e₃, h₃⟩ := hE _ _ h₃
  exact ⟨_, .mk hk ho hc hd h₁ hs h₂ hcm h₃ hcl hb⟩

theorem Stmt.Derives.transfer {w : List Token} {t : Stmt} (h : Stmt.Derives E w t) :
    ∃ t', Stmt.Derives E' w t' := by
  induction h with
  | call hname hopened hargs hclosed hsemicolon =>
    rcases hargs with ⟨rfl, rfl⟩ | hargs
    · exact ⟨_, .call hname hopened (.inl ⟨rfl, rfl⟩) hclosed hsemicolon⟩
    · obtain ⟨args', hargs'⟩ := hargs.transfer hE
      exact ⟨_, .call hname hopened (.inr hargs') hclosed hsemicolon⟩
  | assign hname hequals hvalue hsemicolon =>
    obtain ⟨e', h'⟩ := hE _ _ hvalue
    exact ⟨_, .assign hname hequals h' hsemicolon⟩
  | declare htype hname hsemicolon => exact ⟨_, .declare htype hname hsemicolon⟩
  | iter hheader _ hbrace ih =>
    obtain ⟨loop', hheader'⟩ := hheader.transfer hE
    obtain ⟨body', hbody', htext⟩ := Row.exists_of_forall _ ih
    rw [← htext]
    exact ⟨_, .iter hheader' hbody' hbrace⟩

theorem Func.Derives.transfer {w : List Token} {f : Func} (h : Func.Derives E w f) :
    ∃ f', Func.Derives E' w f' := by
  obtain ⟨hk, hn, ho, hp, hc, hb, hbody, hb'⟩ := h
  obtain ⟨body', hbody', htext⟩ := Row.exists_of_forall _ fun p hp => (hbody p hp).transfer hE
  rw [← htext]
  exact ⟨_, .mk hk hn ho hp hc hb hbody' hb'⟩

theorem Program.Derives.transfer {w : List Token} {p : Program} (h : Program.Derives E w p) :
    ∃ p', Program.Derives E' w p' := by
  obtain ⟨row, hrow, htext, -⟩ := h
  obtain ⟨row', hrow', htext'⟩ := Row.exists_of_forall _ fun q hq => (hrow q hq).transfer hE
  exact ⟨{ functions := row'.values }, row', hrow', htext'.trans htext, rfl⟩

end

/-- The binding powers give every program of the grammar a tree, and no other token list. -/
theorem Program.sentence_iff {w : List Token} : Program.Sentence w ↔ ∃ p, Program.Tree w p := by
  constructor
  · rintro ⟨p, h⟩
    exact h.transfer fun w e he => he.exists_tree
  · rintro ⟨p, h⟩
    exact h.transfer fun w e he => ⟨e, he.derives⟩

end FxLang
