import FxLang.Proofs.Grammar.Derivation

/-!
# What may follow

While a construct is read, the rest of a correct input is a word of some language. The languages
that occur are built from behind: `Lang.oneOf p L` is a token of one of the kinds `p` and then a
word of `L`, and `Lang.after D L` is a text that `D` derives and then a word of `L`. Each grammar
rule has one lemma that says how its words start, and these lemmas decide which token can come next.

* `Lang.expr_cons_iff`: the first token of an expression leaves an operand to be read, or one that
  is complete.
* `Lang.expr_append_iff`: behind a complete expression stands an operator or what may follow it.
* `Lang.stmt_iff`, `Lang.body_iff`, `Lang.func_iff`, `Lang.prog_iff`: how the constructs start.
-/

namespace FxLang

/-- A language of token lists. -/
abbrev Lang := List Token → Prop

namespace Lang

variable {L L' : Lang} {t : Token} {v w : List Token} {α : Type} {D : List Token → α → Prop}

/-- A token of one of the kinds `p`, then a word of `L`. -/
def oneOf (p : Kind → Prop) (L : Lang) : Lang
  | [] => False
  | t :: v => p t.kind ∧ L v

/-- A token of the kind `k`, then a word of `L`. -/
def tok (k : Kind) (L : Lang) : Lang := oneOf (· = k) L

/-- A text that `D` derives, then a word of `L`. -/
def after (D : List Token → α → Prop) (L : Lang) : Lang :=
  fun v => ∃ w z a, v = w ++ z ∧ D w a ∧ L z

/-- A word of one of two languages. -/
def or (L L' : Lang) : Lang := fun v => L v ∨ L' v

/-- There is a word. -/
def Alive (L : Lang) : Prop := ∃ v, L v

@[simp] theorem oneOf_nil (p : Kind → Prop) : oneOf p L [] ↔ False := Iff.rfl

@[simp] theorem oneOf_cons (p : Kind → Prop) : oneOf p L (t :: v) ↔ p t.kind ∧ L v := Iff.rfl

@[simp] theorem tok_nil (k : Kind) : tok k L [] ↔ False := Iff.rfl

@[simp] theorem tok_cons (k : Kind) : tok k L (t :: v) ↔ t.kind = k ∧ L v := Iff.rfl

theorem Alive.oneOf (h : Alive L) {p : Kind → Prop} {k : Kind} (hk : p k) :
    Alive (Lang.oneOf p L) := by
  obtain ⟨v, hv⟩ := h
  exact ⟨{ kind := k, text := "", position := ⟨"", 0⟩ } :: v, hk, hv⟩

theorem Alive.tok (h : Alive L) (k : Kind) : Alive (Lang.tok k L) := h.oneOf rfl

theorem Alive.after (h : Alive L) {w : List Token} {a : α} (hD : D w a) :
    Alive (Lang.after D L) := by
  obtain ⟨v, hv⟩ := h
  exact ⟨w ++ v, w, v, a, rfl, hD, hv⟩

theorem Alive.orLeft (h : Alive L) : Alive (L.or L') := by
  obtain ⟨v, hv⟩ := h
  exact ⟨v, .inl hv⟩

theorem after_mono (h : ∀ v, L v → L' v) (hv : after D L v) : after D L' v := by
  obtain ⟨w, z, a, rfl, hD, hz⟩ := hv
  exact ⟨w, z, a, rfl, hD, h z hz⟩

/-! ## Expressions -/

/-- An expression may end in front of the words of `L`: none starts with an operator or `(`. -/
def Closes (L : Lang) : Prop :=
  ∀ t v, L (t :: v) → t.kind.isOperator = false ∧ t.kind ≠ .openParen

/-- An expression, then a word of `L`. -/
def expr (L : Lang) : Lang := after Expr.Derives L

/-- What may stand behind an operand: a word of `L`, or an operator and another expression. -/
def rest (L : Lang) : Lang := L.or (oneOf (fun k => k.isOperator = true) (expr L))

theorem Closes.tok {k : Kind} (hk : k.isOperator = false) (hk' : k ≠ .openParen) :
    Closes (Lang.tok k L) := by
  rintro t v ⟨rfl, -⟩
  exact ⟨hk, hk'⟩

theorem Closes.or (h : Closes L) (h' : Closes L') : Closes (L.or L') := by
  rintro t v (hv | hv)
  · exact h t v hv
  · exact h' t v hv

theorem Alive.expr (h : Alive L) : Alive (Lang.expr L) :=
  h.after (Expr.Derives.atom (t := { kind := .integer, text := "", position := ⟨"", 0⟩ }) rfl)

theorem Alive.rest (h : Alive L) : Alive (Lang.rest L) := h.orLeft

/-- Two expressions in a row of operators are one. -/
theorem expr_rest (h : expr (rest L) v) : expr L v := by
  obtain ⟨w, z, e, rfl, hw, hz⟩ := h
  rcases hz with hz | hz
  · exact ⟨w, z, e, rfl, hw, hz⟩
  · cases z with
    | nil => exact hz.elim
    | cons o z =>
      obtain ⟨ho, w', z', e', rfl, hw', hz'⟩ := hz
      exact ⟨w ++ o :: w', z', _, by simp, .join hw ho hw', hz'⟩

theorem rest_rest (h : rest (rest L) v) : rest L v := by
  rcases h with h | h
  · exact h
  · cases v with
    | nil => exact h.elim
    | cons o v => exact .inr ⟨h.1, expr_rest h.2⟩

/-- How the words of `expr L` start. -/
def ExprStart (L : Lang) (t : Token) (v : List Token) : Prop :=
  t.kind.isAtom = true ∧ rest L v ∨ t.kind.isSign = true ∧ expr L v ∨
    t.kind = .openParen ∧ expr (tok .closeParen (rest L)) v

theorem exprStart_of_derives {e : Expr} {z : List Token} (h : Expr.Derives w e) (hz : L z) :
    ∃ t v, w ++ z = t :: v ∧ ExprStart L t v := by
  induction h generalizing L z with
  | @atom t ht => exact ⟨t, z, rfl, .inl ⟨ht, .inl hz⟩⟩
  | @sign p w e hp h _ => exact ⟨p, w ++ z, rfl, .inr (.inl ⟨hp, w, z, e, rfl, h, hz⟩)⟩
  | @group o c w e ho h hc _ =>
    exact ⟨o, w ++ c :: z, by simp, .inr (.inr ⟨ho, w, c :: z, e, rfl, h, hc, .inl hz⟩)⟩
  | @join o w₁ w₂ e₁ e₂ _ ho h₂ ih₁ _ =>
    -- The operator and what follows it may stand behind the operand in front.
    have hrest : rest L (o :: (w₂ ++ z)) := .inr ⟨ho, w₂, z, e₂, rfl, h₂, hz⟩
    obtain ⟨t, v, hv, hstart⟩ := ih₁ hrest
    refine ⟨t, v, by simpa using hv, ?_⟩
    rcases hstart with ⟨ht, h⟩ | ⟨ht, h⟩ | ⟨ht, h⟩
    · exact .inl ⟨ht, rest_rest h⟩
    · exact .inr (.inl ⟨ht, expr_rest h⟩)
    · refine .inr (.inr ⟨ht, after_mono (fun v hv => ?_) h⟩)
      cases v with
      | nil => exact hv.elim
      | cons c v => exact ⟨hv.1, rest_rest hv.2⟩

theorem expr_of_atom (ht : t.kind.isAtom = true) (h : rest L v) : expr L (t :: v) := by
  rcases h with h | h
  · exact ⟨[t], v, _, rfl, .atom ht, h⟩
  · cases v with
    | nil => exact h.elim
    | cons o v =>
      obtain ⟨ho, w, z, e, rfl, hw, hz⟩ := h
      exact ⟨t :: o :: w, z, _, by simp, .join (.atom ht) ho hw, hz⟩

theorem expr_append_of_rest {e : Expr} (hw : Expr.Derives w e) (h : rest L v) :
    expr L (w ++ v) :=
  expr_rest ⟨w, v, e, rfl, hw, h⟩

/-- An expression starts with an operand by itself, with a sign or with `(`. -/
theorem expr_cons_iff : expr L (t :: v) ↔ ExprStart L t v := by
  constructor
  · rintro ⟨w, z, e, hv, hw, hz⟩
    obtain ⟨t', v', h', hstart⟩ := exprStart_of_derives hw hz
    rw [← hv] at h'
    cases h'
    exact hstart
  · rintro (⟨ht, h⟩ | ⟨ht, h⟩ | ⟨ht, h⟩)
    · exact expr_of_atom ht h
    · obtain ⟨w, z, e, rfl, hw, hz⟩ := h
      exact ⟨t :: w, z, _, rfl, .sign ht hw, hz⟩
    · obtain ⟨w, z, e, rfl, hw, hz⟩ := h
      cases z with
      | nil => exact hz.elim
      | cons c z =>
        have := expr_append_of_rest (.group ht hw hz.1) hz.2
        simpa using this

/-- Behind a complete expression stands what may follow it, or an operator. -/
theorem expr_append_iff {e : Expr} (hw : Expr.Derives w e) (hL : Closes L) :
    expr L (w ++ v) ↔ rest L v := by
  refine ⟨fun h => ?_, expr_append_of_rest hw⟩
  induction hw generalizing L v with
  | @atom t ht =>
    rcases expr_cons_iff.1 h with ⟨-, h⟩ | ⟨ht', -⟩ | ⟨ht', -⟩
    · exact h
    · rw [Kind.isSign_of_isAtom ht] at ht'; cases ht'
    · rw [ht'] at ht; cases ht
  | @sign p w e hp _ ih =>
    rcases expr_cons_iff.1 h with ⟨ht', -⟩ | ⟨-, h⟩ | ⟨ht', -⟩
    · rw [Kind.isSign_of_isAtom ht'] at hp; cases hp
    · exact ih hL h
    · rw [ht'] at hp; cases hp
  | @group o c w e ho _ hc ih =>
    have hin : expr (Lang.tok .closeParen (rest L)) (w ++ c :: v) := by
      rcases expr_cons_iff.1 h with ⟨ht', -⟩ | ⟨ht', -⟩ | ⟨-, h⟩
      · rw [ho] at ht'; cases ht'
      · rw [ho] at ht'; cases ht'
      · simpa using h
    rcases ih (.tok rfl (by simp)) hin with h | h
    · exact h.2
    · rw [oneOf_cons, hc] at h; cases h.1
  | @join o w₁ w₂ e₁ e₂ _ ho _ ih₁ ih₂ =>
    rcases ih₁ hL (v := o :: (w₂ ++ v)) (by simpa using h) with h | h
    · have := (hL _ _ h).1
      rw [ho] at this; cases this
    · exact ih₂ hL h.2

/-- In front of a token that is no operator, a complete expression is over. -/
theorem of_expr_append {e : Expr} (hw : Expr.Derives w e) (hL : Closes L)
    (ht : t.kind.isOperator = false) (h : expr L (w ++ t :: v)) : L (t :: v) := by
  rcases (expr_append_iff hw hL).1 h with h | h
  · exact h
  · rw [oneOf_cons, ht] at h; cases h.1

/-! ## Lists -/

/-- Behind an item of a list stands what may follow the list, or a comma and another item. -/
theorem listed_iff : after (Listed D) L v ↔
    after D (L.or (tok .comma (after (Listed D) L))) v := by
  constructor
  · rintro ⟨w, z, as, rfl, hw, hz⟩
    cases hw with
    | one h => exact ⟨w, z, _, rfl, h, .inl hz⟩
    | @more w w' a as c h hc hr =>
      exact ⟨w, c :: (w' ++ z), a, by simp, h, .inr ⟨hc, w', z, as, rfl, hr, hz⟩⟩
  · rintro ⟨w, z, a, rfl, hw, hz⟩
    rcases hz with hz | hz
    · exact ⟨w, z, [a], rfl, .one hw, hz⟩
    · cases z with
      | nil => exact hz.elim
      | cons c z =>
        obtain ⟨hc, w', z', as, rfl, hr, hz'⟩ := hz
        exact ⟨w ++ c :: w', z', a :: as, by simp, .more hw hc hr, hz'⟩

theorem maybeListed_iff : after (MaybeListed D) L v ↔ L v ∨ after (Listed D) L v := by
  constructor
  · rintro ⟨w, z, as, rfl, ⟨rfl, -⟩ | hw, hz⟩
    · exact .inl hz
    · exact .inr ⟨w, z, as, rfl, hw, hz⟩
  · rintro (h | ⟨w, z, as, rfl, hw, hz⟩)
    · exact ⟨[], v, [], rfl, .inl ⟨rfl, rfl⟩, h⟩
    · exact ⟨w, z, as, rfl, .inr hw, hz⟩

/-! ## Statements -/

/-- A statement, then a word of `L`. -/
def stmt (L : Lang) : Lang := after (Stmt.Derives Expr.Derives) L

/-- Statements one behind the other, then a word of `L`. -/
def body (L : Lang) : Lang :=
  fun v => ∃ (row : Row Stmt) (z : List Token),
    v = row.text ++ z ∧ (∀ p ∈ row, Stmt.Derives Expr.Derives p.1 p.2) ∧ L z

/-- A call behind its `(`. -/
def call (L : Lang) : Lang :=
  after (MaybeListed Expr.Derives) (tok .closeParen (tok .semicolon L))

/-- A statement behind the name it starts with. -/
def named (L : Lang) : Lang :=
  (tok .openParen (call L)).or (tok .assignment (expr (tok .semicolon L)))

/-- A declaration behind its type. -/
def declared (L : Lang) : Lang := tok .identifier (tok .semicolon L)

/-- The header of a loop behind its keyword. -/
def header (L : Lang) : Lang :=
  tok .openParen <| tok .identifier <| tok .define <| expr <| tok .semicolon <| expr <|
    tok .comma <| expr <| tok .closeParen <| tok .openCurly L

/-- A block behind its `{`. -/
def block (L : Lang) : Lang := body (tok .closeCurly L)

theorem header_iff : tok .iter (header L) v ↔
    after (Stmt.HeaderText Expr.Derives) L v := by
  constructor
  · intro h
    match v, h with
    | _ :: _ :: _ :: _ :: _, ⟨hk, ho, hc, hd, w₁, _ :: _, e₁, rfl, h₁, hs, w₂, _ :: _, e₂, rfl, h₂,
        hcm, w₃, _ :: _ :: z, e₃, rfl, h₃, hcl, hb, hz⟩ =>
      exact ⟨_, z, _, by simp, .mk hk ho hc hd h₁ hs h₂ hcm h₃ hcl hb, hz⟩
  · rintro ⟨w, z, loop, rfl, ⟨hk, ho, hc, hd, h₁, hs, h₂, hcm, h₃, hcl, hb⟩, hz⟩
    refine ⟨hk, ho, hc, hd, _, _, _, List.append_assoc .., h₁, hs, _, _, _, List.append_assoc ..,
      h₂, hcm, _, _, _, List.append_assoc .., h₃, hcl, hb, hz⟩

theorem body_iff : body L v ↔ L v ∨ stmt (body L) v := by
  constructor
  · rintro ⟨row, z, rfl, hrow, hz⟩
    cases row with
    | nil => exact .inl hz
    | cons p row =>
      rw [List.forall_mem_cons] at hrow
      exact .inr ⟨p.1, Row.text row ++ z, p.2, by simp, hrow.1, row, z, rfl, hrow.2, hz⟩
  · rintro (h | ⟨w, _, t, rfl, hw, row, z, rfl, hrow, hz⟩)
    · exact ⟨[], v, rfl, by simp, h⟩
    · exact ⟨(w, t) :: row, z, by simp, List.forall_mem_cons.2 ⟨hw, hrow⟩, hz⟩

/-- A statement starts with a name, a type or the keyword of a loop. -/
theorem stmt_iff : stmt L v ↔ tok .identifier (named L) v ∨
    oneOf (fun k => k.isType = true) (declared L) v ∨ tok .iter (header (block L)) v := by
  constructor
  · rintro ⟨w, z, t, rfl, hw, hz⟩
    cases hw with
    | @call name opened closed semicolon w args hn ho ha hc hs =>
      exact .inl ⟨hn, .inl ⟨ho, w, closed :: semicolon :: z, args, by simp, ha, hc, hs, hz⟩⟩
    | @assign name equals semicolon w value hn he hv hs =>
      exact .inl ⟨hn, .inr ⟨he, w, semicolon :: z, value, by simp, hv, hs, hz⟩⟩
    | declare ht hn hs =>
      exact .inr (.inl ⟨Func.exists_typeName_iff.1 ⟨_, ht⟩, hn, hs, hz⟩)
    | @iter header loop body brace hh hb hbr =>
      refine .inr (.inr (header_iff.2 ⟨header, body.text ++ brace :: z, loop, by simp, hh, ?_⟩))
      exact ⟨body, brace :: z, rfl, hb, hbr, hz⟩
  · rintro (h | h | h)
    · match v, h with
      | name :: opened :: _, ⟨hn, .inl ⟨ho, w, closed :: semicolon :: z, args, rfl, ha, hc, hs, hz⟩⟩ =>
        exact ⟨_, z, _, by simp, .call hn ho ha hc hs, hz⟩
      | name :: equals :: _, ⟨hn, .inr ⟨he, w, semicolon :: z, value, rfl, hv, hs, hz⟩⟩ =>
        exact ⟨_, z, _, by simp, .assign hn he hv hs, hz⟩
    · match v, h with
      | type :: name :: semicolon :: z, ⟨ht, hn, hs, hz⟩ =>
        obtain ⟨ty, hty⟩ := Func.exists_typeName_iff.2 ht
        exact ⟨[type, name, semicolon], z, _, rfl, .declare hty hn hs, hz⟩
    · obtain ⟨w, _, loop, rfl, hh, row, z, rfl, hrow, hz⟩ := header_iff.1 h
      match z, hz with
      | brace :: z, ⟨hbr, hz⟩ => exact ⟨_, z, _, by simp, .iter hh hrow hbr, hz⟩

/-! ## Functions and programs -/

/-- A function, then a word of `L`. -/
def func (L : Lang) : Lang := after (Func.Derives Expr.Derives) L

/-- A parameter list behind its `(`. -/
def params (L : Lang) : Lang := after (MaybeListed Param.Derives) (tok .closeParen L)

/-- A function behind its keyword. -/
def signature (L : Lang) : Lang :=
  oneOf (fun k => k = .identifier ∨ k = .mainWord) <| tok .openParen <| params <|
    tok .openCurly <| block L

/-- Functions one behind the other, then a word of `L`. -/
def prog (L : Lang) : Lang := after (Program.Derives Expr.Derives) L

theorem func_iff : func L v ↔ tok .func (signature L) v := by
  constructor
  · rintro ⟨w, z, f, rfl, hw, hz⟩
    obtain ⟨hk, hn, ho, hp, hc, hb, hbody, hb'⟩ := hw
    exact ⟨hk, hn, ho, _, _, _, List.append_assoc .., hp, hc, hb, _, _, List.append_assoc .., hbody,
      hb', hz⟩
  · intro h
    match v, h with
    | _ :: _ :: _ :: _, ⟨hk, hn, ho, w, _ :: _ :: _, ps, rfl, hp, hc, hb, row, _ :: z, rfl, hrow, hb',
        hz⟩ =>
      exact ⟨_, z, _, by simp, .mk hk hn ho hp hc hb hrow hb', hz⟩

theorem prog_iff : prog L v ↔ L v ∨ func (prog L) v := by
  constructor
  · rintro ⟨w, z, p, rfl, ⟨row, hrow, rfl, hp⟩, hz⟩
    cases row with
    | nil => exact .inl hz
    | cons q row =>
      rw [List.forall_mem_cons] at hrow
      exact .inr ⟨q.1, Row.text row ++ z, q.2, by simp, hrow.1, Row.text row, z,
        ⟨Row.values row⟩, rfl, ⟨row, hrow.2, rfl, rfl⟩, hz⟩
  · rintro (h | ⟨w, _, f, rfl, hw, _, z, p, rfl, ⟨row, hrow, rfl, hp⟩, hz⟩)
    · exact ⟨[], v, ⟨[]⟩, rfl, ⟨[], by simp, rfl, rfl⟩, h⟩
    · exact ⟨w ++ row.text, z, ⟨f :: row.values⟩, by simp,
        ⟨(w, f) :: row, List.forall_mem_cons.2 ⟨hw, hrow⟩, by simp, rfl⟩, hz⟩

end Lang

end FxLang
