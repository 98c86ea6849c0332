import FxLang.Proofs.Expr.Shape
import FxLang.Proofs.Session.Twins

/-!
# Displayed trees

A displayed tree is flat text. Still it can be taken apart again: the texts of its tokens hold none
of the characters that stand between them, so a text ends where the first of those stands, and a `(`
tells an operator from a leaf. What stands behind the first operand, a `)` or a blank, tells whether
there is a second. What a text makes depends on its characters alone, so that the texts give back
the tokens but for their positions.

* `Token.InTree.plain`, `Token.InTree.bare_eq`: what texts are made of, and what they make.
* `Plain.append_inj`: where a text ends.
* `Expr.WellShaped.render_inj`: a displayed tree with more text behind it, by induction on the tree.
* `Expr.render_determines`: the same for whole sources.
-/

namespace FxLang

/-! ## Texts between delimiters -/

/-- The characters of a displayed tree that belong to none of its tokens. -/
def isDelimiter (c : Char) : Bool :=
  c = ' ' || c = '(' || c = ')'

/-- The text of a token that can stand in a displayed tree. -/
structure Plain (l : List Char) : Prop where
  ne_nil : l ≠ []
  isDelimiter_eq : ∀ c ∈ l, isDelimiter c = false

/-- The text ends what stands in front of it. -/
def Delimited (r : List Char) : Prop :=
  ∀ c ∈ r.head?, isDelimiter c = true

section
variable {l l' r r' : List Char} {c : Char}

theorem isDelimiter_iff : isDelimiter c = true ↔ c = ' ' ∨ c = '(' ∨ c = ')' := by
  simp [isDelimiter, or_assoc]

theorem delimited_cons (hc : isDelimiter c = true) : Delimited (c :: r) := by
  intro d hd
  obtain rfl : c = d := by simpa using hd
  exact hc

theorem Plain.takeWhile_append (h : Plain l) (hr : Delimited r) :
    (l ++ r).takeWhile (!isDelimiter ·) = l := by
  have hnone : r.takeWhile (!isDelimiter ·) = [] := by
    cases r with
    | nil => rfl
    | cons c r => simp [hr c rfl]
  rw [List.takeWhile_append_of_pos (by simpa using h.isDelimiter_eq), hnone, List.append_nil]

/-- A text goes as far as there is no delimiter. -/
theorem Plain.append_inj (h : Plain l) (h' : Plain l') (hr : Delimited r) (hr' : Delimited r')
    (heq : l ++ r = l' ++ r') : l = l' ∧ r = r' := by
  have hl : l = l' := by rw [← h.takeWhile_append hr, heq, h'.takeWhile_append hr']
  exact ⟨hl, List.append_cancel_left (hl ▸ heq)⟩

/-- No text starts with a `(`. -/
theorem Plain.append_ne (h : Plain l) : l ++ r ≠ '(' :: r' := by
  obtain ⟨c, cs, rfl⟩ := List.exists_cons_of_ne_nil h.ne_nil
  intro heq
  obtain ⟨rfl, -⟩ := List.cons.inj heq
  simpa [isDelimiter] using h.isDelimiter_eq '(' (by simp)

end

/-! ## The texts of tokens -/

/-- A token that stands in a tree, cut from some source. -/
structure Token.InTree (t : Token) : Prop where
  lexed : t.Lexed
  kind : t.kind.isAtom = true ∨ t.kind.isOperator = true

section
variable {c : Char} {t u : Token}

theorem isDelimiter_of_isWordPart (h : isWordPart c = true) : isDelimiter c = false := by
  rw [← Bool.not_eq_true]
  intro hc
  rcases isDelimiter_iff.1 hc with rfl | rfl | rfl
  all_goals
    revert h
    decide

/-- A delimiter at the front of a token's text is a parenthesis. -/
theorem isDelimiter_of_classify {cs : List Char} {kind : Kind} {literal : Literal}
    (h : classify (c :: cs) = .ok (kind, literal)) (ho : kind ≠ .openParen)
    (hc : kind ≠ .closeParen) : isDelimiter c = false := by
  have hall : ∀ p ∈ symbols, p.2 ≠ .openParen → p.2 ≠ .closeParen →
      p.1.any isDelimiter = false := by decide
  rw [← Bool.not_eq_true]
  intro hdelimiter
  have hother : c.isDigit = false ∧ isWordStart c = false := by
    rcases isDelimiter_iff.1 hdelimiter with rfl | rfl | rfl
    all_goals decide
  have hmem := mem_symbols_of_classify hother.1 hother.2 h
  simpa [hdelimiter] using hall _ hmem ho hc

theorem Token.InTree.kind_ne (h : t.InTree) :
    t.kind ≠ .eof ∧ t.kind ≠ .openParen ∧ t.kind ≠ .closeParen := by
  have hkind := h.kind
  revert hkind
  cases t.kind <;> decide

theorem Token.InTree.classify_text (h : t.InTree) :
    IsLexeme t.text.toList ∧ classify t.text.toList = .ok (t.kind, t.literal) :=
  h.lexed.classify_text (by simpa [Token.isEof] using h.kind_ne.1)

/-- Such a token has no delimiter in its text. -/
theorem Token.InTree.plain (h : t.InTree) : Plain t.text.toList := by
  have hothers : ∀ d ∈ ['.', '*', '='], isDelimiter d = false := by simp [isDelimiter]
  obtain ⟨-, hopen, hclose⟩ := h.kind_ne
  obtain ⟨hl, hclass⟩ := h.classify_text
  obtain ⟨c, cs, htext⟩ := List.exists_cons_of_ne_nil hl.ne_nil
  rw [htext] at hl hclass ⊢
  refine ⟨by simp, List.forall_mem_cons.2 ⟨isDelimiter_of_classify hclass hopen hclose, ?_⟩⟩
  intro d hd
  rcases hl.isWordPart_or_mem hd with hword | hmem
  · exact isDelimiter_of_isWordPart hword
  · exact hothers d hmem

/-- The text of such a token fixes the token up to its position. -/
theorem Token.InTree.bare_eq (ht : t.InTree) (hu : u.InTree)
    (h : t.text.toList = u.text.toList) : t.bare = u.bare := by
  have hvalue := ht.classify_text.2
  rw [h, hu.classify_text.2] at hvalue
  obtain ⟨hkind, hliteral⟩ := Prod.mk.inj (Except.ok.inj hvalue)
  exact Token.bare_eq_iff.2 ⟨hkind.symm, String.toList_inj.1 h, hliteral.symm⟩

end

namespace Expr

/-! ## Trees -/

variable {a b : Expr} {r r' : List Char}

theorem toList_render_unary (o : Token) (e : Expr) (r : List Char) :
    (Expr.unary o e).render.toList ++ r =
      '(' :: (o.text.toList ++ ' ' :: (e.render.toList ++ ')' :: r)) := by
  simp [render]

theorem toList_render_binary (o : Token) (e₁ e₂ : Expr) (r : List Char) :
    (Expr.binary o e₁ e₂).render.toList ++ r =
      '(' :: (o.text.toList ++
        ' ' :: (e₁.render.toList ++ ' ' :: (e₂.render.toList ++ ')' :: r))) := by
  simp [render]

/-- The operator at the root of a displayed tree, and what stands behind it. -/
theorem operator_inj {o o' : Token} {x x' : List Char} (ho : o.InTree) (ho' : o'.InTree)
    (h : '(' :: (o.text.toList ++ ' ' :: x) = '(' :: (o'.text.toList ++ ' ' :: x')) :
    o.bare = o'.bare ∧ x = x' := by
  obtain ⟨htext, hrest⟩ := ho.plain.append_inj ho'.plain (delimited_cons rfl) (delimited_cons rfl)
    (List.cons.inj h).2
  exact ⟨ho.bare_eq ho' htext, (List.cons.inj hrest).2⟩

/-- A displayed tree, in front of a delimiter or of nothing, tells the tree and where it ends. -/
theorem WellShaped.render_inj (ha : WellShaped a) (hb : WellShaped b) (hr : Delimited r)
    (hr' : Delimited r') (h : a.render.toList ++ r = b.render.toList ++ r') :
    a.bare = b.bare ∧ r = r' := by
  induction ha generalizing b r r' with
  | @leaf t ht hl =>
    have hin : t.InTree := ⟨hl, .inl ht⟩
    cases hb with
    | @leaf u hu hl' =>
      have hin' : u.InTree := ⟨hl', .inl hu⟩
      obtain ⟨htext, hrest⟩ := hin.plain.append_inj hin'.plain hr hr' h
      exact ⟨congrArg Expr.leaf (hin.bare_eq hin' htext), hrest⟩
    | unary =>
      rw [toList_render_unary] at h
      exact absurd h hin.plain.append_ne
    | binary =>
      rw [toList_render_binary] at h
      exact absurd h hin.plain.append_ne
  | @unary o e ho hl he ih =>
    have hin : o.InTree := ⟨hl, .inr (Kind.isOperator_of_isSign ho)⟩
    rw [toList_render_unary] at h
    cases hb with
    | leaf hu hl' => exact absurd h.symm (Token.InTree.plain ⟨hl', .inl hu⟩).append_ne
    | unary ho' hl' he' =>
      rw [toList_render_unary] at h
      obtain ⟨hop, hoperand⟩ := operator_inj hin ⟨hl', .inr (Kind.isOperator_of_isSign ho')⟩ h
      obtain ⟨hbare, hrest⟩ := ih he' (delimited_cons rfl) (delimited_cons rfl) hoperand
      exact ⟨by simp [bare, hop, hbare], (List.cons.inj hrest).2⟩
    | binary ho' hl' h₁ h₂ =>
      -- Behind the first operand there is a `)` on one side and a blank on the other.
      rw [toList_render_binary] at h
      obtain ⟨-, hoperand⟩ := operator_inj hin ⟨hl', .inr ho'⟩ h
      obtain ⟨-, hrest⟩ := ih h₁ (delimited_cons rfl) (delimited_cons rfl) hoperand
      exact absurd (List.cons.inj hrest).1 (by decide)
  | @binary o e₁ e₂ ho hl he₁ he₂ ih₁ ih₂ =>
    have hin : o.InTree := ⟨hl, .inr ho⟩
    rw [toList_render_binary] at h
    cases hb with
    | leaf hu hl' => exact absurd h.symm (Token.InTree.plain ⟨hl', .inl hu⟩).append_ne
    | unary ho' hl' he' =>
      rw [toList_render_unary] at h
      obtain ⟨-, hoperand⟩ := operator_inj hin ⟨hl', .inr (Kind.isOperator_of_isSign ho')⟩ h
      obtain ⟨-, hrest⟩ := ih₁ he' (delimited_cons rfl) (delimited_cons rfl) hoperand
      exact absurd (List.cons.inj hrest).1 (by decide)
    | binary ho' hl' h₁ h₂ =>
      rw [toList_render_binary] at h
      obtain ⟨hop, hoperand⟩ := operator_inj hin ⟨hl', .inr ho'⟩ h
      obtain ⟨hbare₁, hsecond⟩ := ih₁ h₁ (delimited_cons rfl) (delimited_cons rfl) hoperand
      obtain ⟨hbare₂, hrest⟩ := ih₂ h₂ (delimited_cons rfl) (delimited_cons rfl)
        (List.cons.inj hsecond).2
      exact ⟨by simp [bare, hop, hbare₁, hbare₂], (List.cons.inj hrest).2⟩

/-- Two sources whose trees are displayed alike have the same tree, up to the positions of its
tokens: the same shape, and at each node a token of the same kind, text and literal. -/
theorem render_determines (file source file' source' : String) (a b : Expr)
    (ha : ofSource file source = .ok a) (hb : ofSource file' source' = .ok b)
    (h : a.render = b.render) : a.bare = b.bare := by
  have hnil : Delimited [] := by simp [Delimited]
  have hlist : a.render.toList ++ [] = b.render.toList ++ [] := by rw [h]
  have hshapes := And.intro (Obtained.source ha).wellShaped (Obtained.source hb).wellShaped
  exact (hshapes.1.render_inj hshapes.2 hnil hnil hlist).1

/-- These differ in blanks, parentheses, lines and the names of their sources, and their trees in
positions only. -/
theorem render_determines_spread :
    ∃ a b, ofSource "f" "1 + 0x2*-x" = .ok a ∧ ofSource "g" "1+((0x2))\n*(-x)" = .ok b ∧
      a.render = "(+ 1 (* 0x2 (- x)))" ∧ b.render = "(+ 1 (* 0x2 (- x)))" ∧
      a.leaves.map (·.position) = [⟨"f", 1⟩, ⟨"f", 1⟩, ⟨"f", 1⟩] ∧
      b.leaves.map (·.position) = [⟨"g", 1⟩, ⟨"g", 1⟩, ⟨"g", 2⟩] ∧ a.bare = b.bare := by
  let view (e : Expr) := (e.render, e.leaves.map (·.position))
  have hview : (ofSource "f" "1 + 0x2*-x").toOption.map view =
      some ("(+ 1 (* 0x2 (- x)))", [⟨"f", 1⟩, ⟨"f", 1⟩, ⟨"f", 1⟩]) := by decide +kernel
  have hview' : (ofSource "g" "1+((0x2))\n*(-x)").toOption.map view =
      some ("(+ 1 (* 0x2 (- x)))", [⟨"g", 1⟩, ⟨"g", 1⟩, ⟨"g", 2⟩]) := by decide +kernel
  obtain ⟨a, ha, hshown⟩ := exists_of_toOption_map hview
  obtain ⟨b, hb, hshown'⟩ := exists_of_toOption_map hview'
  obtain ⟨hrender, hplaces⟩ := Prod.mk.inj hshown
  obtain ⟨hrender', hplaces'⟩ := Prod.mk.inj hshown'
  exact ⟨a, b, ha, hb, hrender, hrender', hplaces, hplaces',
    render_determines _ _ _ _ a b ha hb (hrender.trans hrender'.symm)⟩

end Expr

end FxLang
