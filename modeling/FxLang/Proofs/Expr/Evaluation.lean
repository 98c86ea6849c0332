import FxLang.Expr.Eval
import FxLang.Proofs.Expr.Shape

/-!
# What the value of an expression depends on

The operators in a tree that was read have values for all values of their operands, and so have the
numbers among its leaves. What is left to fail are the other leaves: a `True` or `False` is no
number, and an identifier may have no value. Since operands are evaluated from left to right, the
first of these leaves decides, and nothing behind it is looked at.

* `Expr.leafValue_gives`: a leaf has a value, or it is to blame itself.
* `Expr.WellShaped.evalIn_gives`: the same for a tree and its leaves, by induction on the tree.
* `Expr.evalIn_congr`: only the values of the identifiers in the tree matter.
* `Expr.evalIn_fails_at_leftmost_unusable`: all of this for trees that were read.
-/

namespace FxLang

/-! ## Literals -/

/-- The literal of a token is of the sort that its kind says. -/
def Literal.Fits (l : Literal) : Kind → Prop
  | .integer => ∃ value, l = .integer value
  | .float => ∃ value, l = .float value
  | _ => True

theorem fits_of_classify {text : List Char} {kind : Kind} {literal : Literal}
    (h : classify text = .ok (kind, literal)) : literal.Fits kind := by
  have hreserved : ∀ p ∈ reservedWords, literal.Fits p.2 := by simp [reservedWords, Literal.Fits]
  have hsymbols : ∀ p ∈ symbols, Literal.none.Fits p.2 := by
    simp [symbols, operators, separators, Literal.Fits]
  cases makes_of_classify h with
  | nothing | identifier => exact trivial
  | integer value | float value => exact ⟨value, rfl⟩
  | reserved hmem => exact hreserved _ hmem
  | symbol hmem => exact hsymbols _ hmem

theorem Token.Lexed.fits {t : Token} (h : t.Lexed) (ht : t.isEof = false) :
    t.literal.Fits t.kind :=
  fits_of_classify (h.classify_text ht).2

namespace Expr

/-! ## Leaves -/

variable {env env' : Environment} {t x : Token} {e : Expr} {w : List Token}

/-- The leaf has a value: it is a number, or an identifier to which the environment gives one. -/
def Usable (env : Environment) (t : Token) : Prop :=
  t.kind = .integer ∨ t.kind = .float ∨ t.kind = .identifier ∧ (env t.text).isSome = true

/-- The leaf has no value, and this is the error that says so. -/
inductive Unusable (env : Environment) (x : Token) : Error → Prop
  | boolean (hk : x.kind = .boolean) :
      Unusable env x { cause := .notNumeric x.text, position := x.position }
  | unbound (hk : x.kind = .identifier) (hx : env x.text = none) :
      Unusable env x { cause := .unboundIdentifier x.text, position := x.position }

theorem Unusable.not_usable {err : Error} (h : Unusable env x err) : ¬ Usable env x := by
  unfold Usable
  cases h with
  | boolean hk => simp [hk]
  | unbound hk hx => simp [hk, hx]

/-- What evaluating the leaves `ts` from left to right can come to: a value if all of them have one,
or else the error of the first that has none. -/
inductive Gives (env : Environment) (ts : List Token) : Except Error Float → Prop
  | value {v : Float} (h : ∀ t ∈ ts, Usable env t) : Gives env ts (.ok v)
  | fails {before after : List Token} {x : Token} {err : Error} (hts : ts = before ++ x :: after)
      (hbefore : ∀ t ∈ before, Usable env t) (hx : Unusable env x err) : Gives env ts (.error err)

theorem leafValue_gives (env : Environment) (ht : t.kind.isAtom = true) (hl : t.Lexed) :
    Gives env [t] (leafValue env t) := by
  have heof : t.isEof = false := by
    unfold Token.isEof
    revert ht
    cases t.kind <;> decide
  have hfits := hl.fits heof
  have hblame {err : Error} (h : Unusable env t err) : Gives env [t] (.error err) :=
    .fails (List.nil_append _).symm (by simp) h
  rcases Kind.isAtom_iff.1 ht with hk | hk | hk | hk
  · rw [hk] at hfits
    obtain ⟨value, hvalue⟩ := hfits
    simp only [leafValue, hk, hvalue]
    exact .value (by simp [Usable, hk])
  · rw [hk] at hfits
    obtain ⟨value, hvalue⟩ := hfits
    simp only [leafValue, hk, hvalue]
    exact .value (by simp [Usable, hk])
  · simp only [leafValue, hk]
    exact hblame (.boolean hk)
  · simp only [leafValue, hk]
    cases hvalue : env t.text with
    | some value => exact .value (by simp [Usable, hk, hvalue])
    | none => exact hblame (.unbound hk hvalue)

/-! ## Trees -/

/-- What is evaluated behind other leaves. -/
theorem Gives.bind {ts ts' : List Token} {r : Except Error Float} {f : Float → Except Error Float}
    (h : Gives env ts r) (hf : ∀ v, Gives env ts' (f v)) : Gives env (ts ++ ts') (r >>= f) := by
  cases h with
  | @value v hts =>
    show Gives env (ts ++ ts') (f v)
    generalize hr : f v = r
    have hv := hf v
    rw [hr] at hv
    cases hv with
    | value hts' => exact .value (List.forall_mem_append.2 ⟨hts, hts'⟩)
    | @fails before after x err hts' hbefore hx =>
      have heq : ts ++ ts' = (ts ++ before) ++ x :: after := by rw [hts', List.append_assoc]
      exact .fails heq (List.forall_mem_append.2 ⟨hts, hbefore⟩) hx
  | @fails before after x err hts hbefore hx =>
    have heq : ts ++ ts' = before ++ x :: (after ++ ts') := by simp [hts]
    exact .fails heq hbefore hx

/-- The operators of expressions have a value for all values of their operands. -/
theorem operatorValue_gives {o : Token} (ho : o.kind.isOperator = true) (left right : Float) :
    Gives env [] (operatorValue o left right) := by
  rcases Kind.isOperator_iff.1 ho with hk | hk | hk | hk
  all_goals
    simp only [operatorValue, hk]
    exact .value (by simp)

/-- A tree comes to what its leaves come to. -/
theorem WellShaped.evalIn_gives (h : WellShaped e) (env : Environment) :
    Gives env e.leaves (e.evalIn env) := by
  induction h with
  | leaf ht hl => exact leafValue_gives env ht hl
  | @unary o e ho _ _ ih =>
    have hoperator := Kind.isOperator_of_isSign ho
    have hgives := ih.bind fun right => operatorValue_gives hoperator 0.0 right
    rwa [List.append_nil] at hgives
  | @binary o e₁ e₂ ho _ _ _ ih₁ ih₂ =>
    refine ih₁.bind fun left => ?_
    have hgives := ih₂.bind fun right => operatorValue_gives ho left right
    rwa [List.append_nil] at hgives

theorem leafValue_congr (h : t.kind = .identifier → env t.text = env' t.text) :
    leafValue env t = leafValue env' t := by
  unfold leafValue
  split
  next => rfl
  next => rfl
  next hk => rw [h hk]
  next => rfl

/-- Only the values of the identifiers in a tree matter. -/
theorem evalIn_congr (h : ∀ t ∈ e.leaves, t.kind = .identifier → env t.text = env' t.text) :
    e.evalIn env = e.evalIn env' := by
  induction e with
  | leaf t => exact leafValue_congr (h t (by simp [leaves]))
  | unary o e ih | trailing o e ih =>
    unfold evalIn
    rw [ih h]
  | binary o e₁ e₂ ih₁ ih₂ =>
    unfold leaves at h
    rw [List.forall_mem_append] at h
    unfold evalIn
    rw [ih₁ h.1, ih₂ h.2]

/-- A tree that was read has a value in exactly those environments in which all of its leaves have
one. In the others its error is that of the first leaf in the source that has none, a `True` or
`False` or an identifier without a value, at the place of this leaf. Nothing but the values of its
identifiers matters, and where none has a value is where it is evaluated without an environment. -/
theorem evalIn_fails_at_leftmost_unusable (w : List Token) (e : Expr) (h : Obtained w e) :
    e.leaves = w.filter (·.kind.isAtom) ∧
    (∀ env,
      ((∃ v, e.evalIn env = .ok v) ↔ ∀ t ∈ e.leaves, Usable env t) ∧
      ((¬ ∀ t ∈ e.leaves, Usable env t) → ∃ before x after, e.leaves = before ++ x :: after ∧
        (∀ t ∈ before, Usable env t) ∧
        (x.kind = .boolean ∧
            e.evalIn env = .error { cause := .notNumeric x.text, position := x.position } ∨
          x.kind = .identifier ∧ env x.text = none ∧
            e.evalIn env =
              .error { cause := .unboundIdentifier x.text, position := x.position }))) ∧
    (∀ env env', (∀ t ∈ e.leaves, t.kind = .identifier → env t.text = env' t.text) →
      e.evalIn env = e.evalIn env') ∧
    e.eval = e.evalIn .empty := by
  refine ⟨h.leaves_eq, fun env => ?_, fun env env' => evalIn_congr, rfl⟩
  have hgives := h.wellShaped.evalIn_gives env
  generalize e.evalIn env = r at hgives
  cases hgives with
  | @value v hall => exact ⟨by simpa using hall, fun hne => absurd hall hne⟩
  | @fails before after x err hleaves hbefore hx =>
    have hmem : x ∈ e.leaves := by simp [hleaves]
    have hsome : ¬ ∀ t ∈ e.leaves, Usable env t := fun hall => hx.not_usable (hall x hmem)
    refine ⟨by simpa using hsome, fun _ => ⟨before, x, after, hleaves, hbefore, ?_⟩⟩
    cases hx with
    | boolean hk => exact .inl ⟨hk, rfl⟩
    | unbound hk hnone => exact .inr ⟨hk, hnone, rfl⟩

/-- Both identifiers of this tree have a value, and `True` is to blame all the same. -/
theorem evalIn_fails_at_true :
    ∃ e, ofSource "f" "x ^ -(True * y)" = .ok e ∧
      e.leaves.map Token.kind = [.identifier, .boolean, .identifier] ∧
      e.leaves =
        (TokenStream.ofSource "f" "x ^ -(True * y)").tokens.filter (·.kind.isAtom) ∧
      ¬ ∃ v, e.evalIn (fun _ => some 1.0) = .ok v := by
  have hkinds : (ofSource "f" "x ^ -(True * y)").toOption.map (·.leaves.map Token.kind) =
      some [.identifier, .boolean, .identifier] := by decide +kernel
  obtain ⟨e, he, hleaves⟩ := exists_of_toOption_map hkinds
  obtain ⟨horder, heval, -⟩ := evalIn_fails_at_leftmost_unusable _ e (.source he)
  refine ⟨e, he, hleaves, horder, ?_⟩
  rw [(heval _).1]
  intro hall
  have hmem : Kind.boolean ∈ e.leaves.map Token.kind := by simp [hleaves]
  obtain ⟨t, ht, hk⟩ := List.mem_map.1 hmem
  simpa [Usable, hk] using hall t ht

end Expr

end FxLang
