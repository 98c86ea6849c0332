import FxLang.Proofs.Expr.Phrase
import FxLang.Proofs.Expr.Rounds
import FxLang.Proofs.Session.Trail

/-!
# Expressions are safe under any table

A table may give any role and any power to any kind, to the end of the input and to `)` as well. The
parser of expressions asks it only about tokens that do not end expressions, and it takes an
operator only if the operator binds tighter than the minimum of the call. There is no power below
the least one, so an operator that was taken has a power that can be lowered.

`Groups` follows the groups through the log of a session: how many are open in front of the events
and how many behind them. `Safely` carries it through the parsers, with the properties of single
events.

* `Bindings.toInt_lowered`: above the least power, lowering is exact.
* `Expr.readWithin_safely`: what is logged while an expression is read.
* `Expr.regular_of_phrase`: the nodes of a tree that was read.
* `Expr.read_safe`: all of this, with the end of every call.
-/

namespace FxLang

open Session

/-! ## Powers -/

namespace Bindings

/-- Nothing is below the least power. -/
theorem minValue_lt {m p : BindingPower} (h : ¬ p ≤ m) : Int32.minValue < p := by
  have hm := m.le_toInt
  rw [Int32.le_iff_toInt_le] at h
  rw [Int32.lt_iff_toInt_lt, Int32.toInt_minValue]
  omega

/-- Above the least power, the next lower one is one less. -/
theorem toInt_lowered {p : BindingPower} (h : Int32.minValue < p) :
    p.lowered.toInt = p.toInt - 1 := by
  have hp := p.toInt_lt
  rw [Int32.lt_iff_toInt_lt, Int32.toInt_minValue] at h
  rw [BindingPower.lowered, Int32.toInt_sub, Int.bmod_eq_of_le] <;> simp <;> omega

end Bindings

namespace Expr

variable {table : Bindings} {a b c : Nat} {l l' : List Event}

/-! ## What is logged -/

/-- The groups that are open, in front of the events and behind them. An operand that is a group
opens one, and a `)` is taken only where one is open, which it closes. No operand starts at a `)`,
and none is an operator. -/
inductive Groups (table : Bindings) : (before : Nat) → List Event → (behind : Nat) → Prop
  | nil {a : Nat} : Groups table a [] a
  | opens {a b : Nat} {t : Token} {m : BindingPower} {l : List Event}
      (hk : t.kind ≠ .closeParen) (hn : table.nud t.kind = some .grouping)
      (h : Groups table (a + 1) l b) : Groups table a (.operand t m :: l) b
  | closes {a b : Nat} {t : Token} {l : List Event} (hk : t.kind = .closeParen)
      (h : Groups table a l b) : Groups table (a + 1) (.taken t :: l) b
  | starts {a b : Nat} {t : Token} {m : BindingPower} {l : List Event}
      (hk : t.kind ≠ .closeParen) (hn : table.nud t.kind ≠ some .grouping)
      (h : Groups table a l b) : Groups table a (.operand t m :: l) b
  | takes {a b : Nat} {t : Token} {l : List Event} (hk : t.kind ≠ .closeParen)
      (h : Groups table a l b) : Groups table a (.taken t :: l) b
  | joins {a b : Nat} {t : Token} {left : Expr} {l : List Event} (hk : t.kind ≠ .closeParen)
      (h : Groups table a l b) : Groups table a (.operator t left :: l) b

theorem Groups.append (h : Groups table a l b) (h' : Groups table b l' c) :
    Groups table a (l ++ l') c := by
  induction h with
  | nil => exact h'
  | opens hk hn _ ih => exact .opens hk hn (ih h')
  | closes hk _ ih => exact .closes hk (ih h')
  | starts hk hn _ ih => exact .starts hk hn (ih h')
  | takes hk _ ih => exact .takes hk (ih h')
  | joins hk _ ih => exact .joins hk (ih h')

/-- The end of the input is not taken, and an operator binds tighter than the least power. -/
def IsSafe (table : Bindings) : Event → Prop
  | .taken t => t.kind ≠ .eof
  | .operator t _ => Int32.minValue < table.power t.kind
  | _ => True

/-- The events of an expression, or of a part of one. -/
structure SafeLog (table : Bindings) (before : Nat) (l : List Event) (behind : Nat) : Prop where
  each : ∀ e ∈ l, IsSafe table e
  groups : Groups table before l behind

theorem SafeLog.nil : SafeLog table a [] a := ⟨by simp, .nil⟩

theorem SafeLog.append (h : SafeLog table a l b) (h' : SafeLog table b l' c) :
    SafeLog table a (l ++ l') c :=
  ⟨List.forall_mem_append.2 ⟨h.each, h'.each⟩, h.groups.append h'.groups⟩

/-- The parser logs such events, with `before` groups open where it starts and `behind` of them
where it goes on. -/
def Safely {α : Type} (table : Bindings) (before behind : Nat) (s : Session)
    (r : EStateM.Result Error Session α) : Prop :=
  Trace s (fun l => ∃ d, SafeLog table before l d) (fun l _ _ => SafeLog table before l behind) r

namespace Safely

variable {α β : Type} {s : Session} {t : Token} {x : ParseM α} {f : α → ParseM β}
  {r : EStateM.Result Error Session α}

theorem append (hl : SafeLog table a l b) (h : Safely table b c s r) :
    Trace s (fun l' => ∃ d, SafeLog table a (l ++ l') d)
      (fun l' _ _ => SafeLog table a (l ++ l') c) r :=
  Trace.imp h (fun _ ⟨d, hd⟩ => ⟨d, hl.append hd⟩) fun _ _ _ _ h' => hl.append h'

theorem bind (hx : Safely table a b s (x s)) (hf : ∀ v s₁, Safely table b c s₁ (f v s₁)) :
    Safely table a c s ((x >>= f) s) :=
  Trace.bind hx fun _ v s₁ _ _ hl => append hl (hf v s₁)

theorem pure {v : α} : Safely table a a s ((Pure.pure v : ParseM α) s) := Trace.pure .nil

theorem throw {e : Error} : Safely table a b s ((MonadExcept.throw e : ParseM α) s) :=
  Trace.throw ⟨a, .nil⟩

theorem peek_bind {g : Token → ParseM α}
    (h : ∀ t s₁, s₁.front = .ok t → Safely table a b s₁ (g t s₁)) :
    Safely table a b s ((peek >>= g) s) :=
  Trace.peek_bind ⟨a, .nil⟩ fun t s₁ _ hf => h t s₁ hf

theorem emit_bind {g : Unit → ParseM α} {event : Event} (hl : SafeLog table a [event] b)
    (h : ∀ s₁, Safely table b c s₁ (g () s₁))
    (he : event.IsRemark := by exact ⟨rfl, rfl⟩) : Safely table a c s ((emit event >>= g) s) :=
  Trace.emit_bind (fun s₁ _ => append hl (h s₁)) he

theorem advance_bind {g : Token → ParseM α} (hf : s.front = .ok t) (ht : t.kind ≠ .eof)
    (hl : Groups table a [.taken t] b) (h : ∀ s₁, Safely table b c s₁ (g t s₁)) :
    Safely table a c s ((advance >>= g) s) :=
  Trace.advance_bind hf ht fun s₁ _ => append ⟨by simpa [IsSafe] using ht, hl⟩ (h s₁)

end Safely

/-! ## The parsers -/

variable {reader : Reader} {s : Session} {m : BindingPower}

/-- Whatever the minimum, wherever it starts and whatever groups are open, the reader closes the
groups that it opens. -/
def SafeReader (table : Bindings) (reader : Reader) : Prop :=
  ∀ m s a, Safely table a a s (reader m s)

theorem operandOf_safely (h : SafeReader table reader) (o : Token) :
    Safely table a a s (operandOf reader o m s) := by
  refine (h m s a).bind fun r s₁ => ?_
  cases r with
  | some e => exact .pure
  | none => exact .peek_bind fun _ _ _ => .throw

/-- The `)` behind the inside of a group closes the group. -/
theorem group_safely (h : SafeReader table reader) :
    Safely table (a + 1) a s (group reader s) := by
  refine (h .lowest s (a + 1)).bind fun r s₁ => .peek_bind fun close s₂ hf => ?_
  by_cases hk : close.kind = .closeParen
  · rw [if_pos hk]
    refine .advance_bind hf (by simp [hk]) (.closes hk .nil) fun s₃ => ?_
    cases r with
    | some e => exact .pure
    | none => exact .throw
  · rw [if_neg hk]
    exact .throw

/-- What an operand opens with its first token, the rest of it closes. -/
theorem operandFrom_safely (h : SafeReader table reader) (role : Nud) (t : Token) :
    Safely table (a + if role = .grouping then 1 else 0) a s
      (operandFrom table reader role t s) := by
  cases role with
  | primary => exact .pure
  | unary => exact (operandOf_safely h t).bind fun _ _ => .pure
  | grouping => exact group_safely h

theorem groups_operand {t : Token} {role : Nud} (hk : t.kind ≠ .closeParen)
    (hn : table.nud t.kind = some role) :
    Groups table a [.operand t m] (a + if role = .grouping then 1 else 0) := by
  cases role with
  | primary => exact .starts hk (by simp [hn]) .nil
  | unary => exact .starts hk (by simp [hn]) .nil
  | grouping => exact .opens hk hn .nil

theorem climb_safely (h : SafeReader table reader) (n : Nat) (left : Expr) :
    Safely table a a s (climb table reader m n left s) := by
  induction n generalizing s left with
  | zero => exact .pure
  | succ n ih =>
    refine .peek_bind fun next s₁ hf => ?_
    split
    · exact .pure
    next hstop =>
      -- The guard of the loop: the operator is neither the end nor a `)`, and it is above `m`.
      simp only [Token.endsExpression, Bool.or_eq_true, decide_eq_true_eq, not_or] at hstop
      obtain ⟨⟨heof, hparen⟩, hpower⟩ := hstop
      split
      · refine .advance_bind hf heof (.takes hparen .nil) fun s₂ => ?_
        refine .emit_bind ⟨?_, .joins hparen .nil⟩ fun s₃ => ?_
        · simpa [IsSafe] using Bindings.minValue_lt hpower
        · exact (operandOf_safely h next).bind fun right s₄ => ih _
      · exact .throw

theorem readWithin_safely (table : Bindings) (n : Nat) : SafeReader table (readWithin table n) := by
  induction n with
  | zero => exact fun _ _ _ => .pure
  | succ n ih =>
    intro m s a
    refine .peek_bind fun first s₁ hf => ?_
    split
    · exact .pure
    next hends =>
      simp only [Token.endsExpression, Bool.or_eq_true, decide_eq_true_eq, not_or] at hends
      cases hnud : table.nud first.kind with
      | none => exact .throw
      | some role =>
        refine .advance_bind hf hends.1 (.takes hends.2 .nil) fun s₂ => ?_
        refine .emit_bind ⟨by simp [IsSafe], groups_operand hends.2 hnud⟩ fun s₃ => ?_
        refine (operandFrom_safely ih role first).bind fun left s₄ => ?_
        exact (climb_safely ih n left).bind fun _ _ => .pure

theorem read_safely (table : Bindings) : SafeReader table (read table) :=
  fun m s a => readWithin_safely table (s.stream.remaining + 1) m s a

/-! ## Trees -/

/-- Every node is a leaf, an operator with one operand on its right, or one with two operands. -/
inductive Regular : Expr → Prop
  | leaf {t : Token} : Regular (.leaf t)
  | unary {o : Token} {e : Expr} (h : Regular e) : Regular (.unary o e)
  | binary {o : Token} {e₁ e₂ : Expr} (h₁ : Regular e₁) (h₂ : Regular e₂) :
      Regular (.binary o e₁ e₂)

theorem regular_of_phrase {w : List Token} {e : Expr} {le : List Token} {re : List EdgeOperator}
    (h : Phrase table w e le re) : Regular e := by
  induction h with
  | leaf => exact .leaf
  | group _ _ _ _ _ ih => exact ih
  | unary _ _ _ _ ih => exact .unary ih
  | binary _ _ _ _ _ _ ih₁ ih₂ => exact .binary ih₁ ih₂

/-- Under any table, with any minimum and in any session: the parser of expressions and its loop
come to an end, and they go on only behind a token; the end of the input is never taken, and a `)`
is taken only to close a group that is open, never as an operand or an operator; an operator that is taken has a power that can be lowered; and a
tree that is given has no node with an operand on its left only. -/
theorem read_safe (table : Bindings) (m : BindingPower) (s : Session) :
    Recursion (readRound table) (read table) ∧
    (∀ m, Recursion (climbRound table (read table) m) (climbing table (read table) m)) ∧
    (∃ l, s.Tells l (read table m s) ∧ (∀ t ∈ Event.tokens l, t.kind ≠ .eof) ∧
      (∃ d, Groups table 0 l d) ∧
      ∀ t left, .operator t left ∈ l → Int32.minValue < table.power t.kind ∧
        (table.power t.kind).lowered.toInt = (table.power t.kind).toInt - 1) ∧
    ∀ e s', read table m s = .ok (some e) s' → e.Regular := by
  refine ⟨read_recursion table, fun m => climb_recursion (read_fate table) m, ?_, ?_⟩
  · obtain ⟨l, hl, d, hsafe⟩ :=
      (read_safely table m s 0).exists_tells (fun _ h => h) fun _ _ _ h => ⟨0, h⟩
    refine ⟨l, hl, fun t ht => hsafe.each _ (Event.mem_tokens.1 ht), ⟨d, hsafe.groups⟩, ?_⟩
    intro t left hmem
    have hpower : Int32.minValue < table.power t.kind := hsafe.each _ hmem
    exact ⟨hpower, Bindings.toInt_lowered hpower⟩
  · intro e s' h
    obtain ⟨w, le, re, t, hphrase, -⟩ := readWithin_sound _ m s e s' s.length_tokens_lt h
    exact regular_of_phrase hphrase

end Expr

end FxLang
