import FxLang.Proofs.Grammar.Blame
import FxLang.Proofs.Grammar.Omission
import FxLang.Proofs.Session.Yields

/-!
# Reading texts of the grammar

What each rule yields on a text that the grammar derives. The statements of a body, and the
functions of a program, are not read on their own: what is known of them is how a parser reads each
of them as a passage, be it a statement of the grammar or something that is reported and left out.
What is read of the whole follows from that.

* `Stmt.rule_yields`, `Stmt.rule_loop_yields`: statements, given how they end and how the passages
  of their bodies are read.
* `Func.read_of_block`: functions, given what is read of their blocks.
* `Program.ofSource_of_reads`: the sources whose tokens are read as functions.
-/

namespace FxLang

open Session Yields

/-! ## Passages of a text -/

/-- A text as it is to be read: its tokens, the diagnostics that are due, given the token behind the
text, and what is left of its tree. -/
structure Passage (α : Type) where
  text : List Token
  reports : Token → List Diagnostic
  left : Option α

/-- Passages that stand one behind the other. -/
abbrev Passages (α : Type) := List (Passage α)

namespace Passages

variable {α : Type}

def text (ps : Passages α) : List Token := (ps.map Passage.text).flatten

def left (ps : Passages α) : List α := ps.filterMap Passage.left

/-- The diagnostics that are due, given the token behind the last passage. The token behind another
passage is the first of the next. -/
def reports : Passages α → Token → List Diagnostic
  | [], _ => []
  | p :: ps, next => p.reports ((text ps).headD next) ++ reports ps next

@[simp] theorem text_cons (p : Passage α) (ps : Passages α) :
    text (p :: ps) = p.text ++ text ps := rfl

@[simp] theorem left_cons (p : Passage α) (ps : Passages α) :
    left (p :: ps) = p.left.toList ++ left ps := by
  cases h : p.left <;> simp [left, h]

/-- What is due about passages that do not look at the token behind them. -/
theorem reports_of_const {ps : Passages α} (next : Token)
    (h : ∀ p ∈ ps, ∀ next', p.reports next' = p.reports next) :
    ps.reports next = ps.flatMap fun p => p.reports next := by
  induction ps with
  | nil => rfl
  | cons p ps ih =>
    rw [List.forall_mem_cons] at h
    rw [reports, h.1, ih h.2]
    rfl

end Passages

variable {s : Session} {w z : List Token} {t : Token} {context expected : String}

/-! ## Expressions -/

/-- No operator on the right edge gives way to a token that binds nothing. -/
theorem Phrase.rightBound_nonneg {e : Expr} {le : List Token} {re : List EdgeOperator}
    (h : Phrase .standard w e le re) : ∀ x ∈ re, 0 ≤ Bindings.standard.rightBound x := by
  induction h with
  | leaf | group => simp
  | @unary p _ _ _ _ _ hn _ _ ih =>
    refine List.forall_mem_cons.2 ⟨?_, ih⟩
    have hp := Kind.isOperator_of_isSign (Kind.standard_nud_eq_unary.1 hn)
    exact Int.le_of_lt (Token.leftPower_of_isOperator hp)
  | @binary o _ _ _ _ _ _ _ _ _ _ hl _ _ _ _ ih =>
    refine List.forall_mem_cons.2 ⟨?_, ih⟩
    have ho := Token.leftPower_of_isOperator (t := o) (by rwa [← Kind.standard_led])
    cases ha : Bindings.standard.associativity o.kind <;> simp only [Bindings.rightBound, ha] <;>
      omega

theorem Expr.Tree.exists_head {e : Expr} (h : Expr.Tree w e) :
    ∃ a v, w = a :: v ∧ a.kind ≠ .closeParen := by
  obtain ⟨le, re, h⟩ := h
  have hends {a : Token} (ha : a.endsExpression = false) : a.kind ≠ .closeParen := by
    intro hk
    simp [Token.endsExpression, hk] at ha
  induction h with
  | leaf ha => exact ⟨_, _, rfl, hends ha⟩
  | group ha => exact ⟨_, _, rfl, hends ha⟩
  | unary ha => exact ⟨_, _, rfl, hends ha⟩
  | binary _ _ _ _ _ _ ih =>
    obtain ⟨a, v, rfl, ha⟩ := ih
    exact ⟨a, _, rfl, ha⟩

/-- A list starts as its first item does. -/
theorem Listed.exists_head {α : Type} {item : List Token → α → Prop} {as : List α}
    {P : Token → Prop} (hitem : ∀ w a, item w a → ∃ t v, w = t :: v ∧ P t) (h : Listed item w as) :
    ∃ t v, w = t :: v ∧ P t := by
  cases h with
  | one h => exact hitem _ _ h
  | more h =>
    obtain ⟨t, v, rfl, ht⟩ := hitem _ _ h
    exact ⟨t, _, rfl, ht⟩

/-- An expression is read up to a token that it could not go on with. -/
theorem expression_yields {e : Expr} (h : Expr.Tree w e) (hs : s.At (w ++ t :: z))
    (ht : t.kind.isOperator = false) (ht' : t.kind ≠ .openParen) :
    Yields s w [] (some e) (expression context s) := by
  obtain ⟨le, re, h⟩ := h
  have hstop : t.endsExpression = true ∨ Bindings.standard.leftPower t ≤ 0 := by
    cases he : t.endsExpression with
    | true => exact .inl rfl
    | false =>
      refine .inr (Int.not_lt.1 fun hpos => ?_)
      rw [Token.isOperator_of_leftPower hpos he ht'] at ht
      cases ht
  have hsettled : Phrase.Settled .standard re t :=
    hstop.imp_right fun hle x hx => Int.le_trans hle (h.rightBound_nonneg x hx)
  have hpre : w ++ t :: z <+: s.tokens := ⟨[], by rw [hs.tokens_eq, List.append_nil]⟩
  have hb := behind_of_isPrefix hpre
  have hw : w <+: s.tokens := (List.prefix_append _ _).trans hpre
  obtain ⟨s', h', m'⟩ := (h.climbs _ .lowest s t hw s.stream.length_tokens_le_remaining
    h.leftPower_pos hb hsettled).readWithin hb hstop
  have hread : Expr.read .standard .lowest s = .ok (some e) s' := h'
  rw [expression, bind_of_ok (attempt_of_ok hread)]
  exact .goes hs.count_lt m'

namespace Stmt

/-! ## Calls, assignments and declarations -/

theorem argument_yields {e : Expr} (h : Expr.Tree w e) (hs : s.At (w ++ t :: z))
    (ht : t.kind.isOperator = false) (ht' : t.kind ≠ .openParen) :
    Yields s w [] (some e) (argument s) := by
  refine cast (bind hs (expression_yields h hs ht ht') fun s₁ _ hs₁ => pure hs₁) (by simp) rfl

theorem argumentsWithin_yields {es : List Expr} (n : Nat) (h : Listed Expr.Tree w es)
    (hs : s.At (w ++ t :: z)) (ht : t.kind = .closeParen) (hn : s.tokens.length < n) :
    Yields s w [] es (argumentsWithin n s) := by
  induction h generalizing s n with
  | one h =>
    obtain ⟨n, rfl⟩ : ∃ n', n = n' + 1 := ⟨n - 1, by omega⟩
    refine cast (bind hs (argument_yields h hs (by rw [ht]; rfl) (by simp [ht]))
      fun s₁ _ hs₁ => nextIs_bind hs₁ fun s₂ _ hs₂ => ?_) (List.append_nil _) rfl
    simp only [ht]
    exact pure hs₂
  | @more w w' e es c h hc _ ih =>
    obtain ⟨n, rfl⟩ : ∃ n', n = n' + 1 := ⟨n - 1, by omega⟩
    have hs : s.At (w ++ c :: (w' ++ t :: z)) := by simpa using hs
    refine bind hs (argument_yields h hs (by rw [hc]; rfl) (by simp [hc]))
      fun s₁ m₁ hs₁ => nextIs_bind hs₁ fun s₂ m₂ hs₂ => ?_
    simp only [hc, decide_true, if_true]
    refine advance_bind hs₂ fun s₃ m₃ hs₃ => ?_
    have hlen : s₃.tokens.length < n := by
      have := hs.tokens_eq
      have := hs₃.tokens_eq
      grind
    exact cast (bind hs₃ (ih n hs₃ hlen) fun s₄ _ hs₄ => pure hs₄) (by simp) rfl

theorem arguments_yields {es : List Expr} (h : MaybeListed Expr.Tree w es)
    (hs : s.At (w ++ t :: z)) (ht : t.kind = .closeParen) : Yields s w [] es (arguments s) := by
  rcases h with ⟨rfl, rfl⟩ | h
  · refine nextIs_bind hs fun s₁ _ hs₁ => ?_
    simp only [ht, decide_true, if_true]
    exact pure hs₁
  · obtain ⟨a, v, rfl, ha⟩ := h.exists_head fun _ _ => Expr.Tree.exists_head
    refine nextIs_bind hs fun s₁ _ hs₁ => ?_
    simp only [ha, decide_false, Bool.false_eq_true, if_false]
    rw [bind_of_ok (rounds_apply s₁)]
    exact argumentsWithin_yields _ h hs₁ ht
      s₁.length_tokens_lt

/-- The end of a statement whose `;` is there. -/
theorem terminated_yields {stmt : Stmt} (hs : s.At (t :: z)) (ht : t.kind = .semicolon) :
    Yields s [t] [] (some stmt) ((Session.expect .semicolon "';'" context >>= fun _ =>
      unlessReported s.errorCount stmt) s) := by
  refine cast (bind (show s.At ([t] ++ z) from hs) (expect hs ht) fun s₁ m₁ hs₁ => ?_) rfl rfl
  rw [unlessReported_of_clean _ m₁.count_eq]
  exact pure hs₁

/-- What the end of a statement yields, up to its `;` or the token in the place of it. -/
def EndYields (z : List Token) (context : String) (stmt : Stmt) (w : List Token)
    (ds : List Diagnostic) (r : Option Stmt) : Prop :=
  ∀ s : Session, s.At z → Yields s w ds r ((Session.expect .semicolon "';'" context >>= fun _ =>
    unlessReported s.errorCount stmt) s)

section
variable {block : String → ParseM (List Stmt)} {w' : List Token} {ds : List Diagnostic}
  {r : Option Stmt} {name : Token}

theorem readCall_yields {args : List Expr} {closed : Token} (hargs : MaybeListed Expr.Tree w args)
    (hclosed : closed.kind = .closeParen) (hs : s.At (w ++ closed :: z))
    (hend : EndYields z Context.call (.call name.text args name.position) w' ds r) :
    Yields s (w ++ closed :: w') ds r (readCall name s) := by
  refine emit_bind _ hs fun s₁ _ hs₁ => ?_
  rw [bind_of_ok (countErrors_apply s₁)]
  refine cast (bind hs₁ (arguments_yields hargs hs₁ hclosed) fun s₂ m₂ hs₂ => ?_) rfl rfl
  rw [bind_of_ok (argumentsLost_of_clean m₂.count_eq)]
  refine cast (bind (show s₂.At ([closed] ++ z) from hs₂) (expect hs₂ hclosed)
    fun s₃ m₃ hs₃ => ?_) rfl rfl
  have hcount := (m₂.trans_clean m₃).count_eq
  rw [← hcount]
  exact hend s₃ hs₃

theorem readAssignment_yields {value : Expr} (hvalue : Expr.Tree w value) (hs : s.At (w ++ t :: z))
    (ht : t.kind.isOperator = false) (ht' : t.kind ≠ .openParen)
    (hend : EndYields (t :: z) Context.assignment (.assign name.text value name.position) w' ds r) :
    Yields s (w ++ w') ds r (readAssignment name s) := by
  refine emit_bind _ hs fun s₁ _ hs₁ => ?_
  rw [bind_of_ok (countErrors_apply s₁)]
  refine cast (bind hs₁ (expression_yields hvalue hs₁ ht ht') fun s₂ m₂ hs₂ => ?_) rfl rfl
  have hcount := m₂.count_eq
  rw [← hcount]
  exact hend s₂ hs₂

theorem readDeclaration_yields {type : Token} {ty : TypeName}
    (htype : Func.typeName? type.kind = some ty) (hname : name.kind = .identifier)
    (hs : s.At (type :: name :: z))
    (hend : EndYields z Context.declaration (.declare ty name.text name.position) w' ds r) :
    Yields s (type :: name :: w') ds r (readDeclaration s) := by
  refine emit_bind _ hs fun s₁ _ hs₁ => ?_
  rw [bind_of_ok (countErrors_apply s₁)]
  refine advance_bind hs₁ fun s₂ m₂ hs₂ => ?_
  refine cast (bind (show s₂.At ([name] ++ z) from hs₂) (expect hs₂ hname)
    fun s₃ m₃ hs₃ => ?_) rfl rfl
  have hcount := (m₂.trans_clean m₃).count_eq
  rw [← hcount]
  simp only [Func.ite_of_typeName htype]
  exact hend s₃ hs₃

/-- A statement up to its end. -/
theorem rule_yields {stmt : Stmt} (h : Unterminated w stmt context) (hs : s.At (w ++ t :: z))
    (ht : t.kind.isOperator = false) (ht' : t.kind ≠ .openParen)
    (hend : EndYields (t :: z) context stmt w' ds r) :
    Yields s (w ++ w') ds r (rule block s) := by
  cases h with
  | call hname hopened hargs hclosed =>
    refine emit_bind _ hs fun s₁ _ hs₁ => peekKind_bind hs₁ fun s₂ _ hs₂ => ?_
    simp only [hname]
    refine advance_bind hs₂ fun s₃ _ hs₃ => peekKind_bind hs₃ fun s₄ _ hs₄ => ?_
    simp only [hopened]
    refine advance_bind hs₄ fun s₅ _ hs₅ => ?_
    exact cast (readCall_yields hargs hclosed (by simpa using hs₅) hend) (by simp) rfl
  | assign hname hequals hvalue =>
    refine emit_bind _ hs fun s₁ _ hs₁ => peekKind_bind hs₁ fun s₂ _ hs₂ => ?_
    simp only [hname]
    refine advance_bind hs₂ fun s₃ _ hs₃ => peekKind_bind hs₃ fun s₄ _ hs₄ => ?_
    simp only [hequals]
    refine advance_bind hs₄ fun s₅ _ hs₅ => ?_
    exact readAssignment_yields hvalue hs₅ ht ht' hend
  | @declare type name ty htype hname =>
    have hk := Func.exists_typeName_iff.1 ⟨ty, htype⟩
    refine emit_bind _ hs fun s₁ _ hs₁ => peekKind_bind hs₁ fun s₂ _ hs₂ => ?_
    have hrule := readDeclaration_yields htype hname hs₂ hend
    generalize hkind : type.kind = k at hk ⊢
    cases k <;> first | exact hrule | cases hk

end

/-! ## Loops -/

theorem headerToken_yields {k : Kind} {markers : List Kind} {lost : Bool} (hs : s.At (t :: z))
    (hk : t.kind = k) : Yields s [t] [] (some t) (headerToken k expected markers lost s) := by
  refine nextIs_bind hs fun s₁ _ hs₁ => ?_
  simp only [hk, decide_true, if_true]
  exact advance_bind hs₁ fun s₂ _ hs₂ => pure hs₂

theorem headerSection_yields {k : Kind} {markers : List Kind} {lost : Bool} {lead : Token}
    {e : Expr} (hs : s.At (lead :: (w ++ t :: z))) (hk : lead.kind = k) (he : Expr.Tree w e)
    (ht : t.kind.isOperator = false) (ht' : t.kind ≠ .openParen) :
    Yields s (lead :: w) [] (some e) (headerSection k expected markers lost s) := by
  refine cast (bind (show s.At ([lead] ++ (w ++ t :: z)) from hs) (headerToken_yields hs hk)
    fun s₁ _ hs₁ => ?_) rfl rfl
  exact cast (bind hs₁ (expression_yields he hs₁ ht ht') fun s₂ _ hs₂ => pure hs₂) (by simp) rfl

/-- The header of a loop is read between the keyword and the `{`. -/
theorem HeaderText.yields {header : List Token} {loop : List Stmt → Stmt}
    (h : HeaderText Expr.Tree header loop) :
    ∃ (keyword brace : Token) (w : List Token) (h : Header), header = keyword :: (w ++ [brace]) ∧
      keyword.kind = .iter ∧ brace.kind = .openCurly ∧ h.closed.isSome = true ∧
      (∀ body, ofHeader? h body keyword.position = some (loop body)) ∧
      ∀ (s : Session) (z : List Token), s.At (w ++ z) → Yields s w [] h (Stmt.header s) := by
  obtain @⟨keyword, opened, counter, define, semicolon, comma, closed, brace, w₁, w₂, w₃, start,
    stop, step, hkeyword, hopened, hcounter, hdefine, hstart, hsemicolon, hstop, hcomma, hstep,
    hclosed, hbrace⟩ := h
  refine ⟨keyword, brace, opened :: counter :: define ::
    (w₁ ++ semicolon :: (w₂ ++ comma :: (w₃ ++ [closed]))),
    { counter := some counter, start := some start, stop := some stop, step := some step
      closed := some closed }, by simp, hkeyword, hbrace, rfl, fun body => rfl, fun s z hs => ?_⟩
  have hs : s.At ([opened] ++ ([counter] ++ (define :: w₁ ++ (semicolon :: w₂ ++
    (comma :: w₃ ++ ([closed] ++ z)))))) := by simpa using hs
  refine cast (bind hs (headerToken_yields hs hopened) fun s₁ _ hs₁ => ?_) rfl rfl
  refine cast (bind hs₁ (headerToken_yields hs₁ hcounter) fun s₂ _ hs₂ => ?_) rfl rfl
  refine cast (bind hs₂ (headerSection_yields hs₂ hdefine hstart (by rw [hsemicolon]; rfl)
    (by simp [hsemicolon])) fun s₃ _ hs₃ => ?_) rfl rfl
  refine cast (bind hs₃ (headerSection_yields hs₃ hsemicolon hstop (by rw [hcomma]; rfl)
    (by simp [hcomma])) fun s₄ _ hs₄ => ?_) rfl rfl
  refine cast (bind hs₄ (headerSection_yields hs₄ hcomma hstep (by rw [hclosed]; rfl)
    (by simp [hclosed])) fun s₅ _ hs₅ => ?_) rfl rfl
  exact cast (bind hs₅ (headerToken_yields hs₅ hclosed) fun s₆ _ hs₆ => pure hs₆) (by simp) rfl

/-- A loop, given what is read of its block. It is lost with anything that is reported inside. -/
theorem readLoop_yields {block : String → ParseM (List Stmt)} {header body : List Token}
    {loop : List Stmt → Stmt} {ds : List Diagnostic} {left : List Stmt} {brace : Token}
    (hheader : HeaderText Expr.Tree header loop) (hs : s.At (header ++ (body ++ brace :: z)))
    (hblock : ∀ (s' : Session) (opened : Token), opened.kind = .openCurly →
      s'.tokens.length < s.tokens.length → s'.At (opened :: (body ++ brace :: z)) →
      Yields s' (opened :: (body ++ [brace])) ds left (block Context.iter s')) :
    Yields s (header ++ (body ++ [brace])) ds (if ds = [] then some (loop left) else none)
      (readLoop block s) := by
  obtain ⟨keyword, opened, w, h, rfl, hkeyword, hopened, hclosed, hloop, hh⟩ := hheader.yields
  have hs : s.At (keyword :: (w ++ opened :: (body ++ brace :: z))) := by simpa using hs
  have htext : keyword :: (w ++ [opened]) ++ (body ++ [brace]) =
      keyword :: (w ++ opened :: (body ++ [brace])) := by simp
  rw [htext]
  refine emit_bind _ hs fun s₁ m₁ hs₁ => ?_
  rw [bind_of_ok (countErrors_apply s₁)]
  refine advance_bind hs₁ fun s₂ m₂ hs₂ => ?_
  refine cast (bind hs₂ (hh s₂ _ hs₂) fun s₃ m₃ hs₃ => ?_) rfl rfl
  rw [bind_of_ok (abandoned_of_closed hclosed)]
  have hlen : s₃.tokens.length < s.tokens.length := by
    rw [hs.tokens_eq, hs₃.tokens_eq]
    simp only [List.length_cons, List.length_append]
    omega
  have hs₃' : s₃.At (opened :: (body ++ [brace]) ++ z) := by simpa using hs₃
  refine cast (bind hs₃' (hblock s₃ opened hopened hlen hs₃) fun s₄ m₄ hs₄ => ?_)
    (List.append_nil _) (List.append_nil _)
  have hcount := ((m₂.trans_clean m₃).trans m₄).errorCount_eq
  rw [List.nil_append] at hcount
  by_cases hds : ds = []
  · rw [if_pos hds, bind_of_ok (unlessReported_of_clean _ (by simpa [hds] using hcount)), hloop]
    exact pure hs₄
  · have hpos := List.length_pos_iff.2 hds
    have hlost : unlessReported s₁.errorCount (ofHeader? h left keyword.position) s₄ =
        .ok none s₄ := by
      rw [unlessReported, bind_of_ok (countErrors_apply s₄), if_neg (by omega)]; rfl
    rw [if_neg hds, bind_of_ok hlost]
    exact pure hs₄

/-! ## Statements and blocks -/

/-- The passage is read by a parser of statements, up to a number of tokens and in front of the
tokens that may follow. -/
def ReadBy (stmt : ParseM (Option Stmt)) (follows : Token → Prop) (n : Nat) (p : Passage Stmt) :
    Prop :=
  ∀ (s : Session) (next : Token) (z : List Token), follows next → s.tokens.length < n →
    s.At (p.text ++ next :: z) → Yields s p.text (p.reports next) p.left (stmt s)

/-- The passage starts with a token that may follow another, and that does not end a body. -/
def Starts (follows : Token → Prop) (p : Passage Stmt) : Prop :=
  ∃ a v, p.text = a :: v ∧ a.kind ≠ .closeCurly ∧ follows a

section
variable {stmt : ParseM (Option Stmt)} {follows : Token → Prop} {ps : Passages Stmt} {brace : Token}

theorem bodyWithin_yields (n : Nat) (hps : ∀ p ∈ ps, Starts follows p)
    (hbrace : brace.kind = .closeCurly) (hfollows : follows brace)
    (hs : s.At (ps.text ++ brace :: z)) (hn : s.tokens.length < n)
    (hread : ∀ p ∈ ps, ReadBy stmt follows (s.tokens.length + 1) p) :
    Yields s ps.text (ps.reports brace) ps.left (bodyWithin stmt context n s) := by
  induction ps generalizing s n with
  | nil =>
    obtain ⟨n, rfl⟩ : ∃ n', n = n' + 1 := ⟨n - 1, by omega⟩
    refine peekKind_bind hs fun s₁ _ hs₁ => ?_
    simp only [hbrace]
    exact pure hs₁
  | cons p ps ih =>
    obtain ⟨n, rfl⟩ : ∃ n', n = n' + 1 := ⟨n - 1, by omega⟩
    rw [List.forall_mem_cons] at hps hread
    obtain ⟨a, v, htext, ha, -⟩ := hps.1
    have hs : s.At (p.text ++ (Passages.text ps ++ brace :: z)) := by simpa using hs
    have hs' : s.At (a :: (v ++ (Passages.text ps ++ brace :: z))) := by
      rw [htext] at hs
      exact hs
    have heof := hs'.kind_ne_eof
    refine peekKind_bind hs' fun s₁ m₁ hs₁ => ?_
    have hlen₁ : s₁.tokens.length = s.tokens.length := by rw [m₁.tokens_length]; simp
    have hs₁' : s₁.At (p.text ++ (Passages.text ps ++ brace :: z)) := by
      rw [htext]
      exact hs₁
    have hfirst : Yields s₁ p.text (p.reports ((Passages.text ps).headD brace)) p.left
        (stmt s₁) := by
      -- The token behind the first passage is the one that the next starts with, or the brace.
      cases ps with
      | nil => exact hread.1 s₁ brace z hfollows (by omega) hs₁'
      | cons q qs =>
        obtain ⟨b, u, hq, -, hb⟩ := hps.2 q List.mem_cons_self
        rw [Passages.text_cons, hq] at hs₁' ⊢
        exact hread.1 s₁ b _ hb (by omega) (by simpa using hs₁')
    have hrest : Yields s₁ (Passages.text (p :: ps)) (Passages.reports (p :: ps) brace)
        (Passages.left (p :: ps)) ((stmt >>= fun first => bodyWithin stmt context n >>= fun rest =>
          Pure.pure (first.toList ++ rest)) s₁) := by
      refine bind hs₁' hfirst fun s₂ m₂ hs₂ => ?_
      have hlen₂ := m₂.tokens_length
      have hpos : 0 < p.text.length := by rw [htext]; simp
      refine cast (bind hs₂ (ih n hps.2 hs₂ (by omega) fun q hq s' next z' hnext hlt =>
        hread.2 q hq s' next z' hnext (by omega)) fun s₃ _ hs₃ => ?_) (List.append_nil _)
        (List.append_nil _)
      rw [Passages.left_cons]
      exact pure hs₃
    generalize a.kind = k at ha heof ⊢
    cases k <;> first | exact hrest | exact absurd rfl ha | exact absurd rfl heof

theorem blockOf_yields {opened : Token} (hps : ∀ p ∈ ps, Starts follows p)
    (hopened : opened.kind = .openCurly) (hbrace : brace.kind = .closeCurly)
    (hfollows : follows brace) (hs : s.At (opened :: (ps.text ++ brace :: z)))
    (hread : ∀ p ∈ ps, ReadBy stmt follows s.tokens.length p) :
    Yields s (opened :: (ps.text ++ [brace])) (ps.reports brace) ps.left
      (blockOf stmt context s) := by
  have hs : s.At ([opened] ++ (ps.text ++ brace :: z)) := hs
  refine cast (bind hs (expect hs hopened) fun s₁ m₁ hs₁ => ?_) rfl rfl
  have hlen₁ := m₁.tokens_length
  have hbody : Yields s₁ ps.text (ps.reports brace) ps.left (bodyOf stmt context s₁) := by
    refine emit_bind _ hs₁ fun s₂ m₂ hs₂ => ?_
    have hlen₂ : s₂.tokens.length + 1 = s.tokens.length := by
      rw [hlen₁, m₂.tokens_length]; simp; omega
    rw [bind_of_ok (rounds_apply s₂)]
    refine bodyWithin_yields _ hps hbrace hfollows hs₂ s₂.length_tokens_lt ?_
    rw [hlen₂]
    exact hread
  refine cast (bind hs₁ hbody fun s₂ m₂ hs₂ => ?_) rfl (List.append_nil _)
  have hs₂ : s₂.At ([brace] ++ z) := hs₂
  exact cast (bind hs₂ (expect hs₂ hbrace) fun s₃ _ hs₃ => pure hs₃) rfl rfl

end

/-- A loop as a statement, given how the passages of its body are read. -/
theorem rule_loop_yields {stmt : ParseM (Option Stmt)} {follows : Token → Prop} {ps : Passages Stmt}
    {header : List Token} {loop : List Stmt → Stmt} {brace : Token}
    (hheader : HeaderText Expr.Tree header loop) (hps : ∀ p ∈ ps, Starts follows p)
    (hbrace : brace.kind = .closeCurly) (hfollows : follows brace)
    (hs : s.At (header ++ (ps.text ++ brace :: z)))
    (hread : ∀ p ∈ ps, ReadBy stmt follows s.tokens.length p) :
    Yields s (header ++ (ps.text ++ [brace])) (ps.reports brace)
      (if ps.reports brace = [] then some (loop ps.left) else none) (rule (blockOf stmt) s) := by
  obtain ⟨keyword, v, rfl, hkeyword⟩ : ∃ keyword v, header = keyword :: v ∧
      keyword.kind = .iter := by
    obtain ⟨hkeyword⟩ := hheader
    exact ⟨_, _, rfl, hkeyword⟩
  refine emit_bind _ hs fun s₁ m₁ hs₁ => peekKind_bind hs₁ fun s₂ m₂ hs₂ => ?_
  have hlen : s₂.tokens.length = s.tokens.length := by
    rw [(m₁.trans_clean m₂).tokens_length]; simp
  simp only [hkeyword]
  refine readLoop_yields hheader hs₂ fun s' opened hopened hlen' hs' => ?_
  exact blockOf_yields hps hopened hbrace hfollows hs' fun p hp s'' next z' hnext hlt =>
    hread p hp s'' next z' hnext (by omega)

theorem block_yields {ps : Passages Stmt} {follows : Token → Prop} {opened brace : Token}
    (hps : ∀ p ∈ ps, Starts follows p ∧ ∀ n, ReadBy (readWithin n) follows n p)
    (hopened : opened.kind = .openCurly) (hbrace : brace.kind = .closeCurly)
    (hfollows : follows brace) (hs : s.At (opened :: (ps.text ++ brace :: z))) :
    Yields s (opened :: (ps.text ++ [brace])) (ps.reports brace) ps.left (block context s) := by
  refine blockOf_yields (fun p hp => (hps p hp).1) hopened hbrace hfollows hs ?_
  intro p hp s' next z' hnext _ hs'
  exact (hps p hp).2 _ s' next z' hnext s'.length_tokens_lt hs'

end Stmt

/-! ## Functions -/

namespace Func

theorem parametersWithin_yields {ps : List Param} (n : Nat) (h : Listed Param.Derives w ps)
    (hs : s.At (w ++ t :: z)) (ht : t.kind = .closeParen) (hn : s.tokens.length < n) :
    Yields s w [] (some ps) (parametersWithin n s) := by
  induction h generalizing s n with
  | one h =>
    obtain ⟨n, rfl⟩ : ∃ n', n = n' + 1 := ⟨n - 1, by omega⟩
    obtain ⟨htype, hname⟩ := h
    refine peekKind_bind hs fun s₁ _ hs₁ => ?_
    simp only [htype]
    refine advance_bind hs₁ fun s₂ _ hs₂ => ?_
    refine cast (bind (show s₂.At ([_] ++ t :: z) from hs₂) (expect hs₂ hname)
      fun s₃ _ hs₃ => peekKind_bind hs₃ fun s₄ _ hs₄ => ?_) rfl rfl
    simp only [ht]
    exact pure hs₄
  | @more w w' p ps c h hc _ ih =>
    obtain ⟨n, rfl⟩ : ∃ n', n = n' + 1 := ⟨n - 1, by omega⟩
    obtain @⟨type, name, ty, htype, hname⟩ := h
    have hs : s.At (type :: name :: c :: (w' ++ t :: z)) := by simpa using hs
    refine peekKind_bind hs fun s₁ _ hs₁ => ?_
    simp only [htype]
    refine advance_bind hs₁ fun s₂ _ hs₂ => ?_
    refine cast (bind (show s₂.At ([name] ++ c :: (w' ++ t :: z)) from hs₂) (expect hs₂ hname)
      fun s₃ _ hs₃ => peekKind_bind hs₃ fun s₄ _ hs₄ => ?_) rfl rfl
    simp only [hc]
    refine advance_bind hs₄ fun s₅ _ hs₅ => ?_
    have hlen : s₅.tokens.length < n := by
      rw [hs.tokens_eq] at hn
      rw [hs₅.tokens_eq]
      simp at hn ⊢
      omega
    exact cast (bind hs₅ (ih n hs₅ hlen) fun s₆ _ hs₆ => pure hs₆) (List.append_nil _) rfl

theorem parameterList_yields {ps : List Param} (h : MaybeListed Param.Derives w ps)
    (hs : s.At (w ++ t :: z)) (ht : t.kind = .closeParen) :
    Yields s (w ++ [t]) [] (some ps) (parameterList s) := by
  rcases h with ⟨rfl, rfl⟩ | h
  · refine emit_bind _ hs fun s₁ _ hs₁ => nextIs_bind hs₁ fun s₂ _ hs₂ => ?_
    simp only [ht, decide_true, if_true]
    exact advance_bind hs₂ fun s₃ _ hs₃ => pure hs₃
  · obtain ⟨a, v, rfl, ha⟩ := h.exists_head (P := fun t => t.kind ≠ .closeParen) <| by
      rintro _ _ ⟨htype, -⟩
      refine ⟨_, _, rfl, fun hk => ?_⟩
      rw [hk] at htype
      cases htype
    refine emit_bind _ hs fun s₁ _ hs₁ => nextIs_bind hs₁ fun s₂ _ hs₂ => ?_
    simp only [ha, decide_false, Bool.false_eq_true, if_false]
    have hparams : Yields s₂ (a :: v) [] (some ps) (parameters s₂) := by
      refine emit_bind _ hs₂ fun s₃ _ hs₃ => ?_
      rw [bind_of_ok (rounds_apply s₃)]
      exact parametersWithin_yields _ h hs₃ ht
        s₃.length_tokens_lt
    refine cast (bind hs₂ hparams fun s₃ _ hs₃ => ?_) rfl rfl
    have hlost : listLost (some ps) s₃ = .ok false s₃ := rfl
    rw [bind_of_ok hlost]
    exact cast (bind (show s₃.At ([t] ++ z) from hs₃) (expect hs₃ ht) fun s₄ _ hs₄ => pure hs₄)
      rfl rfl

theorem signature_yields {keyword name opened closed : Token} {ps : List Param}
    (hkeyword : keyword.kind = .func) (hname : name.kind = .identifier ∨ name.kind = .mainWord)
    (hopened : opened.kind = .openParen) (hps : MaybeListed Param.Derives w ps)
    (hclosed : closed.kind = .closeParen)
    (hs : s.At (keyword :: name :: opened :: (w ++ closed :: z))) :
    Yields s (keyword :: name :: opened :: (w ++ [closed])) []
      (some { name := name.text, params := ps, position := keyword.position }) (signature s) := by
  refine emit_bind _ hs fun s₁ _ hs₁ => peek_bind hs₁ fun s₂ _ hs₂ => ?_
  refine cast (bind (show s₂.At ([keyword] ++ name :: opened :: (w ++ closed :: z)) from hs₂)
    (expect hs₂ hkeyword) fun s₃ _ hs₃ => peekKind_bind hs₃ fun s₄ _ hs₄ => ?_) rfl rfl
  have hfrom : Yields s₄ (name :: opened :: (w ++ [closed])) []
      (some { name := name.text, params := ps, position := keyword.position })
      ((advance >>= fun name => signatureFrom keyword.position (some name)) s₄) := by
    refine advance_bind hs₄ fun s₅ _ hs₅ => ?_
    refine cast (bind (show s₅.At ([opened] ++ (w ++ closed :: z)) from hs₅) (expect hs₅ hopened)
      fun s₆ _ hs₆ => ?_) rfl rfl
    have hs₆' : s₆.At (w ++ [closed] ++ z) := by simpa using hs₆
    exact cast (bind hs₆' (parameterList_yields hps hs₆ hclosed) fun s₇ _ hs₇ => pure hs₇)
      (List.append_nil _) rfl
  rcases hname with hname | hname
  · simp only [hname]
    exact hfrom
  · simp only [hname]
    exact hfrom

/-- A function, given what is read of its block. -/
theorem read_of_block {keyword name opened closed brace brace' : Token} {params : List Param}
    {body : List Token} {ds : List Diagnostic} {left : List Stmt} (hkeyword : keyword.kind = .func)
    (hname : name.kind = .identifier ∨ name.kind = .mainWord) (hopened : opened.kind = .openParen)
    (hparams : MaybeListed Param.Derives w params) (hclosed : closed.kind = .closeParen)
    (hs : s.At (keyword :: name :: opened :: (w ++ closed :: brace :: (body ++ brace' :: z))))
    (hblock : ∀ s' : Session, s'.At (brace :: (body ++ brace' :: z)) →
      Yields s' (brace :: (body ++ [brace'])) ds left (Stmt.block Context.function s')) :
    Yields s (keyword :: name :: opened :: (w ++ closed :: brace :: (body ++ [brace']))) ds
      (some { name := name.text, params, body := left, position := keyword.position }) (read s) := by
  refine emit_bind _ hs fun s₁ _ hs₁ => ?_
  have hs₁' : s₁.At (keyword :: name :: opened :: (w ++ [closed]) ++
    (brace :: (body ++ brace' :: z))) := by simpa using hs₁
  have htext : keyword :: name :: opened :: (w ++ [closed]) ++ (brace :: (body ++ [brace'])) =
      keyword :: name :: opened :: (w ++ closed :: brace :: (body ++ [brace'])) := by simp
  refine cast (bind hs₁' (signature_yields hkeyword hname hopened hparams hclosed hs₁)
    fun s₂ _ hs₂ => ?_) htext rfl
  have hs₂' : s₂.At (brace :: (body ++ [brace']) ++ z) := by simpa using hs₂
  exact cast (bind hs₂' (hblock s₂ hs₂) fun s₃ _ hs₃ => pure hs₃)
    (List.append_nil _) (List.append_nil _)

/-- The passage is read as a function, whatever stands behind it. -/
structure Reads (p : Passage Func) : Prop where
  starts : ∃ keyword v, p.text = keyword :: v ∧ keyword.kind = .func
  yields : ∀ (s : Session) (z : List Token) (next : Token), s.At (p.text ++ z) →
    Yields s p.text (p.reports next) p.left (read s)

end Func

/-! ## Programs -/

namespace Program

theorem functionsWithin_yields {ps : Passages Func} (n : Nat) (hps : ∀ p ∈ ps, Func.Reads p)
    (hs : s.At ps.text) (hend : s.ending = .ok t) (hn : s.tokens.length < n) (next : Token) :
    Yields s ps.text (ps.reports next) ps.left (functionsWithin n s) := by
  induction ps generalizing s n with
  | nil =>
    obtain ⟨n, rfl⟩ : ∃ n', n = n' + 1 := ⟨n - 1, by omega⟩
    have hf : s.front = .ok t := (front_of_nil hs.tokens_eq).trans hend
    have ht : t.kind = .eof := by
      simpa [Token.isEof] using (TokenStream.isEof_upcoming s.stream).2 t hend
    obtain ⟨s₁, h₁, m₁⟩ := peekKind_of_front hf
    rw [functionsWithin, bind_of_ok h₁]
    simp only [ht]
    exact .goes hs.count_lt m₁
  | cons p ps ih =>
    obtain ⟨n, rfl⟩ : ∃ n', n = n' + 1 := ⟨n - 1, by omega⟩
    rw [List.forall_mem_cons] at hps
    obtain ⟨keyword, v, htext, hkeyword⟩ := hps.1.starts
    have hs : s.At (p.text ++ Passages.text ps) := hs
    have hs' : s.At (keyword :: (v ++ Passages.text ps)) := by
      rw [htext] at hs
      exact hs
    refine peekKind_bind hs' fun s₁ m₁ hs₁ => ?_
    simp only [hkeyword]
    have hs₁' : s₁.At (p.text ++ Passages.text ps) := by
      rw [htext]
      exact hs₁
    refine bind hs₁' (hps.1.yields s₁ _ _ hs₁') fun s₂ m₂ hs₂ => ?_
    have hend₂ : s₂.ending = .ok t := m₂.ending_eq.trans (m₁.ending_eq.trans hend)
    have hlen : s₂.tokens.length < n := by
      rw [hs.tokens_eq, htext] at hn
      rw [hs₂.tokens_eq]
      simp at hn
      omega
    refine cast (bind (show s₂.At (Passages.text ps ++ []) by simpa using hs₂)
      (ih n hps.2 hs₂ hend₂ hlen) fun s₃ _ hs₃ => ?_) (List.append_nil _) (List.append_nil _)
    rw [Passages.left_cons]
    exact pure hs₃

/-- What is read of functions one behind the other, up to the end of the input. -/
theorem read_yields {ps : Passages Func} (hps : ∀ p ∈ ps, Func.Reads p) (hs : s.At ps.text)
    (hend : s.ending = .ok t) (next : Token) :
    Yields s ps.text (ps.reports next) { functions := ps.left } (read s) := by
  refine emit_bind _ hs fun s₁ m₁ hs₁ => ?_
  rw [bind_of_ok (rounds_apply s₁)]
  have hfunctions := functionsWithin_yields _ hps hs₁ (m₁.ending_eq.trans hend)
    s₁.length_tokens_lt next
  exact cast (bind (show s₁.At (ps.text ++ []) by simpa using hs₁) hfunctions
    fun s₂ _ hs₂ => pure hs₂) (List.append_nil _) (List.append_nil _)

/-- A source whose tokens are read as functions gives the diagnostics that are due and the functions
that are left, unless the diagnostics reach the limit. -/
theorem ofSource_of_reads {file source : String} {ps : Passages Func} (next : Token)
    (hps : ∀ p ∈ ps, Func.Reads p) (htokens : tokenize file source = .ok (ps.text ++ [t])) :
    ((ps.reports next).length < maxErrors →
      (ofSource file source).diagnostics = ps.reports next ∧
        (ofSource file source).outcome = .ok { functions := ps.left }) ∧
      (maxErrors ≤ (ps.reports next).length →
        (ofSource file source).diagnostics = (ps.reports next).take maxErrors ∧
        ∃ e, (ofSource file source).outcome = .error e ∧ e.cause = .tooManyErrors maxErrors) := by
  obtain ⟨s, hm, hdiag, hout⟩ := ofSource_eq file source
  obtain ⟨htok, hend⟩ := (tokenize_eq_ok_iff file source ps.text t).1 htokens
  have hs₀ : (Session.ofSource file source).At ps.text := ⟨htok, show 0 < maxErrors by decide⟩
  have hs : s.At ps.text := hs₀.of_moves hm hs₀.count_lt
  have hcount : s.errorCount = 0 := hm.count_eq
  have hnone := diagnostics_of_moves hm
  have hread := read_yields hps hs (hm.ending_eq.trans hend) next
  rw [hdiag, hout]
  generalize read s = r at hread
  cases hread with
  | goes hlt hm' =>
    refine ⟨fun _ => ⟨?_, rfl⟩, fun hle => absurd hle (by omega)⟩
    rw [final_ok, hm'.diagnostics_eq, hnone, List.nil_append]
  | @stops e s' hle hc hd =>
    refine ⟨fun hlt => absurd hlt (by omega), fun _ => ⟨?_, e, rfl, hc⟩⟩
    rw [final_error, hd, hnone, hcount, List.nil_append, Nat.sub_zero]

end Program

/-! ## Sources of one line -/

/-- A token of a source `f` that is one line long. -/
def lineToken (kind : Kind) (text : String) : Token :=
  { kind, text, position := ⟨"f", 1⟩ }

/-- The tree of a word that stands alone. -/
def lineLeaf (word : String) : Expr :=
  .leaf (lineToken .identifier word)

theorem tree_lineLeaf (word : String) : Expr.Tree [lineToken .identifier word] (lineLeaf word) :=
  ⟨_, _, .leaf rfl rfl⟩

/-- The tokens of `iter (i := a; b, c) {`. -/
def lineHeader (counter : String) : List Token :=
  [lineToken .iter "iter", lineToken .openParen "(", lineToken .identifier counter,
   lineToken .define ":=", lineToken .identifier "a", lineToken .semicolon ";",
   lineToken .identifier "b", lineToken .comma ",", lineToken .identifier "c",
   lineToken .closeParen ")", lineToken .openCurly "\x7b"]

theorem Stmt.headerText_line (counter : String) :
    HeaderText Expr.Tree (lineHeader counter) fun body =>
      .iter counter (lineLeaf "a") (lineLeaf "b") (lineLeaf "c") body ⟨"f", 1⟩ :=
  @HeaderText.mk Expr.Tree (lineToken .iter "iter") (lineToken .openParen "(")
    (lineToken .identifier counter) (lineToken .define ":=") (lineToken .semicolon ";")
    (lineToken .comma ",") (lineToken .closeParen ")") (lineToken .openCurly "\x7b") _ _ _ _ _ _
    rfl rfl rfl rfl (tree_lineLeaf "a") rfl (tree_lineLeaf "b") rfl (tree_lineLeaf "c") rfl rfl

end FxLang
