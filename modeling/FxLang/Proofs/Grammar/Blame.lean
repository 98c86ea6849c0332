import FxLang.Proofs.Grammar.Verdict

/-!
# The earliest impossible token

The verdict on each rule of the grammar, from calls up to whole programs. A rule that reports
nothing has read a text that the grammar derives, and its value is the tree of the text. A rule that
reports something has blamed the earliest token that no sentence allows in its place.

* `Stmt.rule_verdict`, `Func.read_verdict`, `Program.read_verdict`: the verdict on statements,
  functions and programs.
* `Program.first_diagnostic_earliest`: the first diagnostic of a source is about the earliest token
  that no program has there.
* `Program.tree_of_clean`: a source without diagnostics is a program, and it was read as its tree.
-/

namespace FxLang

open Session Verdict

variable {L : Lang} {s : Session} {context : String}

/-! ## Words of every construct -/

namespace Lang

theorem Alive.call (h : Alive L) : Alive (Lang.call L) := by
  obtain ⟨v, hv⟩ := (h.tok .semicolon).tok .closeParen
  exact ⟨v, maybeListed_iff.2 (.inl hv)⟩

theorem Alive.named (h : Alive L) : Alive (Lang.named L) := (h.call.tok _).orLeft

theorem Alive.body (h : Alive L) : Alive (Lang.body L) := by
  obtain ⟨v, hv⟩ := h
  exact ⟨v, body_iff.2 (.inl hv)⟩

theorem Alive.block (h : Alive L) : Alive (Lang.block L) := (h.tok _).body

theorem Alive.stmt (h : Alive L) : Alive (Lang.stmt L) := by
  obtain ⟨v, hv⟩ := h.named.tok .identifier
  exact ⟨v, stmt_iff.2 (.inl hv)⟩

theorem Alive.params (h : Alive L) : Alive (Lang.params L) := by
  obtain ⟨v, hv⟩ := h.tok .closeParen
  exact ⟨v, maybeListed_iff.2 (.inl hv)⟩

theorem Alive.prog (h : Alive L) : Alive (Lang.prog L) := by
  obtain ⟨v, hv⟩ := h
  exact ⟨v, prog_iff.2 (.inl hv)⟩

end Lang

namespace Stmt

theorem unlessReported_of_clean {α : Type} {errors : Nat} (a : α) (h : s.errorCount = errors) :
    unlessReported errors a s = .ok (some a) s := by
  rw [unlessReported, bind_of_ok (countErrors_apply s), if_pos h]; rfl

/-- A header that came to its `)` is followed by a block. -/
theorem abandoned_of_closed {h : Header} (hc : h.closed.isSome = true) :
    abandoned h s = .ok false s := by
  rw [abandoned, if_pos hc]; rfl

theorem argumentsLost_of_clean {errors : Nat} (h : s.errorCount = errors) :
    argumentsLost errors s = .ok false s := by
  rw [argumentsLost, bind_of_ok (countErrors_apply s), if_pos h]; rfl

/-! ## Calls, assignments and declarations -/

theorem argument_verdict (hL : L.Alive) (hc : L.Closes) :
    Verdict (.expr L) L s (fun w r _ => ∃ e, r = some e ∧ Expr.Tree w e) (argument s) := by
  refine (expression_verdict hL hc).bind (by grind) fun w r s₁ _ hr => ?_
  obtain ⟨e, rfl, he⟩ := hr
  exact pure ⟨e, rfl, by simpa using he⟩

theorem argumentsWithin_verdict (n : Nat) (hL : L.Alive) (hn : s.tokens.length < n) :
    Verdict (.after (Listed Expr.Derives) (.tok .closeParen L)) (.tok .closeParen L) s
      (fun w es _ => Listed Expr.Tree w es) (argumentsWithin n s) := by
  induction n generalizing s with
  | zero => omega
  | succ n ih =>
    refine of_iff (fun v => Lang.listed_iff) ((argument_verdict (hL.tok _).orLeft
      (.or (.tok rfl (by simp)) (.tok rfl (by simp)))).bind (by grind) fun w r s₁ m₁ hr => ?_)
    obtain ⟨e, rfl, he⟩ := hr
    refine nextIs_ite (fun t s₂ m₂ hf ht => ?_) (fun t s₂ m₂ hf ht => ?_)
    · refine advance_bind hf (by simp [ht]) (fun v => ?_) fun s₃ m₃ => (ih ?_).bind (by grind) ?_
      · simp [Lang.or, ht]
      · have h₁ := m₁.tokens_length
        have h₂ := m₂.tokens_length
        have h₃ := m₃.tokens_length
        simp at h₂ h₃
        omega
      · exact fun w' es s₄ _ hes => pure (by simpa using Listed.more he ht hes)
    · refine of_front hf (fun v => .inl) (fun v hv => ?_) (pure ?_)
      · exact hv.resolve_right fun h => ht h.1
      · simpa using Listed.one he

theorem arguments_verdict (hL : L.Alive) :
    Verdict (.after (MaybeListed Expr.Derives) (.tok .closeParen L)) (.tok .closeParen L) s
      (fun w es _ => MaybeListed Expr.Tree w es) (arguments s) := by
  refine nextIs_ite (fun t s₁ _ hf ht => ?_) (fun t s₁ _ hf ht => ?_)
  · refine of_front hf (fun v hv => Lang.maybeListed_iff.2 (.inl hv)) (fun v hv => ?_)
      (pure (.inl ⟨rfl, rfl⟩))
    -- An expression does not start with `)`.
    refine (Lang.maybeListed_iff.1 hv).resolve_right fun h => ?_
    exact Expr.not_expr_of_ends (by simp [Token.endsExpression, ht]) v (Lang.listed_iff.1 h)
  · rw [bind_of_ok (rounds_apply s₁)]
    refine of_front hf (fun v hv => Lang.maybeListed_iff.2 (.inr hv))
      (fun v hv => (Lang.maybeListed_iff.1 hv).resolve_left fun h => ht h.1) ?_
    refine (argumentsWithin_verdict _ hL ?_).imp fun w es _ h => .inr h
    exact s₁.length_tokens_lt

theorem readCall_verdict (callee : Token) (hL : L.Alive) :
    Verdict (.call L) L s (fun w r _ => ∃ w' closed semicolon args, w = w' ++ [closed, semicolon] ∧
        MaybeListed Expr.Tree w' args ∧ closed.kind = .closeParen ∧ semicolon.kind = .semicolon ∧
        r = some (.call callee.text args callee.position)) (readCall callee s) := by
  refine emit_bind _ fun s₁ _ => ?_
  rw [bind_of_ok (countErrors_apply s₁)]
  refine (arguments_verdict (hL.tok _)).bind (by grind) fun w args s₂ m₂ hargs => ?_
  rw [bind_of_ok (argumentsLost_of_clean m₂.count_eq)]
  refine (expect (by simp) (hL.tok _)).bind (by grind) fun _ r s₃ m₃ hr => ?_
  obtain ⟨closed, rfl, rfl, hclosed⟩ := hr
  refine (expect (by simp) hL).bind (by grind) fun _ r s₄ m₄ hr => ?_
  obtain ⟨semicolon, rfl, rfl, hsemicolon⟩ := hr
  rw [unlessReported_of_clean _ ((m₂.trans_clean m₃).trans_clean m₄).count_eq]
  exact pure ⟨w, closed, semicolon, args, by simp, hargs, hclosed, hsemicolon, rfl⟩

theorem readAssignment_verdict (target : Token) (hL : L.Alive) :
    Verdict (.expr (.tok .semicolon L)) L s (fun w r _ => ∃ w' semicolon value,
        w = w' ++ [semicolon] ∧ Expr.Tree w' value ∧ semicolon.kind = .semicolon ∧
        r = some (.assign target.text value target.position)) (readAssignment target s) := by
  refine emit_bind _ fun s₁ _ => ?_
  rw [bind_of_ok (countErrors_apply s₁)]
  refine (expression_verdict (hL.tok _) (.tok rfl (by simp))).bind (by grind)
    fun w r s₂ m₂ hr => ?_
  obtain ⟨value, rfl, hvalue⟩ := hr
  refine (expect (by simp) hL).bind (by grind) fun _ r s₃ m₃ hr => ?_
  obtain ⟨semicolon, rfl, rfl, hsemicolon⟩ := hr
  rw [unlessReported_of_clean _ (m₂.trans_clean m₃).count_eq]
  exact pure ⟨w, semicolon, value, by simp, hvalue, hsemicolon, rfl⟩

/-- The next token is the type that a declaration starts with. -/
theorem readDeclaration_verdict {type : Token} {ty : TypeName} (hf : s.front = .ok type)
    (htype : Func.typeName? type.kind = some ty) (hL : L.Alive) :
    Verdict (.oneOf (fun k => k.isType = true) (.declared L)) L s
      (fun w r _ => ∃ t, r = some t ∧ Derives Expr.Tree w t) (readDeclaration s) := by
  have hk : type.kind.isType = true := Func.exists_typeName_iff.1 ⟨ty, htype⟩
  refine emit_bind _ fun s₁ m₁ => ?_
  rw [bind_of_ok (countErrors_apply s₁)]
  refine advance_bind (m₁.front_eq.trans hf) (by rintro h; simp [h, Kind.isType] at hk)
    (L := .declared L) (by simp [hk]) fun s₂ m₂ => ?_
  refine (expect (by simp) (hL.tok _)).bind (by grind) fun _ r s₃ m₃ hr => ?_
  obtain ⟨name, rfl, rfl, hname⟩ := hr
  refine (expect (by simp) hL).bind (by grind) fun _ r s₄ m₄ hr => ?_
  obtain ⟨semicolon, rfl, rfl, hsemicolon⟩ := hr
  rw [unlessReported_of_clean _ ((m₂.trans_clean m₃).trans_clean m₄).count_eq,
    Func.ite_of_typeName htype]
  exact pure ⟨_, rfl, .declare htype hname hsemicolon⟩

/-! ## Loops -/

/-- A piece of a header that is there, or the first that is not. -/
theorem headerToken_verdict {k : Kind} {expected : String} {markers : List Kind} (hk : k ≠ .eof)
    (hL : L.Alive) :
    Verdict (.tok k L) L s (fun w r _ => ∃ t, r = some t ∧ w = [t] ∧ t.kind = k)
      (headerToken k expected markers false s) := by
  refine nextIs_ite (fun t s₁ _ hf ht => ?_) (fun t s₁ _ hf ht => ?_)
  · exact advance_bind hf (by rwa [ht]) (by simp [ht]) fun s₂ _ => pure ⟨t, rfl, rfl, ht⟩
  · exact reportNext_bind (by grind) hf (hL.tok k) fun v hv => ht hv.1

theorem headerSection_verdict {k : Kind} {expected : String} {markers : List Kind} (hk : k ≠ .eof)
    (hL : L.Alive) (hc : L.Closes) :
    Verdict (.tok k (.expr L)) L s
      (fun w r _ => ∃ t w' e, r = some e ∧ w = t :: w' ∧ t.kind = k ∧ Expr.Tree w' e)
      (headerSection k expected markers false s) := by
  refine (headerToken_verdict hk hL.expr).bind (by grind) fun _ r s₁ _ hr => ?_
  obtain ⟨t, rfl, rfl, ht⟩ := hr
  refine (expression_verdict hL hc).bind (by grind) fun w r s₂ _ hr => ?_
  obtain ⟨e, rfl, he⟩ := hr
  exact pure ⟨t, w, e, rfl, by simp, ht, he⟩

/-- The tokens `w` behind the keyword of a loop, up to its `)`, are read as the header `h`. -/
def IsHeader (w : List Token) (h : Header) : Prop :=
  h.closed.isSome = true ∧ ∀ keyword brace : Token, keyword.kind = .iter →
    brace.kind = .openCurly → ∃ loop, HeaderText Expr.Tree (keyword :: (w ++ [brace])) loop ∧
      ∀ body, ofHeader? h body keyword.position = some (loop body)

theorem header_verdict (hL : L.Alive) :
    Verdict (.header L) (.tok .openCurly L) s (fun w h _ => IsHeader w h) (header s) := by
  have h₁ : (Lang.tok .closeParen (.tok .openCurly L)).Alive := (hL.tok _).tok _
  have h₂ : (Lang.tok .comma (.expr (.tok .closeParen (.tok .openCurly L)))).Alive := h₁.expr.tok _
  have h₃ := h₂.expr.tok .semicolon
  refine (headerToken_verdict (by simp) ((h₃.expr.tok _).tok _)).bind (by grind)
    fun _ r s₁ _ hr => ?_
  obtain ⟨opened, rfl, rfl, hopened⟩ := hr
  refine (headerToken_verdict (by simp) (h₃.expr.tok _)).bind (by grind) fun _ r s₂ _ hr => ?_
  obtain ⟨counter, rfl, rfl, hcounter⟩ := hr
  refine (headerSection_verdict (by simp) h₃ (.tok rfl (by simp))).bind (by grind)
    fun _ r s₃ _ hr => ?_
  obtain ⟨define, w₁, start, rfl, rfl, hdefine, hstart⟩ := hr
  refine (headerSection_verdict (by simp) h₂ (.tok rfl (by simp))).bind (by grind)
    fun _ r s₄ _ hr => ?_
  obtain ⟨semicolon, w₂, stop, rfl, rfl, hsemicolon, hstop⟩ := hr
  refine (headerSection_verdict (by simp) h₁ (.tok rfl (by simp))).bind (by grind)
    fun _ r s₅ _ hr => ?_
  obtain ⟨comma, w₃, step, rfl, rfl, hcomma, hstep⟩ := hr
  refine (headerToken_verdict (by simp) (hL.tok _)).bind (by grind) fun _ r s₆ _ hr => ?_
  obtain ⟨closed, rfl, rfl, hclosed⟩ := hr
  refine pure ⟨rfl, fun keyword brace hkeyword hbrace => ⟨_, ?_, fun body => rfl⟩⟩
  simpa using HeaderText.mk hkeyword hopened hcounter hdefine hstart hsemicolon hstop hcomma hstep
    hclosed hbrace

/-- The tokens `w` are a block with the statements `ts`. -/
def IsBlock (w : List Token) (ts : List Stmt) : Prop :=
  ∃ (opened closed : Token) (row : Row Stmt), opened.kind = .openCurly ∧
    closed.kind = .closeCurly ∧ (∀ p ∈ row, Derives Expr.Tree p.1 p.2) ∧
    w = opened :: (row.text ++ [closed]) ∧ ts = row.values

/-- The next token is the keyword of the loop. -/
theorem readLoop_verdict {block : String → ParseM (List Stmt)} {keyword : Token}
    (hf : s.front = .ok keyword) (hk : keyword.kind = .iter) (hL : L.Alive)
    (hgrows : ∀ c, Keeps Grows (block c))
    (hblock : ∀ s' : Session, s'.tokens.length < s.tokens.length →
      Verdict (.tok .openCurly (.block L)) L s' (fun w ts _ => IsBlock w ts)
        (block Context.iter s')) :
    Verdict (.tok .iter (.header (.block L))) L s
      (fun w r _ => ∃ t, r = some t ∧ Derives Expr.Tree w t) (readLoop block s) := by
  refine emit_bind _ fun s₁ m₁ => ?_
  rw [bind_of_ok (countErrors_apply s₁)]
  refine advance_bind (m₁.front_eq.trans hf) (by simp [hk]) (L := .header (.block L)) (by simp [hk])
    fun s₂ m₂ => ?_
  refine (header_verdict hL.block).bind (by grind) fun w h s₃ m₃ hh => ?_
  rw [bind_of_ok (abandoned_of_closed hh.1)]
  have hlen : s₃.tokens.length < s.tokens.length := by
    have h₁ := m₁.tokens_length
    have h₂ := m₂.tokens_length
    have h₃ := m₃.tokens_length
    simp at h₁ h₂
    omega
  refine (hblock s₃ hlen).bind (by grind) fun w' body s₄ m₄ hbody => ?_
  obtain ⟨opened, closed, row, hopened, hclosed, hrow, rfl, rfl⟩ := hbody
  obtain ⟨loop, hloop, hof⟩ := hh.2 keyword opened hk hopened
  rw [bind_of_ok (unlessReported_of_clean _ ((m₂.trans_clean m₃).trans_clean m₄).count_eq), hof]
  refine pure ⟨loop row.values, rfl, ?_⟩
  simpa using Derives.iter hloop hrow hclosed

/-! ## Statements and blocks -/

theorem Derives.ne_nil {E : List Token → Expr → Prop} {w : List Token} {t : Stmt}
    (h : Derives E w t) : w ≠ [] := by
  cases h with
  | iter hh => cases hh; simp
  | _ => simp

theorem rule_verdict {block : String → ParseM (List Stmt)} (hL : L.Alive)
    (hgrows : ∀ c, Keeps Grows (block c))
    (hblock : ∀ s' : Session, s'.tokens.length < s.tokens.length →
      Verdict (.tok .openCurly (.block L)) L s' (fun w ts _ => IsBlock w ts)
        (block Context.iter s')) :
    Verdict (.stmt L) L s (fun w r _ => ∃ t, r = some t ∧ Derives Expr.Tree w t)
      (rule block s) := by
  refine emit_bind _ fun s₁ m₁ => peekKind_bind fun t s₂ m₂ hf => ?_
  have hlen : s₂.tokens.length = s.tokens.length := by
    rw [(m₁.trans_clean m₂).tokens_length]; simp
  have hdeclare (ty : TypeName) (hty : Func.typeName? t.kind = some ty) :
      Verdict (.stmt L) L s₂ (fun w r _ => ∃ t, r = some t ∧ Derives Expr.Tree w t)
        (readDeclaration s₂) := by
    have hk := Func.exists_typeName_iff.1 ⟨ty, hty⟩
    refine of_front hf (fun v hv => Lang.stmt_iff.2 (.inr (.inl hv))) (fun v hv => ?_)
      (readDeclaration_verdict hf hty hL)
    rcases Lang.stmt_iff.1 hv with h | h | h
    · rw [Lang.tok_cons] at h; simp [h.1, Kind.isType] at hk
    · exact h
    · rw [Lang.tok_cons] at h; simp [h.1, Kind.isType] at hk
  split
  next hk =>
    refine advance_bind hf (by simp [hk]) (L := .named L) (fun v => ?_) fun s₃ _ => ?_
    · simp [Lang.stmt_iff, hk, Kind.isType]
    refine peekKind_bind fun o s₄ _ ho => ?_
    split
    next hok =>
      refine advance_bind ho (by simp [hok]) (L := .call L) (by simp [Lang.named, Lang.or, hok])
        fun s₅ _ => (readCall_verdict t hL).imp ?_
      rintro _ _ _ ⟨w, closed, semicolon, args, rfl, hargs, hclosed, hsemicolon, rfl⟩
      exact ⟨_, rfl, .call hk hok hargs hclosed hsemicolon⟩
    next hok =>
      refine advance_bind ho (by simp [hok]) (L := .expr (.tok .semicolon L))
        (by simp [Lang.named, Lang.or, hok]) fun s₅ _ => (readAssignment_verdict t hL).imp ?_
      rintro _ _ _ ⟨w, semicolon, value, rfl, hvalue, hsemicolon, rfl⟩
      exact ⟨_, rfl, .assign hk hok hvalue hsemicolon⟩
    next h₁ h₂ =>
      refine reportNext_bind (by grind) ho hL.named (fun v hv => ?_)
      rcases hv with hv | hv
      · exact h₁ hv.1
      · exact h₂ hv.1
  next hk => exact hdeclare .int (by rw [hk]; rfl)
  next hk => exact hdeclare .bool (by rw [hk]; rfl)
  next hk =>
    refine of_front hf (fun v hv => Lang.stmt_iff.2 (.inr (.inr hv))) (fun v hv => ?_)
      (readLoop_verdict hf hk hL hgrows (by rwa [hlen]))
    simpa [Lang.stmt_iff, hk, Kind.isType] using hv
  next h₁ h₂ h₃ h₄ =>
    refine reportNext_bind (by grind) hf hL.stmt (fun v hv => ?_)
    rcases Lang.stmt_iff.1 hv with h | h | h
    · exact h₁ h.1
    · have hk := h.1
      revert hk h₂ h₃
      cases t.kind <;> simp [Kind.isType]
    · exact h₄ h.1

theorem bodyWithin_verdict {stmt : ParseM (Option Stmt)} (n : Nat) (hL : L.Alive)
    (hgrows : Keeps Grows stmt) (hn : s.tokens.length < n)
    (hstmt : ∀ (s' : Session) (L : Lang), L.Alive → s'.tokens.length ≤ s.tokens.length →
      Verdict (.stmt L) L s' (fun w r _ => ∃ t, r = some t ∧ Derives Expr.Tree w t) (stmt s')) :
    Verdict (.block L) (.tok .closeCurly L) s
      (fun w ts _ => ∃ row : Row Stmt, (∀ p ∈ row, Derives Expr.Tree p.1 p.2) ∧ w = row.text ∧
        ts = row.values) (bodyWithin stmt context n s) := by
  induction n generalizing s with
  | zero => omega
  | succ n ih =>
    refine peekKind_bind fun t s₁ m₁ hf => ?_
    have hlen₁ : s₁.tokens.length = s.tokens.length := by
      rw [m₁.tokens_length]; simp
    split
    next hk =>
      refine of_front hf (fun v hv => Lang.body_iff.2 (.inl hv)) (fun v hv => ?_)
        (pure ⟨[], by simp, rfl, rfl⟩)
      refine (Lang.body_iff.1 hv).resolve_right fun h => ?_
      simp [Lang.stmt_iff, hk, Kind.isType] at h
    next hk =>
      refine reportNext_bind (by grind) hf hL.block (fun v hv => ?_)
      rcases Lang.body_iff.1 hv with h | h
      · rw [Lang.tok_cons, hk] at h; cases h.1
      · simp [Lang.stmt_iff, hk, Kind.isType] at h
    next hcurly _ =>
      refine of_front hf (fun v hv => Lang.body_iff.2 (.inr hv)) (fun v hv => ?_)
        ((hstmt s₁ _ hL.block (by omega)).bind (by grind) fun w r s₂ m₂ hr => ?_)
      · exact (Lang.body_iff.1 hv).resolve_left fun h => hcurly h.1
      · obtain ⟨t, rfl, ht⟩ := hr
        have hlen₂ := m₂.tokens_length
        have hpos := List.length_pos_iff.2 ht.ne_nil
        refine (ih (by omega) fun s' L' hL' h => hstmt s' L' hL' (by omega)).bind (by grind)
          fun _ ts s₃ _ hts => ?_
        obtain ⟨row, hrow, rfl, rfl⟩ := hts
        exact pure ⟨(w, t) :: row, List.forall_mem_cons.2 ⟨ht, hrow⟩, by simp, rfl⟩

theorem blockOf_verdict {stmt : ParseM (Option Stmt)} (hL : L.Alive) (hgrows : Keeps Grows stmt)
    (hstmt : ∀ (s' : Session) (L : Lang), L.Alive → s'.tokens.length ≤ s.tokens.length →
      Verdict (.stmt L) L s' (fun w r _ => ∃ t, r = some t ∧ Derives Expr.Tree w t) (stmt s')) :
    Verdict (.tok .openCurly (.block L)) L s (fun w ts _ => IsBlock w ts)
      (blockOf stmt context s) := by
  refine (expect (by simp) hL.block).bind (by grind) fun _ r s₁ m₁ hr => ?_
  obtain ⟨opened, rfl, rfl, hopened⟩ := hr
  have hlen₁ := m₁.tokens_length
  have hbody : Verdict (.block L) (.tok .closeCurly L) s₁
      (fun w ts _ => ∃ row : Row Stmt, (∀ p ∈ row, Derives Expr.Tree p.1 p.2) ∧ w = row.text ∧
        ts = row.values) (bodyOf stmt context s₁) := by
    refine emit_bind _ fun s₂ m₂ => ?_
    have hlen₂ := m₂.tokens_length
    simp at hlen₁ hlen₂
    rw [bind_of_ok (rounds_apply s₂)]
    exact bodyWithin_verdict _ hL hgrows
      s₂.length_tokens_lt
      fun s' L' hL' h => hstmt s' L' hL' (by omega)
  refine hbody.bind (by grind) fun _ ts s₂ m₂ hts => ?_
  obtain ⟨row, hrow, rfl, rfl⟩ := hts
  refine (expect (by simp) hL).bind (by grind) fun _ r s₃ _ hr => ?_
  obtain ⟨closed, rfl, rfl, hclosed⟩ := hr
  exact pure ⟨opened, closed, row, hopened, hclosed, hrow, by simp, rfl⟩

theorem readWithin_verdict (n : Nat) (hL : L.Alive) (hn : s.tokens.length < n) :
    Verdict (.stmt L) L s (fun w r _ => ∃ t, r = some t ∧ Derives Expr.Tree w t)
      (readWithin n s) := by
  induction n generalizing s L with
  | zero => omega
  | succ n ih =>
    refine rule_verdict hL (by grind) fun s' hs' => ?_
    exact blockOf_verdict hL (by grind) fun s'' L' hL' h => ih hL' (by omega)

theorem block_verdict (hL : L.Alive) :
    Verdict (.tok .openCurly (.block L)) L s (fun w ts _ => IsBlock w ts) (block context s) := by
  refine blockOf_verdict hL (by grind) fun s' L' hL' _ => ?_
  exact readWithin_verdict _ hL' s'.length_tokens_lt

end Stmt

/-! ## Functions -/

theorem Lang.param_iff {v : List Token} : Lang.after Param.Derives L v ↔
    Lang.oneOf (fun k => k.isType = true) (.tok .identifier L) v := by
  constructor
  · rintro ⟨w, z, p, rfl, ⟨htype, hname⟩, hz⟩
    exact ⟨Func.exists_typeName_iff.1 ⟨_, htype⟩, hname, hz⟩
  · intro h
    match v, h with
    | type :: name :: z, ⟨ht, hname, hz⟩ =>
      obtain ⟨ty, hty⟩ := Func.exists_typeName_iff.2 ht
      exact ⟨[type, name], z, _, rfl, .mk hty hname, hz⟩

namespace Func

theorem parametersWithin_verdict (n : Nat) (hL : L.Alive) (hn : s.tokens.length < n) :
    Verdict (.after (Listed Param.Derives) (.tok .closeParen L)) (.tok .closeParen L) s
      (fun w r _ => ∃ ps, r = some ps ∧ Listed Param.Derives w ps) (parametersWithin n s) := by
  induction n generalizing s with
  | zero => omega
  | succ n ih =>
    -- What may stand behind the name of a parameter.
    have hrest : (Lang.or (.tok .closeParen L)
        (.tok .comma (.after (Listed Param.Derives) (.tok .closeParen L)))).Alive :=
      (hL.tok _).orLeft
    refine of_iff (fun v => Lang.listed_iff.trans Lang.param_iff) ?_
    refine peekKind_bind fun t s₁ m₁ hf => ?_
    split
    next hty =>
      refine reportNext_bind (by grind) hf ((hrest.tok _).oneOf (k := .int) rfl) (fun v hv => ?_)
      obtain ⟨ty, hty'⟩ := exists_typeName_iff.2 hv.1
      rw [hty] at hty'; cases hty'
    next ty hty =>
      have ht := exists_typeName_iff.1 ⟨ty, hty⟩
      refine advance_bind hf (by intro h; simp [h, Kind.isType] at ht)
        (fun v => ⟨fun hv => hv.2, fun hv => ⟨ht, hv⟩⟩) fun s₂ m₂ => ?_
      refine (expect (by simp) hrest).bind (by grind) fun _ r s₃ m₃ hr => ?_
      obtain ⟨name, rfl, rfl, hname⟩ := hr
      have hone : Param.Derives [t, name] { type := ty, name := name.text } := .mk hty hname
      refine peekKind_bind fun c s₄ m₄ hc => ?_
      have hno (hcomma : c.kind ≠ .comma) (hclose : c.kind ≠ .closeParen) (v : List Token) :
          ¬ Lang.or (.tok .closeParen L)
            (.tok .comma (.after (Listed Param.Derives) (.tok .closeParen L))) (c :: v) := by
        simp [Lang.or, hcomma, hclose]
      split
      next hk =>
        refine advance_bind hc (by simp [hk]) (fun v => ?_) fun s₅ m₅ => (ih ?_).bind (by grind) ?_
        · simp [Lang.or, hk]
        · have h₁ := m₁.tokens_length
          have h₂ := m₂.tokens_length
          have h₃ := ((m₂.trans_clean m₃).trans_clean (m₄.trans_clean m₅)).tokens_length
          simp at h₁ h₃
          omega
        · rintro w' _ s₆ _ ⟨ps, rfl, hps⟩
          exact pure ⟨_, rfl, by simpa using Listed.more hone hk hps⟩
      next hk => exact reportNext_bind (by grind) hc hrest (hno (by simp [hk]) (by simp [hk]))
      next hk => exact reportNext_bind (by grind) hc hrest (hno (by simp [hk]) (by simp [hk]))
      next hk => exact reportNext_bind (by grind) hc hrest (hno (by simp [hk]) (by simp [hk]))
      next hcomma _ _ _ =>
        refine of_front hc (fun v => .inl) (fun v hv => ?_) (pure ?_)
        · exact hv.resolve_right fun h => hcomma h.1
        · exact ⟨_, rfl, .one hone⟩

theorem parameterList_verdict (hL : L.Alive) :
    Verdict (.params L) L s (fun w r _ => ∃ w' closed ps, r = some ps ∧ w = w' ++ [closed] ∧
      MaybeListed Param.Derives w' ps ∧ closed.kind = .closeParen) (parameterList s) := by
  refine emit_bind _ fun s₁ _ => nextIs_ite (fun t s₂ m₂ hf ht => ?_) (fun t s₂ m₂ hf ht => ?_)
  · refine advance_bind hf (by simp [ht]) (L := L) (fun v => ?_) fun s₃ _ => ?_
    · -- A parameter does not start with `)`.
      simp [Lang.params, Lang.maybeListed_iff, Lang.listed_iff, Lang.param_iff, ht, Kind.isType]
    · exact pure ⟨[], t, [], rfl, rfl, .inl ⟨rfl, rfl⟩, ht⟩
  · have hparams : Verdict (.params L) (.tok .closeParen L) s₂
        (fun w r _ => ∃ ps, r = some ps ∧ Listed Param.Derives w ps) (parameters s₂) := by
      refine emit_bind _ fun s₃ m₃ => ?_
      rw [bind_of_ok (rounds_apply s₃)]
      refine of_front (m₃.front_eq.trans hf) (fun v hv => Lang.maybeListed_iff.2 (.inr hv))
        (fun v hv => (Lang.maybeListed_iff.1 hv).resolve_left fun h => ht h.1) ?_
      exact parametersWithin_verdict _ hL
        s₃.length_tokens_lt
    refine hparams.bind (by grind) fun w r s₃ _ hr => ?_
    obtain ⟨ps, rfl, hps⟩ := hr
    have hlost : listLost (some ps) s₃ = .ok false s₃ := rfl
    rw [bind_of_ok hlost]
    refine (expect (by simp) hL).bind (by grind) fun _ r s₄ _ hr => ?_
    obtain ⟨closed, rfl, rfl, hclosed⟩ := hr
    exact pure ⟨w, closed, ps, rfl, by simp, .inr hps, hclosed⟩

/-- The tokens `w` in front of the body of a function are read as the signature `sig`. -/
def IsSignature (w : List Token) (sig : Signature) : Prop :=
  ∃ (keyword name opened closed : Token) (w' : List Token), keyword.kind = .func ∧
    (name.kind = .identifier ∨ name.kind = .mainWord) ∧ opened.kind = .openParen ∧
    MaybeListed Param.Derives w' sig.params ∧ closed.kind = .closeParen ∧
    w = keyword :: name :: opened :: (w' ++ [closed]) ∧ sig.name = name.text ∧
    sig.position = keyword.position

theorem signatureFrom_verdict (position : Position) (name : Token) (hL : L.Alive) :
    Verdict (.tok .openParen (.params L)) L s
      (fun w r _ => ∃ opened w' closed ps, r = some { name := name.text, params := ps, position } ∧
        w = opened :: (w' ++ [closed]) ∧ opened.kind = .openParen ∧
        MaybeListed Param.Derives w' ps ∧ closed.kind = .closeParen)
      (signatureFrom position (some name) s) := by
  refine (expect (by simp) hL.params).bind (by grind) fun _ r s₁ _ hr => ?_
  obtain ⟨opened, rfl, rfl, hopened⟩ := hr
  refine (parameterList_verdict hL).bind (by grind) fun _ r s₂ _ hr => ?_
  obtain ⟨w', closed, ps, rfl, rfl, hps, hclosed⟩ := hr
  exact pure ⟨opened, w', closed, ps, rfl, by simp, hopened, hps, hclosed⟩

theorem signature_verdict (hL : L.Alive) :
    Verdict (.tok .func (.signature L)) (.tok .openCurly (.block L)) s
      (fun w r _ => ∃ sig, r = some sig ∧ IsSignature w sig) (signature s) := by
  have hlist := (hL.block.tok .openCurly).params.tok .openParen
  have hname : (Lang.signature L).Alive := hlist.oneOf (k := .identifier) (.inl rfl)
  refine emit_bind _ fun s₁ _ => peek_bind fun keyword s₂ m₂ hf => ?_
  refine (expect (by simp) hname).bind (by grind) fun _ r s₃ m₃ hr => ?_
  obtain ⟨keyword', rfl, rfl, hkeyword⟩ := hr
  obtain rfl : keyword' = keyword := by
    have := front_of_tokens m₃.tokens_eq
    rw [hf] at this
    cases this
    rfl
  refine peekKind_bind fun name s₄ _ hf₄ => ?_
  have hfrom (hk : name.kind = .identifier ∨ name.kind = .mainWord) :
      Verdict (.signature L) (.tok .openCurly (.block L)) s₄
        (fun w r _ => ∃ sig, r = some sig ∧ IsSignature ([keyword'] ++ w) sig)
        ((advance >>= fun name => signatureFrom keyword'.position (some name)) s₄) := by
    refine advance_bind hf₄ (by rintro h; simp [h] at hk) (fun v =>
      ⟨fun hv => hv.2, fun hv => ⟨hk, hv⟩⟩) fun s₅ _ =>
        (signatureFrom_verdict _ name (hL.block.tok _)).imp ?_
    rintro _ _ _ ⟨opened, w', closed, ps, rfl, rfl, hopened, hps, hclosed⟩
    exact ⟨_, rfl, keyword', name, opened, closed, w', hkeyword, hk, hopened, hps, hclosed,
      by simp, rfl, rfl⟩
  split
  next hk => exact hfrom (.inl hk)
  next hk => exact hfrom (.inr hk)
  next h₁ h₂ => exact reportNext_bind (by grind) hf₄ hname (fun v hv => hv.1.elim h₁ h₂)

theorem Derives.ne_nil {E : List Token → Expr → Prop} {w : List Token} {f : Func}
    (h : Derives E w f) : w ≠ [] := by
  cases h; simp

theorem read_verdict (hL : L.Alive) :
    Verdict (.func L) L s (fun w r _ => ∃ f, r = some f ∧ Derives Expr.Tree w f) (read s) := by
  refine of_iff (fun v => Lang.func_iff) (emit_bind _ fun s₁ _ => ?_)
  refine (signature_verdict hL).bind (by grind) fun _ r s₂ _ hr => ?_
  obtain ⟨sig, rfl, keyword, name, opened, closed, w, hkeyword, hname, hopened, hps, hclosed, rfl,
    hsname, hspos⟩ := hr
  refine (Stmt.block_verdict hL).bind (by grind) fun _ body s₃ _ hbody => ?_
  obtain ⟨brace, brace', row, hbrace, hbrace', hrow, rfl, rfl⟩ := hbody
  refine pure ⟨_, rfl, ?_⟩
  simpa [hsname, hspos] using Derives.mk hkeyword hname hopened hps hclosed hbrace hrow hbrace'

end Func

/-! ## Programs -/

namespace Program

/-- The end of the input, and nothing behind it. -/
def atEnd : Lang := .tok .eof (· = [])

theorem atEnd_iff {v : List Token} : atEnd v ↔ ∃ t, v = [t] ∧ t.kind = .eof := by
  cases v with
  | nil => simp [atEnd]
  | cons t v =>
    simp only [atEnd, Lang.tok_cons, List.cons.injEq]
    constructor
    · rintro ⟨ht, hv⟩
      exact ⟨t, ⟨rfl, hv⟩, ht⟩
    · rintro ⟨t, ⟨rfl, hv⟩, ht⟩
      exact ⟨ht, hv⟩

theorem atEnd_alive : atEnd.Alive :=
  Lang.Alive.tok (L := (· = [])) ⟨[], rfl⟩ .eof

theorem functionsWithin_verdict (n : Nat) (hn : s.tokens.length < n) :
    Verdict (.prog atEnd) atEnd s
      (fun w fs s' => (∃ row : Row Func, (∀ p ∈ row, Func.Derives Expr.Tree p.1 p.2) ∧
        w = row.text ∧ fs = row.values) ∧ s'.tokens = [] ∧ ∃ t, s'.ending = .ok t)
      (functionsWithin n s) := by
  induction n generalizing s with
  | zero => omega
  | succ n ih =>
    refine peekKind_bind fun t s₁ m₁ hf => ?_
    have hlen₁ := m₁.tokens_length
    split
    next hk =>
      obtain ⟨htokens, hending⟩ := tokens_of_front_eof hf hk
      refine of_front hf (fun v hv => Lang.prog_iff.2 (.inl hv)) (fun v hv => ?_)
        (pure ⟨⟨[], by simp, rfl, rfl⟩, htokens, t, hending⟩)
      refine (Lang.prog_iff.1 hv).resolve_right fun h => ?_
      simp [Lang.func_iff, hk] at h
    next hk =>
      refine of_front hf (fun v hv => Lang.prog_iff.2 (.inr hv)) (fun v hv => ?_)
        ((Func.read_verdict atEnd_alive.prog).bind (by grind) fun w r s₂ m₂ hr => ?_)
      · refine (Lang.prog_iff.1 hv).resolve_left fun h => ?_
        simp [atEnd, hk] at h
      · obtain ⟨f, rfl, hfunc⟩ := hr
        have hlen₂ := m₂.tokens_length
        have hpos := List.length_pos_iff.2 hfunc.ne_nil
        refine (ih (by simp at hlen₁; omega)).bind (by grind) fun _ fs s₃ _ hfs => ?_
        obtain ⟨⟨row, hrow, rfl, rfl⟩, hend⟩ := hfs
        exact pure ⟨⟨(w, f) :: row, List.forall_mem_cons.2 ⟨hfunc, hrow⟩, by simp, rfl⟩, hend⟩
    next h₁ h₂ =>
      refine reportNext_bind (by grind) hf atEnd_alive.prog (fun v hv => ?_)
      rcases Lang.prog_iff.1 hv with h | h
      · exact h₁ h.1
      · exact h₂ (Lang.func_iff.1 h).1

theorem read_verdict :
    Verdict (.prog atEnd) atEnd s (fun w p s' => Program.Tree w p ∧ s'.tokens = [] ∧
      ∃ t, s'.ending = .ok t) (read s) := by
  refine emit_bind _ fun s₁ m₁ => ?_
  rw [bind_of_ok (rounds_apply s₁)]
  refine (functionsWithin_verdict _ s₁.length_tokens_lt).bind (by grind)
    fun _ fs s₂ _ hfs => ?_
  obtain ⟨⟨row, hrow, rfl, rfl⟩, hend⟩ := hfs
  exact pure ⟨⟨row, hrow, by simp, rfl⟩, hend⟩

/-! ## Whole sources -/

/-- A token behind some others, in the list of all tokens with the end of the input. -/
theorem exists_eq_of_behind {u : List Token} {t x : Token} (hu : u <+: s.tokens)
    (hx : s.behind u = .ok x) (ht : s.ending = .ok t) : ∃ z, s.tokens ++ [t] = u ++ x :: z := by
  obtain ⟨r, hr⟩ := hu
  unfold behind at hx
  rw [← hr, List.drop_left] at hx
  cases r with
  | nil =>
    rw [ht] at hx
    cases hx
    exact ⟨[], by rw [← hr, List.append_nil]⟩
  | cons a r =>
    cases hx
    exact ⟨r ++ [t], by rw [← hr]; simp⟩

section
variable {α : Type} {D : List Token → α → Prop} {w u v : List Token} {t x : Token}

theorem after_atEnd_iff : Lang.after D atEnd (w ++ [t]) ↔ t.isEof = true ∧ ∃ a, D w a := by
  constructor
  · rintro ⟨w', z, a, hz, ha, hend⟩
    obtain ⟨t', rfl, ht⟩ := atEnd_iff.1 hend
    obtain ⟨rfl, h⟩ := List.append_inj' hz rfl
    cases h
    exact ⟨by simp [Token.isEof, ht], a, ha⟩
  · rintro ⟨ht, a, ha⟩
    exact ⟨w, [t], a, rfl, ha, by simpa [Token.isEof] using ht, rfl⟩

/-- What starts a text with its end of the input, and has not come to the end, starts a text. -/
theorem exists_of_after_atEnd (h : Lang.after D atEnd (u ++ v))
    (hu : ∀ t ∈ u, t.isEof = false) : ∃ v' a, D (u ++ v') a := by
  rcases List.eq_nil_or_concat v with rfl | ⟨v', t, rfl⟩
  · obtain ⟨w, z, a, hz, ha, hend⟩ := h
    obtain ⟨t, rfl, ht⟩ := atEnd_iff.1 hend
    have hmem : t ∈ u := by
      rw [← List.append_nil u, hz]
      simp
    have := hu t hmem
    simp [Token.isEof, ht] at this
  · rw [List.concat_eq_append, ← List.append_assoc] at h
    exact ⟨v', (after_atEnd_iff.1 h).2⟩

/-- The earliest token that no text of the language allows, as a place in the list of all tokens. -/
theorem exists_index_of_blames (h : Blames (.after D atEnd) s x) (hend : s.ending = .ok t) :
    ∃ k, (s.tokens ++ [t])[k]? = some x ∧ (∃ v a, D ((s.tokens ++ [t]).take k ++ v) a) ∧
      ∀ ts eof, (∃ a, D ts a) → eof.isEof = true →
        ¬ (s.tokens ++ [t]).take (k + 1) <+: ts ++ [eof] := by
  obtain ⟨u, hu, hbehind, ⟨v, hv⟩, hnot⟩ := h
  obtain ⟨z, hz⟩ := exists_eq_of_behind hu hbehind hend
  rw [hz]
  refine ⟨u.length, by simp, ?_, fun ts eof hts heof hpre => ?_⟩
  · rw [List.take_left]
    exact exists_of_after_atEnd hv fun a ha =>
      (TokenStream.isEof_upcoming s.stream).1 a (hu.subset ha)
  · have hsplit : (u ++ x :: z).take (u.length + 1) = u ++ [x] := List.take_length_add_append 1
    rw [hsplit] at hpre
    obtain ⟨v', hv'⟩ := hpre
    have hword := after_atEnd_iff.2 ⟨heof, hts⟩
    rw [← hv', List.append_assoc] at hword
    exact hnot v' hword

end

/-- Where the tokens come to the end of the input, the first diagnostic blames the earliest token
that no program allows. -/
theorem blames_of_diagnostics {t : Token} {d : Diagnostic} {more : List Diagnostic}
    (hs : s.diagnostics = []) (hend : s.ending = .ok t)
    (hd : (final (read s)).diagnostics = d :: more) : Blames (.prog atEnd) s d.found := by
  have hv := read_verdict (s := s)
  generalize read s = r at hv hd
  cases hv with
  | reads hm =>
    rw [final_ok, hm.diagnostics_eq, hs] at hd
    cases hd
  | breaks he => rw [hend] at he; cases he
  | blames ha hb =>
    rcases ha with ⟨d', more', hd', rfl⟩ | ⟨e, s', rfl, hd', -⟩
    · rw [hs, hd] at hd'
      cases hd'
      exact hb
    · rw [final_error, hd', hs] at hd
      cases hd

/-- The first diagnostic of a source is about its earliest impossible token: what stands in front of
the token starts a program, and no program, with the end of the input behind it, starts with the
token as well. -/
theorem first_diagnostic_earliest (file source : String) (T : List Token) (d : Diagnostic)
    (more : List Diagnostic) (htokens : tokenize file source = .ok T)
    (hd : (ofSource file source).diagnostics = d :: more) :
    ∃ k, T[k]? = some d.found ∧ (∃ v, Sentence (T.take k ++ v)) ∧
      ∀ ts eof, Sentence ts → eof.isEof = true → ¬ T.take (k + 1) <+: ts ++ [eof] := by
  obtain ⟨t, hend, rfl⟩ := (TokenStream.toList_eq_ok_iff _ _).1 htokens
  obtain ⟨s, hm, hdiag, -⟩ := ofSource_eq file source
  have hsend : s.ending = .ok t := hm.ending_eq.trans hend
  have hstokens : (TokenStream.ofSource file source).tokens = s.tokens := hm.tokens_eq
  rw [hdiag] at hd
  rw [hstokens]
  exact exists_index_of_blames (blames_of_diagnostics (diagnostics_of_moves hm) hsend hd) hsend

/-- In `func g ;` the `;` is blamed. -/
theorem first_diagnostic_earliest_semicolon :
    ∃ T, tokenize "f" "func g ;" = .ok T ∧
      ∃ k, T[k]? = some { kind := .semicolon, text := ";", position := ⟨"f", 1⟩ } ∧
        (∃ v, Sentence (T.take k ++ v)) ∧
        ∀ ts eof, Sentence ts → eof.isEof = true → ¬ T.take (k + 1) <+: ts ++ [eof] := by
  refine ⟨_, rfl, ?_⟩
  exact first_diagnostic_earliest "f" "func g ;" _
    { expected := "'('", context := Context.functionDeclaration,
      found := { kind := .semicolon, text := ";", position := ⟨"f", 1⟩ } } [] rfl
    (by decide +kernel)

/-- A source that is read without diagnostics is a program, and it is read as its tree. -/
theorem tree_of_clean {file source : String} {p : Program}
    (hd : (ofSource file source).diagnostics = []) (ho : (ofSource file source).outcome = .ok p) :
    ∃ ts t, tokenize file source = .ok (ts ++ [t]) ∧ t.isEof = true ∧ Tree ts p := by
  obtain ⟨s, hm, hdiag, hout⟩ := ofSource_eq file source
  rw [hdiag] at hd
  rw [hout] at ho
  have hs := diagnostics_of_moves hm
  have hv := read_verdict (s := s)
  generalize read s = r at hv hd ho
  cases r with
  | error e s' => cases ho
  | ok a s' =>
    cases ho
    obtain ⟨w, hm', -, hp, hnil, t, hend⟩ := hv.reads_of_clean (hd.trans hs.symm)
    have hall := hm.trans_clean hm'
    have htokens : (Session.ofSource file source).tokens = w := by
      simpa [hnil] using hall.tokens_eq
    have hending : (Session.ofSource file source).ending = .ok t := hall.ending_eq ▸ hend
    refine ⟨w, t, (tokenize_eq_ok_iff file source w t).2 ⟨htokens, hending⟩, ?_, hp⟩
    exact (TokenStream.isEof_upcoming _).2 t hending

end Program

end FxLang
