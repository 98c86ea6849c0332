import FxLang.Proofs.Session.Course
import FxLang.Proofs.Session.Tally

/-!
# An aborted session depends on nothing behind the place where it was given up

Every parser of the library is in tandem with itself, whatever the rounds: it takes a token in every
round of a loop, and it reports and trips over nothing but the token it read last.
-/

namespace FxLang

open Session Tandem

variable {m n n' : Nat} {o : Sight} {context : String}

/-! ## Expressions -/

namespace Expr

variable {table : Bindings} {read read' : Reader} {least : BindingPower}

/-- The readers are in tandem wherever fewer than `m` characters are to come. -/
def ReadTandem (m : Nat) (read read' : Reader) : Prop :=
  ∀ k, k ≤ m → ∀ least, Tandem k .nothing (read least) (read' least) k

theorem ReadTandem.mono {k : Nat} (h : ReadTandem k read read') (hm : m ≤ k) :
    ReadTandem m read read' :=
  fun j hj => h j (Nat.le_trans hj hm)

theorem ReadTandem.shrinks (h : ReadTandem m read read') (least : BindingPower) :
    Keeps Shrinks (read least) :=
  fun s => (h m (Nat.le_refl m) least).shrinks s trivial

theorem operandOf_tandem (hr : ReadTandem m read read') (operator : Token) :
    Tandem m o (operandOf read operator least) (operandOf read' operator least) m := by
  refine .bind (.forget (hr m (Nat.le_refl m) least)) fun e => ?_
  cases e with
  | none => exact .look fun found _ => .trip rfl rfl
  | some e => exact .pure e

theorem group_tandem (hr : ReadTandem m read read') : Tandem m o (group read) (group read') m := by
  refine .bind (.forget (hr m (Nat.le_refl m) .lowest)) fun e => ?_
  refine .look fun close _ => .ite ?_ ?_
  · intro hk
    refine take_same (by simp [hk]) ?_
    cases e with
    | none => exact .trip rfl rfl
    | some e => exact .pure e
  · intro _
    exact .trip rfl rfl

theorem operandFrom_tandem (hr : ReadTandem m read read') (role : Nud) (t : Token) :
    Tandem m o (operandFrom table read role t) (operandFrom table read' role t) m := by
  cases role with
  | primary => exact .pure _
  | unary => exact .bind (operandOf_tandem hr t) fun _ => .pure _
  | grouping => exact group_tandem hr

theorem climb_tandem (hr : ReadTandem m read read') (hn : m ≤ n) (hn' : m ≤ n') (left : Expr) :
    Tandem m o (climb table read least n left) (climb table read' least n' left) m := by
  induction m generalizing n n' o left with
  | zero => exact .done (shrinks_lasting.climb table hr.shrinks least n left)
  | succ m ih =>
    obtain ⟨n, rfl, hle⟩ := exists_eq_succ hn
    obtain ⟨n', rfl, hle'⟩ := exists_eq_succ hn'
    have hr' := hr.mono (Nat.le_succ m)
    refine .look fun next _ => .ite ?_ ?_
    · intro _
      exact .pure left
    · intro hends
      have hne : next.kind ≠ .eof := by
        intro hk
        simp [Token.endsExpression, hk] at hends
      refine .ite ?_ ?_
      · intro _
        refine .mono (.take hne (.emit _ ?_)) (Nat.le_refl _) (Nat.le_succ m)
        exact .bind (operandOf_tandem hr' next) fun right => ih hr' hle hle' _
      · intro _
        exact .trip rfl rfl

theorem readWithin_tandem (hn : m ≤ n) (hn' : m ≤ n') :
    ReadTandem m (readWithin table n) (readWithin table n') := by
  induction m generalizing n n' with
  | zero =>
    intro k hk least
    obtain rfl := Nat.le_zero.1 hk
    exact .done (shrinks_lasting.readWithin table n least)
  | succ m ih =>
    intro k hk least
    cases k with
    | zero => exact .done (shrinks_lasting.readWithin table n least)
    | succ k =>
      obtain ⟨n, rfl, hle⟩ := exists_eq_succ hn
      obtain ⟨n', rfl, hle'⟩ := exists_eq_succ hn'
      have hr : ReadTandem k (readWithin table n) (readWithin table n') :=
        (ih hle hle').mono (Nat.le_of_succ_le_succ hk)
      refine .look fun first _ => .ite ?_ ?_
      · intro _
        exact .pure none
      · intro hends
        have hne : first.kind ≠ .eof := by
          intro hk
          simp [Token.endsExpression, hk] at hends
        cases table.nud first.kind with
        | none => exact .trip rfl rfl
        | some role =>
          refine .mono (.take hne (.emit _ ?_)) (Nat.le_refl _) (Nat.le_succ k)
          refine .bind (operandFrom_tandem hr role first) fun left => ?_
          refine .bind (climb_tandem hr (by omega) (by omega) left) fun e => ?_
          exact .pure (some e)

theorem read_tandem (table : Bindings) (least : BindingPower) :
    Tandem m o (Expr.read table least) (Expr.read table least) m :=
  .rounds fun k _ _ hk hn hn' =>
    .mono (.forget (readWithin_tandem hn hn' k (Nat.le_refl k) least)) (Nat.le_refl k) hk

end Expr

theorem expression_tandem (context : String) :
    Tandem m o (expression context) (expression context) m := by
  refine .attempt (Expr.read_tandem .standard .lowest) ?_ ?_ ?_
  · intro e
    cases e with
    | none => exact reportNext_bind fun _ _ => .pure none
    | some e => exact .pure (some e)
  · intro e he
    simp only [he, Bool.false_eq_true, if_false]
    unfold offendingToken Sight.behind
    cases e.cause.found with
    | none => exact .look fun t _ => .report rfl (.pure none)
    | some t => exact .report rfl (.pure none)
  · intro e he
    simp only [he, if_true, and_self]

/-! ## Statements -/

namespace Stmt

theorem unlessReported_tandem {α : Type} (errors : Nat) (a : α) :
    Tandem m o (unlessReported errors a) (unlessReported errors a) m :=
  .count fun _ => .pure _

/-- Tokens are skipped, and the value is known. -/
theorem synchronize_pure_tandem {α : Type} (markers : List Kind) (a : α) :
    Tandem m o (Session.synchronize markers context >>= fun _ => (pure a : ParseM α))
      (Session.synchronize markers context >>= fun _ => (pure a : ParseM α)) m :=
  .bind (Tandem.synchronize _ _) fun _ => .pure a

/-- The rest of a statement is skipped, and the value is known. -/
theorem recoverStatement_pure_tandem {α : Type} (a : α) :
    Tandem m o (Session.recoverStatement context >>= fun _ => (pure a : ParseM α))
      (Session.recoverStatement context >>= fun _ => (pure a : ParseM α)) m :=
  .bind (Tandem.recoverStatement _) fun _ => .pure a

/-! ### Calls -/

theorem argument_tandem : Tandem m o argument argument m := by
  refine .bind (expression_tandem _) fun e => ?_
  cases e with
  | none => exact synchronize_pure_tandem _ none
  | some e => exact .pure (some e)

theorem argumentsWithin_tandem (hn : m ≤ n) (hn' : m ≤ n') :
    Tandem m o (argumentsWithin n) (argumentsWithin n') m := by
  induction m generalizing n n' o with
  | zero => exact .done (shrinks_lasting.argumentsWithin n)
  | succ m ih =>
    obtain ⟨n, rfl, hle⟩ := exists_eq_succ hn
    obtain ⟨n', rfl, hle'⟩ := exists_eq_succ hn'
    refine .bind argument_tandem fun a => nextIs_ite ?_ ?_
    · intro t _ ht
      refine .mono (.take (by simp [ht]) ?_) (Nat.le_refl _) (Nat.le_succ m)
      exact .bind (ih hle hle') fun rest => .pure _
    · intro t _ _
      exact .pure _

theorem arguments_tandem : Tandem m o arguments arguments m := by
  refine nextIs_ite ?_ ?_
  · intro t _ _
    exact .pure []
  · intro t _ _
    exact .rounds fun k _ _ hk hn hn' => .mono (argumentsWithin_tandem hn hn') (Nat.le_refl k) hk

theorem argumentsLost_tandem (errors : Nat) :
    Tandem m o (argumentsLost errors) (argumentsLost errors) m :=
  .count fun _ => .ite (fun _ => .pure false) fun _ => .bind (Tandem.nextIs _) fun _ => .pure _

theorem readCall_tandem (callee : Token) : Tandem m o (readCall callee) (readCall callee) m := by
  refine .emit _ (.count fun errors => ?_)
  refine .bind arguments_tandem fun args => .bind (argumentsLost_tandem errors) fun lost => ?_
  refine .ite (fun _ => recoverStatement_pure_tandem none) fun _ => ?_
  refine .bind (Tandem.expect (by simp) _ _) fun close => ?_
  cases close with
  | none => exact recoverStatement_pure_tandem none
  | some close =>
    exact .bind (Tandem.expect (by simp) _ _) fun _ => unlessReported_tandem errors _

/-! ### Assignments and declarations -/

theorem readAssignment_tandem (target : Token) :
    Tandem m o (readAssignment target) (readAssignment target) m := by
  refine .emit _ (.count fun errors => .bind (expression_tandem _) fun e => ?_)
  cases e with
  | none => exact recoverStatement_pure_tandem none
  | some e => exact .bind (Tandem.expect (by simp) _ _) fun _ => unlessReported_tandem errors _

theorem readDeclaration_tandem {t : Token} (ht : t.kind ≠ .eof) :
    Tandem (m + 1) (.shown t) readDeclaration readDeclaration m := by
  refine .emit _ (.count fun errors => .take ht ?_)
  refine .bind (Tandem.expect (by simp) _ _) fun name => ?_
  cases name with
  | none => exact recoverStatement_pure_tandem none
  | some name =>
    exact .bind (Tandem.expect (by simp) _ _) fun _ => unlessReported_tandem errors _

/-! ### Loops -/

theorem headerToken_tandem {kind : Kind} (hk : kind ≠ .eof) (expected : String)
    (markers : List Kind) (lost : Bool) :
    Tandem m o (headerToken kind expected markers lost) (headerToken kind expected markers lost)
      m := by
  refine nextIs_ite ?_ ?_
  · intro t _ ht
    exact take_same (ht ▸ hk) (.pure _)
  · intro t _ _
    have hreport : Tandem m (.shown t) (reportUnless lost expected) (reportUnless lost expected)
        m :=
      .ite (fun _ => .pure ()) fun _ => Tandem.reportNext _ _
    exact .bind hreport fun _ => synchronize_pure_tandem _ none

theorem headerSection_tandem {lead : Kind} (hk : lead ≠ .eof) (expected : String)
    (markers : List Kind) (lost : Bool) :
    Tandem m o (headerSection lead expected markers lost)
      (headerSection lead expected markers lost) m := by
  refine .bind (headerToken_tandem hk expected markers lost) fun t => ?_
  cases t with
  | none => exact .pure none
  | some t =>
    refine .bind (expression_tandem _) fun e => ?_
    cases e with
    | none => exact synchronize_pure_tandem _ none
    | some e => exact .pure (some e)

theorem header_tandem : Tandem m o header header m := by
  refine .bind (headerToken_tandem (by simp) _ _ _) fun opened => ?_
  refine .bind (headerToken_tandem (by simp) _ _ _) fun counter => ?_
  refine .bind (headerSection_tandem (by simp) _ _ _) fun start => ?_
  refine .bind (headerSection_tandem (by simp) _ _ _) fun stop => ?_
  refine .bind (headerSection_tandem (by simp) _ _ _) fun step => ?_
  exact .bind (headerToken_tandem (by simp) _ _ _) fun closed => .pure _

theorem abandoned_tandem (h : Header) : Tandem m o (abandoned h) (abandoned h) m :=
  .ite (fun _ => .pure false) fun _ => .bind (Tandem.nextIs _) fun _ => .pure _

section
variable {block block' : String → ParseM (List Stmt)} {t : Token}

theorem readLoop_tandem (hblock : ∀ c, Tandem m .nothing (block c) (block' c) m)
    (ht : t.kind ≠ .eof) : Tandem (m + 1) (.shown t) (readLoop block) (readLoop block') m := by
  refine .emit _ (.count fun errors => .take ht ?_)
  refine .bind header_tandem fun h => .bind (abandoned_tandem h) fun lost => ?_
  refine .ite (fun _ => .pure none) fun _ => ?_
  refine .bind (hblock _) fun body => .bind (unlessReported_tandem errors _) fun loop => ?_
  exact .pure loop.join

/-! ### Statements and blocks -/

/-- A statement takes a token, unless it stands in front of `}`. -/
theorem rule_tandem (hblock : ∀ c, Tandem m .nothing (block c) (block' c) m)
    (ht : t.kind ≠ .closeCurly) : Tandem (m + 1) (.shown t) (rule block) (rule block') m := by
  refine .emit _ (peekKind_bind ?_)
  rintro _ rfl
  generalize hk : t.kind = k
  split
  · refine .take (by simp [hk]) (peekKind_bind fun u _ => ?_)
    generalize hu : u.kind = k
    split
    · exact take_same (by simp [hu]) (readCall_tandem t)
    · exact take_same (by simp [hu]) (readAssignment_tandem t)
    · exact reportNext_bind fun _ _ => recoverStatement_pure_tandem none
  · exact readDeclaration_tandem (by simp [hk])
  · exact readDeclaration_tandem (by simp [hk])
  · exact readLoop_tandem hblock (by simp [hk])
  · refine reportNext_bind ?_
    rintro _ rfl
    exact .bind (recoverStatement_shown ht _) fun _ => .pure none

end

/-- The parsers of statements are in tandem wherever fewer than `m` characters are to come, and take
a token unless they stand in front of `}`. -/
def StmtTandem (m : Nat) (stmt stmt' : ParseM (Option Stmt)) : Prop :=
  ∀ k, k + 1 ≤ m → ∀ t : Token, t.kind ≠ .closeCurly → Tandem (k + 1) (.shown t) stmt stmt' k

theorem StmtTandem.mono {k : Nat} {stmt stmt' : ParseM (Option Stmt)}
    (h : StmtTandem k stmt stmt') (hm : m ≤ k) : StmtTandem m stmt stmt' :=
  fun j hj => h j (Nat.le_trans hj hm)

section
variable {stmt stmt' : ParseM (Option Stmt)}

theorem bodyWithin_tandem (hstmt : StmtTandem m stmt stmt') (hshrinks : Keeps Shrinks stmt)
    (hn : m ≤ n) (hn' : m ≤ n') :
    Tandem m o (bodyWithin stmt context n) (bodyWithin stmt' context n') m := by
  induction m generalizing n n' o with
  | zero => exact .done (shrinks_lasting.bodyWithin hshrinks context n)
  | succ m ih =>
    obtain ⟨n, rfl, hle⟩ := exists_eq_succ hn
    obtain ⟨n', rfl, hle'⟩ := exists_eq_succ hn'
    have hrest {o : Sight} : Tandem m o (bodyWithin stmt context n) (bodyWithin stmt' context n')
        (m + 1) :=
      .mono (ih (hstmt.mono (Nat.le_succ m)) hle hle') (Nat.le_refl m) (Nat.le_succ m)
    refine peekKind_bind fun t _ => ?_
    generalize hk : t.kind = k
    split
    · exact .pure []
    · refine reportNext_bind ?_
      rintro _ rfl
      refine synchronize_shown (fun _ => shrinks_lasting.bodyWithin hshrinks context n) ?_ ?_
      · intro hmem
        simp [hk] at hmem
      · intro u _
        exact hrest
    next hne _ =>
      refine .bind (hstmt m (Nat.le_refl _) t (by rw [hk]; exact hne)) fun first => ?_
      refine .bind hrest fun rest => ?_
      exact .pure _

theorem blockOf_tandem (hstmt : StmtTandem m stmt stmt') (hshrinks : Keeps Shrinks stmt) :
    Tandem m o (blockOf stmt context) (blockOf stmt' context) m := by
  have hbody : Tandem m .nothing (bodyOf stmt context) (bodyOf stmt' context) m :=
    .emit _ (.rounds fun k _ _ hk hn hn' =>
      .mono (bodyWithin_tandem (hstmt.mono hk) hshrinks hn hn') (Nat.le_refl k) hk)
  refine .bind (Tandem.expect (by simp) _ _) fun _ => .bind hbody fun body => ?_
  exact .bind (Tandem.expect (by simp) _ _) fun _ => .pure body

end

theorem readWithin_tandem (hn : m ≤ n) (hn' : m ≤ n') :
    StmtTandem m (readWithin n) (readWithin n') := by
  induction m generalizing n n' with
  | zero =>
    intro k hk
    omega
  | succ m ih =>
    obtain ⟨n, rfl, hle⟩ := exists_eq_succ hn
    obtain ⟨n', rfl, hle'⟩ := exists_eq_succ hn'
    intro k hk t ht
    have hstmt : StmtTandem k (readWithin n) (readWithin n') :=
      (ih hle hle').mono (Nat.le_of_succ_le_succ hk)
    exact rule_tandem (fun _ => blockOf_tandem hstmt (shrinks_lasting.stmtWithin n)) ht

theorem read_tandem : StmtTandem m read read := by
  intro k _ t ht
  refine .rounds fun j n n' hj hn hn' => ?_
  cases j with
  | zero => exact .done (shrinks_lasting.stmtWithin n)
  | succ j =>
    exact .mono (readWithin_tandem hn hn' j (Nat.le_refl _) t ht) (Nat.le_refl _)
      (Nat.le_of_succ_le_succ hj)

theorem block_tandem : Tandem m o (block context) (block context) m :=
  blockOf_tandem read_tandem shrinks_lasting.stmt

end Stmt

/-! ## Functions -/

namespace Func

theorem abandonParameters_tandem (expected : String) :
    Tandem m o (abandonParameters expected) (abandonParameters expected) m :=
  reportNext_bind fun _ _ => Stmt.synchronize_pure_tandem _ none

theorem parametersWithin_tandem (hn : m ≤ n) (hn' : m ≤ n') :
    Tandem m o (parametersWithin n) (parametersWithin n') m := by
  induction m generalizing n n' o with
  | zero => exact .done (shrinks_lasting.parametersWithin n)
  | succ m ih =>
    obtain ⟨n, rfl, hle⟩ := exists_eq_succ hn
    obtain ⟨n', rfl, hle'⟩ := exists_eq_succ hn'
    refine peekKind_bind fun t _ => ?_
    cases htype : typeName? t.kind with
    | none => exact abandonParameters_tandem _
    | some type =>
      have hne : t.kind ≠ .eof := by
        intro hk
        rw [hk] at htype
        cases htype
      refine .mono (.take hne ?_) (Nat.le_refl _) (Nat.le_succ m)
      refine .bind (Tandem.expect (by simp) _ _) fun name => ?_
      cases name with
      | none => exact Stmt.synchronize_pure_tandem _ none
      | some name =>
        refine peekKind_bind fun u _ => ?_
        generalize hu : u.kind = k
        split
        · exact take_same (by simp [hu]) (.bind (ih hle hle') fun rest => .pure _)
        · exact reportNext_bind fun _ _ => .bind (ih hle hle') fun _ => .pure none
        · exact reportNext_bind fun _ _ => .bind (ih hle hle') fun _ => .pure none
        · exact abandonParameters_tandem _
        · exact .pure _

theorem parameters_tandem : Tandem m o parameters parameters m :=
  .emit _ (.rounds fun k _ _ hk hn hn' =>
    .mono (parametersWithin_tandem hn hn') (Nat.le_refl k) hk)

theorem listLost_tandem (params : Option (List Param)) :
    Tandem m o (listLost params) (listLost params) m :=
  .ite (fun _ => .pure false) fun _ => .bind (Tandem.nextIs _) fun _ => .pure _

theorem parameterList_tandem : Tandem m o parameterList parameterList m := by
  refine .emit _ (nextIs_ite ?_ ?_)
  · intro t _ ht
    exact take_same (by simp [ht]) (.pure _)
  · intro t _ _
    refine .bind parameters_tandem fun params => .bind (listLost_tandem params) fun lost => ?_
    refine .ite (fun _ => .pure none) fun _ => .bind (Tandem.expect (by simp) _ _) fun close => ?_
    cases close with
    | none => exact Stmt.synchronize_pure_tandem _ none
    | some close => exact .pure params

theorem signatureFrom_tandem (position : Position) (name : Option Token) :
    Tandem m o (signatureFrom position name) (signatureFrom position name) m := by
  refine .bind (Tandem.expect (by simp) _ _) fun opened => ?_
  cases opened with
  | none =>
    refine synchronize_bind ?_ ?_
    · intro marker
      exact shrinks_lasting.bind (shrinks_lasting.takeMarker _ _) fun _ => shrinks_lasting.pure none
    · intro marker _
      exact .bind (Tandem.takeMarker (by simp)) fun _ => .pure none
  | some opened =>
    refine .bind parameterList_tandem fun params => ?_
    cases name with
    | none => exact .pure none
    | some name =>
      cases params with
      | none => exact .pure none
      | some params => exact .pure _

/-- A signature takes its keyword. -/
theorem signature_tandem {t : Token} (ht : t.kind = .func) :
    Tandem (m + 1) (.shown t) signature signature m := by
  refine .emit _ (.look ?_)
  rintro _ rfl
  refine .bind (Tandem.expect_shown ht (by simp) _ _) fun keyword => ?_
  cases keyword with
  | none => exact Stmt.synchronize_pure_tandem _ none
  | some keyword =>
    refine peekKind_bind fun u _ => ?_
    generalize hu : u.kind = k
    split
    · exact take_same (by simp [hu]) (signatureFrom_tandem _ _)
    · exact take_same (by simp [hu]) (signatureFrom_tandem _ _)
    · refine reportNext_bind fun _ _ => .bind (Tandem.synchronize _ _) fun marker => ?_
      exact .ite (fun _ => .pure none) fun _ => signatureFrom_tandem _ _

theorem read_tandem {t : Token} (ht : t.kind = .func) :
    Tandem (m + 1) (.shown t) read read m :=
  .emit _ (.bind (signature_tandem ht) fun _ => .bind Stmt.block_tandem fun _ => .pure _)

end Func

/-! ## Programs -/

namespace Program

theorem functionsWithin_tandem (hn : m ≤ n) (hn' : m ≤ n') :
    Tandem m o (functionsWithin n) (functionsWithin n') m := by
  induction m generalizing n n' o with
  | zero => exact .done (shrinks_lasting.functionsWithin n)
  | succ m ih =>
    obtain ⟨n, rfl, hle⟩ := exists_eq_succ hn
    obtain ⟨n', rfl, hle'⟩ := exists_eq_succ hn'
    have hrest {o : Sight} : Tandem m o (functionsWithin n) (functionsWithin n') (m + 1) :=
      .mono (ih hle hle') (Nat.le_refl m) (Nat.le_succ m)
    refine peekKind_bind fun t _ => ?_
    generalize hk : t.kind = k
    split
    · exact .pure []
    · exact .bind (Func.read_tandem hk) fun first => .bind hrest fun rest => .pure _
    next hne =>
      refine reportNext_bind ?_
      rintro _ rfl
      refine synchronize_shown (fun _ => shrinks_lasting.functionsWithin n) ?_ ?_
      · intro hmem
        exact absurd (List.mem_singleton.1 hmem) (by rw [hk]; exact hne)
      · intro u _
        exact hrest

theorem read_tandem : Tandem m o read read m :=
  .emit _ (.rounds fun k _ _ hk hn hn' =>
    .bind (.mono (functionsWithin_tandem hn hn') (Nat.le_refl k) hk) fun _ => .pure _)

/-! ## Whole sources -/

section
variable {file source : String} {e : Error} {s : Session}

/-- The session in which a source is read as a program. -/
def start (file source : String) : Session :=
  { Session.ofSource file source with log := #[.started file] }

theorem ofSource_start (file source : String) :
    (ofSource file source).diagnostics = (final (read (start file source))).diagnostics ∧
    (ofSource file source).session.stream = (final (read (start file source))).stream ∧
    (ofSource file source).outcome = match read (start file source) with
      | .ok p _ => .ok p
      | .error e _ => .error e := by
  have hstart : read { Session.ofSource file source with
      log := (Session.ofSource file source).log.push
        (.started (Session.ofSource file source).stream.file) } = read (start file source) := rfl
  unfold ofSource Session.parseProgram
  dsimp only
  rw [hstart]
  cases read (start file source) with
  | ok p s => exact ⟨rfl, rfl, rfl⟩
  | error e s => exact ⟨rfl, rfl, rfl⟩

/-- Where a source is given up, nothing was read behind what it was given up for. -/
theorem halts_of_read (h : read (start file source) = .error e s) :
    Halts (TokenStream.ofSource file source) e s := by
  have hstands : (TokenStream.ofSource file source).Stands (start file source).stream :=
    ⟨0, .inl rfl⟩
  have hcourse := Tandem.course (read_tandem (o := .nothing)) rfl hstands trivial
    (Nat.lt_succ_self _)
  rw [h] at hcourse
  cases hcourse with
  | halts h => exact h

/-- Sources that agree up to a place and in the character there are read alike, if reading the first
does not come further. -/
theorem abreast_of_front {x q : List Char} {c : Char} (hsource : source.toList = x ++ c :: q)
    (hahead : c :: q <:+ (final (read (start file source))).stream.cursor.rest) (q' : List Char) :
    Abreast (c :: q) (c :: q') ((start file source).stream.remaining + 1)
      (read (start file source)) (read (start file (String.ofList (x ++ c :: q')))) := by
  have hbeside : (start file source).Beside (c :: q) (c :: q')
      (start file (String.ofList (x ++ c :: q'))) := by
    refine ⟨⟨⟨x, hsource, ?_⟩, by simp [start, Session.ofSource, Session.ofStream,
      TokenStream.ofSource]⟩, rfl⟩
    simp [start, Session.ofSource, Session.ofStream, TokenStream.ofSource, TokenStream.withRest,
      Text.Cursor.ofText]
  exact read_tandem.abreast (o := .nothing) hbeside trivial (by omega) hahead

/-- A session that was given up for too many diagnostics has as many as the limit allows. -/
theorem length_diagnostics_of_limit {n : Nat} (h : read (start file source) = .error e s)
    (he : e.cause = .tooManyErrors n) : s.diagnostics.length = maxErrors := by
  have hstart : (start file source).InStep := rfl
  have hread := tally_lasting.program (start file source)
  have hle := (length_diagnostics_of_program hstart rfl).1
  rw [h] at hread hle
  have htally : Tally (start file source) (some e) s := hread
  have hstep : s.errorCount = s.diagnostics.length := hstart.of_tally htally
  cases htally with
  | below _ _ hnot => exact absurd ⟨e, n, rfl, he⟩ hnot
  | limit _ _ hge => exact Nat.le_antisymm hle (hstep ▸ hge)

end

/-- The place where the session on a source was given up: it has read the result with the number `k`
and nothing behind it, which is the lexical error or the token of the diagnostic at the limit. -/
structure AbortsAt (file source : String) (e : Error) (k : Nat) : Prop where
  cursor_eq : (ofSource file source).session.stream.cursor =
    ((TokenStream.ofSource file source).behind (k + 1)).cursor
  lexical : e.category = .lexical → (TokenStream.ofSource file source).results k = .error e
  limit : ∀ n, e.cause = .tooManyErrors n → ∃ d,
    (ofSource file source).diagnostics[maxErrors - 1]? = some d ∧
      (TokenStream.ofSource file source).results k = .ok d.found

theorem exists_abortsAt {file source : String} {e : Error}
    (h : (ofSource file source).outcome = .error e)
    (he : e.category = .lexical ∨ ∃ n, e.cause = .tooManyErrors n) :
    ∃ k, AbortsAt file source e k := by
  obtain ⟨hdiagnostics, hstream, houtcome⟩ := ofSource_start file source
  rw [h] at houtcome
  cases hr : read (start file source) with
  | ok p s => rw [hr] at houtcome; cases houtcome
  | error e' s =>
    rw [hr] at hdiagnostics hstream houtcome
    cases houtcome
    cases halts_of_read hr with
    | lexical ht =>
      obtain ⟨k, hresult, hcursor⟩ := ht
      refine ⟨k, ?_, fun _ => hresult, ?_⟩
      · rw [hstream]
        exact hcursor
      · intro n hn
        have hlexical := TokenStream.isLexical_of_results hresult
        simp [Error.category, hn, Cause.category] at hlexical
    | limit hcause hd ht =>
      obtain ⟨k, hresult, hcursor⟩ := ht
      refine ⟨k, ?_, ?_, fun _ _ => ⟨_, ?_, hresult⟩⟩
      · rw [hstream]
        exact hcursor
      · intro hlexical
        simp [Error.category, hcause, Cause.category] at hlexical
      · have hlength := length_diagnostics_of_limit hr hcause
        rw [hdiagnostics]
        simp only [final_error]
        rw [← hlength, ← List.getLast?_eq_getElem?]
        exact hd
    | syntactic hfound =>
      have hsyntactic := (Cause.isSome_found_iff e.cause).1 (by simp [hfound])
      rcases he with he | ⟨n, hn⟩
      · simp [Error.category, hsyntactic] at he
      · simp [hn, Cause.category] at hsyntactic
    | eof hcause =>
      rcases he with he | ⟨n, hn⟩
      · simp [Error.category, hcause, Cause.category] at he
      · simp [hcause] at hn

/-- A session that ends in a lexical error or for too many diagnostics is given up at a place of the
source. Whatever text stands behind the character that follows the place, it is given up for the
same error and with the same diagnostics. -/
theorem abort_ignores_rest (file source : String) (e : Error)
    (h : (ofSource file source).outcome = .error e)
    (he : e.category = .lexical ∨ ∃ n, e.cause = .tooManyErrors n) :
    ∃ k, AbortsAt file source e k ∧
      ∀ before shown c after,
        (TokenStream.ofSource file source).Place k before shown (c :: after) →
        ∀ after' : List Char,
          (ofSource file (String.ofList (before ++ (shown ++ c :: after')))).diagnostics =
            (ofSource file source).diagnostics ∧
          (ofSource file (String.ofList (before ++ (shown ++ c :: after')))).outcome =
            .error e := by
  obtain ⟨k, hk⟩ := exists_abortsAt h he
  refine ⟨k, hk, ?_⟩
  intro before shown c after hplace after'
  obtain ⟨hdiagnostics, hstream, houtcome⟩ := ofSource_start file source
  obtain ⟨hdiagnostics', -, houtcome'⟩ :=
    ofSource_start file (String.ofList (before ++ (shown ++ c :: after')))
  have hsource : source.toList = (before ++ shown) ++ c :: after := by
    rw [List.append_assoc]
    exact hplace.rest_eq
  have hrest : (final (read (start file source))).stream.cursor.rest = c :: after := by
    rw [← hstream, hk.cursor_eq, hplace.behind_eq]
  have habreast := abreast_of_front hsource ⟨[], hrest.symm⟩ after'
  rw [List.append_assoc] at habreast
  rw [h] at houtcome
  rw [hdiagnostics, hdiagnostics', houtcome']
  generalize read (start file source) = r at habreast houtcome
  generalize read (start file (String.ofList (before ++ (shown ++ c :: after')))) = r' at habreast
  cases habreast with
  | goes => cases houtcome
  | fails hs =>
    cases houtcome
    refine ⟨?_, rfl⟩
    simp only [final_error]
    rw [hs.eq]

/-- A session that is given up at the `)` of an empty group, with a lexical error behind it and
without one. -/
theorem abort_ignores_rest_group :
    (ofSource "f" "func g(){x=();x=();x=();x=();x=() @}").outcome =
      .error { cause := .tooManyErrors 5, position := { file := "f", line := 1 } } ∧
    (ofSource "f" "func g(){x=();x=();x=();x=();x=() ;}").diagnostics =
      (ofSource "f" "func g(){x=();x=();x=();x=();x=() @}").diagnostics ∧
    (ofSource "f" "func g(){x=();x=();x=();x=();x=() ;}").outcome =
      .error { cause := .tooManyErrors 5, position := { file := "f", line := 1 } } := by
  have h : (ofSource "f" "func g(){x=();x=();x=();x=();x=() @}").outcome =
      .error { cause := .tooManyErrors 5, position := { file := "f", line := 1 } } := by
    decide +kernel
  obtain ⟨k, hk, hrest⟩ := abort_ignores_rest _ _ _ h (.inr ⟨5, rfl⟩)
  obtain ⟨before, shown, after, hplace⟩ := TokenStream.exists_place
    (s := TokenStream.ofSource "f" "func g(){x=();x=();x=();x=();x=() @}") rfl k
  -- The session stands in front of the last three characters.
  obtain rfl : after = [' ', '@', '}'] := by
    rw [← hplace.behind_eq, ← hk.cursor_eq]
    decide +kernel
  have hfront : before ++ shown = "func g()\x7bx=();x=();x=();x=();x=()".toList := by
    have htext : before ++ shown ++ [' ', '@', '}'] =
        "func g()\x7bx=();x=();x=();x=();x=()".toList ++ [' ', '@', '}'] := by
      rw [List.append_assoc, ← hplace.rest_eq]
      rfl
    exact List.append_cancel_right htext
  have hsame := hrest before shown ' ' ['@', '}'] hplace [';', '}']
  rw [← List.append_assoc, hfront] at hsame
  exact ⟨h, hsame⟩

end Program

end FxLang
