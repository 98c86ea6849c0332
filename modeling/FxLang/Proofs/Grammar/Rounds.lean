import FxLang.Proofs.Expr.Rounds
import FxLang.Proofs.Grammar.Abort
import FxLang.Proofs.Grammar.Braces
import FxLang.Proofs.Grammar.Parameters

/-!
# Every round of the grammar takes a token

The loops over arguments, statements, parameters and functions, and the statement that has
statements inside, go on behind a token that was taken since the round before. Much is reported
without a token being taken: a missing `;`, a missing `{` or `,`, a token that starts nothing. What
makes up for it is different from loop to loop: the comma that was taken, the type of a parameter, a
statement that takes a token unless it starts at a `}`, the tokens that were skipped up to a `func`,
and, at the end of the input, the `}` that is not there to be skipped to.

With the names of `Session.Recursion`, each loop is the solution of its equation and comes to its
end. What a whole session takes can be told from its log.

* `Stmt.body_recursion`, `Stmt.read_recursion`, `Program.functions_recursion` and the others: one
  for each loop.
* `Program.read_trace`: what was logged tells what was taken.
* `Program.ofSource_takes_tokens_once`: all of this for a source.
-/

namespace FxLang

open Session

/-! ## Arguments -/

namespace Stmt

/-- An argument, and on behind a comma. -/
def argumentsRound (again : ParseM (List Expr)) : ParseM (List Expr) := do
  let argument ← argument
  if ← nextIs .comma then
    let _ ← advance
    let rest ← again
    pure (argument.toList ++ rest)
  else
    pure argument.toList

theorem argumentsRound_guarded :
    Guarded fun (x : Unit → ParseM (List Expr)) => argumentsRound (x ()) := by
  intro s x y _ hxy
  refine (argument_fate s).bind_congr fun _ _ argument s₁ m₁ _ => ?_
  refine nextIs_congr (fun t s₂ m₂ hf ht => ?_) fun _ _ => rfl
  refine advance_congr hf (by simp [ht]) fun s₃ m₃ => bind_congr_apply (hxy () s₃ ?_)
  exact (m₁.trans m₂).reaches.trans_passes (m₃.passes (by simp))

theorem argumentsWithin_counts :
    Counts (fun x (_ : Unit) => argumentsRound (x ())) fun n _ => argumentsWithin n where
  guarded _ := argumentsRound_guarded
  succ _ _ _ _ := rfl
  proceeds n _ s _ := (argumentsWithin_fate n s).proceeds

/-- The loop over arguments takes a comma in every round that is not its last. -/
theorem arguments_recursion : Looping argumentsRound (rounds >>= argumentsWithin) :=
  argumentsWithin_counts.recursion

/-! ## Bodies -/

/-- A statement, and on behind it, up to the `}` of the block. -/
def bodyRound (stmt : ParseM (Option Stmt)) (context : String) (again : ParseM (List Stmt)) :
    ParseM (List Stmt) := do
  match ← peekKind with
  | .closeCurly => pure []
  | .eof =>
    reportNext "'\x7d'" context
    let _ ← synchronize [.closeCurly] context
    again
  | _ =>
    let first ← stmt
    let rest ← again
    pure (first.toList ++ rest)

section
variable {s : Session} {x y : Unit → ParseM (Option Stmt)} {context : String}

theorem bodyRound_guarded (context : String) :
    Guarded fun (x : Unit → ParseM (List Stmt)) => bodyRound read context (x ()) := by
  intro s x y _ hxy
  refine peekKind_congr fun t s₁ m₁ hf => ?_
  generalize hk : t.kind = k
  split
  next => rfl
  next =>
    -- There is no `}` to skip to, so there is no further round.
    refine reportNext_congr (.of_take (by decide)) fun d s₂ m₂ => ?_
    have hcount := m₂.count_report
    refine (Fate.synchronize_of_eof (by omega) (m₂.front_eq.trans hf) hk (by simp)).bind_congr ?_
    exact fun _ _ _ _ _ h => h.elim
  next hcurly _ =>
    refine (read_fate s₁).bind_congr fun w ds r s₂ m₂ hr => bind_congr_apply (hxy () s₂ ?_)
    exact m₁.reaches.trans_passes (m₂.passes (hr.ne_nil hf (by simpa [hk] using hcurly)))

theorem bodyWithin_counts (context : String) :
    Counts (fun x (_ : Unit) => bodyRound read context (x ()))
      fun n _ => bodyWithin read context n where
  guarded _ := bodyRound_guarded context
  succ _ _ _ _ := rfl
  proceeds n _ _ hn := (bodyWithin_fate n hn fun s' _ => read_fate s').proceeds

/-- The loop over statements takes a token in every round that is not its last. -/
theorem body_recursion (context : String) :
    Looping (bodyRound read context) (rounds >>= bodyWithin read context) :=
  (bodyWithin_counts context).recursion

/-! ## Statements inside statements -/

/-- Statements that do the same from `s` on make the same body. -/
theorem bodyWithin_congr (h : Agree s x y) (n : Nat) :
    bodyWithin (x ()) context n s = bodyWithin (y ()) context n s := by
  induction n generalizing s with
  | zero => rfl
  | succ n ih =>
    refine peekKind_congr fun t s₁ m₁ hf => ?_
    generalize t.kind = k
    split
    next => rfl
    next =>
      refine reportNext_congr (.of_take (by decide)) fun d s₂ m₂ => ?_
      have hcount := m₂.count_report
      refine (Fate.synchronize (by omega)).bind_congr fun _ _ _ s₃ m₃ _ => ?_
      exact ih (h.mono ((m₁.trans m₂).trans m₃).reaches)
    next =>
      have h₁ := h.mono m₁.reaches
      exact (h₁.proceeds_here ()).bind_congr (h₁.eq_here ())
        fun first s₂ hr => bind_congr_apply (ih (h₁.mono hr))

theorem blockOf_congr (h : Agree s x y) :
    blockOf (x ()) context s = blockOf (y ()) context s := by
  refine (Fate.expect (by simp) (.of_take (by decide))).bind_congr fun _ _ _ s₁ m₁ _ =>
    bind_congr_apply ?_
  refine emit_congr _ fun s₂ m₂ => ?_
  rw [bind_of_ok (rounds_apply s₂), bind_of_ok (rounds_apply s₂)]
  exact bodyWithin_congr (h.mono (m₁.trans m₂).reaches) _

/-- The block of a loop starts behind the keyword. -/
theorem readLoop_congr {block block' : String → ParseM (List Stmt)} {t : Token}
    (hf : s.front = .ok t) (hk : t.kind ≠ .eof)
    (h : ∀ s', s.Passes s' → block Context.iter s' = block' Context.iter s') :
    readLoop block s = readLoop block' s := by
  refine emit_congr _ fun s₁ m₁ => ?_
  rw [bind_of_ok (countErrors_apply s₁), bind_of_ok (countErrors_apply s₁)]
  refine advance_congr (m₁.front_eq.trans hf) hk fun s₂ m₂ => ?_
  refine (header_fate s₂).bind_congr fun _ _ header s₃ m₃ _ => ?_
  refine (abandoned_fate header).bind_congr fun _ _ lost s₄ m₄ _ => ?_
  cases lost with
  | true => rfl
  | false =>
    have h₂ : s.Passes s₂ := (m₁.trans m₂).passes (by simp)
    exact bind_congr_apply (h s₄ (h₂.trans (m₃.trans m₄).reaches))

theorem rule_guarded :
    Guarded fun (x : Unit → ParseM (Option Stmt)) => rule (blockOf (x ())) := by
  intro s x y hx hxy
  refine emit_congr _ fun s₁ m₁ => peekKind_congr fun t s₂ m₂ hf => ?_
  generalize hk : t.kind = k
  split
  next => rfl
  next => rfl
  next => rfl
  next =>
    refine readLoop_congr hf (by simp [hk]) fun s₃ h₃ => ?_
    exact blockOf_congr (.of_passes hx hxy ((m₁.trans m₂).reaches.trans_passes h₃))
  next => rfl

theorem readWithin_counts :
    Counts (fun x (_ : Unit) => rule (blockOf (x ()))) fun n _ => readWithin n where
  guarded _ := rule_guarded
  succ _ _ _ _ := rfl
  proceeds n _ _ hn := (readWithin_fate n hn).proceeds

/-- A statement calls for the statements inside it only behind its keyword. -/
theorem read_recursion : Looping (fun stmt => rule (blockOf stmt)) read :=
  readWithin_counts.recursion

end

end Stmt

/-! ## Parameters -/

namespace Func

/-- A parameter, and on behind a comma or in front of the type that follows without one. -/
def parametersRound (again : ParseM (Option (List Param))) : ParseM (Option (List Param)) := do
  match typeName? (← peekKind) with
  | none => abandonParameters "type"
  | some type =>
    let _ ← advance
    match ← expect .identifier "Id" Context.parameters with
    | none =>
      let _ ← synchronize parameterMarkers Context.parameters
      pure none
    | some name =>
      match ← peekKind with
      | .comma =>
        let _ ← advance
        let rest ← again
        pure (rest.map ({ type, name := name.text } :: ·))
      | .int | .bool =>
        reportNext "','" Context.parameters
        let _ ← again
        pure none
      | .identifier => abandonParameters "','"
      | _ => pure (some [{ type, name := name.text }])

theorem parametersRound_guarded :
    Guarded fun (x : Unit → ParseM (Option (List Param))) => parametersRound (x ()) := by
  intro s x y _ hxy
  refine peekKind_congr fun t s₁ m₁ hf => ?_
  cases htype : typeName? t.kind with
  | none => rfl
  | some type =>
    have hk : t.kind ≠ .eof := by
      intro hk
      rw [hk] at htype
      cases htype
    refine advance_congr hf hk fun s₂ m₂ => ?_
    have h₂ : s.Passes s₂ := (m₁.trans m₂).passes (by simp)
    refine (Fate.expect (by simp) (.of_take (by decide))).bind_congr fun _ _ name s₃ m₃ _ => ?_
    cases name with
    | none => rfl
    | some name =>
      refine peekKind_congr fun u s₄ m₄ hu => ?_
      have h₄ : s.Passes s₄ := h₂.trans (m₃.trans m₄).reaches
      have hspoilt : (reportNext "','" Context.parameters >>= fun _ => x () >>= fun _ =>
          (pure none : ParseM (Option (List Param)))) s₄ =
          (reportNext "','" Context.parameters >>= fun _ => y () >>= fun _ => pure none) s₄ :=
        reportNext_congr (.of_take (by decide)) fun d s₅ m₅ =>
          bind_congr_apply (hxy () s₅ (h₄.trans m₅.reaches))
      generalize hk : u.kind = k
      split
      next =>
        refine advance_congr hu (by simp [hk]) fun s₅ m₅ => ?_
        exact bind_congr_apply (hxy () s₅ (h₄.trans m₅.reaches))
      next => exact hspoilt
      next => exact hspoilt
      next => rfl
      next => rfl

theorem parametersWithin_counts :
    Counts (fun x (_ : Unit) => parametersRound (x ())) fun n _ => parametersWithin n where
  guarded _ := parametersRound_guarded
  succ _ _ _ _ := rfl
  proceeds n _ s _ := (parametersWithin_fate n s).proceeds

/-- The loop over parameters takes a type in every round that is not its last. -/
theorem parameters_recursion : Looping parametersRound (rounds >>= parametersWithin) :=
  parametersWithin_counts.recursion

/-! ## Functions -/

/-- The log of a function tells what it took, whether it was read or not. -/
theorem read_trace (s : Session) :
    Trace s (fun _ => True) (fun _ _ _ => True) (read s) := by
  refine .emit_bind fun s₁ _ => ?_
  refine Trace.bind (signature_ends s₁) fun _ signature s₂ _ _ _ => ?_
  have hblock : Trace s₂ (fun _ => True) (fun _ _ _ => True) (Stmt.block Context.function s₂) :=
    (Stmt.blockOf_trace (Stmt.read_isStatement s₂)).imp (fun _ _ => trivial)
      fun _ _ _ _ _ => trivial
  exact hblock.bind fun _ _ _ _ _ _ => .pure trivial

end Func

namespace Program

/-- A function, and on behind it, or on in front of the next keyword. -/
def functionsRound (again : ParseM (List Func)) : ParseM (List Func) := do
  match ← peekKind with
  | .eof => pure []
  | .func =>
    let first ← Func.read
    let rest ← again
    pure (first.toList ++ rest)
  | _ =>
    reportNext "'func'" Context.program
    let _ ← synchronize [.func] Context.program
    again

theorem functionsRound_guarded :
    Guarded fun (x : Unit → ParseM (List Func)) => functionsRound (x ()) := by
  intro s x y _ hxy
  refine peekKind_congr fun t s₁ m₁ hf => ?_
  generalize hk : t.kind = k
  split
  next => rfl
  next =>
    refine (Func.read_fate s₁).bind_congr fun w ds f s₂ m₂ hw => bind_congr_apply (hxy () s₂ ?_)
    exact m₁.reaches.trans_passes (m₂.passes hw)
  next hfunc =>
    refine reportNext_congr (.of_take (by decide)) fun d s₂ m₂ => ?_
    have hcount := m₂.count_report
    refine (Fate.synchronize (by omega)).bind_congr fun w ds marker s₃ m₃ hstop => hxy () s₃ ?_
    -- The next token is not the `func` that was skipped to, so it was taken.
    have hw := hstop.ne_nil m₃ (m₂.front_eq.trans hf) (by simpa [hk] using hfunc)
    exact (m₁.trans m₂).reaches.trans_passes (m₃.passes hw)

theorem functionsWithin_counts :
    Counts (fun x (_ : Unit) => functionsRound (x ())) fun n _ => functionsWithin n where
  guarded _ := functionsRound_guarded
  succ _ _ _ _ := rfl
  proceeds n _ s hn := (functionsWithin_fate n s hn).proceeds

/-- The loop over functions takes a token in every round that is not its last. -/
theorem functions_recursion : Looping functionsRound (rounds >>= functionsWithin) :=
  functionsWithin_counts.recursion

/-! ## Whole sources -/

theorem functionsWithin_trace (n : Nat) (s : Session) :
    Trace s (fun _ => True) (fun _ _ _ => True) (functionsWithin n s) := by
  induction n generalizing s with
  | zero => exact .pure trivial
  | succ n ih =>
    refine .peekKind_bind trivial fun t s₁ _ hf => ?_
    split
    · exact .pure trivial
    · exact (Func.read_trace s₁).bind fun _ _ s₂ _ _ _ =>
        (ih s₂).bind fun _ _ _ _ _ _ => .pure trivial
    · refine .reportNext_bind hf trivial fun s₂ _ _ => ?_
      exact (Func.synchronize_marker _ _ s₂).bind fun _ _ s₃ _ _ _ => ih s₃

/-- What was logged while a program was read tells what was taken. -/
theorem read_trace (s : Session) : Trace s (fun _ => True) (fun _ _ _ => True) (read s) := by
  refine .emit_bind fun s₁ _ => ?_
  rw [bind_of_ok (rounds_apply s₁)]
  exact (functionsWithin_trace _ s₁).bind fun _ _ _ _ _ _ => .pure trivial

end Program

/-- The tokens that were taken, in order. -/
def Parsed.taken (p : Parsed) : List Token := Event.tokens p.session.log.toList

namespace Program

variable {file source : String}

/-- Behind the events of a program there is one that tells how it ended. -/
theorem ofSource_log (file source : String) :
    ∃ last : Event, last.token? = none ∧
      (ofSource file source).session.log = (final (read (start file source))).log.push last := by
  unfold ofSource Session.parseProgram
  dsimp only
  split
  next h =>
    rw [show read (start file source) = _ from h]
    exact ⟨_, rfl, rfl⟩
  next h =>
    rw [show read (start file source) = _ from h]
    exact ⟨_, rfl, rfl⟩

theorem taken_ofSource {l : List Event}
    (h : (start file source).Tells l (read (start file source))) :
    (ofSource file source).taken = Event.tokens l := by
  obtain ⟨last, hlast, hlog⟩ := ofSource_log file source
  have hfirst : Event.tokens (start file source).log.toList = [] := rfl
  simp [Parsed.taken, hlog, h.log_eq, hfirst, hlast]

/-- A program that is read takes every token up to the end of the input. -/
theorem tokens_of_read {s s' : Session} {p : Program} {l : List Event} (h : read s = .ok p s')
    (hl : s.Tells l (read s)) : s.tokens = Event.tokens l ∧ ∃ eof, s.ending = .ok eof := by
  have hfate := read_fate_nil s
  rw [h] at hl hfate
  obtain ⟨_, _, hm, hnil, eof, heof⟩ := hfate.of_ok
  cases hl with
  | goes hl => exact ⟨by simp [hl.moves.tokens_eq, hnil], eof, hm.ending_eq ▸ heof⟩

/-- Every loop of the grammar and every rule that calls itself goes on only behind a token, and it
comes to its end. -/
structure RoundsEnd : Prop where
  skipping : ∀ markers context, Looping (skipRound markers context) (synchronize markers context)
  expression : Recursion (Expr.readRound .standard) (Expr.read .standard)
  operators : ∀ m, Recursion (Expr.climbRound .standard (Expr.read .standard) m)
    (Expr.climbing .standard (Expr.read .standard) m)
  arguments : Looping Stmt.argumentsRound (rounds >>= Stmt.argumentsWithin)
  statement : Looping (fun stmt => Stmt.rule (Stmt.blockOf stmt)) Stmt.read
  body : ∀ context,
    Looping (Stmt.bodyRound Stmt.read context) (rounds >>= Stmt.bodyWithin Stmt.read context)
  parameters : Looping Func.parametersRound (rounds >>= Func.parametersWithin)
  functions : Looping functionsRound (rounds >>= functionsWithin)

theorem roundsEnd : RoundsEnd where
  skipping := synchronize_recursion
  expression := Expr.read_recursion .standard
  operators := Expr.climb_recursion (Expr.read_fate .standard)
  arguments := Stmt.arguments_recursion
  statement := Stmt.read_recursion
  body := Stmt.body_recursion
  parameters := Func.parameters_recursion
  functions := functions_recursion

/-- Every source is read to an end, and every token is read once. The loops of the grammar end; what
the log tells is what was taken; and this is the beginning of the tokens of the source, without the
end of the input, and all of them if there is a program. -/
theorem ofSource_takes_tokens_once (file source : String) :
    RoundsEnd ∧
    (∃ l, (start file source).Tells l (read (start file source)) ∧
      (ofSource file source).taken = Event.tokens l) ∧
    (ofSource file source).taken <+: (TokenStream.ofSource file source).tokens ∧
    (∀ t ∈ (ofSource file source).taken, t.isEof = false) ∧
    ∀ p, (ofSource file source).outcome = .ok p →
      ∃ eof, eof.isEof = true ∧
        tokenize file source = .ok ((ofSource file source).taken ++ [eof]) := by
  obtain ⟨l, hl, -⟩ := (read_trace (start file source)).exists_tells (S := fun _ => True)
    (fun _ _ => trivial) fun _ _ _ _ => trivial
  rw [taken_ofSource hl]
  have htokens : Event.tokens l <+: (TokenStream.ofSource file source).tokens := hl.isPrefix
  have hends := TokenStream.isEof_upcoming (TokenStream.ofSource file source)
  refine ⟨roundsEnd, ⟨l, hl, rfl⟩, htokens, fun t ht => hends.1 t (htokens.subset ht), ?_⟩
  intro p hp
  rw [(ofSource_start file source).2.2] at hp
  cases hread : read (start file source) with
  | error e s' =>
    rw [hread] at hp
    cases hp
  | ok q s' =>
    obtain ⟨hall, eof, heof⟩ := tokens_of_read hread hl
    exact ⟨eof, hends.2 eof heof, (tokenize_eq_ok_iff file source _ eof).2 ⟨hall, heof⟩⟩

end Program

end FxLang
