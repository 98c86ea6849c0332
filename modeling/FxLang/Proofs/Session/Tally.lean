import FxLang.Proofs.Session.Keeps

/-!
# The count of diagnostics and the limit

A session keeps its diagnostics in a list and their number in a counter, and it is given up by the
report that brings the counter to the limit. Parsers call each other, some of them catch errors, and
a session can be used on after it was given up; the two never get out of step all the same.

`Tally s e s'` says what a parser did to the diagnostics between `s` and `s'`, where `e` is its
failure. It holds of the small steps and goes on from step to step, so it holds of every parser.
`Operation` lists what can be asked of a session, and `Session.after` asks one thing after the other
whether they fail or not.

* `tally_lasting`: every parser is tallied.
* `Session.InStep.after`: the counter is the number of the diagnostics whatever was asked.
* `Session.diagnostics_in_step`: what one more operation adds, and when it gives the session up.
-/

namespace FxLang

open Session

variable {s s₁ s' : Session} {ds ds₁ : List Diagnostic} {e : Option Error}

/-! ## What a parser adds -/

/-- The diagnostics `ds` were added, and all of them were counted. -/
structure Session.Adds (s : Session) (ds : List Diagnostic) (s' : Session) : Prop where
  diagnostics_eq : s'.diagnostics = s.diagnostics ++ ds
  errorCount_eq : s'.errorCount = s.errorCount + ds.length

theorem Session.Adds.none (s : Session) : s.Adds [] s := ⟨by simp, rfl⟩

theorem Session.Adds.trans (h : s.Adds ds s₁) (h₁ : s₁.Adds ds₁ s') : s.Adds (ds ++ ds₁) s' := by
  constructor
  · rw [h₁.diagnostics_eq, h.diagnostics_eq, List.append_assoc]
  · rw [h₁.errorCount_eq, h.errorCount_eq, List.length_append]
    omega

/-- The failure says that there were too many diagnostics. -/
def GaveUp (e : Option Error) : Prop :=
  ∃ error n, e = some error ∧ error.cause = .tooManyErrors n

theorem not_gaveUp_none : ¬ GaveUp none := by
  rintro ⟨_, _, h, -⟩
  cases h

/-- What was added between two sessions, and whether it led to the failure. -/
inductive Tally (s : Session) : Option Error → Session → Prop
  /-- Nothing was added, or what was added stayed below the limit. -/
  | below {ds : List Diagnostic} {e : Option Error} {s' : Session} (h : s.Adds ds s')
      (hlt : ds = [] ∨ s'.errorCount < maxErrors) (he : ¬ GaveUp e) : Tally s e s'
  /-- The last diagnostic reached the limit, and the session was given up at its token. -/
  | limit {ds : List Diagnostic} {d : Diagnostic} {s' : Session} (h : s.Adds (ds ++ [d]) s')
      (hlt : ds = [] ∨ s.errorCount + ds.length < maxErrors) (hle : maxErrors ≤ s'.errorCount) :
      Tally s (some { cause := .tooManyErrors s'.errorCount, position := d.position }) s'

theorem Tally.trans (h : Tally s none s₁) (h₁ : Tally s₁ e s') : Tally s e s' := by
  cases h with
  | @below ds _ _ hadds hlt he =>
    have hcount := hadds.errorCount_eq
    cases h₁ with
    | @below ds₁ _ _ hadds₁ hlt₁ he₁ =>
      have hcount₁ := hadds₁.errorCount_eq
      refine .below (hadds.trans hadds₁) ?_ he₁
      rcases hlt₁ with rfl | hlt₁
      · rcases hlt with rfl | hlt
        · exact .inl rfl
        · right
          simp at hcount₁
          omega
      · exact .inr hlt₁
    | @limit ds₁ d _ hadds₁ hlt₁ hle =>
      have hall : s.Adds ((ds ++ ds₁) ++ [d]) s' := by
        rw [List.append_assoc]
        exact hadds.trans hadds₁
      refine .limit hall ?_ hle
      -- Reports went on behind the first step, so it did not reach the limit.
      rcases hlt₁ with rfl | hlt₁
      · rcases hlt with rfl | hlt
        · exact .inl rfl
        · right
          simp
          omega
      · right
        rw [List.length_append]
        omega

/-! ## Every parser is tallied -/

/-- Reading the stream adds nothing and fails only with a lexical error. -/
theorem tally_onStream {α : Type} {read : EStateM Error TokenStream α}
    (hread : ∀ t e t', read t = .error e t' → e.category = .lexical) :
    Keeps Tally (onStream read) := by
  intro s
  unfold onStream
  cases hr : read s.stream with
  | ok a stream => exact .below ⟨by simp, rfl⟩ (.inl rfl) not_gaveUp_none
  | error error stream =>
    refine .below ⟨by simp, rfl⟩ (.inl rfl) ?_
    rintro ⟨_, n, h, hcause⟩
    cases h
    have hlexical := hread _ _ _ hr
    unfold Error.category at hlexical
    rw [hcause] at hlexical
    cases hlexical

theorem tally_emit (event : Event) : Keeps Tally (emit event) :=
  fun s => .below ⟨(List.append_nil s.diagnostics).symm, rfl⟩ (.inl rfl) not_gaveUp_none

theorem tally_advance : Keeps Tally advance := by
  intro s
  have hs : Tally s (failure (onStream TokenStream.next s)) (final (onStream TokenStream.next s)) :=
    tally_onStream (fun _ _ _ => TokenStream.isLexical_of_next) s
  unfold advance
  cases hr : onStream TokenStream.next s with
  | ok t s₁ =>
    rw [hr] at hs
    rw [bind_of_ok hr]
    exact hs.trans (tally_emit (.taken t) s₁)
  | error error s₁ =>
    rw [hr] at hs
    rw [bind_of_error hr]
    exact hs

theorem tally_report (expected context : String) (found : Token) :
    Keeps Tally (report expected context found) := by
  intro s
  by_cases h : maxErrors ≤ s.errorCount + 1
  · obtain ⟨s', hs', hm⟩ := @report_of_le s found expected context h
    have hcount : s.errorCount + 1 = s'.errorCount := hm.errorCount_eq.symm
    rw [hs', hcount]
    have hadds : s.Adds ([] ++ [{ expected, context, found := found }]) s' :=
      ⟨hm.diagnostics_eq, hm.errorCount_eq⟩
    exact .limit hadds (.inl rfl) (hcount ▸ h)
  · obtain ⟨s', hs', hm⟩ := @report_of_lt s found expected context (by omega)
    have hcount : s.errorCount + 1 = s'.errorCount := hm.errorCount_eq.symm
    rw [hs']
    exact .below ⟨hm.diagnostics_eq, hm.errorCount_eq⟩ (.inr (by show s'.errorCount < _; omega))
      not_gaveUp_none

theorem tally_lasting : Lasting Tally where
  refl s := .below (.none s) (.inl rfl) not_gaveUp_none
  trans := .trans
  emit := tally_emit
  peek := tally_onStream fun _ _ _ => TokenStream.isLexical_of_peek
  advance := tally_advance
  report := tally_report
  raised {e} s he := by
    refine .below (.none s) (.inl rfl) ?_
    rintro ⟨_, n, h, hcause⟩
    cases h
    rcases he with he | ⟨context, he⟩
    · unfold Error.category at he
      rw [hcause] at he
      cases he
    · rw [hcause] at he
      cases he
  caught {s s' e} hfatal h := by
    cases h with
    | below hadds hlt _ => exact .below hadds hlt not_gaveUp_none
    -- What reached the limit is fatal and is not caught.
    | limit => cases hfatal

/-! ## Operations -/

/-- What can be asked of a session. -/
inductive Operation where
  | peek
  | peekKind
  | nextIs (kind : Kind)
  | advance
  | expect (kind : Kind) (expected context : String)
  | reportNext (expected context : String)
  | synchronize (markers : List Kind) (context : String)
  | recoverStatement (context : String)
  | expression (context : String)
  | statement
  | body (context : String)
  | block (context : String)
  | function
  | program
deriving DecidableEq, Repr

namespace Operation

/-- What an operation gives where it does not fail. -/
def Answer : Operation → Type
  | .peek | .advance | .synchronize .. => Token
  | .peekKind => Kind
  | .nextIs _ => Bool
  | .expect .. => Option Token
  | .reportNext .. | .recoverStatement _ => Unit
  | .expression _ => Option Expr
  | .statement => Option Stmt
  | .body _ | .block _ => List Stmt
  | .function => Option Func
  | .program => Program

/-- The parser that an operation runs. -/
def run : (op : Operation) → ParseM op.Answer
  | .peek => Session.peek
  | .peekKind => Session.peekKind
  | .nextIs kind => Session.nextIs kind
  | .advance => Session.advance
  | .expect kind expected context => Session.expect kind expected context
  | .reportNext expected context => Session.reportNext expected context
  | .synchronize markers context => Session.synchronize markers context
  | .recoverStatement context => Session.recoverStatement context
  | .expression context => FxLang.expression context
  | .statement => Stmt.read
  | .body context => Stmt.body context
  | .block context => Stmt.block context
  | .function => Func.read
  | .program => Program.read

/-- Every operation keeps what lasts. -/
theorem keeps {ρ : Session → Option Error → Session → Prop} (h : Lasting ρ) (op : Operation) :
    Keeps ρ op.run := by
  cases op with
  | peek => exact h.peek
  | peekKind => exact h.peekKind
  | nextIs kind => exact h.nextIs kind
  | advance => exact h.advance
  | expect kind expected context => exact h.expect kind expected context
  | reportNext expected context => exact h.reportNext expected context
  | synchronize markers context => exact h.synchronize markers context
  | recoverStatement context => exact h.recoverStatement context
  | expression context => exact h.expression context
  | statement => exact h.stmt
  | body context => exact h.body context
  | block context => exact h.block context
  | function => exact h.func
  | program => exact h.program

end Operation

namespace Session

/-- The session after operations that were run one after the other, whether they failed or not. -/
def after (s : Session) (ops : List Operation) : Session :=
  ops.foldl (fun s op => final (op.run s)) s

/-- The counter is the number of the diagnostics. -/
def InStep (s : Session) : Prop :=
  s.errorCount = s.diagnostics.length

theorem InStep.of_tally (hs : s.InStep) (h : Tally s e s') : s'.InStep := by
  have hadds : ∃ ds, s.Adds ds s' := by
    cases h with
    | below hadds => exact ⟨_, hadds⟩
    | limit hadds => exact ⟨_, hadds⟩
  obtain ⟨ds, hadds⟩ := hadds
  unfold InStep at hs ⊢
  rw [hadds.errorCount_eq, hadds.diagnostics_eq, List.length_append, hs]

theorem InStep.of_moves {w : List Token} (hs : s.InStep) (hm : s.Moves w ds s') : s'.InStep := by
  unfold InStep at hs ⊢
  rw [hm.errorCount_eq, hm.diagnostics_eq, List.length_append, hs]

theorem InStep.after (hs : s.InStep) (ops : List Operation) : (s.after ops).InStep := by
  induction ops generalizing s with
  | nil => exact hs
  | cons op ops ih => exact ih (hs.of_tally (op.keeps tally_lasting s))

/-! ## What the limit means -/

/-- Between two sessions the diagnostics `added` were recorded; the failure `e` is that there are too
many of them if and only if there are, and then it names their number and stands at the last. From
the limit on no more than one is recorded. -/
structure Accounts (s : Session) (e : Option Error) (s' : Session) (added : List Diagnostic) :
    Prop where
  diagnostics_eq : s'.diagnostics = s.diagnostics ++ added
  gaveUp_iff : GaveUp e ↔ added ≠ [] ∧ maxErrors ≤ s'.errorCount
  gaveUp_at : ∀ error n, e = some error → error.cause = .tooManyErrors n →
    n = s'.errorCount ∧ ∃ d, s'.diagnostics.getLast? = some d ∧ error.position = d.position
  length_le : maxErrors ≤ s.errorCount → added.length ≤ 1

theorem exists_accounts (h : Tally s e s') : ∃ added, Accounts s e s' added := by
  cases h with
  | @below ds _ _ hadds hlt he =>
    have hcount := hadds.errorCount_eq
    refine ⟨ds, hadds.diagnostics_eq, ⟨fun h => absurd h he, ?_⟩, ?_, ?_⟩
    · intro ⟨hne, hle⟩
      rcases hlt with hnil | hlt
      · exact absurd hnil hne
      · omega
    · intro error n herror hcause
      exact absurd ⟨error, n, herror, hcause⟩ he
    · intro hle
      rcases hlt with rfl | hlt
      · exact Nat.zero_le 1
      · omega
  | @limit ds d _ hadds hlt hle =>
    refine ⟨ds ++ [d], hadds.diagnostics_eq, ⟨fun _ => ⟨by simp, hle⟩, fun _ => ?_⟩, ?_, ?_⟩
    · exact ⟨_, _, rfl, rfl⟩
    · intro error n herror hcause
      cases herror
      cases hcause
      exact ⟨rfl, d, by rw [hadds.diagnostics_eq]; simp, rfl⟩
    · intro hfull
      rcases hlt with rfl | hlt
      · exact Nat.le_refl 1
      · omega

/-- A session that started without diagnostics and was read as a program has no more of them than the
limit allows, and as many only if it was given up for it. -/
theorem length_diagnostics_of_program (hs : s.InStep) (hnone : s.diagnostics = []) :
    (final (Program.read s)).diagnostics.length ≤ maxErrors ∧
    ((final (Program.read s)).diagnostics.length = maxErrors ↔
      ∃ e, failure (Program.read s) = some e ∧ e.cause = .tooManyErrors maxErrors) := by
  have htally := tally_lasting.program s
  have hstep := hs.of_tally htally
  have hzero : s.errorCount = 0 := by rw [hs, hnone]; rfl
  unfold InStep at hstep
  rw [← hstep]
  generalize final (Program.read s) = s' at htally hstep ⊢
  generalize failure (Program.read s) = e at htally ⊢
  cases htally with
  | @below ds _ _ hadds hlt he =>
    have hcount := hadds.errorCount_eq
    have hbelow : s'.errorCount < maxErrors := by
      rcases hlt with rfl | hlt
      · rw [hcount, hzero]
        decide
      · exact hlt
    refine ⟨by omega, fun h => by omega, ?_⟩
    intro ⟨error, herror, hcause⟩
    exact absurd ⟨error, _, herror, hcause⟩ he
  | @limit ds d _ hadds hlt hle =>
    have hcount := hadds.errorCount_eq
    have hfive : s'.errorCount = maxErrors := by
      rw [List.length_append, List.length_singleton] at hcount
      rcases hlt with rfl | hlt
      · simp at hcount
        unfold maxErrors at hle
        omega
      · omega
    exact ⟨by omega, fun _ => ⟨_, rfl, by rw [hfive]⟩, fun _ => hfive⟩

/-- Unless it was given up for too many diagnostics, it stayed below the limit. -/
theorem length_lt_of_program (hs : s.InStep) (hnone : s.diagnostics = [])
    (h : ∀ e, failure (Program.read s) = some e → e.cause ≠ .tooManyErrors maxErrors) :
    (final (Program.read s)).diagnostics.length < maxErrors := by
  obtain ⟨hle, hlimit⟩ := length_diagnostics_of_program hs hnone
  refine Nat.lt_of_le_of_ne hle ?_
  intro heq
  obtain ⟨e, he, hcause⟩ := hlimit.1 heq
  exact h e he hcause

/-- Whatever was asked of a session on a source, in any order and whether it failed or not, the
counter is the number of the diagnostics. One more operation only adds diagnostics, and it gives the
session up if and only if it added some and the counter is at the limit or above it; it then names
the count and stands at the last diagnostic. At the limit it adds one at most. A source that is read
as a program has no more diagnostics than the limit allows, and as many if and only if it was given
up. -/
theorem diagnostics_in_step (file source : String) :
    (∀ (ops : List Operation) (op : Operation),
      ((ofSource file source).after ops).errorCount =
        ((ofSource file source).after ops).diagnostics.length ∧
      ∃ added, Accounts ((ofSource file source).after ops)
        (failure (op.run ((ofSource file source).after ops)))
        (final (op.run ((ofSource file source).after ops))) added) ∧
    (Program.ofSource file source).diagnostics.length ≤ maxErrors ∧
    ((Program.ofSource file source).diagnostics.length = maxErrors ↔
      ∃ e, (Program.ofSource file source).outcome = .error e ∧
        e.cause = .tooManyErrors maxErrors) := by
  have hstart : (ofSource file source).InStep := rfl
  refine ⟨?_, ?_⟩
  · intro ops op
    exact ⟨hstart.after ops, exists_accounts (op.keeps tally_lasting _)⟩
  · obtain ⟨s, hm, hdiag, hout⟩ := Program.ofSource_eq file source
    have hread := length_diagnostics_of_program (hstart.of_moves hm)
      (Program.diagnostics_of_moves hm)
    rw [hdiag, hout]
    cases hr : Program.read s with
    | ok p s' =>
      rw [hr] at hread
      simpa [failure] using hread
    | error e s' =>
      rw [hr] at hread
      simpa [failure] using hread

-- The session was given up at the fifth `;`, and a report after that is still counted.
example :
    ((ofSource "f" ";;;;;").after (List.replicate 5 .statement)).errorCount = 5 ∧
    ((ofSource "f" ";;;;;").after (List.replicate 5 .statement ++
      [.reportNext "a statement" "body"])).errorCount = 6 := by
  decide +kernel

end Session

end FxLang
