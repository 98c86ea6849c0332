import Mathlib.Data.List.Basic
import FxLang.Proofs.Grammar.Reading

/-!
# Junk between statements

A stretch of junk is any row of tokens up to a `;` that starts like no statement and has no `}` in
it. At every boundary between the statements of a body, at any depth, some of it may be put in. A
`Graft` is a text of the grammar together with what becomes of it: the text with the junk, and the
tree without the loops that got some. What is put in is a list with one entry for each boundary, in
source order.

`Stmt.Insertion`, `Func.Insertion` and `Program.Insertion` say which grafts there are, along the
rules of the grammar and without reference to any parser. Junk is reported at its first token and
skipped through its `;`, so that the next statement is read as if nothing had happened.

* `Program.exists_insertion`: every choice of junk makes a graft of every program.
* `Stmt.rule_junk_yields`: a stretch of junk is one diagnostic, and no statement.
* `Stmt.Insertion.readBy`: what is read of the grafts of statements.
* `Program.junk_isolated`: what is read of the grafts of programs.
-/

namespace FxLang

open Session Yields

/-! ## Junk -/

/-- Tokens up to a `;` that start like no statement. -/
structure Junk where
  /-- The tokens in front of the `;`. -/
  tokens : List Token
  semicolon : Token
  semicolon_kind : semicolon.kind = .semicolon
  kind_ne : ∀ t ∈ tokens, t.kind ≠ .semicolon ∧ t.kind ≠ .closeCurly ∧ t.kind ≠ .eof
  start : (tokens.headD semicolon).kind.startsStatement = false

namespace Junk

/-- All tokens of the junk. -/
def text (j : Junk) : List Token := j.tokens ++ [j.semicolon]

/-- The first token of the junk, which may be its `;`. -/
def first (j : Junk) : Token := j.tokens.headD j.semicolon

/-- What is due about the junk. -/
def report (j : Junk) : Diagnostic :=
  { expected := "statement", context := Context.functionBody, found := j.first }

/-- The tokens of stretches of junk one behind the other. -/
def texts (js : List Junk) : List Token := (js.map text).flatten

end Junk

/-! ## Grafts -/

/-- A text of the grammar, and what becomes of it when junk is put between its statements. -/
structure Graft (α : Type) where
  original : List Token
  edited : List Token
  /-- The tree of the original text. -/
  tree : α
  /-- What is left of the tree. -/
  left : Option α
  /-- For each boundary between statements, in order, the junk that is put there. -/
  choice : List (List Junk)

/-- The statements of a body with the junk in front of each of them, and the junk behind the last.
-/
structure Grafted where
  items : List (List Junk × Graft Stmt)
  last : List Junk

namespace Grafted

def original (b : Grafted) : List Token := (b.items.map fun q => q.2.original).flatten

def edited (b : Grafted) : List Token :=
  (b.items.map fun q => Junk.texts q.1 ++ q.2.edited).flatten ++ Junk.texts b.last

def trees (b : Grafted) : List Stmt := b.items.map fun q => q.2.tree

def left (b : Grafted) : List Stmt := b.items.filterMap fun q => q.2.left

def choice (b : Grafted) : List (List Junk) :=
  (b.items.map fun q => q.1 :: q.2.choice).flatten ++ [b.last]

theorem choice_cons (q : List Junk × Graft Stmt) (items : List (List Junk × Graft Stmt))
    (last : List Junk) :
    choice { items := q :: items, last } = q.1 :: (q.2.choice ++ choice { items, last }) := by
  simp [choice]

end Grafted

/-- The grafts of statements. A loop is lost with any junk inside it. -/
inductive Stmt.Insertion : Graft Stmt → Prop
  | plain {w : List Token} {semicolon : Token} {t : Stmt} {context : String}
      (h : Stmt.Unterminated w t context) (hsemicolon : semicolon.kind = .semicolon) :
      Stmt.Insertion
        { original := w ++ [semicolon], edited := w ++ [semicolon], tree := t, left := some t
          choice := [] }
  | iter {header : List Token} {loop : List Stmt → Stmt} {body : Grafted} {brace : Token}
      (hheader : Stmt.HeaderText Expr.Tree header loop)
      (hbody : ∀ q ∈ body.items, Stmt.Insertion q.2) (hbrace : brace.kind = .closeCurly) :
      Stmt.Insertion
        { original := header ++ (body.original ++ [brace])
          edited := header ++ (body.edited ++ [brace])
          tree := loop body.trees
          left := if body.choice.flatten.isEmpty then some (loop body.trees) else none
          choice := body.choice }

/-- The grafts of functions. Of its body, a function keeps the statements that are left. -/
inductive Func.Insertion : Graft Func → Prop
  | mk {keyword name opened closed brace brace' : Token} {w : List Token} {params : List Param}
      {body : Grafted} (hkeyword : keyword.kind = .func)
      (hname : name.kind = .identifier ∨ name.kind = .mainWord) (hopened : opened.kind = .openParen)
      (hparams : MaybeListed Param.Derives w params) (hclosed : closed.kind = .closeParen)
      (hbrace : brace.kind = .openCurly) (hbody : ∀ q ∈ body.items, Stmt.Insertion q.2)
      (hbrace' : brace'.kind = .closeCurly) :
      Func.Insertion
        { original := keyword :: name :: opened ::
            (w ++ closed :: brace :: (body.original ++ [brace']))
          edited := keyword :: name :: opened :: (w ++ closed :: brace :: (body.edited ++ [brace']))
          tree := { name := name.text, params, body := body.trees, position := keyword.position }
          left := some { name := name.text, params, body := body.left, position := keyword.position }
          choice := body.choice }

/-- With the choice of junk, the program `p` with the text `w` becomes the text `w'`, of which the
program `p'` is to be read. -/
def Program.Insertion (w : List Token) (p : Program) (choice : List (List Junk)) (w' : List Token)
    (p' : Program) : Prop :=
  ∃ gs : List (Graft Func), (∀ g ∈ gs, Func.Insertion g) ∧ (gs.map Graft.original).flatten = w ∧
    gs.map Graft.tree = p.functions ∧ (gs.map Graft.choice).flatten = choice ∧
    (gs.map Graft.edited).flatten = w' ∧ gs.filterMap Graft.left = p'.functions

/-! ## Grafts start from texts of the grammar -/

namespace Grafted

/-- The statements of a body as they were, with their trees. -/
def row (b : Grafted) : Row Stmt := b.items.map fun q => (q.2.original, q.2.tree)

theorem text_row (b : Grafted) : b.row.text = b.original := by
  simp [row, Row.text, original, Function.comp_def]

theorem values_row (b : Grafted) : b.row.values = b.trees := by
  simp [row, Row.values, trees, Function.comp_def]

theorem forall_row {b : Grafted} {item : List Token → Stmt → Prop}
    (h : ∀ q ∈ b.items, item q.2.original q.2.tree) : ∀ p ∈ b.row, item p.1 p.2 := by
  intro p hp
  obtain ⟨q, hq, rfl⟩ := List.mem_map.1 hp
  exact h q hq

end Grafted

theorem Stmt.Insertion.derives {g : Graft Stmt} (h : Insertion g) :
    Derives Expr.Tree g.original g.tree := by
  induction h with
  | plain h hs => exact h.derives hs
  | iter hheader _ hbrace ih =>
    have h := Derives.iter hheader (Grafted.forall_row ih) hbrace
    rwa [Grafted.text_row, Grafted.values_row] at h

theorem Func.Insertion.derives {g : Graft Func} (h : Insertion g) :
    Derives Expr.Tree g.original g.tree := by
  obtain ⟨hkeyword, hname, hopened, hparams, hclosed, hbrace, hbody, hbrace'⟩ := h
  have h := Derives.mk hkeyword hname hopened hparams hclosed hbrace
    (Grafted.forall_row fun q hq => (hbody q hq).derives) hbrace'
  rwa [Grafted.text_row, Grafted.values_row] at h

/-- What junk is put into is a program, with its tree. -/
theorem Program.Insertion.tree {w w' : List Token} {p p' : Program} {choice : List (List Junk)}
    (h : Insertion w p choice w' p') : Tree w p := by
  obtain ⟨gs, hgs, rfl, ht, -⟩ := h
  refine ⟨gs.map fun g => (g.original, g.tree), ?_, ?_, ?_⟩
  · intro q hq
    obtain ⟨g, hg, rfl⟩ := List.mem_map.1 hq
    exact (hgs g hg).derives
  · simp [Row.text, Function.comp_def]
  · simpa [Row.values, Function.comp_def] using ht

/-! ## Every choice is a graft -/

mutual

/-- How many boundaries there are between the statements inside a statement. -/
def Stmt.boundaries : Stmt → Nat
  | .call .. | .assign .. | .declare .. => 0
  | .iter _ _ _ _ body _ => Stmt.boundariesOf body

/-- How many boundaries there are in a body: in front of each statement, inside it, and behind the
last. -/
def Stmt.boundariesOf : List Stmt → Nat
  | [] => 1
  | t :: ts => 1 + t.boundaries + Stmt.boundariesOf ts

end

/-- How many boundaries there are in a program. -/
def Program.boundaries (p : Program) : Nat :=
  p.functions.foldr (fun f n => Stmt.boundariesOf f.body + n) 0

/-- If each statement of a body has a graft for every choice, so has the body. -/
theorem Row.exists_grafted (row : Row Stmt)
    (h : ∀ p ∈ row, ∀ choice : List (List Junk), choice.length = p.2.boundaries →
      ∃ g, Stmt.Insertion g ∧ g.original = p.1 ∧ g.tree = p.2 ∧ g.choice = choice)
    (choice : List (List Junk)) (hc : choice.length = Stmt.boundariesOf row.values) :
    ∃ b : Grafted, (∀ q ∈ b.items, Stmt.Insertion q.2) ∧ b.original = row.text ∧
      b.trees = row.values ∧ b.choice = choice := by
  induction row generalizing choice with
  | nil =>
    obtain ⟨last, rfl⟩ := List.length_eq_one_iff.1 hc
    exact ⟨{ items := [], last }, by simp, rfl, rfl, rfl⟩
  | cons p row ih =>
    rw [values_cons, Stmt.boundariesOf] at hc
    obtain ⟨js, choice, rfl⟩ : ∃ js choice', choice = js :: choice' :=
      List.exists_cons_of_length_pos (by omega)
    rw [List.length_cons] at hc
    obtain ⟨g, hg, ho, ht, hch⟩ := h p List.mem_cons_self (choice.take p.2.boundaries)
      (by simp; omega)
    obtain ⟨b, hb, hos, hts, hchs⟩ := ih (fun q hq => h q (List.mem_cons_of_mem _ hq))
      (choice.drop p.2.boundaries) (by simp; omega)
    refine ⟨{ items := (js, g) :: b.items, last := b.last }, List.forall_mem_cons.2 ⟨hg, hb⟩,
      ?_, ?_, ?_⟩
    · rw [text_cons, ← ho, ← hos]
      rfl
    · rw [values_cons, ← ht, ← hts]
      rfl
    · rw [Grafted.choice_cons, hch, hchs, List.take_append_drop]

theorem Stmt.exists_insertion {w : List Token} {t : Stmt} (h : Derives Expr.Tree w t)
    (choice : List (List Junk)) (hc : choice.length = t.boundaries) :
    ∃ g, Insertion g ∧ g.original = w ∧ g.tree = t ∧ g.choice = choice := by
  induction h generalizing choice with
  | call hname hopened hargs hclosed hsemicolon =>
    obtain rfl := List.length_eq_zero_iff.1 hc
    exact ⟨_, .plain (.call hname hopened hargs hclosed) hsemicolon, by simp, rfl, rfl⟩
  | assign hname hequals hvalue hsemicolon =>
    obtain rfl := List.length_eq_zero_iff.1 hc
    exact ⟨_, .plain (.assign hname hequals hvalue) hsemicolon, rfl, rfl, rfl⟩
  | declare htype hname hsemicolon =>
    obtain rfl := List.length_eq_zero_iff.1 hc
    exact ⟨_, .plain (.declare htype hname) hsemicolon, rfl, rfl, rfl⟩
  | @iter header loop body brace hheader _ hbrace ih =>
    have hloop : (loop body.values).boundaries = boundariesOf body.values := by
      obtain ⟨⟩ := hheader
      rfl
    obtain ⟨b, hb, ho, ht, hch⟩ := Row.exists_grafted body ih choice (hc.trans hloop)
    exact ⟨_, .iter hheader hb hbrace, by simp [ho], by simp [ht], hch⟩

theorem Func.exists_insertion {w : List Token} {f : Func} (h : Derives Expr.Tree w f)
    (choice : List (List Junk)) (hc : choice.length = Stmt.boundariesOf f.body) :
    ∃ g, Insertion g ∧ g.original = w ∧ g.tree = f ∧ g.choice = choice := by
  obtain ⟨hkeyword, hname, hopened, hparams, hclosed, hbrace, hbody, hbrace'⟩ := h
  obtain ⟨b, hb, ho, ht, hch⟩ := Row.exists_grafted _
    (fun p hp => Stmt.exists_insertion (hbody p hp)) choice hc
  exact ⟨_, .mk hkeyword hname hopened hparams hclosed hbrace hb hbrace', by simp [ho],
    by simp [ht], hch⟩

/-- If each function of a row has a graft for every choice, so has the row. -/
theorem Row.exists_grafts (row : Row Func) (hrow : ∀ q ∈ row, Func.Derives Expr.Tree q.1 q.2)
    (choice : List (List Junk))
    (hc : choice.length = row.values.foldr (fun f n => Stmt.boundariesOf f.body + n) 0) :
    ∃ gs : List (Graft Func), (∀ g ∈ gs, Func.Insertion g) ∧
      (gs.map Graft.original).flatten = row.text ∧ gs.map Graft.tree = row.values ∧
      (gs.map Graft.choice).flatten = choice := by
  induction row generalizing choice with
  | nil =>
    obtain rfl := List.length_eq_zero_iff.1 hc
    exact ⟨[], by simp, rfl, rfl, rfl⟩
  | cons q row ih =>
    rw [List.forall_mem_cons] at hrow
    rw [values_cons, List.foldr_cons] at hc
    obtain ⟨g, hg, ho, ht, hch⟩ := Func.exists_insertion hrow.1
      (choice.take (Stmt.boundariesOf q.2.body)) (by simp; omega)
    obtain ⟨gs, hgs, hos, hts, hchs⟩ := ih hrow.2 (choice.drop (Stmt.boundariesOf q.2.body))
      (by simp; omega)
    refine ⟨g :: gs, List.forall_mem_cons.2 ⟨hg, hgs⟩, by simp [ho, hos], by simp [ht, hts], ?_⟩
    rw [List.map_cons, List.flatten_cons, hch, hchs, List.take_append_drop]

theorem Program.exists_insertion {w : List Token} {p : Program} (h : Tree w p)
    (choice : List (List Junk)) (hc : choice.length = p.boundaries) :
    ∃ w' p', Insertion w p choice w' p' := by
  obtain ⟨row, hrow, htext, hvalues⟩ := h
  rw [boundaries, ← hvalues] at hc
  obtain ⟨gs, hgs, ho, ht, hch⟩ := Row.exists_grafts row hrow choice hc
  exact ⟨_, ⟨_⟩, gs, hgs, ho.trans htext, ht.trans hvalues, hch, rfl, rfl⟩

/-! ## Grafts as passages -/

/-- What is to be read of junk. -/
def Junk.passage (j : Junk) : Passage Stmt :=
  { text := j.text, reports := fun _ => [j.report], left := none }

/-- What is to be read of a graft. -/
def Graft.passage {α : Type} (g : Graft α) : Passage α :=
  { text := g.edited, reports := fun _ => g.choice.flatten.map Junk.report, left := g.left }

/-- What is to be read of the stretches of junk and the statements of a body, in order. -/
def Grafted.passages (b : Grafted) : Passages Stmt :=
  (b.items.map fun q => q.1.map Junk.passage ++ [q.2.passage]).flatten ++ b.last.map Junk.passage

namespace Passages

variable {α : Type} (ps qs : Passages α)

@[simp] theorem text_append : text (ps ++ qs) = text ps ++ text qs := by
  simp [text]

@[simp] theorem left_append : left (ps ++ qs) = left ps ++ left qs := by
  simp [left]

end Passages

namespace Junk

variable (js : List Junk)

@[simp] theorem text_passages : Passages.text (js.map passage) = texts js := by
  simp [Passages.text, texts, passage, Function.comp_def]

@[simp] theorem left_passages : Passages.left (js.map passage) = [] := by
  simp [Passages.left, passage, Function.comp_def, List.filterMap_map]

theorem reports_passages (next : Token) :
    (js.map passage).flatMap (fun p => p.reports next) = js.map report := by
  rw [List.flatMap_map, List.map_eq_flatMap]
  rfl

end Junk

namespace Grafted

variable (b : Grafted)

theorem mem_passages {p : Passage Stmt} (h : p ∈ b.passages) :
    (∃ j : Junk, p = j.passage) ∨ ∃ q ∈ b.items, p = q.2.passage := by
  simp only [passages, List.mem_append, List.mem_flatten, List.mem_map] at h
  rcases h with ⟨_, ⟨q, hq, rfl⟩, h⟩ | ⟨j, -, rfl⟩
  · rcases List.mem_append.1 h with h | h
    · obtain ⟨j, -, rfl⟩ := List.mem_map.1 h
      exact .inl ⟨j, rfl⟩
    · exact .inr ⟨q, hq, List.mem_singleton.1 h⟩
  · exact .inl ⟨j, rfl⟩

theorem text_passages : b.passages.text = b.edited := by
  obtain ⟨items, last⟩ := b
  induction items with
  | nil => simp [passages, edited]
  | cons q items ih =>
    simp only [passages, edited] at ih ⊢
    simp [← ih, Graft.passage]

theorem left_passages : b.passages.left = b.left := by
  obtain ⟨items, last⟩ := b
  induction items with
  | nil => simp [passages, left]
  | cons q items ih =>
    simp only [passages, left] at ih ⊢
    cases hq : q.2.left <;> simp [← ih, Graft.passage, hq]

/-- One diagnostic is due for each stretch of junk, in order. -/
theorem reports_passages (next : Token) :
    b.passages.reports next = b.choice.flatten.map Junk.report := by
  rw [Passages.reports_of_const next]
  · obtain ⟨items, last⟩ := b
    induction items with
    | nil => simpa [passages, choice] using Junk.reports_passages last next
    | cons q items ih =>
      simp only [passages] at ih ⊢
      rw [List.map_cons, List.flatten_cons, List.append_assoc, List.flatMap_append, ih,
        List.flatMap_append, Junk.reports_passages, choice_cons]
      simp [Graft.passage]
  · intro p hp next'
    rcases b.mem_passages hp with ⟨j, rfl⟩ | ⟨q, -, rfl⟩
    · rfl
    · rfl

end Grafted

/-! ## Where there is no junk -/

theorem Stmt.Insertion.left_of_clean {g : Graft Stmt} (h : Insertion g)
    (hc : g.choice.flatten = []) : g.left = some g.tree := by
  cases h with
  | plain => rfl
  | iter => rw [hc]; rfl

/-- Where no junk is put into a body, all of it is left. -/
theorem Grafted.left_of_clean {b : Grafted} (hb : ∀ q ∈ b.items, Stmt.Insertion q.2)
    (hc : b.choice.flatten = []) : b.left = b.trees := by
  obtain ⟨items, last⟩ := b
  induction items with
  | nil => rfl
  | cons q items ih =>
    rw [List.forall_mem_cons] at hb
    rw [choice_cons, List.flatten_cons, List.flatten_append, List.append_eq_nil_iff,
      List.append_eq_nil_iff] at hc
    have hq := hb.1.left_of_clean hc.2.1
    have hleft := ih hb.2 hc.2.2
    simp only [left, trees] at hleft ⊢
    simp [hq, hleft]

/-! ## Reading -/

namespace Stmt

variable {s : Session} {z : List Token}

/-- Junk is reported at its first token and skipped. -/
theorem rule_junk_yields {block : String → ParseM (List Stmt)} (j : Junk)
    (hs : s.At (j.text ++ z)) :
    Yields s j.text [j.report] none (rule block s) := by
  obtain ⟨v, htext⟩ : ∃ v, j.text = j.first :: v := by
    unfold Junk.text Junk.first
    cases j.tokens <;> exact ⟨_, rfl⟩
  have hstart : j.first.kind.startsStatement = false := j.start
  have hs' : s.At (j.first :: (v ++ z)) := by rwa [htext] at hs
  refine emit_bind _ hs' fun s₁ _ hs₁ => peekKind_bind hs₁ fun s₂ _ hs₂ => ?_
  have hskip : Yields s₂ j.text [j.report] (none : Option Stmt)
      ((Session.reportNext "statement" Context.functionBody >>= fun _ =>
        Session.recoverStatement Context.statement >>= fun _ => Pure.pure none) s₂) := by
    refine cast (bind (show s₂.At ([] ++ j.first :: (v ++ z)) from hs₂) (reportNext hs₂)
      fun s₃ _ hs₃ => ?_) rfl rfl
    have hs₃' : s₃.At (j.tokens ++ j.semicolon :: z) := by
      have hs₃' : s₃.At (j.text ++ z) := by rwa [htext]
      simpa [Junk.text] using hs₃'
    have hs₃'' : s₃.At (j.tokens ++ [j.semicolon] ++ z) := by simpa using hs₃'
    refine cast (bind hs₃'' (recoverStatement hs₃' (fun x hx => ?_) j.semicolon_kind)
      fun s₄ _ hs₄ => pure hs₄) (List.append_nil _) rfl
    exact ⟨(j.kind_ne x hx).1, (j.kind_ne x hx).2.1⟩
  generalize j.first.kind = k at hstart ⊢
  cases k <;> first | exact hskip | cases hstart

theorem Insertion.exists_head {g : Graft Stmt} (h : Insertion g) :
    ∃ a v, g.edited = a :: v ∧ a.kind.startsStatement = true := by
  cases h with
  | plain h =>
    obtain ⟨a, v, rfl, ha⟩ := h.exists_head
    exact ⟨a, _, rfl, ha⟩
  | iter hheader =>
    obtain ⟨hkeyword⟩ := hheader
    exact ⟨_, _, rfl, by rw [hkeyword]; rfl⟩

theorem starts_grafted {b : Grafted} (hb : ∀ q ∈ b.items, Insertion q.2) :
    ∀ p ∈ b.passages, Starts (fun _ => True) p := by
  intro p hp
  rcases b.mem_passages hp with ⟨j, rfl⟩ | ⟨q, hq, rfl⟩
  · obtain ⟨tokens, semicolon, hsemicolon, hkinds, -⟩ := j
    cases tokens with
    | nil => exact ⟨semicolon, [], rfl, by simp [hsemicolon], trivial⟩
    | cons t ts => exact ⟨t, ts ++ [semicolon], rfl, (hkinds t List.mem_cons_self).2.1, trivial⟩
  · obtain ⟨a, v, hedited, ha⟩ := (hb q hq).exists_head
    refine ⟨a, v, hedited, ?_, trivial⟩
    intro hk
    rw [hk] at ha
    cases ha

theorem readBy_junk (n : Nat) (j : Junk) : ReadBy (readWithin n) (fun _ => True) n j.passage := by
  intro s next z _ hn hs
  cases n with
  | zero => omega
  | succ n => exact rule_junk_yields j hs

/-- Statements are read as if there was no junk, except for loops with junk inside. -/
theorem Insertion.readBy (n : Nat) {g : Graft Stmt} (h : Insertion g) :
    ReadBy (readWithin n) (fun _ => True) n g.passage := by
  induction n generalizing g with
  | zero => intro s next z _ hn; omega
  | succ n ih =>
    intro s next z _ hn hs
    cases h with
    | @plain w semicolon t context h hsemicolon =>
      have hs : s.At (w ++ semicolon :: (next :: z)) := by simpa [Graft.passage] using hs
      exact rule_yields h hs (by rw [hsemicolon]; rfl) (by simp [hsemicolon])
        fun s' hs' => terminated_yields hs' hsemicolon
    | @iter header loop body brace hheader hbody hbrace =>
      have hs : s.At (header ++ (body.passages.text ++ brace :: (next :: z))) := by
        rw [body.text_passages]
        simpa [Graft.passage] using hs
      have hread : ∀ p ∈ body.passages,
          ReadBy (readWithin n) (fun _ => True) s.tokens.length p := by
        intro p hp s' next' z' hnext' hlt
        rcases body.mem_passages hp with ⟨j, rfl⟩ | ⟨q, hq, rfl⟩
        · exact readBy_junk n j s' next' z' hnext' (by omega)
        · exact ih (hbody q hq) s' next' z' hnext' (by omega)
      have hloop := rule_loop_yields hheader (starts_grafted hbody) hbrace trivial hs hread
      rw [body.reports_passages, body.text_passages, body.left_passages] at hloop
      have hleft :
          (if body.choice.flatten.map Junk.report = [] then some (loop body.left) else none) =
          if body.choice.flatten.isEmpty then some (loop body.trees) else none := by
        by_cases hc : body.choice.flatten = []
        · rw [Grafted.left_of_clean hbody hc, hc]
          rfl
        · rw [if_neg (by rwa [List.map_eq_nil_iff]), if_neg (by rwa [List.isEmpty_iff])]
      rw [hleft] at hloop
      exact hloop

end Stmt

theorem Func.Insertion.reads {g : Graft Func} (h : Insertion g) : Reads g.passage where
  starts := by
    obtain ⟨hkeyword⟩ := h
    exact ⟨_, _, rfl, hkeyword⟩
  yields s z next hs := by
    obtain @⟨keyword, name, opened, closed, brace, brace', w, params, body, hkeyword, hname,
      hopened, hparams, hclosed, hbrace, hbody, hbrace'⟩ := h
    refine read_of_block hkeyword hname hopened hparams hclosed (by simpa [Graft.passage] using hs)
      fun s' hs' => ?_
    rw [← body.text_passages] at hs'
    have hpassages : ∀ p ∈ body.passages, Stmt.Starts (fun _ => True) p ∧
        ∀ n, Stmt.ReadBy (Stmt.readWithin n) (fun _ => True) n p := by
      intro p hp
      refine ⟨Stmt.starts_grafted hbody p hp, fun n => ?_⟩
      rcases body.mem_passages hp with ⟨j, rfl⟩ | ⟨q, hq, rfl⟩
      · exact Stmt.readBy_junk n j
      · exact (hbody q hq).readBy n
    have hblock : Yields s' _ _ _ (Stmt.block Context.function s') :=
      Stmt.block_yields hpassages hbrace hbrace' trivial hs'
    rwa [body.reports_passages, body.text_passages, body.left_passages] at hblock

/-! ## Programs -/

namespace Program

/-- Junk between statements is isolated from them. For every choice of junk at the boundaries of a
program there is the program with it, and however its text came about, it gives one diagnostic for
each stretch of junk, at its first token, and the program without those statements of the function
bodies that have junk inside. The fifth diagnostic is the last. -/
theorem junk_isolated (w : List Token) (p : Program) (h : Tree w p) (choice : List (List Junk))
    (hc : choice.length = p.boundaries) :
    (∃ w' p', Insertion w p choice w' p') ∧
      ∀ w' p', Insertion w p choice w' p' →
        ∀ file source eof, tokenize file source = .ok (w' ++ [eof]) →
          (choice.flatten.length ≤ 4 →
            (ofSource file source).diagnostics = choice.flatten.map Junk.report ∧
            (ofSource file source).outcome = .ok p') ∧
          (5 ≤ choice.flatten.length →
            (ofSource file source).diagnostics = (choice.flatten.map Junk.report).take 5 ∧
            ∃ e, (ofSource file source).outcome = .error e ∧ e.cause = .tooManyErrors 5) := by
  refine ⟨exists_insertion h choice hc, ?_⟩
  rintro w' ⟨functions⟩ ⟨gs, hgs, -, -, rfl, rfl, rfl⟩ file source eof htokens
  have hps : ∀ q ∈ gs.map Graft.passage, Func.Reads q := by
    intro q hq
    obtain ⟨g, hg, rfl⟩ := List.mem_map.1 hq
    exact (hgs g hg).reads
  have htext : Passages.text (gs.map Graft.passage) = (gs.map Graft.edited).flatten := by
    simp [Passages.text, Graft.passage, Function.comp_def]
  have hleft : Passages.left (gs.map Graft.passage) = gs.filterMap Graft.left := by
    simp [Passages.left, Graft.passage, List.filterMap_map]
  have hreports : Passages.reports (gs.map Graft.passage) eof =
      (gs.map Graft.choice).flatten.flatten.map Junk.report := by
    rw [Passages.reports_of_const eof]
    · simp [Graft.passage, List.flatMap_def, List.flatten_flatten, Function.comp_def]
    · intro q hq next
      obtain ⟨g, -, rfl⟩ := List.mem_map.1 hq
      rfl
  obtain ⟨hlt, hle⟩ := ofSource_of_reads eof hps (by rwa [htext])
  rw [hreports, hleft, List.length_map] at hlt
  rw [hreports, List.length_map] at hle
  have hmax : maxErrors = 5 := rfl
  exact ⟨fun hn => hlt (by omega), fun hn => hle (by omega)⟩

/-- Junk with an operator and a parenthesis that is never closed. -/
private def unclosed : Junk where
  tokens := [lineToken .plus "+", lineToken .openParen "("]
  semicolon := lineToken .semicolon ";"
  semicolon_kind := rfl
  kind_ne := by decide
  start := rfl

/-- The tokens of `func main() { iter (i := a; b, c) { + ( ; } int x; }`. -/
private def loopTokens : List Token :=
  [lineToken .func "func", lineToken .mainWord "main", lineToken .openParen "(",
   lineToken .closeParen ")", lineToken .openCurly "\x7b"] ++ (lineHeader "i" ++
  [lineToken .plus "+", lineToken .openParen "(", lineToken .semicolon ";",
   lineToken .closeCurly "\x7d", lineToken .int "int", lineToken .identifier "x",
   lineToken .semicolon ";", lineToken .closeCurly "\x7d"])

/-- Of `func main() { iter (i := a; b, c) { } int x; }` with `+ ( ;` in the loop, the declaration is
left. -/
theorem junk_isolated_loop :
    (ofSource "f" "func main() \x7b iter (i := a; b, c) \x7b + ( ; \x7d int x; \x7d").diagnostics =
        [{ expected := "statement", context := "function body"
           found := { kind := .plus, text := "+", position := ⟨"f", 1⟩ } }] ∧
      (ofSource "f" "func main() \x7b iter (i := a; b, c) \x7b + ( ; \x7d int x; \x7d").outcome =
        .ok { functions := [{ name := "main", params := [], body := [.declare .int "x" ⟨"f", 1⟩]
                              position := ⟨"f", 1⟩ }] } := by
  have hx : Stmt.Unterminated [lineToken .int "int", lineToken .identifier "x"]
      (.declare .int "x" ⟨"f", 1⟩) Context.declaration := .declare rfl rfl
  have hloop := @Stmt.Insertion.iter _ _ { items := [], last := [unclosed] }
    (lineToken .closeCurly "\x7d") (Stmt.headerText_line "i") (by simp) rfl
  have hdeclaration := @Stmt.Insertion.plain _ (lineToken .semicolon ";") _ _ hx rfl
  have hmain := List.forall_mem_singleton.2 (@Func.Insertion.mk (lineToken .func "func")
    (lineToken .mainWord "main") (lineToken .openParen "(") (lineToken .closeParen ")")
    (lineToken .openCurly "\x7b") (lineToken .closeCurly "\x7d") [] []
    { items := [([], _), ([], _)], last := [] } rfl (.inr rfl) rfl
    (.inl ⟨rfl, rfl⟩) rfl rfl
    (List.forall_mem_cons.2 ⟨hloop, List.forall_mem_singleton.2 hdeclaration⟩)
    rfl)
  have hinsertion : Insertion _ ⟨_⟩ [[], [unclosed], [], []] loopTokens ⟨_⟩ :=
    ⟨_, hmain, rfl, rfl, rfl, rfl, rfl⟩
  obtain ⟨-, h⟩ := junk_isolated _ _ hinsertion.tree [[], [unclosed], [], []] rfl
  exact (h _ _ hinsertion "f" _ (.eof ⟨"f", 1⟩) (by decide +kernel)).1 (by decide)

end Program

end FxLang
