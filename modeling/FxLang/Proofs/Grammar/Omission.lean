import FxLang.Proofs.Grammar.Derivation

/-!
# Texts with missing terminators

A call, an assignment and a declaration end in `;`. An `Edit` is a text of the grammar together with
what becomes of it when the `;` of some of these statements are left out: the text that remains, the
tree without the statements that suffered, and the diagnostics that are due. Which `;` are left out
is a list of flags, one for each such statement in source order.

`Stmt.Omission`, `Func.Omission` and `Program.Omission` say which edits there are, along the rules
of the grammar and without reference to any parser.

* `Program.exists_omission`: every choice of flags makes an edit of every program.
* `Stmt.Omission.length_reports`: one diagnostic is due for each `;` that is left out.
-/

namespace FxLang

/-- A text of the grammar, and what becomes of it when some `;` are left out. -/
structure Edit (α : Type) where
  original : List Token
  edited : List Token
  /-- The tree of the original text. -/
  tree : α
  /-- What is left of the tree without the statements that lost a `;`. -/
  left : Option α
  /-- For each statement that ends in `;`, in order, whether its `;` is left out. -/
  choice : List Bool
  /-- The diagnostics that are due, given the token behind the text. -/
  reports : Token → List Diagnostic

/-- Edits of texts that stand one behind the other. -/
abbrev Edits (α : Type) := List (Edit α)

namespace Edits

variable {α : Type}

def original (es : Edits α) : List Token := (es.map Edit.original).flatten

def edited (es : Edits α) : List Token := (es.map Edit.edited).flatten

def trees (es : Edits α) : List α := es.map Edit.tree

def left (es : Edits α) : List α := es.filterMap Edit.left

def choice (es : Edits α) : List Bool := (es.map Edit.choice).flatten

/-- The diagnostics that are due, given the token behind the last text. The token behind another
text is the first of the next. -/
def reports : Edits α → Token → List Diagnostic
  | [], _ => []
  | e :: es, next => e.reports ((original es).headD next) ++ reports es next

variable (e : Edit α) (es : Edits α)

@[simp] theorem original_nil : original ([] : Edits α) = [] := rfl

@[simp] theorem original_cons : original (e :: es) = e.original ++ original es := rfl

@[simp] theorem edited_nil : edited ([] : Edits α) = [] := rfl

@[simp] theorem edited_cons : edited (e :: es) = e.edited ++ edited es := rfl

@[simp] theorem trees_nil : trees ([] : Edits α) = [] := rfl

@[simp] theorem trees_cons : trees (e :: es) = e.tree :: trees es := rfl

@[simp] theorem left_nil : left ([] : Edits α) = [] := rfl

@[simp] theorem left_cons : left (e :: es) = e.left.toList ++ left es := by
  cases h : e.left <;> simp [left, h]

@[simp] theorem choice_nil : choice ([] : Edits α) = [] := rfl

@[simp] theorem choice_cons : choice (e :: es) = e.choice ++ choice es := rfl

end Edits

/-! ## Statements -/

/-- The text of a statement in front of its `;`, its tree, and the name of its construct. -/
inductive Stmt.Unterminated : List Token → Stmt → String → Prop
  | call {name opened closed : Token} {w : List Token} {args : List Expr}
      (hname : name.kind = .identifier) (hopened : opened.kind = .openParen)
      (hargs : MaybeListed Expr.Tree w args) (hclosed : closed.kind = .closeParen) :
      Unterminated (name :: opened :: (w ++ [closed])) (.call name.text args name.position)
        Context.call
  | assign {name equals : Token} {w : List Token} {value : Expr} (hname : name.kind = .identifier)
      (hequals : equals.kind = .assignment) (hvalue : Expr.Tree w value) :
      Unterminated (name :: equals :: w) (.assign name.text value name.position) Context.assignment
  | declare {type name : Token} {ty : TypeName} (htype : Func.typeName? type.kind = some ty)
      (hname : name.kind = .identifier) :
      Unterminated [type, name] (.declare ty name.text name.position) Context.declaration

/-- The edits of statements. A loop is lost with any statement inside it that lost its `;`. -/
inductive Stmt.Omission : Edit Stmt → Prop
  | keep {w : List Token} {semicolon : Token} {t : Stmt} {context : String}
      (h : Stmt.Unterminated w t context) (hsemicolon : semicolon.kind = .semicolon) :
      Stmt.Omission
        { original := w ++ [semicolon], edited := w ++ [semicolon], tree := t, left := some t
          choice := [false], reports := fun _ => [] }
  | drop {w : List Token} {semicolon : Token} {t : Stmt} {context : String}
      (h : Stmt.Unterminated w t context) (hsemicolon : semicolon.kind = .semicolon) :
      Stmt.Omission
        { original := w ++ [semicolon], edited := w, tree := t, left := none, choice := [true]
          reports := fun next => [{ expected := "';'", context, found := next }] }
  | iter {header : List Token} {loop : List Stmt → Stmt} {body : Edits Stmt} {brace : Token}
      (hheader : Stmt.HeaderText Expr.Tree header loop) (hbody : ∀ e ∈ body, Stmt.Omission e)
      (hbrace : brace.kind = .closeCurly) :
      Stmt.Omission
        { original := header ++ (body.original ++ [brace])
          edited := header ++ (body.edited ++ [brace])
          tree := loop body.trees
          left := if true ∈ body.choice then none else some (loop body.trees)
          choice := body.choice
          reports := fun _ => body.reports brace }

/-! ## Functions and programs -/

/-- The edits of functions. Of its body, a function keeps the statements that are left. -/
inductive Func.Omission : Edit Func → Prop
  | mk {keyword name opened closed brace brace' : Token} {w : List Token} {params : List Param}
      {body : Edits Stmt} (hkeyword : keyword.kind = .func)
      (hname : name.kind = .identifier ∨ name.kind = .mainWord) (hopened : opened.kind = .openParen)
      (hparams : MaybeListed Param.Derives w params) (hclosed : closed.kind = .closeParen)
      (hbrace : brace.kind = .openCurly) (hbody : ∀ e ∈ body, Stmt.Omission e)
      (hbrace' : brace'.kind = .closeCurly) :
      Func.Omission
        { original := keyword :: name :: opened ::
            (w ++ closed :: brace :: (body.original ++ [brace']))
          edited := keyword :: name :: opened :: (w ++ closed :: brace :: (body.edited ++ [brace']))
          tree := { name := name.text, params, body := body.trees, position := keyword.position }
          left := some { name := name.text, params, body := body.left, position := keyword.position }
          choice := body.choice
          reports := fun _ => body.reports brace' }

/-- With the choice of `;` to leave out of the program `p` with the text `w`, the text `w'` remains,
of which the program `p'` is to be read and the diagnostics `ds` are due. -/
def Program.Omission (w : List Token) (p : Program) (choice : List Bool) (w' : List Token)
    (p' : Program) (ds : List Diagnostic) : Prop :=
  ∃ es : Edits Func, (∀ e ∈ es, Func.Omission e) ∧ es.original = w ∧ es.trees = p.functions ∧
    es.choice = choice ∧ es.edited = w' ∧ es.left = p'.functions ∧ ∀ next, es.reports next = ds

/-! ## Edits start from texts of the grammar -/

namespace Edits

variable {α : Type}

/-- The original texts with their trees. -/
def row (es : Edits α) : Row α := es.map fun e => (e.original, e.tree)

theorem text_row (es : Edits α) : es.row.text = es.original := by
  simp [row, Row.text, original, Function.comp_def]

theorem values_row (es : Edits α) : es.row.values = es.trees := by
  simp [row, Row.values, trees, Function.comp_def]

theorem forall_row {es : Edits α} {item : List Token → α → Prop}
    (h : ∀ e ∈ es, item e.original e.tree) : ∀ p ∈ es.row, item p.1 p.2 := by
  intro p hp
  obtain ⟨e, he, rfl⟩ := List.mem_map.1 hp
  exact h e he

end Edits

theorem Stmt.Unterminated.derives {w : List Token} {t : Stmt} {context : String} {semicolon : Token}
    (h : Unterminated w t context) (hs : semicolon.kind = .semicolon) :
    Derives Expr.Tree (w ++ [semicolon]) t := by
  cases h with
  | call hname hopened hargs hclosed => simpa using Derives.call hname hopened hargs hclosed hs
  | assign hname hequals hvalue => exact .assign hname hequals hvalue hs
  | declare htype hname => exact .declare htype hname hs

theorem Stmt.Omission.derives {e : Edit Stmt} (h : Omission e) :
    Derives Expr.Tree e.original e.tree := by
  induction h with
  | keep h hs => exact h.derives hs
  | drop h hs => exact h.derives hs
  | iter hheader _ hbrace ih =>
    have h := Derives.iter hheader (Edits.forall_row ih) hbrace
    rwa [Edits.text_row, Edits.values_row] at h

theorem Func.Omission.derives {e : Edit Func} (h : Omission e) :
    Derives Expr.Tree e.original e.tree := by
  obtain ⟨hkeyword, hname, hopened, hparams, hclosed, hbrace, hbody, hbrace'⟩ := h
  have h := Derives.mk hkeyword hname hopened hparams hclosed hbrace
    (Edits.forall_row fun e he => (hbody e he).derives) hbrace'
  rwa [Edits.text_row, Edits.values_row] at h

/-- What is edited is a program, with its tree. -/
theorem Program.Omission.tree {w w' : List Token} {p p' : Program} {choice : List Bool}
    {ds : List Diagnostic} (h : Omission w p choice w' p' ds) : Tree w p := by
  obtain ⟨es, hes, rfl, ht, -⟩ := h
  exact ⟨es.row, Edits.forall_row fun e he => (hes e he).derives, es.text_row,
    es.values_row.trans ht⟩

/-! ## Every choice is an edit -/

mutual

/-- How many statements in a statement, itself included, end in `;`. -/
def Stmt.terminators : Stmt → Nat
  | .call .. | .assign .. | .declare .. => 1
  | .iter _ _ _ _ body _ => Stmt.terminatorsOf body

/-- How many statements in a list of them, at any depth, end in `;`. -/
def Stmt.terminatorsOf : List Stmt → Nat
  | [] => 0
  | t :: ts => t.terminators + Stmt.terminatorsOf ts

end

/-- How many statements in a program end in `;`. -/
def Program.terminators (p : Program) : Nat :=
  Stmt.terminatorsOf (p.functions.flatMap Func.body)

/-- If each text of a row has an edit for every choice, so has the row. -/
theorem Row.exists_edits {α : Type} {omission : Edit α → Prop} {count : α → Nat}
    (total : List α → Nat) (hnil : total [] = 0)
    (hcons : ∀ a as, total (a :: as) = count a + total as) (row : Row α)
    (h : ∀ p ∈ row, ∀ choice : List Bool, choice.length = count p.2 →
      ∃ e, omission e ∧ e.original = p.1 ∧ e.tree = p.2 ∧ e.choice = choice)
    (choice : List Bool) (hc : choice.length = total row.values) :
    ∃ es : Edits α, (∀ e ∈ es, omission e) ∧ es.original = row.text ∧ es.trees = row.values ∧
      es.choice = choice := by
  induction row generalizing choice with
  | nil =>
    rw [values_nil, hnil] at hc
    exact ⟨[], by simp, rfl, rfl, (List.length_eq_zero_iff.1 hc).symm⟩
  | cons p row ih =>
    rw [values_cons, hcons] at hc
    obtain ⟨e, he, ho, ht, hch⟩ := h p List.mem_cons_self (choice.take (count p.2)) (by simp; omega)
    obtain ⟨es, hes, hos, hts, hchs⟩ := ih (fun q hq => h q (List.mem_cons_of_mem _ hq))
      (choice.drop (count p.2)) (by simp; omega)
    refine ⟨e :: es, List.forall_mem_cons.2 ⟨he, hes⟩, by simp [ho, hos], by simp [ht, hts], ?_⟩
    rw [Edits.choice_cons, hch, hchs, List.take_append_drop]

theorem Stmt.terminatorsOf_append (ts us : List Stmt) :
    terminatorsOf (ts ++ us) = terminatorsOf ts + terminatorsOf us := by
  induction ts with
  | nil => exact (Nat.zero_add _).symm
  | cons t ts ih => rw [List.cons_append, terminatorsOf, terminatorsOf, ih, Nat.add_assoc]

/-- A statement in front of its `;` has an edit for both choices. -/
theorem Stmt.Unterminated.exists_omission {w : List Token} {t : Stmt} {context : String}
    {semicolon : Token} (h : Unterminated w t context) (hs : semicolon.kind = .semicolon)
    (choice : List Bool) (hc : choice.length = 1) :
    ∃ e, Omission e ∧ e.original = w ++ [semicolon] ∧ e.tree = t ∧ e.choice = choice := by
  match choice, hc with
  | [false], _ => exact ⟨_, .keep h hs, rfl, rfl, rfl⟩
  | [true], _ => exact ⟨_, .drop h hs, rfl, rfl, rfl⟩

theorem Stmt.exists_omission {w : List Token} {t : Stmt} (h : Derives Expr.Tree w t)
    (choice : List Bool) (hc : choice.length = t.terminators) :
    ∃ e, Omission e ∧ e.original = w ∧ e.tree = t ∧ e.choice = choice := by
  induction h generalizing choice with
  | call hname hopened hargs hclosed hsemicolon =>
    simpa using (Unterminated.call hname hopened hargs hclosed).exists_omission hsemicolon choice hc
  | assign hname hequals hvalue hsemicolon =>
    exact (Unterminated.assign hname hequals hvalue).exists_omission hsemicolon choice hc
  | declare htype hname hsemicolon =>
    exact (Unterminated.declare htype hname).exists_omission hsemicolon choice hc
  | @iter header loop body brace hheader _ hbrace ih =>
    have hloop : (loop body.values).terminators = terminatorsOf body.values := by
      obtain ⟨⟩ := hheader
      rfl
    obtain ⟨es, hes, ho, ht, hch⟩ := Row.exists_edits terminatorsOf rfl (fun _ _ => rfl)
      body ih choice (hc.trans hloop)
    exact ⟨_, .iter hheader hes hbrace, by simp [ho], by simp [ht], hch⟩

theorem Func.exists_omission {w : List Token} {f : Func} (h : Derives Expr.Tree w f)
    (choice : List Bool) (hc : choice.length = Stmt.terminatorsOf f.body) :
    ∃ e, Omission e ∧ e.original = w ∧ e.tree = f ∧ e.choice = choice := by
  obtain ⟨hkeyword, hname, hopened, hparams, hclosed, hbrace, hbody, hbrace'⟩ := h
  obtain ⟨es, hes, ho, ht, hch⟩ := Row.exists_edits Stmt.terminatorsOf rfl (fun _ _ => rfl) _
    (fun p hp => Stmt.exists_omission (hbody p hp)) choice hc
  exact ⟨_, .mk hkeyword hname hopened hparams hclosed hbrace hes hbrace', by simp [ho],
    by simp [ht], hch⟩

/-- What is due about a function does not depend on what stands behind it. -/
theorem Func.Omission.reports_eq {e : Edit Func} (h : Omission e) (next next' : Token) :
    e.reports next = e.reports next' := by
  obtain ⟨⟩ := h
  rfl

theorem Func.reports_eq {es : Edits Func} (h : ∀ e ∈ es, Omission e) (next next' : Token) :
    es.reports next = es.reports next' := by
  induction es with
  | nil => rfl
  | cons e es ih =>
    rw [List.forall_mem_cons] at h
    rw [Edits.reports, Edits.reports, ih h.2, h.1.reports_eq]

theorem Program.exists_omission {w : List Token} {p : Program} (h : Tree w p) (choice : List Bool)
    (hc : choice.length = p.terminators) : ∃ w' p' ds, Omission w p choice w' p' ds := by
  obtain ⟨row, hrow, htext, hvalues⟩ := h
  rw [terminators, ← hvalues] at hc
  obtain ⟨es, hes, ho, ht, hch⟩ := Row.exists_edits
    (fun fs => Stmt.terminatorsOf (fs.flatMap Func.body)) rfl
    (fun f fs => Stmt.terminatorsOf_append _ _) row
    (fun q hq => Func.exists_omission (hrow q hq)) choice hc
  exact ⟨es.edited, ⟨es.left⟩, es.reports (.eof ⟨"", 0⟩), es, hes, ho.trans htext, ht.trans hvalues,
    hch, rfl, rfl, fun next => Func.reports_eq hes _ _⟩

/-! ## What the flags decide -/

/-- One diagnostic is due for each `;` left out, if that is so of each text. -/
theorem Edits.length_reports {α : Type} {es : Edits α}
    (h : ∀ e ∈ es, ∀ next, (e.reports next).length = e.choice.count true) (next : Token) :
    (es.reports next).length = es.choice.count true := by
  induction es with
  | nil => rfl
  | cons e es ih =>
    rw [List.forall_mem_cons] at h
    rw [reports, List.length_append, choice_cons, List.count_append, h.1, ih h.2]

/-- Where nothing is left out nothing changes, if that is so of each text. -/
theorem Edits.of_clean {α : Type} {es : Edits α}
    (h : ∀ e ∈ es, true ∉ e.choice → e.edited = e.original ∧ e.left = some e.tree)
    (hc : true ∉ es.choice) : es.edited = es.original ∧ es.left = es.trees := by
  induction es with
  | nil => exact ⟨rfl, rfl⟩
  | cons e es ih =>
    rw [List.forall_mem_cons] at h
    rw [choice_cons, List.mem_append, not_or] at hc
    obtain ⟨he, hl⟩ := h.1 hc.1
    obtain ⟨hes, hls⟩ := ih h.2 hc.2
    exact ⟨by simp [he, hes], by simp [hl, hls]⟩

namespace Stmt

variable {e : Edit Stmt}

theorem Omission.length_reports (h : Omission e) (next : Token) :
    (e.reports next).length = e.choice.count true := by
  induction h generalizing next with
  | keep => rfl
  | drop => rfl
  | iter _ _ _ ih => exact Edits.length_reports ih _

theorem Omission.of_clean (h : Omission e) (hc : true ∉ e.choice) :
    e.edited = e.original ∧ e.left = some e.tree := by
  induction h with
  | keep => exact ⟨rfl, rfl⟩
  | drop => simp at hc
  | iter _ _ _ ih =>
    obtain ⟨he, -⟩ := Edits.of_clean ih hc
    exact ⟨by simp [he], if_neg hc⟩

end Stmt

/-- A token that starts a statement. -/
def Kind.startsStatement : Kind → Bool
  | .identifier | .int | .bool | .iter => true
  | _ => false

theorem Kind.startsStatement_of_isType {k : Kind} (h : k.isType = true) :
    k.startsStatement = true := by
  revert h
  cases k <;> decide

theorem Stmt.Unterminated.exists_head {w : List Token} {t : Stmt} {context : String}
    (h : Unterminated w t context) : ∃ a v, w = a :: v ∧ a.kind.startsStatement = true := by
  cases h with
  | call hname => exact ⟨_, _, rfl, by rw [hname]; rfl⟩
  | assign hname => exact ⟨_, _, rfl, by rw [hname]; rfl⟩
  | declare htype =>
    exact ⟨_, _, rfl, Kind.startsStatement_of_isType (Func.exists_typeName_iff.1 ⟨_, htype⟩)⟩

/-- A statement starts with the same token before and after the edit. -/
theorem Stmt.Omission.exists_head {e : Edit Stmt} (h : Omission e) :
    ∃ a v v', e.original = a :: v ∧ e.edited = a :: v' ∧ a.kind.startsStatement = true := by
  cases h with
  | keep h =>
    obtain ⟨a, v, rfl, ha⟩ := h.exists_head
    exact ⟨a, _, _, rfl, rfl, ha⟩
  | drop h =>
    obtain ⟨a, v, rfl, ha⟩ := h.exists_head
    exact ⟨a, _, _, rfl, rfl, ha⟩
  | iter hheader =>
    obtain ⟨hkeyword⟩ := hheader
    exact ⟨_, _, _, rfl, rfl, by rw [hkeyword]; rfl⟩

namespace Func

variable {e : Edit Func}

theorem Omission.length_reports (h : Omission e) (next : Token) :
    (e.reports next).length = e.choice.count true := by
  obtain ⟨_, _, _, _, _, _, hbody, _⟩ := h
  exact Edits.length_reports (fun e he => (hbody e he).length_reports) _

theorem Omission.of_clean (h : Omission e) (hc : true ∉ e.choice) :
    e.edited = e.original ∧ e.left = some e.tree := by
  obtain ⟨_, _, _, _, _, _, hbody, _⟩ := h
  obtain ⟨he, hl⟩ := Edits.of_clean (fun e he => (hbody e he).of_clean) hc
  exact ⟨by simp [he], by simp [hl]⟩

end Func

namespace Program

variable {w w' : List Token} {p p' : Program} {choice : List Bool} {ds : List Diagnostic}

theorem Omission.length_reports (h : Omission w p choice w' p' ds) :
    ds.length = choice.count true := by
  obtain ⟨es, hes, -, -, rfl, -, -, hds⟩ := h
  rw [← hds (.eof ⟨"", 0⟩)]
  exact Edits.length_reports (fun e he => (hes e he).length_reports) _

theorem Omission.of_clean (h : Omission w p choice w' p' ds) (hc : true ∉ choice) :
    w' = w ∧ p' = p := by
  obtain ⟨es, hes, rfl, ht, rfl, rfl, hl, -⟩ := h
  obtain ⟨he, hl'⟩ := Edits.of_clean (fun e he => (hes e he).of_clean) hc
  refine ⟨he, ?_⟩
  cases p
  cases p'
  exact congrArg Program.mk (hl.symm.trans (hl'.trans ht))

end Program

end FxLang
