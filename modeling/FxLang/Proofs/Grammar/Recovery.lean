import Mathlib.Data.List.Basic
import FxLang.Proofs.Grammar.Reading

/-!
# Reading programs and what is left of them

What each rule yields on a text that the grammar derives, with some terminating `;` left out. A
missing `;` is reported at the token in its place, which stays; so the next statement is read as if
nothing had happened, and the diagnostics are those that are due.

* `Stmt.readWithin_yields`, `Func.read_yields`: what is read of the edits of statements and
  functions.
* `Program.missing_terminators_isolated`: every choice of `;` to leave out of a program gives the
  diagnostics that are due, and the program without the statements that suffered.
* `Program.clean_iff_tree`: exactly the programs are read without diagnostics, and as their trees.
-/

namespace FxLang

open Session Yields

/-! ## Edits as passages -/

/-- What is to be read of an edit. -/
def Edit.passage {α : Type} (e : Edit α) : Passage α :=
  { text := e.edited, reports := e.reports, left := e.left }

namespace Edits

variable {α : Type}

def passages (es : Edits α) : Passages α := es.map Edit.passage

@[simp] theorem text_passages (es : Edits α) : es.passages.text = es.edited := by
  simp [passages, Passages.text, edited, Edit.passage, Function.comp_def]

@[simp] theorem left_passages (es : Edits α) : es.passages.left = es.left := by
  simp [passages, Passages.left, left, Edit.passage, Function.comp_def, List.filterMap_map]

end Edits

variable {s : Session} {w z : List Token} {t : Token} {context expected : String}

/-! ## Statements -/

namespace Stmt

/-- The end of a statement whose `;` is missing. -/
theorem unterminated_yields {stmt : Stmt} (hs : s.At (t :: z)) (ht : t.kind ≠ .semicolon) :
    Yields s [] [{ expected := "';'", context, found := t }] none
      ((Session.expect .semicolon "';'" context >>= fun _ =>
        unlessReported s.errorCount stmt) s) := by
  refine cast (bind (show s.At ([] ++ t :: z) from hs) (expect_missing hs ht)
    fun s₁ m₁ hs₁ => ?_) rfl rfl
  have hne : s₁.errorCount ≠ s.errorCount := by
    rw [m₁.errorCount_eq, List.length_singleton]; omega
  rw [unlessReported, bind_of_ok (countErrors_apply s₁), if_neg hne]
  exact pure hs₁

/-- The tokens behind a statement that may have lost its `;`. -/
def Behind (next : Token) : Prop :=
  next.kind.startsStatement = true ∨ next.kind = .closeCurly

theorem Omission.starts {e : Edit Stmt} (h : Omission e) : Starts Behind e.passage := by
  obtain ⟨a, v, v', -, hedited, ha⟩ := h.exists_head
  refine ⟨a, v', hedited, ?_, .inl ha⟩
  intro hk
  rw [hk] at ha
  cases ha

theorem starts_passages {es : Edits Stmt} (hes : ∀ e ∈ es, Omission e) :
    ∀ p ∈ es.passages, Starts Behind p := by
  intro p hp
  obtain ⟨e, he, rfl⟩ := List.mem_map.1 hp
  exact (hes e he).starts

theorem headD_edited {es : Edits Stmt} (hes : ∀ e ∈ es, Omission e) (next : Token) :
    es.edited.headD next = es.original.headD next := by
  cases es with
  | nil => rfl
  | cons e es =>
    obtain ⟨a, v, v', ho, he, -⟩ := (hes e List.mem_cons_self).exists_head
    simp [ho, he]

theorem reports_passages {es : Edits Stmt} (hes : ∀ e ∈ es, Omission e) (next : Token) :
    es.passages.reports next = es.reports next := by
  induction es with
  | nil => rfl
  | cons e es ih =>
    rw [List.forall_mem_cons] at hes
    rw [Edits.reports, ← ih hes.2, ← headD_edited hes.2, ← Edits.text_passages]
    rfl

theorem readWithin_yields (n : Nat) {e : Edit Stmt} (he : Omission e) :
    ReadBy (readWithin n) Behind n e.passage := by
  induction n generalizing e with
  | zero => intro s next z _ hn; omega
  | succ n ih =>
    intro s next z hnext hn hs
    have hop : next.kind.isOperator = false ∧ next.kind ≠ .openParen ∧ next.kind ≠ .semicolon := by
      unfold Behind at hnext
      generalize next.kind = k at hnext ⊢
      revert hnext
      cases k <;> decide
    cases he with
    | @keep w semicolon t context h hsemicolon =>
      have hs : s.At (w ++ semicolon :: (next :: z)) := by simpa [Edit.passage] using hs
      exact rule_yields h hs (by rw [hsemicolon]; rfl) (by simp [hsemicolon])
        fun s' hs' => terminated_yields hs' hsemicolon
    | @drop w semicolon t context h hsemicolon =>
      exact cast (rule_yields h hs hop.1 hop.2.1 fun s' hs' => unterminated_yields hs' hop.2.2)
        (List.append_nil _) rfl
    | @iter header loop body brace hheader hbody hbrace =>
      have hs : s.At (header ++ (body.passages.text ++ brace :: (next :: z))) := by
        simpa [Edit.passage] using hs
      have hread : ∀ p ∈ body.passages, ReadBy (readWithin n) Behind s.tokens.length p := by
        intro p hp s' next' z' hnext' hlt
        obtain ⟨e', he', rfl⟩ := List.mem_map.1 hp
        exact ih (hbody e' he') s' next' z' hnext' (by omega)
      have hloop := rule_loop_yields hheader (starts_passages hbody) hbrace (.inr hbrace) hs hread
      rw [reports_passages hbody, Edits.text_passages, Edits.left_passages] at hloop
      -- Something is due inside exactly if some `;` inside was left out.
      have hlength := Edits.length_reports (fun e he => (hbody e he).length_reports) brace
      have hleft : (if body.reports brace = [] then some (loop body.left) else none) =
          if true ∈ body.choice then none else some (loop body.trees) := by
        by_cases hc : true ∈ body.choice
        · have hpos := List.count_pos_iff.2 hc
          rw [if_pos hc, if_neg (List.ne_nil_of_length_pos (by omega))]
        · have hzero := List.count_eq_zero.2 hc
          rw [if_neg hc, if_pos (List.length_eq_zero_iff.1 (by omega)),
            (Edits.of_clean (fun e he => (hbody e he).of_clean) hc).2]
      rw [hleft] at hloop
      exact hloop

end Stmt

/-! ## Functions -/

namespace Func

theorem read_yields {e : Edit Func} (h : Omission e) (hs : s.At (e.edited ++ z)) (next : Token) :
    Yields s e.edited (e.reports next) e.left (read s) := by
  obtain @⟨keyword, name, opened, closed, brace, brace', w, params, body, hkeyword, hname, hopened,
    hparams, hclosed, hbrace, hbody, hbrace'⟩ := h
  refine read_of_block hkeyword hname hopened hparams hclosed (by simpa using hs) fun s' hs' => ?_
  rw [← Edits.text_passages] at hs'
  have hpassages : ∀ p ∈ body.passages, Stmt.Starts Stmt.Behind p ∧
      ∀ n, Stmt.ReadBy (Stmt.readWithin n) Stmt.Behind n p := by
    intro p hp
    obtain ⟨e, he, rfl⟩ := List.mem_map.1 hp
    exact ⟨(hbody e he).starts, fun n => Stmt.readWithin_yields n (hbody e he)⟩
  have hblock : Yields s' _ _ _ (Stmt.block Context.function s') :=
    Stmt.block_yields hpassages hbrace hbrace' (.inr hbrace') hs'
  rwa [Stmt.reports_passages hbody, Edits.text_passages, Edits.left_passages] at hblock

theorem reports_passages {es : Edits Func} (hes : ∀ e ∈ es, Omission e) (next : Token) :
    es.passages.reports next = es.reports next := by
  induction es with
  | nil => rfl
  | cons e es ih =>
    rw [List.forall_mem_cons] at hes
    rw [Edits.reports, ← ih hes.2, hes.1.reports_eq _ ((Edits.passages es).text.headD next)]
    rfl

theorem Omission.reads {e : Edit Func} (h : Omission e) : Reads e.passage where
  starts := by
    obtain ⟨hkeyword⟩ := h
    exact ⟨_, _, rfl, hkeyword⟩
  yields _ _ next hs := read_yields h hs next

end Func

/-! ## Programs -/

namespace Program

/-- A source that is the edit of a program gives the diagnostics that are due and the program that
is left, unless the diagnostics reach the limit. -/
theorem ofSource_of_omission {file source : String} {w' : List Token} {p p' : Program}
    {choice : List Bool} {ds : List Diagnostic} (h : Omission w p choice w' p' ds)
    (htokens : tokenize file source = .ok (w' ++ [t])) :
    (ds.length < maxErrors → (ofSource file source).diagnostics = ds ∧
        (ofSource file source).outcome = .ok p') ∧
      (maxErrors ≤ ds.length → (ofSource file source).diagnostics = ds.take maxErrors ∧
        ∃ e, (ofSource file source).outcome = .error e ∧ e.cause = .tooManyErrors maxErrors) := by
  obtain ⟨es, hes, -, -, -, rfl, hleft, hds⟩ := h
  have hps : ∀ q ∈ es.passages, Func.Reads q := by
    intro q hq
    obtain ⟨e, he, rfl⟩ := List.mem_map.1 hq
    exact (hes e he).reads
  have hread := ofSource_of_reads t hps (by rwa [Edits.text_passages])
  rwa [Func.reports_passages hes, hds, Edits.left_passages, hleft] at hread

/-- Missing `;` are isolated from each other and from the rest of a program. For every choice of
statements there is the program without their `;`, and however its text came about, it gives one
diagnostic for each `;`, at the token in its place, and the program without those statements of the
function bodies that lost a `;` or have one inside that did. The fifth diagnostic is the last. -/
theorem missing_terminators_isolated (w : List Token) (p : Program) (h : Tree w p)
    (choice : List Bool) (hc : choice.length = p.terminators) :
    (∃ w' p' ds, Omission w p choice w' p' ds) ∧
      ∀ w' p' ds, Omission w p choice w' p' ds →
        ds.length = choice.count true ∧
        ∀ file source eof, tokenize file source = .ok (w' ++ [eof]) →
          (choice.count true ≤ 4 → (ofSource file source).diagnostics = ds ∧
            (ofSource file source).outcome = .ok p') ∧
          (5 ≤ choice.count true → (ofSource file source).diagnostics = ds.take 5 ∧
            ∃ e, (ofSource file source).outcome = .error e ∧ e.cause = .tooManyErrors 5) := by
  refine ⟨exists_omission h choice hc, fun w' p' ds ho => ⟨ho.length_reports, ?_⟩⟩
  intro file source eof htokens
  obtain ⟨hlt, hle⟩ := ofSource_of_omission ho htokens
  have hlength := ho.length_reports
  have hmax : maxErrors = 5 := rfl
  exact ⟨fun hn => hlt (by omega), fun hn => hle (by omega)⟩

/-- The function `main` with a declaration, a call inside two loops, an assignment inside one and a
last declaration. The `;` of the call and of the last declaration are missing. -/
def sparseSource : String :=
  "func main() \x7b int x; iter (i := a; b, c) \x7b " ++
    "iter (j := a; b, c) \x7b f(x) \x7d x = j; \x7d bool z \x7d"

/-- The edits of the statements of `main`. -/
private theorem exists_edits_sparse : ∃ body : Edits Stmt, (∀ e ∈ body, Stmt.Omission e) ∧
    Stmt.terminatorsOf body.trees = 4 ∧ body.choice = [false, true, false, true] ∧
    body.edited =
      [lineToken .int "int", lineToken .identifier "x", lineToken .semicolon ";"] ++
      (lineHeader "i" ++ (lineHeader "j" ++
      [lineToken .identifier "f", lineToken .openParen "(", lineToken .identifier "x",
       lineToken .closeParen ")", lineToken .closeCurly "\x7d",
       lineToken .identifier "x", lineToken .assignment "=", lineToken .identifier "j",
       lineToken .semicolon ";", lineToken .closeCurly "\x7d",
       lineToken .bool "bool", lineToken .identifier "z"])) ∧
    body.left = [.declare .int "x" ⟨"f", 1⟩] ∧
    ∀ next, body.reports next =
      [{ expected := "';'", context := Context.call, found := lineToken .closeCurly "\x7d" },
       { expected := "';'", context := Context.declaration, found := next }] := by
  have hfirst : Stmt.Unterminated [lineToken .int "int", lineToken .identifier "x"]
      (.declare .int "x" ⟨"f", 1⟩) Context.declaration := .declare rfl rfl
  have hcall : Stmt.Unterminated (lineToken .identifier "f" :: lineToken .openParen "(" ::
      ([lineToken .identifier "x"] ++ [lineToken .closeParen ")"]))
      (.call "f" [lineLeaf "x"] ⟨"f", 1⟩) Context.call :=
    .call rfl rfl (.inr (.one (tree_lineLeaf "x"))) rfl
  have hassign : Stmt.Unterminated [lineToken .identifier "x", lineToken .assignment "=",
      lineToken .identifier "j"] (.assign "x" (lineLeaf "j") ⟨"f", 1⟩) Context.assignment :=
    .assign rfl rfl (tree_lineLeaf "j")
  have hlast : Stmt.Unterminated [lineToken .bool "bool", lineToken .identifier "z"]
      (.declare .bool "z" ⟨"f", 1⟩) Context.declaration := .declare rfl rfl
  have hsemicolon : (lineToken .semicolon ";").kind = .semicolon := rfl
  have hbrace : (lineToken .closeCurly "\x7d").kind = .closeCurly := rfl
  have hinner := Stmt.Omission.iter (Stmt.headerText_line "j")
    (List.forall_mem_singleton.2 (.drop hcall hsemicolon)) hbrace
  have houter := Stmt.Omission.iter (Stmt.headerText_line "i")
    (List.forall_mem_cons.2 ⟨hinner, List.forall_mem_singleton.2 (.keep hassign hsemicolon)⟩) hbrace
  exact ⟨_, List.forall_mem_cons.2 ⟨.keep hfirst hsemicolon, List.forall_mem_cons.2 ⟨houter,
    List.forall_mem_singleton.2 (.drop hlast hsemicolon)⟩⟩, rfl, rfl, rfl, rfl, fun _ => rfl⟩

/-- Both missing `;` are reported, and the first declaration is left. -/
theorem missing_terminators_isolated_nested :
    (ofSource "f" sparseSource).diagnostics =
        [{ expected := "';'", context := Context.call, found := lineToken .closeCurly "\x7d" },
         { expected := "';'", context := Context.declaration
           found := lineToken .closeCurly "\x7d" }] ∧
      (ofSource "f" sparseSource).outcome =
        .ok { functions := [{ name := "main", params := [], body := [.declare .int "x" ⟨"f", 1⟩]
                              position := ⟨"f", 1⟩ }] } := by
  obtain ⟨body, hbody, hcount, hchoice, hedited, hleft, hreports⟩ := exists_edits_sparse
  have hmain := List.forall_mem_singleton.2 (@Func.Omission.mk (lineToken .func "func")
    (lineToken .mainWord "main") (lineToken .openParen "(") (lineToken .closeParen ")")
    (lineToken .openCurly "\x7b") (lineToken .closeCurly "\x7d") [] [] body rfl (.inr rfl) rfl
    (.inl ⟨rfl, rfl⟩) rfl rfl hbody rfl)
  have homission : Omission _
      ⟨[{ name := "main", params := [], body := body.trees, position := ⟨"f", 1⟩ }]⟩
      [false, true, false, true] (lineToken .func "func" ::
      lineToken .mainWord "main" :: lineToken .openParen "(" :: lineToken .closeParen ")" ::
      lineToken .openCurly "\x7b" :: (body.edited ++ [lineToken .closeCurly "\x7d"]))
      ⟨[{ name := "main", params := [], body := body.left, position := ⟨"f", 1⟩ }]⟩
      (body.reports (lineToken .closeCurly "\x7d")) :=
    ⟨_, hmain, rfl, rfl, (List.append_nil _).trans hchoice, List.append_nil _, rfl,
      fun _ => List.append_nil _⟩
  rw [hedited, hleft, hreports] at homission
  obtain ⟨-, h⟩ := missing_terminators_isolated _ _ homission.tree [false, true, false, true]
    (by simp [terminators, hcount])
  exact ((h _ _ _ homission).2 "f" sparseSource (.eof ⟨"f", 1⟩) (by decide +kernel)).1 (by decide)

/-! ## Programs without omissions -/

/-- Exactly the programs of the grammar are read without diagnostics, and they are read as their
trees. -/
theorem clean_iff_tree (file source : String) :
    (∀ p, (ofSource file source).diagnostics = [] ∧ (ofSource file source).outcome = .ok p ↔
      ∃ ts eof, tokenize file source = .ok (ts ++ [eof]) ∧ eof.isEof = true ∧ Tree ts p) ∧
    ((∃ p, (ofSource file source).diagnostics = [] ∧ (ofSource file source).outcome = .ok p) ↔
      ∃ ts eof, tokenize file source = .ok (ts ++ [eof]) ∧ eof.isEof = true ∧ Sentence ts) := by
  have htree (p : Program) :
      (ofSource file source).diagnostics = [] ∧ (ofSource file source).outcome = .ok p ↔
        ∃ ts eof, tokenize file source = .ok (ts ++ [eof]) ∧ eof.isEof = true ∧ Tree ts p := by
    constructor
    · rintro ⟨hd, ho⟩
      exact tree_of_clean hd ho
    · rintro ⟨ts, eof, htokens, -, hp⟩
      -- The program is its own edit, with nothing left out.
      obtain ⟨w', p', ds, ho⟩ := exists_omission hp (List.replicate p.terminators false) (by simp)
      have hfalse : true ∉ List.replicate p.terminators false := by simp
      obtain ⟨rfl, rfl⟩ := ho.of_clean hfalse
      have hlength := ho.length_reports
      rw [List.count_eq_zero.2 hfalse] at hlength
      obtain rfl := List.length_eq_zero_iff.1 hlength
      exact (ofSource_of_omission ho htokens).1 (by decide)
  refine ⟨htree, ?_⟩
  constructor
  · rintro ⟨p, hp⟩
    obtain ⟨ts, eof, htokens, heof, ht⟩ := (htree p).1 hp
    exact ⟨ts, eof, htokens, heof, sentence_iff.2 ⟨p, ht⟩⟩
  · rintro ⟨ts, eof, htokens, heof, hts⟩
    obtain ⟨p, hp⟩ := sentence_iff.1 hts
    exact ⟨p, (htree p).2 ⟨ts, eof, htokens, heof, hp⟩⟩

end Program

end FxLang
