import FxLang.Text.Reader

/-!
# Reading with one step of undo

Whoever reads a text may put the last character back, once. What such a reader answers can be told
without slots and counters: there is an index into the text and a flag that says whether the step
that led there can be undone. `Mark` is the two together, and its calls are the specification; the
number of the line is told by the newlines in front of the index.

Both readers of the library keep to it. A `Cursor` stands at a mark when its rest is the text from
the index on. A `Reader` is seen as a cursor by putting its slot in front of its source, and this
view commutes with the calls as long as the slot is empty whenever a character can be put back:
otherwise putting it back would overwrite one that was not read again yet.

* `held_eq_of_inStep`: what one call keeps of the characters that are held, any row of calls keeps.
* `Cursor.call_inStep`: a cursor and its mark answer alike and stay together.
* `Reader.call_inStep`: so do a reader and its mark.
* `Mark.held_eq_take`: what was read and not put back is the text up to the index.
* `Reader.answers_follow_mark`: the whole of it, for every row of calls and every text whose lines a
  word can count.
-/

namespace FxLang.Text

variable {text : List Char}

/-! ## The specification -/

/-- An index into a text, and whether the step that led there can be undone. Only a step over a
character can. -/
@[ext]
structure Mark (text : List Char) where
  index : Nat
  undo : Bool
  index_le : index ≤ text.length
  index_pos : undo = true → 0 < index

namespace Mark

/-- The start of a text, with nothing to undo. -/
def start (text : List Char) : Mark text :=
  { index := 0, undo := false, index_le := Nat.zero_le _, index_pos := nofun }

/-- The number of the line, counted from 1. -/
def line (m : Mark text) : Nat :=
  1 + (text.take m.index).count '\n'

/-- The same index with nothing to undo. -/
def settle (m : Mark text) : Mark text :=
  { index := m.index, undo := false, index_le := m.index_le, index_pos := nofun }

/-- The character at the index and the index behind it, which can be undone; at the end nothing. -/
def read (m : Mark text) : Option Char × Mark text :=
  if h : m.index < text.length then
    (some text[m.index],
      { index := m.index + 1, undo := true, index_le := h, index_pos := fun _ => m.index.succ_pos })
  else (none, m.settle)

/-- Where a step can be undone, the character it went over and the index in front of it. -/
def unread (m : Mark text) : Option Char × Mark text :=
  if h : m.undo = true then
    have hlt : m.index - 1 < text.length :=
      Nat.lt_of_lt_of_le (Nat.sub_one_lt_of_lt (m.index_pos h)) m.index_le
    (some text[m.index - 1],
      { index := m.index - 1, undo := false, index_le := Nat.le_of_lt hlt, index_pos := nofun })
  else (none, m)

/-- The character at the index, which stays; there is nothing to undo then. -/
def peek (m : Mark text) : Option Char × Mark text :=
  (text[m.index]?, m.settle)

/-- Makes a call. -/
def call : Call → Mark text → Option Char × Mark text
  | .read => read
  | .unread => unread
  | .peek => peek

end Mark

/-- Makes a call on a cursor. -/
def Cursor.call : Call → Cursor → Option Char × Cursor
  | .read => Cursor.read
  | .unread => Cursor.unread
  | .peek => Cursor.peek

/-- What is held after an answer by a caller who keeps what is read and drops what is put back. -/
def Call.keep : Call → Option Char → List Char → List Char
  | .read, some x, held => held ++ [x]
  | .unread, some _, held => held.dropLast
  | _, _, held => held

/-! ## Rows of calls -/

section Rows

variable {σ τ : Type} {f : Call → σ → Option Char × σ} {g : Call → τ → Option Char × τ}
  {R : σ → τ → Prop} {s : σ} {t : τ}

/-- The state behind a row of calls. -/
def after (make : Call → σ → Option Char × σ) (calls : List Call) (s : σ) : σ :=
  calls.foldl (fun s call => (make call s).2) s

/-- What a caller holds behind a row of calls who held `kept` in front of it. -/
def held (make : Call → σ → Option Char × σ) : List Call → σ → List Char → List Char
  | [], _, kept => kept
  | call :: calls, s, kept =>
    held make calls (make call s).2 (call.keep (make call s).1 kept)

theorem held_eq_of_inStep (h : InStep f g R) (calls : List Call) (hst : R s t) (kept : List Char) :
    held f calls s kept = held g calls t kept := by
  induction calls generalizing s t kept with
  | nil => rfl
  | cons call calls ih =>
    obtain ⟨hanswer, hnext⟩ := h call s t hst
    rw [held, held, hanswer, ih hnext]

end Rows

/-! ## Marks -/

namespace Mark

variable {m m' : Mark text} {x : Char}

theorem read_of_getElem? (h : text[m.index]? = some x) :
    m.read.1 = some x ∧ m.read.2.index = m.index + 1 ∧ m.read.2.undo = true := by
  obtain ⟨hlt, hx⟩ := List.getElem?_eq_some_iff.1 h
  simp [read, hlt, hx]

theorem read_of_end (h : text[m.index]? = none) : m.read = (none, m.settle) := by
  have hge := List.getElem?_eq_none_iff.1 h
  simp [read, Nat.not_lt.2 hge]

theorem unread_of_undo (h : m.undo = true) :
    ∃ x, text[m.index - 1]? = some x ∧ m.unread.1 = some x ∧
      m.unread.2.index + 1 = m.index ∧ m.unread.2.undo = false := by
  have hpos := m.index_pos h
  have hle := m.index_le
  have hlt : m.index - 1 < text.length := by omega
  refine ⟨text[m.index - 1], List.getElem?_eq_getElem hlt, ?_⟩
  simp only [unread, h, ↓reduceDIte, true_and, and_true]
  omega

theorem unread_of_settled (h : m.undo = false) : m.unread = (none, m) := by
  simp [unread, h]

/-- A look is a read that is taken back. -/
theorem peek_eq (m : Mark text) : m.peek = (m.read.1, m.read.2.unread.2) := by
  cases h : text[m.index]? with
  | none => rw [read_of_end h, unread_of_settled rfl, peek, h]
  | some x =>
    obtain ⟨hanswer, hindex, hundo⟩ := read_of_getElem? h
    obtain ⟨-, -, -, hback, hsettled⟩ := unread_of_undo hundo
    have hplace : m.read.2.unread.2 = m.settle :=
      Mark.ext (Nat.succ.inj (hback.trans hindex)) hsettled
    rw [hanswer, hplace, peek, h]

/-- Behind a character the line is the same, or the next one if the character is a newline. -/
theorem lineBehind_of_index_succ (hx : text[m.index]? = some x) (h : m'.index = m.index + 1) :
    lineBehind (text.take m'.index) =
      if x = '\n' then lineBehind (text.take m.index) + 1 else lineBehind (text.take m.index) := by
  obtain ⟨hlt, rfl⟩ := List.getElem?_eq_some_iff.1 hx
  rw [h, List.take_succ_eq_append_getElem hlt, lineBehind_concat]

/-- The word that counts the lines is the number of the line. -/
theorem toNat_lineBehind (m : Mark text) (hlines : text.count '\n' < UInt32.size - 1) :
    (lineBehind (text.take m.index)).toNat = m.line :=
  Text.toNat_lineBehind
    (Nat.lt_of_le_of_lt ((List.take_sublist m.index text).count_le '\n') hlines)

theorem one_le_line (m : Mark text) : 1 ≤ m.line := Nat.le_add_right 1 _

/-- What a caller holds moves along with the index. -/
theorem keep_call (call : Call) (m : Mark text) :
    call.keep (m.call call).1 (text.take m.index) = text.take (m.call call).2.index := by
  cases call with
  | read =>
    cases h : text[m.index]? with
    | none => simp [Mark.call, read_of_end h, Call.keep, settle]
    | some x =>
      obtain ⟨hanswer, hindex, -⟩ := read_of_getElem? h
      obtain ⟨hlt, rfl⟩ := List.getElem?_eq_some_iff.1 h
      simp only [Mark.call, hanswer, hindex, Call.keep, List.take_succ_eq_append_getElem hlt]
  | unread =>
    cases h : m.undo with
    | false => simp [Mark.call, unread_of_settled h, Call.keep]
    | true =>
      obtain ⟨x, -, hanswer, hindex, -⟩ := unread_of_undo h
      have hle := m.index_le
      simp only [Mark.call, hanswer, Call.keep, List.dropLast_eq_take, List.length_take,
        List.take_take]
      congr 1
      omega
  | peek => rfl

theorem held_eq_take (calls : List Call) (m : Mark text) :
    held Mark.call calls m (text.take m.index) = text.take (after Mark.call calls m).index := by
  induction calls generalizing m with
  | nil => rfl
  | cons call calls ih =>
    rw [held, keep_call, ih]
    rfl

theorem index_after_reads (n : Nat) (m : Mark text) :
    (after Mark.call (List.replicate n .read) m).index = min (m.index + n) text.length := by
  induction n generalizing m with
  | zero => exact (Nat.min_eq_left m.index_le).symm
  | succ n ih =>
    have hnext : after Mark.call (List.replicate (n + 1) .read) m =
        after Mark.call (List.replicate n .read) m.read.2 := rfl
    rw [hnext, ih]
    cases h : text[m.index]? with
    | none =>
      have hge := List.getElem?_eq_none_iff.1 h
      have hindex : m.read.2.index = m.index := by rw [read_of_end h, settle]
      rw [hindex]
      omega
    | some x =>
      rw [(read_of_getElem? h).2.1]
      omega

end Mark

/-! ## Cursors -/

namespace Cursor

/-- The cursor has the text behind the mark to read, and what the mark can undo to put back. -/
structure StandsAt (c : Cursor) (m : Mark text) : Prop where
  rest_eq : c.rest = text.drop m.index
  last_eq : c.last = if m.undo then text[m.index - 1]? else none
  line_eq : c.line = lineBehind (text.take m.index)

variable {c : Cursor} {m : Mark text}

theorem standsAt_start (text : List Char) : (ofText text).StandsAt (Mark.start text) :=
  ⟨rfl, rfl, rfl⟩

theorem StandsAt.head?_rest (h : c.StandsAt m) : c.rest.head? = text[m.index]? := by
  rw [h.rest_eq, List.head?_drop]

theorem StandsAt.settle (h : c.StandsAt m) :
    ({ c with last := none } : Cursor).StandsAt m.settle :=
  ⟨h.rest_eq, rfl, h.line_eq⟩

theorem StandsAt.read (h : c.StandsAt m) :
    c.read.1 = m.read.1 ∧ c.read.2.StandsAt m.read.2 := by
  cases hx : text[m.index]? with
  | none =>
    have hrest : c.rest = [] := by rw [← List.head?_eq_none_iff, h.head?_rest, hx]
    rw [read_of_nil hrest, Mark.read_of_end hx]
    exact ⟨rfl, h.settle⟩
  | some x =>
    obtain ⟨hanswer, hindex, hundo⟩ := Mark.read_of_getElem? hx
    obtain ⟨hlt, hget⟩ := List.getElem?_eq_some_iff.1 hx
    have hrest : c.rest = x :: text.drop (m.index + 1) := by
      rw [h.rest_eq, List.drop_eq_getElem_cons hlt, hget]
    rw [read_of_cons hrest, hanswer]
    refine ⟨rfl, ?_, ?_, ?_⟩
    · rw [hindex]
    · simp [hundo, hindex, hx]
    · rw [Mark.lineBehind_of_index_succ hx hindex, ← h.line_eq]

theorem StandsAt.unread (h : c.StandsAt m) :
    c.unread.1 = m.unread.1 ∧ c.unread.2.StandsAt m.unread.2 := by
  cases hundo : m.undo with
  | false =>
    have hlast : c.last = none := by simp [h.last_eq, hundo]
    rw [Mark.unread_of_settled hundo]
    simp [Cursor.unread, hlast, h]
  | true =>
    obtain ⟨x, hx, hanswer, hindex, hundo'⟩ := Mark.unread_of_undo hundo
    have hlast : c.last = some x := by simp [h.last_eq, hundo, hx]
    have hx' : text[m.unread.2.index]? = some x := by rw [← hx, ← hindex, Nat.add_sub_cancel]
    obtain ⟨hlt, hget⟩ := List.getElem?_eq_some_iff.1 hx'
    have hline := Mark.lineBehind_of_index_succ hx' hindex.symm
    simp only [Cursor.unread, hlast, hanswer, true_and]
    refine ⟨?_, ?_, ?_⟩
    · simp only [h.rest_eq, ← hindex]
      rw [List.drop_eq_getElem_cons hlt, hget]
    · simp [hundo']
    · simp only [h.line_eq, hline]
      split <;> simp

theorem StandsAt.peek (h : c.StandsAt m) :
    c.peek.1 = m.peek.1 ∧ c.peek.2.StandsAt m.peek.2 := by
  rw [peek_eq]
  exact ⟨h.head?_rest, h.settle⟩

theorem call_inStep : InStep Cursor.call Mark.call (@StandsAt text) := by
  intro call c m h
  cases call with
  | read => exact h.read
  | unread => exact h.unread
  | peek => exact h.peek

end Cursor

/-! ## Readers -/

namespace Reader

/-- Seen as a cursor the reader stands at the mark, and its slot is empty whenever a character can
be put back, so that putting it back replaces nothing. -/
structure StandsAt (r : Reader) (m : Mark text) : Prop where
  cursor_standsAt : r.cursor.StandsAt m
  slot_free : r.last = none ∨ r.slot = none

variable {r : Reader} {m : Mark text}

theorem standsAt_start (text : List Char) : (ofText text).StandsAt (Mark.start text) :=
  ⟨Cursor.standsAt_start text, .inl rfl⟩

theorem StandsAt.toNat_line (h : r.StandsAt m) (hlines : text.count '\n' < UInt32.size - 1) :
    r.line.toNat = m.line :=
  (congrArg UInt32.toNat h.cursor_standsAt.line_eq).trans (m.toNat_lineBehind hlines)

theorem StandsAt.read (h : r.StandsAt m) :
    r.read.1 = m.read.1 ∧ r.read.2.StandsAt m.read.2 := by
  have hstep := h.cursor_standsAt.read
  rw [cursor_read] at hstep
  refine ⟨hstep.1, hstep.2, .inr ?_⟩
  rw [read_eq]

theorem StandsAt.unread (h : r.StandsAt m) :
    r.unread.1 = m.unread.1 ∧ r.unread.2.StandsAt m.unread.2 := by
  have hstep := h.cursor_standsAt.unread
  rw [cursor_unread h.slot_free] at hstep
  refine ⟨hstep.1, hstep.2, .inl ?_⟩
  cases hlast : r.last <;> simp [Reader.unread, hlast]

/-- A look is a read and its undo, on the mark as well. -/
theorem StandsAt.peek (h : r.StandsAt m) :
    r.peek.1 = m.peek.1 ∧ r.peek.2.StandsAt m.peek.2 := by
  obtain ⟨hanswer, hread⟩ := h.read
  obtain ⟨-, hundone⟩ := hread.unread
  rw [m.peek_eq]
  exact ⟨hanswer, hundone⟩

theorem call_inStep : InStep Reader.call Mark.call (@StandsAt text) := by
  intro call r m h
  cases call with
  | read => exact h.read
  | unread => exact h.unread
  | peek => exact h.peek

end Reader

/-! ## Every row of calls -/

/-- On a text whose lines a word can count, a reader answers every row of calls as an index with one
step of undo does: the same characters, and behind every call the number of the line at the index. A
cursor answers the same. So no line is below 1, a character is never put back over another,
whatever was read and not put back is the text up to the index, and reading on from there to the end
gives the whole of it. -/
theorem Reader.answers_follow_mark (text : List Char) (hlines : text.count '\n' < UInt32.size - 1)
    (calls : List Call) :
    (answers Reader.call calls (.ofText text)).map (fun a => (a.1, a.2.line.toNat)) =
        (answers Mark.call calls (.start text)).map (fun a => (a.1, a.2.line)) ∧
      (answers Cursor.call calls (.ofText text)).map (fun a => (a.1, a.2.line.toNat)) =
        (answers Mark.call calls (.start text)).map (fun a => (a.1, a.2.line)) ∧
      (∀ a ∈ answers Reader.call calls (.ofText text),
        1 ≤ a.2.line ∧ (a.2.last = none ∨ a.2.slot = none)) ∧
      held Reader.call calls (.ofText text) [] =
        text.take (after Mark.call calls (.start text)).index ∧
      held Reader.call (calls ++ List.replicate text.length .read) (.ofText text) [] = text := by
  have hstart := Reader.standsAt_start text
  have hinStep := @Reader.call_inStep text
  refine ⟨?_, ?_, ?_, ?_, ?_⟩
  · refine InStep.map_answers_eq hinStep (fun a r m h => ?_) calls hstart
    rw [h.toNat_line hlines]
  · refine InStep.map_answers_eq Cursor.call_inStep (fun a c m h => ?_) calls
      (Cursor.standsAt_start text)
    rw [h.line_eq, m.toNat_lineBehind hlines]
  · intro a ha
    obtain ⟨m, hm⟩ := InStep.exists_of_mem_answers hinStep hstart ha
    refine ⟨?_, hm.slot_free⟩
    rw [UInt32.le_iff_toNat_le, hm.toNat_line hlines]
    exact m.one_le_line
  · exact (held_eq_of_inStep hinStep calls hstart []).trans (Mark.held_eq_take calls (.start text))
  · -- Reading as often as the text has characters leads to its end from any index.
    rw [held_eq_of_inStep hinStep _ hstart]
    refine (Mark.held_eq_take _ (.start text)).trans ?_
    rw [after, List.foldl_append, ← after, ← after, Mark.index_after_reads,
      Nat.min_eq_right (Nat.le_add_left _ _), List.take_length]

/-- A second undo, an undo behind a look and at the end, and a newline crossed back and forth. -/
theorem Reader.answers_follow_mark_newline :
    ['a', '\n', 'b'].count '\n' < UInt32.size - 1 ∧
      (answers Reader.call
          [.read, .unread, .unread, .read, .peek, .unread, .read, .unread, .read, .read, .read,
            .unread]
          (.ofText ['a', '\n', 'b'])).map (fun a => (a.1, a.2.line.toNat)) =
        [(some 'a', 1), (some 'a', 1), (none, 1), (some 'a', 1), (some '\n', 1), (none, 1),
          (some '\n', 2), (some '\n', 1), (some '\n', 2), (some 'b', 2), (none, 2), (none, 2)] ∧
      held Reader.call [.read, .read, .unread, .peek, .unread] (.ofText ['a', '\n', 'b']) [] =
        ['a'] :=
  ⟨by decide, (Reader.answers_follow_mark _ (by decide) _).1.trans (by decide),
    (Reader.answers_follow_mark _ (by decide) _).2.2.2.1⟩

end FxLang.Text
