/-!
# A cursor over a text

`Cursor` walks a text one character at a time and counts lines. The character read last can be put
back, once; at the end of the text there is nothing to put back, so a cursor that has reached the
end stays there.

The number of the line is a word of 32 bits, which runs over: it is one more than the number of
newlines before the place as long as that number is below `2 ^ 32 - 1`.

* `peek_eq`: peeking shows the next character, stays where it is and forgets what could be put back.
* `skip_rest`, `skip_line`: `skip n` passes over `n` characters and counts their newlines.
* `toNat_add_newlines`, `toNat_lineBehind`: the bound under which the word is the number of the line.
-/

namespace FxLang.Text

/-- The newlines of a text, counted in a word of 32 bits. -/
def newlines (text : List Char) : UInt32 :=
  UInt32.ofNat (text.count '\n')

@[simp] theorem newlines_nil : newlines [] = 0 := rfl

@[simp] theorem newlines_append (a b : List Char) :
    newlines (a ++ b) = newlines a + newlines b := by
  rw [newlines, List.count_append, UInt32.ofNat_add]
  rfl

theorem newlines_cons (x : Char) (xs : List Char) :
    newlines (x :: xs) = (if x = '\n' then 1 else 0) + newlines xs := by
  have h := newlines_append [x] xs
  rw [List.singleton_append] at h
  rw [h]
  by_cases hx : x = '\n' <;> simp [newlines, hx]

theorem newlines_eq_zero {text : List Char} (h : '\n' ∉ text) : newlines text = 0 := by
  rw [newlines, List.count_eq_zero.2 h]
  rfl

theorem newlines_replicate (n : Nat) : newlines (List.replicate n '\n') = UInt32.ofNat n := by
  rw [newlines, List.count_replicate_self]

/-- The number of the line behind a text that starts on line 1. -/
def lineBehind (text : List Char) : UInt32 :=
  1 + newlines text

theorem lineBehind_concat (text : List Char) (x : Char) :
    lineBehind (text ++ [x]) = if x = '\n' then lineBehind text + 1 else lineBehind text := by
  by_cases hx : x = '\n' <;> simp [lineBehind, newlines_cons, hx, UInt32.add_assoc]

/-- The word is a number as long as it does not run over. -/
theorem toNat_add_newlines {line : UInt32} {text : List Char}
    (h : line.toNat + text.count '\n' < UInt32.size) :
    (line + newlines text).toNat = line.toNat + text.count '\n' := by
  rw [newlines, UInt32.toNat_add, UInt32.toNat_ofNat']
  simp only [UInt32.size] at h
  omega

theorem toNat_lineBehind {text : List Char} (h : text.count '\n' < UInt32.size - 1) :
    (lineBehind text).toNat = 1 + text.count '\n' := by
  simp only [UInt32.size] at h
  exact toNat_add_newlines (by rw [UInt32.toNat_one, UInt32.size]; omega)

/-- A place in a text. -/
structure Cursor where
  /-- What is still to be read. -/
  rest : List Char
  /-- The character that can be put back. -/
  last : Option Char
  /-- The number of the line, counted from 1. -/
  line : UInt32
deriving DecidableEq, Repr

namespace Cursor

/-- The start of a text. -/
def ofText (text : List Char) : Cursor :=
  { rest := text, last := none, line := 1 }

/-- Reads the next character, if there is one. -/
def read (c : Cursor) : Option Char × Cursor :=
  match c.rest with
  | [] => (none, { c with last := none })
  | x :: xs =>
    (some x, { rest := xs, last := some x, line := if x = '\n' then c.line + 1 else c.line })

/-- Puts the character read last back in front of the rest and returns it. -/
def unread (c : Cursor) : Option Char × Cursor :=
  match c.last with
  | none => (none, c)
  | some x =>
    (some x, { rest := x :: c.rest, last := none, line := if x = '\n' then c.line - 1 else c.line })

/-- Shows the next character: a read that is taken back. -/
def peek (c : Cursor) : Option Char × Cursor :=
  (c.read.1, c.read.2.unread.2)

/-- Passes over `n` characters. -/
def skip : Nat → Cursor → Cursor
  | 0, c => c
  | n + 1, c => skip n c.read.2

/-! ## What each step does to the place -/

theorem read_of_nil {c : Cursor} (h : c.rest = []) : c.read = (none, { c with last := none }) := by
  simp [read, h]

theorem read_of_cons {c : Cursor} {x : Char} {xs : List Char} (h : c.rest = x :: xs) :
    c.read = (some x,
      { rest := xs, last := some x, line := if x = '\n' then c.line + 1 else c.line }) := by
  simp [read, h]

theorem peek_eq (c : Cursor) : c.peek = (c.rest.head?, { c with last := none }) := by
  obtain ⟨rest, last, line⟩ := c
  cases rest with
  | nil => rfl
  | cons x xs => by_cases hx : x = '\n' <;> simp [peek, read, unread, hx]

@[simp] theorem skip_rest (n : Nat) (c : Cursor) : (c.skip n).rest = c.rest.drop n := by
  induction n generalizing c with
  | zero => rfl
  | succ n ih =>
    rw [skip, ih]
    cases h : c.rest with
    | nil => simp [read_of_nil h, h]
    | cons x xs => simp [read_of_cons h]

@[simp] theorem skip_line (n : Nat) (c : Cursor) :
    (c.skip n).line = c.line + newlines (c.rest.take n) := by
  induction n generalizing c with
  | zero => simp [skip]
  | succ n ih =>
    rw [skip, ih]
    cases h : c.rest with
    | nil => simp [read_of_nil h, h]
    | cons x xs =>
      by_cases hx : x = '\n'
      · simp [read_of_cons h, hx, newlines_cons, UInt32.add_assoc]
      · simp [read_of_cons h, hx, newlines_cons]

end Cursor

end FxLang.Text
