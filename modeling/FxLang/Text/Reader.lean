import FxLang.Calls
import FxLang.Text.Cursor

/-!
# A reader over a source that takes nothing back

A `Cursor` has its text in hand and puts a character back in front of the rest. `Reader` pulls its
characters from a source that only ever gives: a character put back waits in a slot of its own and
is read again before the source is asked.

The slot holds one character, and whatever is put back replaces what it held. That nothing is lost
this way is not seen from a single step, only from what the steps before it leave behind.

* `read_eq`: reading takes the first of the characters to come and leaves the slot empty.
* `unread_read`: a character that is put back at once is the first to come again.
* `cursor_read`, `cursor_unread`: with the slot put in front of the source a reader is a cursor, and
  its steps are those of the cursor, as long as nothing is put back over another character.
-/

namespace FxLang.Text

/-- A place in a text whose characters are pulled one at a time. -/
structure Reader where
  /-- What the source has still to give. -/
  source : List Char
  /-- The character that was put back and is not read again yet. -/
  slot : Option Char
  /-- The character that can be put back. -/
  last : Option Char
  /-- The number of the line, counted from 1. -/
  line : UInt32
deriving DecidableEq, Repr

/-- What can be asked for at a place in a text. -/
inductive Call where
  | read
  | unread
  | peek
deriving DecidableEq, Repr

namespace Reader

/-- The start of a text. -/
def ofText (text : List Char) : Reader :=
  { source := text, slot := none, last := none, line := 1 }

/-- The next character, taken out of the slot or, if that is empty, out of the source. -/
def pull (r : Reader) : Option Char × Reader :=
  match r.slot, r.source with
  | some x, _ => (some x, { r with slot := none })
  | none, [] => (none, r)
  | none, x :: xs => (some x, { r with source := xs })

/-- Reads the next character, if there is one. Mirrors `get`. -/
def read (r : Reader) : Option Char × Reader :=
  let (next, r) := r.pull
  (next, { r with last := next, line := if next = some '\n' then r.line + 1 else r.line })

/-- Puts the character read last into the slot and returns it. Mirrors `unget`. -/
def unread (r : Reader) : Option Char × Reader :=
  match r.last with
  | none => (none, r)
  | some x =>
    (some x, { r with
      slot := some x
      last := none
      line := if x = '\n' then r.line - 1 else r.line })

/-- Shows the next character: a read that is taken back. Mirrors `peek`. -/
def peek (r : Reader) : Option Char × Reader :=
  (r.read.1, r.read.2.unread.2)

/-- Makes a call. -/
def call : Call → Reader → Option Char × Reader
  | .read => read
  | .unread => unread
  | .peek => peek

/-- The characters to come: the one in the slot, then those of the source. -/
def ahead (r : Reader) : List Char :=
  r.slot.toList ++ r.source

/-- The reader seen as a cursor, for which all that is to come is the rest of its text. -/
def cursor (r : Reader) : Cursor :=
  { rest := r.ahead, last := r.last, line := r.line }

/-! ## What each step does to the place -/

theorem pull_eq (r : Reader) :
    r.pull = (r.ahead.head?, { r with source := r.ahead.tail, slot := none }) := by
  obtain ⟨source, slot, last, line⟩ := r
  cases slot with
  | some x => rfl
  | none => cases source <;> rfl

theorem read_eq (r : Reader) :
    r.read = (r.ahead.head?,
      { source := r.ahead.tail
        slot := none
        last := r.ahead.head?
        line := if r.ahead.head? = some '\n' then r.line + 1 else r.line }) := by
  rw [read, pull_eq]

/-- A character that is put back at once waits in the slot, and everything is as before the read. -/
theorem unread_read (r : Reader) :
    r.read.2.unread = (r.ahead.head?,
      { source := r.ahead.tail, slot := r.ahead.head?, last := none, line := r.line }) := by
  rw [read_eq]
  cases r.ahead with
  | nil => rfl
  | cons x xs => by_cases hx : x = '\n' <;> simp [unread, hx]

/-- Reading is reading from the cursor. -/
theorem cursor_read (r : Reader) : r.cursor.read = (r.read.1, r.read.2.cursor) := by
  rw [read_eq]
  cases hahead : r.ahead with
  | nil =>
    have hrest : r.cursor.rest = [] := hahead
    rw [Cursor.read_of_nil hrest]
    simpa [cursor, ahead] using hahead
  | cons x xs =>
    have hrest : r.cursor.rest = x :: xs := hahead
    rw [Cursor.read_of_cons hrest]
    by_cases hx : x = '\n' <;> simp [cursor, ahead, hx]

/-- Putting a character back is putting it back on the cursor, if the slot is free for it. -/
theorem cursor_unread {r : Reader} (hslot : r.last = none ∨ r.slot = none) :
    r.cursor.unread = (r.unread.1, r.unread.2.cursor) := by
  obtain ⟨source, slot, last, line⟩ := r
  cases last with
  | none => rfl
  | some x =>
    obtain rfl : slot = none := by simpa using hslot
    by_cases hx : x = '\n' <;> simp [cursor, Cursor.unread, unread, ahead, hx]

end Reader

end FxLang.Text
