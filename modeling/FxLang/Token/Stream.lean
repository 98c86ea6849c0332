import FxLang.Text.Cursor
import FxLang.Token.Lexeme

/-!
# Streams of tokens

`TokenStream` cuts a source text into tokens as they are asked for and looks at most one token
ahead. A text that makes no token is an error; it is passed over, and the stream goes on behind it.
An error is never kept: looking ahead at one uses it up.

`tokenize` reads a whole source, the end included.

* `peek_eq_next`: looking ahead shows what taking the next token would give.
* `next_of_peek`: a token that was looked at is the one taken next, and nothing else changes.
* `remaining_peek_le`, `remaining_next_lt`: looking ahead never adds to what remains, and taking a
  token before the end always takes from it.
-/

namespace FxLang

open Text (Cursor)

/-- A source text that is being cut into tokens. -/
structure TokenStream where
  /-- The name of the source, shown in positions. -/
  file : String
  cursor : Cursor
  /-- The token that was looked at and not yet taken. -/
  peeked : Option Token
deriving DecidableEq, Repr

namespace TokenStream

/-- The stream at the start of a source. Mirrors `from_source`. -/
def ofSource (file source : String) : TokenStream :=
  { file, cursor := .ofText source.toList, peeked := none }

/-- Passes over a gap and cuts the next token from the text. The token stands on the line where its
text starts. Mirrors `scan`. -/
def scan : EStateM Error TokenStream Token := fun s =>
  let start := s.cursor.skip (gap s.cursor.rest).length
  let position : Position := { file := s.file, line := start.line }
  if start.rest = [] then .ok (.eof position) { s with cursor := start }
  else
    let text := lexeme start.rest
    let behind := { s with cursor := start.skip text.length }
    match classify text with
    | .ok (kind, literal) => .ok { kind, text := String.ofList text, position, literal } behind
    | .error cause => .error { cause, position } behind

/-- Shows the next token without taking it. Mirrors `peek`. -/
def peek : EStateM Error TokenStream Token := fun s =>
  match s.peeked with
  | some token => .ok token s
  | none =>
    match scan s with
    | .ok token s => .ok token { s with peeked := some token }
    | .error e s => .error e s

/-- Shows the kind of the next token without taking it. Mirrors `peek_kind`. -/
def peekKind : EStateM Error TokenStream Kind := do
  let token ← peek
  pure token.kind

/-- Takes the next token. Mirrors `lex`. -/
def next : EStateM Error TokenStream Token := fun s =>
  match s.peeked with
  | some token => .ok token { s with peeked := none }
  | none => scan s

/-- An upper bound on the tokens before the end: the characters to come, and the token looked at
unless it is the end. -/
def remaining (s : TokenStream) : Nat :=
  s.cursor.rest.length + if s.peeked.any (!·.isEof) then 1 else 0

/-- The tokens of at most `n` steps, up to the end of the input. -/
def takeTokens : Nat → EStateM Error TokenStream (List Token)
  | 0 => pure []
  | n + 1 => do
    let token ← next
    if token.isEof then
      pure [token]
    else
      let rest ← takeTokens n
      pure (token :: rest)

/-- All tokens to come, the end included. -/
def toList (s : TokenStream) : Except Error (List Token) :=
  match takeTokens (s.remaining + 1) s with
  | .ok tokens _ => .ok tokens
  | .error e _ => .error e

/-! ## Looking ahead and taking -/

theorem peek_of_peeked {s : TokenStream} {t : Token} (h : s.peeked = some t) :
    peek s = .ok t s := by
  simp [peek, h]

theorem next_of_peeked {s : TokenStream} {t : Token} (h : s.peeked = some t) :
    next s = .ok t { s with peeked := none } := by
  simp [next, h]

theorem next_of_not_peeked {s : TokenStream} (h : s.peeked = none) : next s = scan s := by
  simp [next, h]

theorem scan_peeked {s s' : TokenStream} {t : Token} (h : scan s = .ok t s') :
    s'.peeked = s.peeked := by
  simp only [scan] at h
  split at h
  · cases h; rfl
  · split at h
    · cases h; rfl
    · cases h

/-- What looking ahead shows, or fails with, is what taking would give. -/
theorem peek_eq_next (s : TokenStream) :
    peek s = match next s with
      | .ok t s' => .ok t { s' with peeked := some t }
      | .error e s' => .error e s' := by
  cases h : s.peeked with
  | none => simp only [peek, next, h]
  | some t => simp [peek, next, h]; rw [← h]

theorem next_of_peek {s s' : TokenStream} {t : Token} (h : peek s = .ok t s') :
    next s' = .ok t { s' with peeked := none } := by
  apply next_of_peeked
  unfold peek at h
  split at h
  · rename_i hp; cases h; exact hp
  · split at h <;> cases h; rfl

/-! ## What remains -/

/-- A token cut from the text is the end, or shortens the text. -/
theorem length_rest_scan {s s' : TokenStream} {t : Token} (h : scan s = .ok t s') :
    t.isEof ∧ s'.cursor.rest.length = 0 ∨ s'.cursor.rest.length < s.cursor.rest.length := by
  simp only [scan] at h
  split at h
  · rename_i hrest
    cases h
    exact .inl ⟨rfl, by simp only [hrest, List.length_nil]⟩
  · rename_i hrest
    have hpos := List.length_pos_iff.2 (lexeme_ne_nil hrest)
    have hlen := (lexeme_isPrefix (s.cursor.skip (gap s.cursor.rest).length).rest).length_le
    split at h
    · cases h
      right
      simp only [Text.Cursor.skip_rest, List.length_drop] at hpos hlen ⊢
      omega
    · cases h

theorem remaining_of_not_peeked {s : TokenStream} (h : s.peeked = none) :
    s.remaining = s.cursor.rest.length := by
  simp [remaining, h]

theorem remaining_peek_le {s s' : TokenStream} {t : Token} (h : peek s = .ok t s') :
    s'.remaining ≤ s.remaining := by
  unfold peek at h
  split at h
  · cases h; exact Nat.le_refl _
  · rename_i hp
    split at h
    · rename_i token s₁ hscan
      cases h
      rw [remaining_of_not_peeked hp]
      rcases length_rest_scan hscan with ⟨heof, hlen⟩ | hlen
      · simp [remaining, heof, hlen]
      · simp only [remaining]
        split <;> omega
    · cases h

theorem remaining_next_lt {s s' : TokenStream} {t : Token} (h : next s = .ok t s')
    (ht : t.isEof = false) : s'.remaining < s.remaining := by
  unfold next at h
  split at h
  · rename_i token hp
    cases h
    simp [remaining, hp, ht]
  · rename_i hp
    rw [remaining_of_not_peeked hp, remaining_of_not_peeked (by rw [scan_peeked h, hp])]
    rcases length_rest_scan h with ⟨heof, _⟩ | hlen
    · rw [heof] at ht; cases ht
    · exact hlen

end TokenStream

/-- The tokens of a whole source, the end included, or the first error. Mirrors `tokenize`. -/
def tokenize (file source : String) : Except Error (List Token) :=
  (TokenStream.ofSource file source).toList

end FxLang
