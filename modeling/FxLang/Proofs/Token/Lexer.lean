import FxLang.Token.Lexer
import FxLang.Proofs.Token.Numerals
import FxLang.Proofs.Token.Places

/-!
# The lexer over its reader against the stream of tokens

A `Lexer` has read the characters of a token one by one, and more of them than belong to it, before
it knows where the token ends. A `TokenStream` cuts its text at once. What is left to come is the
same for both whenever a token was cut or has failed, and so is every answer.

`Took` says what was read and kept since some place, `Behind` says it without what is kept, which
the next token starts without.

* `took_unget_get`: a character that was put back was never read.
* `took_takeWhile`, `took_numberRest`, `exists_took_operatorKind`: what each handler reads is the rest
  of the longest text at its place.
* `Numeral.Fronts.patternValue_eq`: the shapes of numbers tell what their first characters tell.
* `scan_of_isGap`, `scan_of_start`: the rounds over a gap, and the one that cuts the token.
* `run_inStep`: one call gives the same on both and leaves the same to come.
* `Shows.answers_eq`, `answers_ofSource`: so does any row of calls.
-/

namespace FxLang

open Text (Reader isBlank newlines newlines_append)

/-! ## The shapes of numbers -/

/-- A number in decimal digits is not hexadecimal. -/
theorem isHexPattern_eq_false {text : List Char} (h : ∀ rest, text ≠ '0' :: 'x' :: rest) :
    isHexPattern text = false := by
  unfold isHexPattern
  split
  · exact absurd rfl (h _)
  · rfl

/-- Of the number at a place, the first shape it has tells what its first characters tell. -/
theorem Numeral.Fronts.patternValue_eq {numeral : Numeral} {after : List Char}
    (h : numeral.Fronts after) {c : Char} {cs : List Char} (hc : c.isDigit = true)
    (htext : numeral.text = c :: cs) : patternValue numeral.text = numberValue numeral.text := by
  cases h with
  | @hex digits after h =>
    cases digits with
    | nil => decide +kernel
    | cons d digits =>
      have hshape : isHexPattern ('0' :: 'x' :: d :: digits) = true := by
        simpa [isHexPattern] using h.all
      rw [Numeral.text, patternValue, if_pos hshape]
      rfl
  | @whole digits after h hx hpoint =>
    have hhex (rest : List Char) : digits ≠ '0' :: 'x' :: rest := by
      rintro rfl
      exact hx (rest ++ after) rfl
    have hdrop : digits.dropWhile Char.isDigit = [] := by simpa using h.all
    have hshape : isIntegerPattern digits = true := by
      rw [Numeral.text] at htext
      simpa [isIntegerPattern, htext] using h.all
    rw [Numeral.text, numberValue.eq_3 _ (hhex []) hhex, hdrop, patternValue,
      isHexPattern_eq_false hhex, hshape]
    rfl
  | @fraction digits further after h hfurther =>
    have hrun : IsRun Char.isDigit digits ('.' :: further) := ⟨h, by simp⟩
    have hhex := ne_hex_of_point h further
    have hinteger : isIntegerPattern (digits ++ '.' :: further) = false := by
      simp [isIntegerPattern]
    have hne : digits ≠ [] := by
      rintro rfl
      obtain ⟨rfl, -⟩ := List.cons.inj htext
      cases hc
    have hshape : isFloatPattern (digits ++ '.' :: further) = true := by
      rw [isFloatPattern, hrun.dropWhile_eq, hrun.takeWhile_eq]
      simpa [hne] using hfurther.all
    rw [Numeral.text, numberValue.eq_3 _ (hhex []) hhex, patternValue,
      isHexPattern_eq_false hhex, hinteger, hshape, hrun.dropWhile_eq, hrun.takeWhile_eq]
    rfl

namespace Lexer

/-! ## What was read -/

/-- The lexer `l'` stands where `l` stood, behind the text `w`. -/
structure Behind (l : Lexer) (w : List Char) (l' : Lexer) : Prop where
  ahead_eq : l.ahead = w ++ l'.ahead
  line_eq : l'.reader.line = l.reader.line + newlines w
  file_eq : l'.file = l.file
  peeked_eq : l'.peeked = l.peeked

/-- Behind the text `w`, which is kept. -/
structure Took (l : Lexer) (w : List Char) (l' : Lexer) : Prop extends Behind l w l' where
  accepted_eq : l'.accepted = l.accepted ++ w

variable {l l' l'' : Lexer} {c : Char} {cs v w : List Char}

theorem Behind.refl (l : Lexer) : Behind l [] l where
  ahead_eq := rfl
  line_eq := by simp
  file_eq := rfl
  peeked_eq := rfl

theorem Behind.trans (h : Behind l v l') (h' : Behind l' w l'') : Behind l (v ++ w) l'' where
  ahead_eq := by rw [h.ahead_eq, h'.ahead_eq, List.append_assoc]
  line_eq := by rw [h'.line_eq, h.line_eq, newlines_append, UInt32.add_assoc]
  file_eq := h'.file_eq.trans h.file_eq
  peeked_eq := h'.peeked_eq.trans h.peeked_eq

theorem Behind.rest_eq {r : List Char} (h : Behind l w l') (hahead : l.ahead = w ++ r) :
    l'.ahead = r :=
  List.append_cancel_left (h.ahead_eq.symm.trans hahead)

theorem Took.refl (l : Lexer) : Took l [] l :=
  ⟨.refl l, by simp⟩

theorem Took.trans (h : Took l v l') (h' : Took l' w l'') : Took l (v ++ w) l'' :=
  ⟨h.toBehind.trans h'.toBehind, by rw [h'.accepted_eq, h.accepted_eq, List.append_assoc]⟩

/-- What is kept has nothing to do with the place. -/
theorem Behind.accept (h : Behind l w l') : Behind l w l'.accept :=
  ⟨h.ahead_eq, h.line_eq, h.file_eq, h.peeked_eq⟩

/-! ## Reading and putting back -/

theorem get_of_nil (h : l.ahead = []) : l.get.1 = none := by
  rw [get_eq, h]
  rfl

theorem get_of_cons (h : l.ahead = c :: cs) : l.get.1 = some c := by
  rw [get_eq, h]
  rfl

theorem get_eq_of_nil (h : l.ahead = []) : l.get = (none, l.get.2) :=
  Prod.ext (get_of_nil h) rfl

theorem get_eq_of_cons (h : l.ahead = c :: cs) : l.get = (some c, l.get.2) :=
  Prod.ext (get_of_cons h) rfl

theorem ahead_get_of_cons (h : l.ahead = c :: cs) : l.get.2.ahead = cs := by
  rw [ahead_get, h]
  rfl

/-- A character is read from the front. -/
theorem took_get (h : l.ahead = c :: cs) : Took l [c] l.get.2 where
  ahead_eq := by rw [ahead_get_of_cons h, h]; rfl
  line_eq := by
    have hahead : l.reader.ahead = c :: cs := h
    rw [get_eq, Reader.read_eq, hahead]
    by_cases hc : c = '\n' <;> simp [Text.newlines_cons, hc]
  file_eq := by rw [get_eq]
  peeked_eq := by rw [get_eq]
  accepted_eq := by rw [get_eq, h]; rfl

/-- At the end nothing is read. -/
theorem took_get_of_nil (h : l.ahead = []) : Took l [] l.get.2 where
  ahead_eq := by rw [ahead_get, h]; rfl
  line_eq := by
    have hahead : l.reader.ahead = [] := h
    rw [get_eq, Reader.read_eq, hahead]
    simp
  file_eq := by rw [get_eq]
  peeked_eq := by rw [get_eq]
  accepted_eq := by rw [get_eq, h]; rfl

/-- A character that was put back was never read, and at the end nothing is put back. -/
theorem took_unget_get (l : Lexer) : Took l [] l.get.2.unget := by
  rw [unget_get]
  refine ⟨⟨?_, by simp, rfl, rfl⟩, by simp⟩
  cases h : l.ahead <;> simp [ahead, Reader.ahead]

theorem takeWhile_of_nil {p : Char → Bool} (h : l.ahead = []) :
    l.takeWhile p = l.get.2.unget := by
  rw [takeWhile]
  split
  next hget => cases (get_eq_of_nil h).symm.trans hget
  next hget => rw [hget]

theorem takeWhile_of_cons {p : Char → Bool} (h : l.ahead = c :: cs) :
    l.takeWhile p = if p c then l.get.2.takeWhile p else l.get.2.unget := by
  rw [takeWhile]
  split
  next hget =>
    cases (get_eq_of_cons h).symm.trans hget
    rfl
  next hget => cases (get_eq_of_cons h).symm.trans hget

/-- Reads the longest front of characters that have the property. -/
theorem took_takeWhile (p : Char → Bool) (l : Lexer) :
    Took l (l.ahead.takeWhile p) (l.takeWhile p) := by
  induction h : l.ahead generalizing l with
  | nil =>
    rw [takeWhile_of_nil h]
    exact took_unget_get l
  | cons c cs ih =>
    rw [takeWhile_of_cons h, List.takeWhile_cons]
    split
    · exact (took_get h).trans (ih _ (ahead_get_of_cons h))
    · exact took_unget_get l

/-! ## Comments -/

theorem comment_of_nil (h : l.ahead = []) : l.comment = l.get.2.accept := by
  rw [comment]
  split
  next hget => cases (get_eq_of_nil h).symm.trans hget
  next hget => rw [hget]

theorem comment_of_cons (h : l.ahead = c :: cs) :
    l.comment = if c = '\n' then l.get.2.accept else l.get.2.comment := by
  rw [comment]
  split
  next hget =>
    cases (get_eq_of_cons h).symm.trans hget
    rfl
  next hget => cases (get_eq_of_cons h).symm.trans hget

/-- A comment is read through its newline. -/
theorem behind_comment {body rest : List Char} (hbody : '\n' ∉ body)
    (h : l.ahead = body ++ '\n' :: rest) : Behind l (body ++ ['\n']) l.comment := by
  induction body generalizing l with
  | nil =>
    rw [comment_of_cons h, if_pos rfl]
    exact (took_get h).toBehind.accept
  | cons c body ih =>
    rw [List.mem_cons, not_or] at hbody
    have h : l.ahead = c :: (body ++ '\n' :: rest) := h
    rw [comment_of_cons h, if_neg (Ne.symm hbody.1)]
    exact (took_get h).toBehind.trans (ih hbody.2 (ahead_get_of_cons h))

/-- A comment without a newline is read up to the end. -/
theorem behind_comment_open (h : '\n' ∉ l.ahead) : Behind l l.ahead l.comment := by
  induction hahead : l.ahead generalizing l with
  | nil =>
    rw [comment_of_nil hahead]
    exact (took_get_of_nil hahead).toBehind.accept
  | cons c cs ih =>
    rw [hahead, List.mem_cons, not_or] at h
    rw [comment_of_cons hahead, if_neg (Ne.symm h.1)]
    have hcs := ahead_get_of_cons hahead
    exact (took_get hahead).toBehind.trans (ih (hcs ▸ h.2) hcs)

/-! ## Handlers -/

/-- What a text makes at a position. -/
def cut (position : Position) (text : List Char) : Except Error Token :=
  match classify text with
  | .ok (kind, literal) => .ok { kind, text := String.ofList text, position, literal }
  | .error cause => .error { cause, position }

/-- The first character was read, the rest of the longest text behind it is, and what the text makes
on the line is the result. -/
def Handles (first : Char) (line : UInt32) (l : Lexer) (r : Except Error Token × Lexer) : Prop :=
  ∃ w, lexeme (first :: l.ahead) = first :: w ∧ Behind l w r.2 ∧
    r.1 = cut { file := l.file, line } (first :: w)

variable {first : Char} {line : UInt32}

/-- A handler that has read the rest of the text, and gives what the text makes. -/
theorem Took.handles {value : Except Cause (Kind × Literal)} (hkept : l.accepted = [first])
    (h : Took l w l') (hlexeme : lexeme (first :: l.ahead) = first :: w)
    (hvalue : value = classify (first :: w)) : Handles first line l (l'.finish line value) := by
  have hall : l'.accepted = first :: w := by rw [h.accepted_eq, hkept]; rfl
  refine ⟨w, hlexeme, ?_, ?_⟩
  · unfold finish
    split <;> exact h.toBehind.accept
  · subst hvalue
    unfold finish cut
    rw [hall, h.file_eq]
    cases classify (first :: w) <;> rfl

/-- What is read behind the first character of an operator: a second one if the two are one. -/
def OperatorRest (first : Char) (text w : List Char) : Prop :=
  w = if (operators.lookup (first :: text.take 1)).isSome then text.take 1 else []

/-- An operator of one character, with which no other starts. -/
theorem exists_took_single {kind : Kind} (hpair : ∀ d, operators.lookup [first, d] = none)
    (hsingle : operators.lookup [first] = some kind) (l : Lexer) :
    ∃ w l', (some kind, l) = (operators.lookup (first :: w), l') ∧ Took l w l' ∧
      OperatorRest first l.ahead w := by
  refine ⟨[], l, by rw [hsingle], .refl l, ?_⟩
  unfold OperatorRest
  cases l.ahead <;> simp [hpair]

/-- Of the operators of two characters, no two start alike. -/
theorem lookup_operators_pair {first next d : Char} {kind : Kind}
    (h : operators.lookup [first, next] = some kind) :
    operators.lookup [first, d] = if d = next then some kind else none := by
  have hall : ∀ p ∈ operators, ∀ q ∈ operators, p.1.length = 2 → q.1.length = 2 →
      p.1.head? = q.1.head? → p.1 = q.1 := by decide
  by_cases hd : d = next
  · rw [if_pos hd, hd, h]
  · rw [if_neg hd, ← Option.not_isSome_iff_eq_none]
    intro hsome
    obtain ⟨kind', hkind'⟩ := Option.isSome_iff_exists.1 hsome
    have hsame := hall _ (mem_of_lookup hkind') _ (mem_of_lookup h) rfl rfl rfl
    exact hd (by simpa using hsame)

/-- The second character of an operator is read if it is there. -/
theorem exists_took_follow {next : Char} {matched single : Kind}
    (hpair : operators.lookup [first, next] = some matched)
    (hsingle : operators.lookup [first] = some single) (l : Lexer) :
    ∃ w l', l.follow next matched single = (operators.lookup (first :: w), l') ∧ Took l w l' ∧
      OperatorRest first l.ahead w := by
  unfold OperatorRest
  cases h : l.ahead with
  | nil =>
    refine ⟨[], l.get.2.unget, ?_, took_unget_get l, by simp⟩
    rw [follow, get_of_nil h, if_neg (by simp), hsingle]
  | cons d ds =>
    have hlookup := @lookup_operators_pair first next d _ hpair
    by_cases hd : d = next
    · subst hd
      refine ⟨[d], l.get.2, ?_, took_get h, by simp [hpair]⟩
      rw [follow, get_of_cons h, if_pos rfl, hpair]
    · refine ⟨[], l.get.2.unget, ?_, took_unget_get l, by simp [hlookup, hd]⟩
      rw [follow, get_of_cons h, if_neg (by simpa using hd), hsingle]

/-- The arms of the operators go by the table. -/
theorem exists_took_operatorKind (h : first ∈ operatorStarts) (l : Lexer) :
    ∃ w l', l.operatorKind first = (operators.lookup (first :: w), l') ∧ Took l w l' ∧
      OperatorRest first l.ahead w := by
  simp only [operatorStarts, List.mem_cons, List.not_mem_nil, or_false] at h
  rcases h with rfl | rfl | rfl | rfl | rfl | rfl | rfl | rfl | rfl | rfl | rfl | rfl | rfl
  all_goals first
    | exact exists_took_follow rfl rfl l
    | exact exists_took_single (by simp [operators, List.lookup_cons]) rfl l

theorem handles_operator (h : first ∈ operatorStarts) (hkept : l.accepted = [first]) :
    Handles first line l (l.operator first line) := by
  have hstart : Start.of first = .operator := if_pos h
  obtain ⟨w, l', hkind, htook, hrest⟩ := exists_took_operatorKind h l
  have hlexeme : lexeme (first :: l.ahead) = first :: w := by
    rw [lexeme, hstart, hrest]
    simp only
    split <;> rfl
  have hkept' : l'.accepted = first :: w := by rw [htook.accepted_eq, hkept]; rfl
  rw [operator, hkind]
  cases hlookup : operators.lookup (first :: w) with
  | some kind =>
    refine htook.handles hkept hlexeme ?_
    rw [classify, hstart]
    simp only [operatorValue, hlookup]
  | none =>
    refine htook.handles hkept hlexeme ?_
    rw [classify, hstart, hkept']
    simp only [operatorValue, hlookup]

theorem handles_separator (h : Start.of first = .separator) (hkept : l.accepted = [first]) :
    Handles first line l (l.separator first line) := by
  have hmem : first ∈ separatorStarts := Start.suits_of h
  have hkind : separatorKind first = separators.lookup [first] := by
    have hall : ∀ c ∈ separatorStarts, decide (separatorKind c = separators.lookup [c]) = true :=
      List.all_eq_true.1 (by decide)
    exact of_decide_eq_true (hall first hmem)
  have hlexeme : lexeme (first :: l.ahead) = [first] := by rw [lexeme, h]
  rw [separator, hkind]
  cases hlookup : separators.lookup [first] with
  | some kind =>
    refine (Took.refl l).handles hkept hlexeme ?_
    rw [classify, h]
    simp only [separatorValue, hlookup]
  | none =>
    refine (Took.refl l).handles hkept hlexeme ?_
    rw [classify, h, hkept]
    simp only [separatorValue, hlookup]

theorem handles_word (h : Start.of first = .word) (hkept : l.accepted = [first]) :
    Handles first line l (l.word line) := by
  have htook := took_takeWhile isWordPart l
  refine htook.handles hkept (by rw [lexeme, h]) ?_
  rw [classify, h, htook.accepted_eq, hkept]
  rfl

/-- Decimal digits are read to their end, and if a point stands behind them, so are those behind it. -/
theorem took_decimalRest (hfirst : first.isDigit = true) (l : Lexer)
    (hx : ∀ rest, first :: l.ahead ≠ '0' :: 'x' :: rest) :
    ∃ w, numberText (first :: l.ahead) = first :: w ∧ Took l w l.decimalRest := by
  have htook := took_takeWhile Char.isDigit l
  have hahead : (l.takeWhile Char.isDigit).ahead = l.ahead.dropWhile Char.isDigit :=
    htook.rest_eq List.takeWhile_append_dropWhile.symm
  rw [numberText.eq_2 _ hx, List.dropWhile_cons_of_pos hfirst, List.takeWhile_cons_of_pos hfirst]
  simp only [decimalRest]
  split
  · rename_i rest hrest
    rw [hrest] at hahead
    rw [get_of_cons hahead, if_pos rfl]
    have hfurther := took_takeWhile Char.isDigit (l.takeWhile Char.isDigit).get.2
    rw [ahead_get_of_cons hahead] at hfurther
    exact ⟨_, rfl, htook.trans ((took_get hahead).trans hfurther)⟩
  · rename_i hpoint
    have hnone : (l.takeWhile Char.isDigit).get.1 ≠ some '.' := by
      intro hget
      rw [get_eq, hahead] at hget
      obtain ⟨rest, hrest⟩ := List.head?_eq_some_iff.1 hget
      exact hpoint rest hrest
    rw [if_neg hnone]
    exact ⟨_, by rw [List.append_nil], htook.trans (took_unget_get _)⟩

/-- The rest of a number is what stands behind the first character of the longest number. -/
theorem took_numberRest (hfirst : first.isDigit = true) (l : Lexer) :
    ∃ w, numberText (first :: l.ahead) = first :: w ∧ Took l w (l.numberRest first) := by
  unfold numberRest
  by_cases hzero : first = '0'
  · subst hzero
    rw [if_pos rfl]
    by_cases hx : l.get.1 = some 'x'
    · rw [if_pos hx]
      have hhead : l.ahead.head? = some 'x' := by rw [← hx, get_eq]
      obtain ⟨rest, hrest⟩ := List.head?_eq_some_iff.1 hhead
      have htook := took_takeWhile isHexDigit l.get.2
      rw [ahead_get_of_cons hrest] at htook
      exact ⟨_, by rw [hrest]; rfl, (took_get hrest).trans htook⟩
    · rw [if_neg hx]
      have hback := took_unget_get l
      have hahead : l.get.2.unget.ahead = l.ahead := hback.ahead_eq.symm
      obtain ⟨w, hw, htook⟩ := took_decimalRest hfirst l.get.2.unget fun rest heq => by
        rw [hahead] at heq
        exact hx (get_of_cons (List.cons.inj heq).2)
      exact ⟨w, hahead ▸ hw, hback.trans htook⟩
  · rw [if_neg hzero]
    exact took_decimalRest hfirst l fun rest heq => hzero (List.cons.inj heq).1

theorem handles_number (h : Start.of first = .number) (hkept : l.accepted = [first]) :
    Handles first line l (l.number first line) := by
  have hfirst : first.isDigit = true := Start.suits_of h
  obtain ⟨w, hw, htook⟩ := took_numberRest hfirst l
  have hkept' : (l.numberRest first).accepted = first :: w := by
    rw [htook.accepted_eq, hkept]; rfl
  refine htook.handles hkept (by rw [lexeme, h, hw]) ?_
  obtain ⟨numeral, after, htext, hfronts⟩ := Numeral.exists_fronts (first :: l.ahead)
  have hnumeral : numeral.text = first :: w := by rw [← hw, htext, hfronts.numberText_eq]
  rw [hkept', ← hnumeral, hfronts.patternValue_eq hfirst hnumeral, hnumeral, classify, h]

theorem handles_dispatch (first : Char) (line : UInt32) (hkept : l.accepted = [first]) :
    Handles first line l (l.dispatch first line) := by
  unfold dispatch
  cases h : Start.of first with
  | operator => exact handles_operator (Start.suits_of h) hkept
  | separator => exact handles_separator h hkept
  | number => exact handles_number h hkept
  | word => exact handles_word h hkept
  | stray =>
    refine ⟨[], by rw [lexeme, h], .refl l, ?_⟩
    rw [cut, classify, h]

/-! ## Rounds -/

/-- At the end the end is cut. -/
theorem scan_of_nil (h : l.ahead = []) :
    l.scan.1 = .ok (.eof { file := l.file, line := l.reader.line }) ∧ Behind l [] l.scan.2 := by
  have hget : l.accept.get = (none, l.accept.get.2) := get_eq_of_nil h
  have htook : Took l.accept [] l.accept.get.2 := took_get_of_nil h
  rw [scan]
  split
  next hget' =>
    cases hget.symm.trans hget'
    have hline : l.accept.get.2.reader.line = l.reader.line :=
      htook.line_eq.trans (UInt32.add_zero _)
    have hfile : l.accept.get.2.file = l.file := htook.file_eq
    exact ⟨by rw [hline, hfile], htook.ahead_eq, htook.line_eq, htook.file_eq, htook.peeked_eq⟩
  next hget' => cases hget.symm.trans hget'

theorem scan_of_cons (h : l.ahead = c :: cs) :
    l.scan =
      let l' := l.accept.get.2
      if isBlank c then l'.scan
      else if c = '/' then
        if l'.get.1 = some '/' then l'.get.2.comment.scan
        else l'.get.2.unget.operator c l'.reader.line
      else l'.dispatch c l'.reader.line := by
  have hget : l.accept.get = (some c, l.accept.get.2) := get_eq_of_cons h
  rw [scan]
  split
  next hget' => cases hget.symm.trans hget'
  next hget' =>
    cases hget.symm.trans hget'
    rfl

/-- The first character of a round, which starts with nothing kept. -/
theorem behind_first (h : l.ahead = c :: cs) : Behind l [c] l.accept.get.2 ∧
    l.accept.get.2.ahead = cs ∧ l.accept.get.2.accepted = [c] := by
  have htook : Took l.accept [c] l.accept.get.2 := took_get h
  exact ⟨⟨htook.ahead_eq, htook.line_eq, htook.file_eq, htook.peeked_eq⟩,
    ahead_get_of_cons (l := l.accept) h, htook.accepted_eq⟩

/-- A comment starts with two characters that are read one by one. -/
theorem scan_of_slashes (h : l.ahead = '/' :: '/' :: cs) :
    ∃ l', Behind l ['/', '/'] l' ∧ l'.ahead = cs ∧ l.scan = l'.comment.scan := by
  obtain ⟨hfirst, hahead, -⟩ := behind_first h
  refine ⟨l.accept.get.2.get.2, hfirst.trans (took_get hahead).toBehind,
    ahead_get_of_cons hahead, ?_⟩
  rw [scan_of_cons h, if_neg (by decide), if_pos rfl, if_pos (get_of_cons hahead)]

/-- The rounds over a gap cut nothing. -/
theorem scan_of_isGap {g rest : List Char} (hg : IsGap (rest = []) g) (h : l.ahead = g ++ rest) :
    ∃ l', Behind l g l' ∧ l.scan = l'.scan := by
  induction hg generalizing l with
  | nil => exact ⟨l, .refl l, rfl⟩
  | blank hc _ ih =>
    obtain ⟨hfirst, hahead, -⟩ := behind_first h
    obtain ⟨l', hbehind, hscan⟩ := ih hahead
    refine ⟨l', hfirst.trans hbehind, ?_⟩
    rw [scan_of_cons h, ← hscan]
    exact if_pos hc
  | @comment body g hbody _ ih =>
    rw [List.cons_append, List.cons_append, List.append_assoc] at h
    obtain ⟨l₁, hslashes, hahead₁, hscan₁⟩ := scan_of_slashes h
    have hcomment := behind_comment hbody hahead₁
    have hahead₂ : l₁.comment.ahead = g ++ rest := hcomment.rest_eq (by rw [hahead₁]; simp)
    obtain ⟨l', hbehind, hscan₂⟩ := ih hahead₂
    refine ⟨l', ?_, hscan₁.trans hscan₂⟩
    simpa using hslashes.trans (hcomment.trans hbehind)
  | @openComment body hlast hbody =>
    subst hlast
    rw [List.append_nil] at h
    obtain ⟨l₁, hslashes, hahead₁, hscan₁⟩ := scan_of_slashes h
    have hcomment := behind_comment_open (hahead₁ ▸ hbody)
    exact ⟨l₁.comment, by simpa [hahead₁] using hslashes.trans hcomment, hscan₁⟩

/-- A handler that was called behind the first character of a text. -/
theorem Handles.scan_eq {result : Except Error Token × Lexer}
    (hfirst : Behind l [c] l') (hline : newlines [c] = 0) (hlexeme : lexeme (c :: l'.ahead) = c :: cs)
    (h : Handles c l'.reader.line l' result) :
    Behind l (c :: cs) result.2 ∧
      result.1 = cut { file := l.file, line := l.reader.line } (c :: cs) := by
  obtain ⟨w, hw, hbehind, hresult⟩ := h
  obtain rfl : w = cs := (List.cons.inj (hw.symm.trans hlexeme)).2
  refine ⟨hfirst.trans hbehind, ?_⟩
  rw [hresult, hfirst.file_eq, hfirst.line_eq, hline, UInt32.add_zero]

/-- The round at a character that starts no gap cuts what the longest text at its place makes. -/
theorem scan_of_start {text r : List Char} (h : l.ahead = text ++ r) (hne : text ≠ [])
    (hgap : gap (text ++ r) = []) (hlexeme : lexeme (text ++ r) = text) :
    Behind l text l.scan.2 ∧ l.scan.1 = cut { file := l.file, line := l.reader.line } text := by
  obtain ⟨c, cs, rfl⟩ := List.exists_cons_of_ne_nil hne
  obtain ⟨hfirst, hahead, hkept⟩ := behind_first h
  obtain ⟨hblank, hslash⟩ := gap_cons_eq_nil_iff.1 hgap
  have hline : newlines [c] = 0 := by
    apply Text.newlines_eq_zero
    intro hmem
    obtain rfl := List.mem_singleton.1 hmem
    cases hblank.symm.trans Text.isBlank_newline
  rw [scan_of_cons h]
  generalize l.accept.get.2 = l₁ at hfirst hahead hkept ⊢
  simp only [hblank, Bool.false_eq_true, if_false]
  split
  · rename_i hc
    -- The character behind the `/` is read to see that it is none, and put back.
    have hnext : l₁.get.1 ≠ some '/' := by
      rw [get_eq, hahead]
      exact hslash hc
    have hback := took_unget_get l₁
    have hline₁ : l₁.get.2.unget.reader.line = l₁.reader.line := by simpa using hback.line_eq
    have hkept₁ : l₁.get.2.unget.accepted = [c] := by
      rw [hback.accepted_eq, hkept, List.append_nil]
    have hhandles : Handles c l₁.reader.line l₁.get.2.unget _ :=
      handles_operator (by rw [hc]; decide) hkept₁
    rw [if_neg hnext]
    rw [← hline₁] at hhandles ⊢
    exact hhandles.scan_eq (hfirst.trans hback.toBehind) hline
      (by rw [hback.rest_eq hahead]; exact hlexeme)
  · have hhandles := handles_dispatch c l₁.reader.line hkept
    exact hhandles.scan_eq hfirst hline (by rw [hahead]; exact hlexeme)

/-! ## Against the stream -/

open TokenStream (Call Answer outcome)

/-- The same is to come from the lexer and from the stream. -/
structure Shows (l : Lexer) (s : TokenStream) : Prop where
  ahead_eq : l.ahead = s.cursor.rest
  line_eq : l.reader.line = s.cursor.line
  file_eq : l.file = s.file
  peeked_eq : l.peeked = s.peeked

variable {s : TokenStream}

/-- One token, or the reason why there is none, and what is left to come. -/
theorem Shows.scan (h : l.Shows s) :
    l.scan.1 = (outcome s.scan).1 ∧ l.scan.2.Shows (outcome s.scan).2 := by
  rcases gap_eq_self_or_splits s.cursor.rest with hgap | ⟨g, text, r, hsplit⟩
  · have hg : IsGap (([] : List Char) = []) s.cursor.rest := hgap ▸ (isGap_gap _).imp fun _ => rfl
    have hall : l.ahead = s.cursor.rest ++ [] := by rw [h.ahead_eq, List.append_nil]
    obtain ⟨l₁, hgap₁, hscan⟩ := scan_of_isGap hg hall
    obtain ⟨hcut, hend⟩ := scan_of_nil (hgap₁.rest_eq hall)
    have hbehind : Behind l s.cursor.rest l₁.scan.2 := by simpa using hgap₁.trans hend
    rw [hscan, TokenStream.scan_of_gap hgap]
    refine ⟨?_, ?_⟩
    · rw [hcut, hgap₁.file_eq, hgap₁.line_eq, h.file_eq, h.line_eq]
      rfl
    · refine ⟨?_, ?_, hbehind.file_eq.trans h.file_eq, hbehind.peeked_eq.trans h.peeked_eq⟩
      · simpa [outcome] using hbehind.rest_eq hall
      · simp [outcome, hbehind.line_eq, h.line_eq]
  · have hall := h.ahead_eq.trans hsplit.text_eq
    obtain ⟨l₁, hgap, hscan⟩ := scan_of_isGap (hsplit.isGap.imp False.elim) hall
    obtain ⟨htext, hcut⟩ :=
      scan_of_start (hgap.rest_eq hall) hsplit.ne_nil hsplit.gap_eq hsplit.lexeme_eq
    have hbehind := hgap.trans htext
    obtain ⟨hrest, hline⟩ := TokenStream.skip_of_splits hsplit
    rw [hscan, TokenStream.scan_of_splits hsplit]
    have hposition : ({ file := l₁.file, line := l₁.reader.line } : Position) =
        { file := s.file, line := s.cursor.line + newlines g } := by
      rw [hgap.file_eq, hgap.line_eq, h.file_eq, h.line_eq]
    have hleft : l₁.scan.2.Shows
        { s with cursor := (s.cursor.skip g.length).skip text.length } := {
      ahead_eq := by
        rw [hrest]
        exact hbehind.rest_eq (by rw [hall, List.append_assoc])
      line_eq := by rw [hbehind.line_eq, h.line_eq]; exact hline.symm
      file_eq := hbehind.file_eq.trans h.file_eq
      peeked_eq := hbehind.peeked_eq.trans h.peeked_eq }
    rw [hcut, hposition, cut]
    cases classify text <;> exact ⟨rfl, hleft⟩

/-- A call on a lexer. -/
def run : Call → Lexer → Answer × Lexer
  | .peek, l => (.token l.peek.1, l.peek.2)
  | .peekKind, l => (.kind l.peekKind.1, l.peekKind.2)
  | .next, l => (.token l.next.1, l.next.2)

theorem Shows.next (h : l.Shows s) :
    l.next.1 = (outcome s.next).1 ∧ l.next.2.Shows (outcome s.next).2 := by
  unfold Lexer.next TokenStream.next
  rw [h.peeked_eq]
  cases s.peeked with
  | some token => exact ⟨rfl, h.ahead_eq, h.line_eq, h.file_eq, rfl⟩
  | none => exact h.scan

theorem Shows.peek (h : l.Shows s) :
    l.peek.1 = (outcome s.peek).1 ∧ l.peek.2.Shows (outcome s.peek).2 := by
  unfold Lexer.peek TokenStream.peek
  rw [h.peeked_eq]
  cases s.peeked with
  | some token => exact ⟨rfl, h⟩
  | none =>
    obtain ⟨hcut, hleft⟩ := h.scan
    rcases hl : l.scan with ⟨result, l'⟩
    rw [hl] at hcut hleft
    cases hs : s.scan with
    | ok token s' =>
      rw [hs] at hcut hleft
      obtain rfl : result = .ok token := hcut
      exact ⟨rfl, hleft.ahead_eq, hleft.line_eq, hleft.file_eq, rfl⟩
    | error e s' =>
      rw [hs] at hcut hleft
      obtain rfl : result = .error e := hcut
      exact ⟨rfl, hleft⟩

/-- The lexer behind so many tokens or errors. -/
def behind : Lexer → Nat → Lexer
  | l, 0 => l
  | l, k + 1 => l.next.2.behind k

theorem Shows.behind (h : l.Shows s) (k : Nat) : (l.behind k).Shows (s.behind k) := by
  induction k generalizing l s with
  | zero => exact h
  | succ k ih => exact ih h.next.2

/-- One call gives the same on both, and the same is left to come. -/
theorem run_inStep : InStep run Call.run Shows := by
  intro call l s h
  cases call with
  | peek => exact ⟨congrArg Answer.token h.peek.1, h.peek.2⟩
  | peekKind =>
    have hkind := TokenStream.outcome_peekKind s
    refine ⟨congrArg Answer.kind ?_, ?_⟩
    · show l.peek.1.map Token.kind = (outcome s.peekKind).1
      rw [hkind, h.peek.1]
    · show l.peek.2.Shows (outcome s.peekKind).2
      rw [hkind]
      exact h.peek.2
  | next => exact ⟨congrArg Answer.token h.next.1, h.next.2⟩

/-- Whatever is called, in whatever order and whether it fails or not, the lexer answers like the
stream. -/
theorem Shows.answers_eq (h : l.Shows s) (calls : List Call) :
    (answers run calls l).map Prod.fst = (answers Call.run calls s).map Prod.fst :=
  run_inStep.map_answers_eq (fun _ _ _ _ => rfl) calls h

theorem shows_ofSource (file source : String) :
    (ofSource file source).Shows (.ofSource file source) where
  ahead_eq := rfl
  line_eq := rfl
  file_eq := rfl
  peeked_eq := rfl

/-- On the lexer of a source, any row of calls gives what it gives on the stream of the source. -/
theorem answers_ofSource (file source : String) (calls : List Call) :
    (answers run calls (ofSource file source)).map Prod.fst =
      (answers Call.run calls (.ofSource file source)).map Prod.fst :=
  (shows_ofSource file source).answers_eq calls

end Lexer

end FxLang
