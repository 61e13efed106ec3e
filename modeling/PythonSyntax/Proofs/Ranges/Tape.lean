/-
**The scanner with an index into its text.**

A scanner may keep the characters that are left, or else the whole text and an index into it.  With
an index, the text of a token or of trivia is a slice of the whole text, which is there only if it
lies within it.  Both scanners do the same, so every slice that is taken is there.

Main definitions:

* `PythonSyntax.slice?` — the characters between two indices;
* `PythonSyntax.Tape` — the scanner with an index;
* `PythonSyntax.Tape.step?`, `PythonSyntax.Tape.read?`, `PythonSyntax.Tape.advance?`,
  `PythonSyntax.Tape.ofText?` — what it does, if all slices that it takes are there;
* `PythonSyntax.Scanner.onTape` — a scanner as one with an index.

Main results:

* `PythonSyntax.Scanner.Fits.step?` — a step of one is a step of the other;
* `PythonSyntax.Scanner.Standing.advance?`, `PythonSyntax.Tape.ofText?_eq` — **so is every move**.
-/

import PythonSyntax.Proofs.Lexical.Unbounded
import PythonSyntax.Proofs.Ranges.Lookahead

set_option autoImplicit false

namespace PythonSyntax

open Lexeme

/-! ### Slices -/

/-- The characters between two indices. -/
def slice? (input : List Char) (start stop : Nat) : Option (List Char) :=
  if start ≤ stop ∧ stop ≤ input.length then some ((input.take stop).drop start) else none

/-- The characters behind the first one, which has to be one byte long. -/
def behindFirst? : List Char → Option (List Char)
  | [] => none
  | c :: rest => if c.utf8Size = 1 then some rest else none

theorem slice?_eq {input : List Char} {start count : Nat}
    (le : count ≤ (input.drop start).length) (inside : start ≤ input.length) :
    slice? input start (start + count) = some ((input.drop start).take count) := by
  rw [List.length_drop] at le
  rw [slice?, if_pos ⟨Nat.le_add_right _ _, by omega⟩, List.drop_take, Nat.add_sub_cancel_left]

/-! ### Steps -/

/-- The state of the scanner, with an index into the text. -/
structure Tape where
  input : List Char
  index : Nat
  options : Options
  indents : Indents
  nesting : Nat
  atLineStart : Bool
  lineHasContent : Bool
  pending : List Token
  current : Token

namespace Tape

/-- What can be seen from the index on. -/
def ahead (t : Tape) : List Char := t.input.drop t.index

/-- The scanner after passing `count` characters. -/
def skip (t : Tape) (count : Nat) : Tape := { t with index := t.index + count }

/-- The next `count` characters. -/
def front? (t : Tape) (count : Nat) : Option (List Char) :=
  slice? t.input t.index (t.index + count)

/-- The next `count` characters as trivia. -/
def piece? (t : Tape) (kind : TriviaKind) (count : Nat) : Option Trivia := do
  let text ← t.front? count
  some ⟨t.index, t.index + count, kind, String.ofList text⟩

/-- The next `count` characters as a token. -/
def lexeme? (t : Tape) (kind : TokenKind) (count : Nat) : Option Token := do
  let text ← t.front? count
  some ⟨t.index, t.index + count, kind,
    if carriesText kind then some (String.ofList text) else none, []⟩

/-- A token without width. -/
def mark (t : Tape) (kind : TokenKind) : Token := Token.mark t.index t.index kind

/-- Passing the next `count` characters as trivia. -/
def passTrivia? (t : Tape) (kind : TriviaKind) (count : Nat) : Option (Found × Tape) := do
  let piece ← t.piece? kind count
  some (.trivia [piece], t.skip count)

/-- The tokens that end a text. -/
def finish (t : Tape) : Found × Tape :=
  let closing := List.replicate t.indents.blocks.length (t.mark .dedent)
  if t.lineHasContent then
    (.token [] (Token.literal t.index t.index .newline ""),
      { t with
        lineHasContent := false, atLineStart := true, indents := .atMargin,
        pending := t.pending ++ closing ++ [Token.eof t.index] })
  else
    match closing with
    | [] => (.token [] (Token.eof t.index), t)
    | first :: more =>
      (.token [] first,
        { t with indents := .atMargin, pending := t.pending ++ more ++ [Token.eof t.index] })

/-- The length of a comment that declares a type, if it is to be a token. -/
def typeComment? (t : Tape) : Option (Option Nat) :=
  if !t.options.typeComments || !t.lineHasContent then some none
  else do
    let stop ← Indexed.lineEnd? t.input t.index
    let text ← slice? t.input t.index stop
    let body := (← behindFirst? text).dropWhile Text.isBlank
    let subject := (body.drop 5).dropWhile Text.isBlank
    some (if "type:".toList.isPrefixOf body && !"ignore".toList.isPrefixOf subject then
      some (stop - t.index) else none)

/-- A name, a reserved word, or a string with letters before its quote. -/
def word? (t : Tape) : Option Lexeme := do
  let length := (t.ahead.takeWhile isNamePart).length
  let run ← t.front? length
  let rest := t.input.drop (t.index + length)
  some (
    if rest.head?.any Quotation.isQuote && isStringMark run then
      ofReading .string ((Quotation.read rest).after length)
    else
      match Keyword.ofSpelling? (String.ofList run) with
      | some keyword => ⟨.keyword keyword, length, none⟩
      | none => ⟨.name, length, none⟩)

/-- The kind and the length of the next token. -/
def lex? (t : Tape) : Option Lexeme :=
  if t.ahead.head?.any isNameStart then t.word? else some (Lexeme.read t.ahead)

/-- The next token.  Its text is taken in any case, also if it is not needed. -/
def readToken? (t : Tape) : Option (Found × Tape) := do
  let found ← t.lex?
  let token ← t.lexeme? found.kind found.length
  match found.fault with
  | some fault => some (.fault fault t.index, t.skip found.length)
  | none =>
    some (.token [] token,
      { t.skip found.length with
        nesting := Scanner.nestingAfter t.nesting found.kind, lineHasContent := true })

/-- A step within a line. -/
def stepInLine? (t : Tape) : Option (Found × Tape) :=
  match t.input[t.index]? with
  | none => some t.finish
  | some c =>
    if isSpace c then t.passTrivia? .whitespace (spaces t.ahead)
    else if c = '#' then do
      match ← t.typeComment? with
      | some count =>
        let token ← t.lexeme? .typeComment count
        some (.token [] token, t.skip count)
      | none => t.passTrivia? .comment (comment t.ahead)
    else if c = '\\' && t.input[t.index + 1]?.any isLineEnd then do
      let count := lineBreak (t.input.drop (t.index + 1))
      let _ ← slice? t.input (t.index + 1) (t.index + 1 + count)
      t.passTrivia? .continuation (1 + count)
    else if isLineEnd c then
      let count := lineBreak t.ahead
      if 0 < t.nesting || !t.lineHasContent then t.passTrivia? .newline count
      else do
        let token ← t.lexeme? .newline count
        some (.token [] token, { t.skip count with atLineStart := true, lineHasContent := false })
    else t.readToken?

/-- A step behind the indentation of a line. -/
def stepAtIndentation? (t : Tape) (width : Nat) : Option (Found × Tape) :=
  match t.input[t.index]? with
  | none => some t.finish
  | some c =>
    if c = '#' then t.passTrivia? .comment (comment t.ahead)
    else if isLineEnd c then t.passTrivia? .newline (lineBreak t.ahead)
    else
      let u := { t with atLineStart := false, indents := (t.indents.change width).2 }
      match (t.indents.change width).1 with
      | .stays => u.stepInLine?
      | .opens => some (.token [] (u.mark .indent), u)
      | .closes count =>
        some (.token [] (u.mark .dedent),
          { u with pending := u.pending ++ List.replicate (count - 1) (u.mark .dedent) })
      | .unmatched => some (.fault .unmatchedUnindent u.index, u)

/-- The blanks with which a line begins, if there are any. -/
def blanks? (t : Tape) (count : Nat) : Option (List Trivia) :=
  if count = 0 then some [] else (t.piece? .whitespace count).map fun piece => [piece]

/-- A step at the start of a line, outside brackets. -/
def stepAtLineStart? (t : Tape) : Option (Found × Tape) := do
  let count := spaces t.ahead
  let blanks ← t.blanks? count
  let width := Indentation.width t.options.tabSize (t.ahead.take count)
  let (found, u) ← (t.skip count).stepAtIndentation? width
  some (found.after blanks, u)

/-- One step towards the next token. -/
def step? (t : Tape) : Option (Found × Tape) :=
  if t.atLineStart && t.nesting = 0 then t.stepAtLineStart? else t.stepInLine?

/-! ### Tokens -/

/-- Steps up to a token or a fault, as long as they get on. -/
def read? (trivia : List Trivia) (t : Tape) : Option (Except SyntaxError Token × Tape) := do
  match ← t.step? with
  | (.token pieces token, u) => some (.ok (token.withTrivia (trivia ++ pieces)), u)
  | (.fault fault position, u) => some (.error ⟨.lexical fault, position⟩, u)
  | (.trivia pieces, u) =>
    if _fewer : u.ahead.length < t.ahead.length then read? (trivia ++ pieces) u else none
termination_by t.ahead.length

/-- The next token: one that was kept, or else one read off the text. -/
def next? (t : Tape) : Option (Except SyntaxError Token × Tape) :=
  match t.pending with
  | token :: pending => some (.ok token, { t with pending := pending })
  | [] => read? [] t

/-- Moving to the next token. -/
def advance? (t : Tape) : Option (Option SyntaxError × Tape) :=
  if t.current.kind = .eof then some (none, t)
  else do
    match ← t.next? with
    | (.ok token, t) => some (none, { t with current := token })
    | (.error error, t) => some (some error, t)

/-- Whether the rest of the logical line opens a block. -/
def opensBlock? (t : Tape) : Option Bool := do
  let look ← Indexed.lookAhead? t.input t.index .start
  some look.opensBlock

/-- A scanner on the first token of a text. -/
def ofText? (options : Options) (text : List Char) : Option (Except SyntaxError Tape) := do
  match ← next? ⟨text, 0, options, .atMargin, 0, true, false, [], Token.eof 0⟩ with
  | (.ok token, t) => some (.ok { t with current := token })
  | (.error error, _) => some (.error error)

end Tape

/-! ### Both scanners -/

namespace Scanner

variable {text : List Char} {s : Scanner}

/-- The scanner with an index. -/
def onTape (s : Scanner) (text : List Char) : Tape :=
  ⟨text, s.offset, s.options, s.indents, s.nesting, s.atLineStart, s.lineHasContent, s.pending,
    s.current⟩

section

variable (text : List Char) (s : Scanner)

@[simp] theorem onTape_input : (s.onTape text).input = text := rfl

@[simp] theorem onTape_index : (s.onTape text).index = s.offset := rfl

@[simp] theorem onTape_options : (s.onTape text).options = s.options := rfl

@[simp] theorem onTape_indents : (s.onTape text).indents = s.indents := rfl

@[simp] theorem onTape_nesting : (s.onTape text).nesting = s.nesting := rfl

@[simp] theorem onTape_atLineStart : (s.onTape text).atLineStart = s.atLineStart := rfl

@[simp] theorem onTape_lineHasContent : (s.onTape text).lineHasContent = s.lineHasContent := rfl

@[simp] theorem onTape_pending : (s.onTape text).pending = s.pending := rfl

@[simp] theorem onTape_current : (s.onTape text).current = s.current := rfl

end

/-- The scanner stands in the text. -/
structure Fits (text : List Char) (s : Scanner) : Prop where
  le : s.offset ≤ text.length
  rest : s.rest = text.drop s.offset

theorem Standing.fits (h : s.Standing text) : s.Fits text := ⟨h.le, h.rest⟩

theorem Fits.skip (h : s.Fits text) {count : Nat} (le : count ≤ s.rest.length) :
    (s.skip count).Fits text := by
  have left : s.rest.length = text.length - s.offset := by rw [h.rest, List.length_drop]
  have offset_le := h.le
  refine ⟨?_, ?_⟩
  · change s.offset + count ≤ text.length
    omega
  · change s.rest.drop count = text.drop (s.offset + count)
    rw [h.rest, List.drop_drop]

theorem Fits.ahead (h : s.Fits text) : (s.onTape text).ahead = s.rest := h.rest.symm

/-- The next characters can be taken. -/
theorem Fits.front? (h : s.Fits text) {count : Nat} (le : count ≤ s.rest.length) :
    (s.onTape text).front? count = some (s.rest.take count) := by
  rw [h.rest] at le ⊢
  exact slice?_eq le h.le

/-- There is a next character, or the text has ended. -/
theorem Fits.at_index (h : s.Fits text) : (s.rest = [] ∧ text[s.offset]? = none) ∨
    ∃ c rest, s.rest = c :: rest ∧ text[s.offset]? = some c ∧ text.drop (s.offset + 1) = rest := by
  rw [← List.head?_drop, ← List.drop_drop, ← h.rest]
  cases s.rest with
  | nil => exact Or.inl ⟨rfl, rfl⟩
  | cons c rest => exact Or.inr ⟨c, rest, rfl, rfl, rfl⟩

theorem Fits.piece? (h : s.Fits text) {count : Nat} (le : count ≤ s.rest.length)
    (kind : TriviaKind) : (s.onTape text).piece? kind count = some (s.piece kind count) := by
  rw [Tape.piece?, h.front? le]
  rfl

theorem Fits.lexeme? (h : s.Fits text) {count : Nat} (le : count ≤ s.rest.length)
    (kind : TokenKind) : (s.onTape text).lexeme? kind count = some (s.lexeme kind count) := by
  rw [Tape.lexeme?, h.front? le]
  rfl

theorem Fits.passTrivia? (h : s.Fits text) {count : Nat} (le : count ≤ s.rest.length)
    (kind : TriviaKind) : (s.onTape text).passTrivia? kind count =
      some ((s.passTrivia kind count).1, (s.passTrivia kind count).2.onTape text) := by
  rw [Tape.passTrivia?, h.piece? le]
  rfl

theorem finish_onTape (text : List Char) (s : Scanner) :
    (s.onTape text).finish = (s.finish.1, s.finish.2.onTape text) := by
  unfold Tape.finish Scanner.finish
  rw [onTape_indents]
  dsimp only
  rw [onTape_lineHasContent]
  split
  · rfl
  · cases s.indents.blocks <;> rfl

/-! ### Steps -/

/-- A comment that declares a type is found. -/
theorem Fits.typeComment? (h : s.Fits text) {rest : List Char} (front : s.rest = '#' :: rest) :
    (s.onTape text).typeComment? = some (if s.options.typeComments && s.lineHasContent then
      Lexeme.typeComment? s.rest else none) := by
  unfold Tape.typeComment?
  simp only [onTape_options, onTape_lineHasContent, onTape_input, onTape_index, ← Bool.not_and]
  cases s.options.typeComments && s.lineHasContent with
  | false => rfl
  | true =>
      have stop : Indexed.lineEnd? text s.offset = some (s.offset + comment s.rest) := by
        rw [Indexed.lineEnd?_eq, ← h.rest]
      have line : slice? text s.offset (s.offset + comment s.rest) =
          some (s.rest.take (comment s.rest)) := h.front? (comment_le s.rest)
      have first : behindFirst? (s.rest.take (comment s.rest)) =
          some ((s.rest.take (comment s.rest)).drop 1) := by
        rw [front]
        rfl
      simp only [stop, line, first, Option.bind_eq_bind, Option.bind_some, Nat.add_sub_cancel_left,
        Bool.not_true, Bool.false_eq_true, if_false, if_true, Lexeme.typeComment?,
        List.length_take_of_le (comment_le s.rest)]

theorem Fits.lex? (h : s.Fits text) : (s.onTape text).lex? = some (Lexeme.read s.rest) := by
  unfold Tape.lex?
  rw [h.ahead]
  cases front : s.rest with
  | nil => rfl
  | cons c rest =>
      cases begins : isNameStart c with
      | false => simp [begins]
      | true =>
          have within : (s.rest.takeWhile isNamePart).length ≤ s.rest.length :=
            (List.takeWhile_prefix _).length_le
          have word : (s.onTape text).word? = some (Lexeme.word s.rest) := by
            unfold Tape.word?
            simp only [h.ahead, h.front? within, Option.bind_eq_bind, Option.bind_some,
              take_takeWhile_length, onTape_input, onTape_index, ← List.drop_drop, ← h.rest]
            rfl
          simpa [begins, Lexeme.read, front] using word

theorem Fits.readToken? (h : s.Fits text) (left : s.rest ≠ []) :
    (s.onTape text).readToken? = some (s.readToken.1, s.readToken.2.onTape text) := by
  have within := (Lexeme.read_sits left).within
  unfold Tape.readToken? Scanner.readToken
  simp only [h.lex?, h.lexeme? within, Option.bind_eq_bind, Option.bind_some]
  cases (Lexeme.read s.rest).fault <;> rfl

theorem Fits.stepInLine? (h : s.Fits text) :
    (s.onTape text).stepInLine? = some (s.stepInLine.1, s.stepInLine.2.onTape text) := by
  unfold Tape.stepInLine?
  simp only [onTape_input, onTape_index, h.ahead]
  rcases h.at_index with ⟨ended, none⟩ | ⟨c, rest, front, here, behind⟩
  · rw [none, stepInLine, ended]
    exact congrArg some (finish_onTape text s)
  · rw [stepInLine_of_cons front, here, ← List.head?_drop, behind]
    dsimp only
    split
    · exact h.passTrivia? (spaces_le _) .whitespace
    split
    · rename_i hash
      subst hash
      have comment := h.passTrivia? (comment_le s.rest) .comment
      rw [h.typeComment? front, Option.bind_eq_bind, Option.bind_some]
      cases found : Lexeme.typeComment? s.rest with
      | none => simpa using comment
      | some count =>
          cases s.options.typeComments && s.lineHasContent with
          | false => exact comment
          | true =>
              dsimp only
              rw [if_pos rfl]
              dsimp only
              rw [h.lexeme? (typeComment?_le found)]
              rfl
    split
    · have within : 1 + lineBreak rest ≤ s.rest.length := by
        have le := lineBreak_le rest
        rw [front, List.length_cons]
        omega
      have inside : s.offset + 1 ≤ text.length := (List.getElem?_eq_some_iff.1 here).1
      have slice := slice?_eq (behind ▸ lineBreak_le rest) inside
      rw [behind] at slice
      rw [slice]
      exact h.passTrivia? within .continuation
    split
    · by_cases passes : (decide (0 < s.nesting) || !s.lineHasContent) = true
      · have passes' : (decide (0 < (s.onTape text).nesting) ||
            !(s.onTape text).lineHasContent) = true := passes
        rw [if_pos passes', if_pos passes]
        exact h.passTrivia? (lineBreak_le _) .newline
      · have ends : ¬(decide (0 < (s.onTape text).nesting) ||
            !(s.onTape text).lineHasContent) = true := passes
        rw [if_neg ends, if_neg passes, h.lexeme? (lineBreak_le _)]
        rfl
    · exact h.readToken? (by simp [front])

/-- A step behind the indentation of a line. -/
theorem Fits.stepAtIndentation? (h : s.Fits text) (width : Nat) :
    (s.onTape text).stepAtIndentation? width =
      some ((s.stepAtIndentation width).1, (s.stepAtIndentation width).2.onTape text) := by
  unfold Tape.stepAtIndentation?
  simp only [onTape_input, onTape_index, onTape_indents, h.ahead]
  rcases h.at_index with ⟨ended, none⟩ | ⟨c, rest, front, here, -⟩
  · rw [none, stepAtIndentation, ended]
    exact congrArg some (finish_onTape text s)
  · rw [stepAtIndentation_of_cons front, here]
    dsimp only
    split
    · exact h.passTrivia? (comment_le _) .comment
    split
    · exact h.passTrivia? (lineBreak_le _) .newline
    · have begun : (s.begun width).Fits text := ⟨h.le, h.rest⟩
      rw [← s.indents.change_fst]
      cases (s.indents.change width).1 with
      | stays => exact begun.stepInLine?
      | opens | closes _ | unmatched => rfl

/-- A step at the start of a line. -/
theorem Fits.stepAtLineStart? (h : s.Fits text) :
    (s.onTape text).stepAtLineStart? =
      some (s.stepAtLineStart.1, s.stepAtLineStart.2.onTape text) := by
  unfold Tape.stepAtLineStart? Scanner.stepAtLineStart
  have indented := (h.skip (spaces_le s.rest)).stepAtIndentation?
    (Indentation.width s.options.tabSize (s.rest.take (spaces s.rest)))
  have blanks : (s.onTape text).blanks? (spaces s.rest) =
      some (if spaces s.rest = 0 then [] else [s.piece .whitespace (spaces s.rest)]) := by
    unfold Tape.blanks?
    split
    · rfl
    · rw [h.piece? (spaces_le _)]
      rfl
  have skipped : (s.onTape text).skip (spaces s.rest) = (s.skip (spaces s.rest)).onTape text := rfl
  simp only [h.ahead, onTape_options, blanks, skipped, indented, Option.bind_eq_bind,
    Option.bind_some]

/-- **A step of one scanner is a step of the other.** -/
theorem Fits.step? (h : s.Fits text) :
    (s.onTape text).step? = some (s.step.1, s.step.2.onTape text) := by
  unfold Tape.step? Scanner.step
  have fresh : ((s.onTape text).atLineStart && decide ((s.onTape text).nesting = 0)) =
      (s.atLineStart && decide (s.nesting = 0)) := rfl
  rw [fresh]
  split
  · exact h.stepAtLineStart?
  · exact h.stepInLine?

/-! ### Tokens -/

theorem Standing.read? (h : s.Standing text) (quiet : s.pending = []) (trivia : List Trivia) :
    Tape.read? trivia (s.onTape text) =
      some ((s.readFrom trivia).1, (s.readFrom trivia).2.onTape text) := by
  induction left : s.rest.length using Nat.strongRecOn generalizing s trivia with
  | ind left ih =>
      have passes := step_passes h quiet
      rw [Tape.read?, h.fits.step?, readFrom_eq, Option.bind_eq_bind, Option.bind_some]
      cases stepped : s.step with
      | mk found t =>
          rw [stepped] at passes
          cases found with
          | token _ _ | fault _ _ => rfl
          | trivia pieces =>
              have fewer := rest_lt_of_step stepped
              have fewer' : (t.onTape text).ahead.length < (s.onTape text).ahead.length := by
                rwa [h.fits.ahead, passes.standing.fits.ahead]
              dsimp only
              rw [dif_pos fewer']
              exact ih _ (left ▸ fewer) passes.standing (passes.quiet pieces rfl) _ rfl

theorem Standing.next? (h : s.Standing text) :
    (s.onTape text).next? = some (s.next.1, s.next.2.onTape text) := by
  unfold Tape.next?
  rw [onTape_pending]
  cases kept : s.pending with
  | nil =>
      rw [next_of_quiet kept]
      exact h.read? kept []
  | cons token pending =>
      rw [next, kept]
      rfl

/-- **A move of one scanner is a move of the other.** -/
theorem Standing.advance? (h : s.Standing text) :
    (s.onTape text).advance? = some (s.advance.1, s.advance.2.onTape text) := by
  unfold Tape.advance? Scanner.advance
  rw [onTape_current, h.next?]
  split
  · rfl
  · cases s.next with
    | mk result t => cases result <;> rfl

/-- The look ahead is the same. -/
theorem Fits.opensBlock? (h : s.Fits text) : (s.onTape text).opensBlock? = some s.opensBlock := by
  rw [Tape.opensBlock?, onTape_input, onTape_index, Indexed.lookAhead?_eq, ← h.rest]
  rfl

end Scanner

/-- **Both scanners open a text alike.** -/
theorem Tape.ofText?_eq (options : Options) (text : List Char) : Tape.ofText? options text =
    some ((Scanner.ofText options text).map fun s => s.onTape text) := by
  have next := (Scanner.initial_standing options text).next?
  unfold Tape.ofText? Scanner.ofText
  change (Tape.next? ((Scanner.initial options text).onTape text)) >>= _ = _
  rw [next]
  cases (Scanner.initial options text).next with
  | mk result t => cases result <;> rfl

end PythonSyntax
