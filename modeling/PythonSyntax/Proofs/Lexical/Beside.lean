/-
**Two scanners side by side.**

A scanner on a text and one on a longer text with the same beginning find the same tokens, up to
their places, as long as the first has not come to the end of its text.  If the two texts are the
same, they find the same tokens up to the end.

Main definitions:

* `PythonSyntax.Line.Closed` — more text begins behind a line break;
* `PythonSyntax.Scanner.Beside` — a scanner that reads the same as another one, and more behind it;
* `PythonSyntax.Scanner.Alongside` — the same, on tokens that are alike.

Main results:

* `PythonSyntax.Scanner.step_abreast` — two scanners side by side take the same step;
* `PythonSyntax.Scanner.Alongside.advance` — they move to the same token, unless the first has come
  to the end of its text;
* `PythonSyntax.Scanner.Alongside.path` — **they pass the same tokens** up to a line end that is
  written in the text.
-/

import PythonSyntax.Proofs.Lexical.Extension
import PythonSyntax.Proofs.Lexical.Finds

set_option autoImplicit false

namespace PythonSyntax

/-! ### Pieces of a line -/

/-- A text to which more can be added without a change to its last line. -/
def Line.Closed (text more : List Char) : Prop := more = [] ∨ ∃ front, text = front ++ ['\n']

theorem Line.Closed.tail {c : Char} {rest more : List Char} (h : Line.Closed (c :: rest) more)
    (differs : c ≠ '\n') : Line.Closed rest more := by
  rcases h with rfl | ⟨front, eq⟩
  · exact Or.inl rfl
  · cases front with
    | nil => exact absurd (List.cons.inj eq).1 differs
    | cons d front => exact Or.inr ⟨front, (List.cons.inj eq).2⟩

theorem LineBound.append {α : Type} {reader : List Char → α} (bound : LineBound reader)
    {text more : List Char} (closed : Line.Closed text more) :
    reader (text ++ more) = reader text := by
  rcases closed with rfl | ⟨front, rfl⟩
  · rw [List.append_nil]
  · simpa using bound front more

namespace Lexeme

open Line

theorem spaces_lineBound : LineBound spaces := by
  intro front rest
  rw [spaces, spaces, takeWhile_append (by decide), takeWhile_append (by decide)]

theorem comment_lineBound : LineBound comment := by
  intro front rest
  rw [comment, comment, takeWhile_append (by decide), takeWhile_append (by decide)]

theorem typeComment?_lineBound : LineBound typeComment? := by
  intro front rest
  have le : comment (front ++ ['\n']) ≤ front.length := by
    rw [comment, takeWhile_append (by decide)]
    exact (List.takeWhile_prefix _).length_le
  unfold typeComment?
  rw [comment_lineBound, take_append le, take_append le]

theorem lineBreak_lineBound : LineBound lineBreak := by
  intro front rest
  match front with
  | [] => rfl
  | [c] => by_cases c = '\r' <;> simp_all [lineBreak]
  | c :: d :: front => by_cases c = '\r' <;> by_cases d = '\n' <;> simp_all [lineBreak]

/-- A well-formed token, and what may be added to the text. -/
theorem read_closed {text more : List Char} (closed : Closed text more)
    (formed : (read text).fault = none) : read (text ++ more) = read text := by
  rcases closed with rfl | ⟨front, rfl⟩
  · rw [List.append_nil]
  · simpa using read_append more formed

end Lexeme

namespace Scanner

/-! ### Steps -/

/-- The second scanner reads the same as the first, and `more` behind it. -/
structure Beside (more : List Char) (s t : Scanner) : Prop where
  rest : t.rest = s.rest ++ more
  options : t.options = s.options
  blocks : t.indents.blocks = s.indents.blocks
  nesting : t.nesting = s.nesting
  atLineStart : t.atLineStart = s.atLineStart
  lineHasContent : t.lineHasContent = s.lineHasContent
  pending : t.pending.map Token.plain = s.pending.map Token.plain
  closed : s.rest = [] ∨ Line.Closed s.rest more

/-- Two steps, if the first one meets no fault: both pass trivia, or both find the same token. -/
inductive Abreast (more : List Char) : Found × Scanner → Found × Scanner → Prop
  | trivia {s t : Scanner} {pieces pieces' : List Trivia} (beside : Beside more s t) :
      Abreast more (.trivia pieces, s) (.trivia pieces', t)
  | token {s t : Scanner} {pieces pieces' : List Trivia} {token token' : Token}
      (beside : Beside more s t) (same : token'.plain = token.plain) :
      Abreast more (.token pieces token, s) (.token pieces' token', t)
  | fault {s : Scanner} {cause : LexicalFault} {position : Nat} (result : Found × Scanner) :
      Abreast more (.fault cause position, s) result

variable {more : List Char} {s t : Scanner}

theorem Abreast.after {one two : Found × Scanner} (h : Abreast more one two)
    (pieces pieces' : List Trivia) :
    Abreast more (one.1.after pieces, one.2) (two.1.after pieces', two.2) := by
  cases h with
  | trivia beside => exact .trivia beside
  | token beside same => exact .token beside same
  | fault => exact .fault _

theorem Beside.skip (h : Beside more s t) {count : Nat} (le : count ≤ s.rest.length) :
    Beside more (s.skip count) (t.skip count) := by
  refine ⟨?_, h.options, h.blocks, h.nesting, h.atLineStart, h.lineHasContent, h.pending, ?_⟩
  · change t.rest.drop count = s.rest.drop count ++ more
    rw [h.rest, List.drop_append_of_le_length le]
  · change s.rest.drop count = [] ∨ Line.Closed (s.rest.drop count) more
    rcases h.closed with empty | rfl | ⟨front, eq⟩
    · exact Or.inl (by rw [empty, List.drop_nil])
    · exact Or.inr (Or.inl rfl)
    · by_cases inside : count ≤ front.length
      · exact Or.inr (Or.inr ⟨front.drop count, by rw [eq, Line.drop_append inside]⟩)
      · refine Or.inl (List.drop_eq_nil_of_le ?_)
        simp only [eq, List.length_append, List.length_singleton]
        omega

theorem Beside.lexeme (h : Beside more s t) (kind : TokenKind) {count : Nat}
    (le : count ≤ s.rest.length) : (t.lexeme kind count).plain = (s.lexeme kind count).plain := by
  simp only [Scanner.lexeme, Token.plain, h.rest, List.take_append_of_le_length le]

theorem Beside.passTrivia (h : Beside more s t) (kind : TriviaKind) {count : Nat}
    (le : count ≤ s.rest.length) :
    Abreast more (s.passTrivia kind count) (t.passTrivia kind count) :=
  .trivia (h.skip le)

/-- At the end of both texts. -/
theorem Beside.finish (h : Beside [] s t) : Abreast [] s.finish t.finish := by
  have closing : ∀ n, (List.replicate n (t.mark .dedent)).map Token.plain =
      (List.replicate n (s.mark .dedent)).map Token.plain := by
    intro n
    simp [mark, Token.mark, Token.plain]
  unfold Scanner.finish
  rw [h.lineHasContent, h.blocks]
  cases s.lineHasContent with
  | true =>
      refine .token ⟨h.rest, h.options, rfl, h.nesting, rfl, rfl, ?_, .inr (.inl rfl)⟩ rfl
      simp only [List.map_append, closing, h.pending]
      rfl
  | false =>
      cases s.indents.blocks.length with
      | zero => exact .token h rfl
      | succ n =>
          refine .token ⟨h.rest, h.options, rfl, h.nesting, h.atLineStart, rfl, ?_,
            .inr (.inl rfl)⟩ rfl
          simp only [List.map_append, closing, h.pending]
          rfl

theorem Beside.readToken (h : Beside more s t) (left : s.rest ≠ []) :
    Abreast more s.readToken t.readToken := by
  have closed := h.closed.resolve_left left
  have within := (Lexeme.read_sits left).within
  unfold Scanner.readToken
  cases formed : (Lexeme.read s.rest).fault with
  | some cause =>
      simp only [formed]
      exact .fault _
  | none =>
      have same := Lexeme.read_closed closed formed
      rw [← h.rest] at same
      have skipped := h.skip within
      simp only [same, formed]
      refine .token ⟨skipped.rest, h.options, h.blocks, ?_, h.atLineStart, rfl, h.pending,
        skipped.closed⟩ (h.lexeme _ within)
      exact congrArg (nestingAfter · _) h.nesting

/-- **Within a line** two scanners side by side take the same step. -/
theorem Beside.stepInLine (h : Beside more s t) (left : s.rest ≠ [] ∨ more = []) :
    Abreast more s.stepInLine t.stepInLine := by
  cases front : s.rest with
  | nil =>
      obtain rfl := left.resolve_left (fun some => some front)
      have empty : t.rest = [] := by rw [h.rest, front, List.nil_append]
      unfold Scanner.stepInLine
      rw [front, empty]
      exact h.finish
  | cons c rest =>
      have some : s.rest ≠ [] := by simp [front]
      have closed := h.closed.resolve_left some
      have front' : t.rest = c :: (rest ++ more) := by rw [h.rest, front, List.cons_append]
      have spaces := Lexeme.spaces_lineBound.append closed
      have comment := Lexeme.comment_lineBound.append closed
      have typeComment := Lexeme.typeComment?_lineBound.append closed
      have lineBreak := Lexeme.lineBreak_lineBound.append closed
      rw [← h.rest] at spaces comment typeComment lineBreak
      rw [stepInLine_of_cons front, stepInLine_of_cons front', spaces, comment, typeComment,
        lineBreak, h.options, h.lineHasContent, h.nesting]
      by_cases isSpace : Lexeme.isSpace c = true
      · rw [if_pos isSpace, if_pos isSpace]
        exact h.passTrivia _ (spaces_le _)
      rw [if_neg isSpace, if_neg isSpace]
      by_cases isComment : c = '#'
      · rw [if_pos isComment, if_pos isComment]
        cases found : Lexeme.typeComment? s.rest with
        | none => exact h.passTrivia _ (comment_le _)
        | some count =>
            dsimp only
            split
            · exact .token (h.skip (typeComment?_le found)) (h.lexeme _ (typeComment?_le found))
            · exact h.passTrivia _ (comment_le _)
      rw [if_neg isComment, if_neg isComment]
      have continues : (c = '\\' && (rest ++ more).head?.any Lexeme.isLineEnd) =
          (c = '\\' && rest.head?.any Lexeme.isLineEnd) := by
        by_cases backslash : c = '\\'
        · have bound : LineBound fun text : List Char => text.head?.any Lexeme.isLineEnd :=
            fun front rest => congrArg _ (Line.head?_append front rest)
          have same := bound.append ((front ▸ closed).tail (by rw [backslash]; decide))
          rw [same]
        · simp [backslash]
      rw [continues]
      by_cases broken : (c = '\\' && rest.head?.any Lexeme.isLineEnd) = true
      · rw [if_pos broken, if_pos broken]
        obtain ⟨backslash, -⟩ := Bool.and_eq_true_iff.1 broken
        have closed' := (front ▸ closed).tail (by rw [of_decide_eq_true backslash]; decide)
        rw [Lexeme.lineBreak_lineBound.append closed']
        refine h.passTrivia _ ?_
        have := lineBreak_le rest
        rw [front, List.length_cons]
        omega
      rw [if_neg broken, if_neg broken]
      by_cases ends : Lexeme.isLineEnd c = true
      · rw [if_pos ends, if_pos ends]
        split
        · exact h.passTrivia _ (lineBreak_le _)
        · have skipped := h.skip (lineBreak_le _)
          exact .token ⟨skipped.rest, h.options, h.blocks, h.nesting, rfl, rfl, h.pending,
            skipped.closed⟩ (h.lexeme _ (lineBreak_le _))
      · rw [if_neg ends, if_neg ends]
        exact h.readToken some

/-- **Behind the indentation of a line** two scanners side by side take the same step. -/
theorem Beside.stepAtIndentation (h : Beside more s t) (left : s.rest ≠ [] ∨ more = [])
    (width : Nat) : Abreast more (s.stepAtIndentation width) (t.stepAtIndentation width) := by
  cases front : s.rest with
  | nil =>
      obtain rfl := left.resolve_left (fun some => some front)
      have empty : t.rest = [] := by rw [h.rest, front, List.nil_append]
      unfold Scanner.stepAtIndentation
      rw [front, empty]
      exact h.finish
  | cons c rest =>
      have closed := h.closed.resolve_left (by simp [front])
      have front' : t.rest = c :: (rest ++ more) := by rw [h.rest, front, List.cons_append]
      have comment := Lexeme.comment_lineBound.append closed
      have lineBreak := Lexeme.lineBreak_lineBound.append closed
      rw [← h.rest] at comment lineBreak
      have begun : Beside more (s.begun width) (t.begun width) :=
        ⟨h.rest, h.options, by rw [blocks_begun, blocks_begun, h.blocks], h.nesting, rfl,
          h.lineHasContent, h.pending, h.closed⟩
      rw [stepAtIndentation_of_cons front, stepAtIndentation_of_cons front', comment, lineBreak,
        h.blocks]
      by_cases isComment : c = '#'
      · rw [if_pos isComment, if_pos isComment]
        exact h.passTrivia _ (comment_le _)
      rw [if_neg isComment, if_neg isComment]
      by_cases ends : Lexeme.isLineEnd c = true
      · rw [if_pos ends, if_pos ends]
        exact h.passTrivia _ (lineBreak_le _)
      rw [if_neg ends, if_neg ends]
      cases (Indentation.change s.indents.blocks width).1 with
      | stays => exact begun.stepInLine left
      | opens => exact .token begun rfl
      | closes count =>
          refine .token ⟨h.rest, h.options, begun.blocks, h.nesting, rfl, h.lineHasContent, ?_,
            h.closed⟩ rfl
          simp [h.pending, mark, Token.mark, Token.plain]
      | unmatched => exact .fault _

/-- **Two scanners side by side take the same step**, unless the first has come to the end of its
text. -/
theorem step_abreast (h : Beside more s t) (left : s.rest ≠ [] ∨ more = []) :
    Abreast more s.step t.step := by
  unfold step
  rw [h.atLineStart, h.nesting]
  split
  · have spaces : Lexeme.spaces t.rest = Lexeme.spaces s.rest := by
      rw [h.rest]
      rcases left with some | rfl
      · exact Lexeme.spaces_lineBound.append (h.closed.resolve_left some)
      · rw [List.append_nil]
    have le := spaces_le s.rest
    have left' : (s.skip (Lexeme.spaces s.rest)).rest ≠ [] ∨ more = [] := by
      rcases left with some | rfl
      · -- The line break at the end of the text is no blank.
        rcases h.closed.resolve_left some with rfl | ⟨front, eq⟩
        · exact Or.inr rfl
        · refine Or.inl fun none => ?_
          have long : s.rest.length ≤ Lexeme.spaces s.rest := List.drop_eq_nil_iff.1 none
          have short : Lexeme.spaces s.rest ≤ front.length := by
            rw [eq, Lexeme.spaces, Line.takeWhile_append (by decide)]
            exact (List.takeWhile_prefix _).length_le
          rw [eq, List.length_append, List.length_singleton, ← eq] at long
          omega
      · exact Or.inr rfl
    have width : Indentation.width t.options.tabSize (t.rest.take (Lexeme.spaces t.rest)) =
        Indentation.width s.options.tabSize (s.rest.take (Lexeme.spaces s.rest)) := by
      rw [h.options, spaces, h.rest, List.take_append_of_le_length le]
    unfold stepAtLineStart
    dsimp only
    rw [width, spaces]
    exact ((h.skip le).stepAtIndentation left' _).after _ _
  · exact h.stepInLine left

/-! ### Tokens -/

/-- Behind the end of the text no line end is found. -/
theorem Moves.rest_nil {token : Token} (h : Moves s (.token [] token) t) (empty : s.rest = []) :
    t.rest = [] ∧ ¬token.BreaksLine := by
  refine ⟨List.suffix_nil.1 (empty ▸ h.suffix), fun breaks => ?_⟩
  rcases (h.behind _ _ rfl).newline breaks.1 with ⟨-, c, -, last⟩ | ⟨-, value⟩
  · rw [empty] at last
    exact absurd (List.suffix_nil.1 last) (by simp)
  · exact breaks.2 value

/-- **Two scanners side by side find the same token**, unless the first has come to the end of its
text. -/
theorem Finds.beside {token : Token} {s' : Scanner} (found : Finds s token s')
    (settled : s.Settled) (quiet : s.pending = []) (h : Beside more s t) :
    (∃ t', Finds t token t' ∧ Beside more s' t') ∨
      more ≠ [] ∧ s'.rest = [] ∧ ¬token.BreaksLine := by
  induction found generalizing t with
  | @token s s' pieces token step =>
      by_cases left : s.rest ≠ [] ∨ more = []
      · have same := step_abreast h left
        cases step' : t.step with
        | mk found' t' =>
            rw [step, step'] at same
            cases same with
            | token beside same => exact Or.inl ⟨t', same ▸ .token step', beside⟩
      · obtain ⟨none, some⟩ := not_or.1 left
        exact Or.inr ⟨some,
          ((Finds.token step).moves settled quiet).rest_nil (Decidable.not_not.1 none)⟩
  | @trivia s u s' pieces token step later ih =>
      by_cases left : s.rest ≠ [] ∨ more = []
      · have same := step_abreast h left
        have keeps := step_keeps settled quiet
        cases step' : t.step with
        | mk found' u' =>
            rw [step, step'] at same
            rw [step] at keeps
            cases same with
            | trivia beside =>
                rcases ih keeps.settled (keeps.trivia _ rfl).2 beside with ⟨t', found, same⟩ | spent
                · exact Or.inl ⟨t', .trivia step' found, same⟩
                · exact Or.inr spent
      · obtain ⟨none, some⟩ := not_or.1 left
        exact Or.inr ⟨some,
          ((Finds.trivia step later).moves settled quiet).rest_nil (Decidable.not_not.1 none)⟩

/-- The second scanner stands on the same token as the first, reads the same, and `more` behind
it. -/
structure Alongside (more : List Char) (s t : Scanner) : Prop where
  beside : Beside more s t
  current : t.current.plain = s.current.plain

theorem Beside.alongside {token token' : Token} (h : Beside more s t)
    (same : token'.plain = token.plain) :
    Alongside more { s with current := token } { t with current := token' } :=
  ⟨⟨h.rest, h.options, h.blocks, h.nesting, h.atLineStart, h.lineHasContent, h.pending, h.closed⟩,
    same⟩

/-- **Two scanners side by side move to the same token**, unless the first has come to the end of
its text. -/
theorem Alongside.advance {s' : Scanner} (h : Alongside more s t) (ready : s.Ready)
    (moved : s.advance = (none, s')) :
    (∃ t', t.advance = (none, t') ∧ Alongside more s' t') ∨
      more ≠ [] ∧ s'.rest = [] ∧ ¬s'.current.BreaksLine := by
  have kind : t.current.kind = s.current.kind := (Token.plain_eq_iff.1 h.current).1
  by_cases ended : s.current.kind = .eof
  · cases (advance_of_eof ended).symm.trans moved
    exact Or.inl ⟨t, advance_of_eof (kind.trans ended), h⟩
  unfold Scanner.advance at moved ⊢
  rw [if_neg ended] at moved
  rw [kind, if_neg ended]
  cases kept : s.pending with
  | cons first pending =>
      have pending' := h.beside.pending
      rw [kept, List.map_cons] at pending'
      obtain ⟨first', rest', kept', same, others⟩ := List.map_eq_cons_iff.1 pending'
      rw [next, kept] at moved
      cases moved
      refine Or.inl ⟨_, by rw [next, kept'], Beside.alongside (s := { s with pending := pending })
        (t := { t with pending := rest' }) ?_ same⟩
      exact ⟨h.beside.rest, h.beside.options, h.beside.blocks, h.beside.nesting,
        h.beside.atLineStart, h.beside.lineHasContent, others, h.beside.closed⟩
  | nil =>
      have kept' : t.pending = [] := by
        have pending' := h.beside.pending
        rw [kept] at pending'
        exact List.map_eq_nil_iff.1 pending'
      rw [next, kept] at moved
      split at moved
      · rename_i token u found
        cases moved
        rcases (finds_of_read found).beside ready.rested.settled kept h.beside with
          ⟨t', found', beside⟩ | ⟨some, empty, quiet⟩
        · obtain ⟨token', read, same⟩ := read_of_finds [] found' (Nat.le_refl _)
          refine Or.inl ⟨_, by rw [next, kept', read], beside.alongside same⟩
        · exact Or.inr ⟨some, empty, quiet⟩
      · cases moved

/-- Behind the end of the text no line end is passed. -/
theorem Ready.not_breaksLine {tokens : List Token} (h : s.Ready) (path : Path s tokens t)
    (empty : s.rest = []) (here : ¬s.current.BreaksLine) : ¬t.current.BreaksLine := by
  induction path with
  | nil => exact here
  | @cons s next t token tokens _ moved _ ih =>
      by_cases ended : s.current.kind = .eof
      · cases (advance_of_eof ended).symm.trans moved
        exact ih h empty here
      · have steps := advance_steps h ended moved
        refine ih steps.ready (List.suffix_nil.1 (empty ▸ steps.suffix)) fun breaks => ?_
        obtain ⟨-, c, -, last⟩ := steps.breaks breaks
        rw [empty] at last
        exact absurd (List.suffix_nil.1 last) (by simp)

/-- **Two scanners side by side pass the same tokens**, up to the end of both texts or to a line end
that is written in the first. -/
theorem Alongside.path {tokens : List Token} {s' : Scanner} (h : Alongside more s t)
    (ready : s.Ready) (path : Path s tokens s') (goal : more = [] ∨ s'.current.BreaksLine) :
    ∃ tokens' t', Path t tokens' t' ∧ tokens'.map Token.plain = tokens.map Token.plain ∧
      Alongside more s' t' := by
  induction path generalizing t with
  | nil => exact ⟨[], t, .nil _, rfl, h⟩
  | @cons s next s' token tokens here moved rest ih =>
      have ready' : next.Ready := ready.of_advance moved
      rcases h.advance ready moved with ⟨t', moved', along⟩ | ⟨some, empty, quiet⟩
      · obtain ⟨tokens', t'', path', same, along'⟩ := ih along ready' goal
        refine ⟨t.current :: tokens', t'', .cons rfl moved' path', ?_, along'⟩
        have here : s.current = token := here
        rw [List.map_cons, List.map_cons, same, h.current, here]
      · exact absurd (goal.resolve_left some) (ready'.not_breaksLine rest empty quiet)

end Scanner

end PythonSyntax
