/-
**What a step does to lines and blocks.**

All that a step can come to, in one list: it passes trivia, reads a token of a line, ends the line,
opens a block or closes some, makes up what is missing at the end of the text, or meets a fault.
What is said of the layout of the tokens follows from this list.

Main definitions:

* `PythonSyntax.TokenKind.isLayout` — the kinds that say where lines and blocks begin and end;
* `PythonSyntax.Scanner.closing` — the tokens that are made up at the end of the text;
* `PythonSyntax.Scanner.Acts` — what a step does;
* `PythonSyntax.Scanner.Idles` — steps that pass only trivia.

Main results:

* `PythonSyntax.Scanner.step_acts` — **a step does nothing else**;
* `PythonSyntax.Scanner.exists_step_of_read` — a token is found by the last of some steps, the
  others pass trivia;
* `PythonSyntax.Scanner.exists_step_of_read_error` — so is a fault.
-/

import PythonSyntax.Proofs.Lexical.Finds
import PythonSyntax.Proofs.Lexical.Unbounded

set_option autoImplicit false

namespace PythonSyntax

/-- The kinds that say where lines and blocks begin and end, and the end of the text. -/
def TokenKind.isLayout : TokenKind → Bool
  | .eof | .indent | .dedent | .newline => true
  | _ => false

theorem Lexeme.Sits.isLayout_eq_false {lexeme : Lexeme} {text : List Char}
    (sits : lexeme.Sits text) : lexeme.kind.isLayout = false := by
  have layout := sits.notLayout
  cases kind : lexeme.kind <;> simp_all [TokenKind.isLayout]

namespace Scanner

variable {s t u : Scanner}

/-- The tokens that are made up at the end of the text: the end of a line that holds a token, the
ends of the open blocks, and the end of the text. -/
def closing (content : Bool) (blocks offset : Nat) : List Token :=
  (if content then [Token.literal offset offset .newline ""] else []) ++
    (List.replicate blocks (Token.mark offset offset .dedent) ++ [Token.eof offset])

/-- What a step does.  The tokens that are not made up begin before the end of the text. -/
inductive Acts (s : Scanner) : Found → Scanner → Prop
  | passes {pieces : List Trivia} {t : Scanner} (quiet : t.pending = [])
      (blocks : t.indents.blocks = s.indents.blocks) (nesting : t.nesting = s.nesting)
      (content : t.lineHasContent = s.lineHasContent)
      (start : t.atLineStart = true → s.atLineStart = true) : Acts s (.trivia pieces) t
  | reads {pieces : List Trivia} {token : Token} {t : Scanner}
      (plain : token.kind.isLayout = false) (quiet : t.pending = [])
      (blocks : t.indents.blocks = s.indents.blocks)
      (begun : t.atLineStart = false) (shorter : t.rest.length < s.rest.length)
      (inside : token.start < s.offset + s.rest.length) : Acts s (.token pieces token) t
  | breaks {pieces : List Trivia} {token : Token} {t : Scanner} (newline : token.BreaksLine)
      (content : s.lineHasContent = true) (outside : s.nesting = 0) (quiet : t.pending = [])
      (blocks : t.indents.blocks = s.indents.blocks) (ended : t.lineHasContent = false)
      (inside : token.start < s.offset + s.rest.length) : Acts s (.token pieces token) t
  | opens {pieces : List Trivia} {token : Token} {t : Scanner} {width : Nat}
      (indent : token.kind = .indent) (start : s.atLineStart = true) (outside : s.nesting = 0)
      (left : s.rest ≠ []) (deeper : s.indents.blocks.headD 0 < width) (quiet : t.pending = [])
      (blocks : t.indents.blocks = width :: s.indents.blocks) (begun : t.atLineStart = false)
      (content : t.lineHasContent = s.lineHasContent)
      (inside : token.start < s.offset + s.rest.length) : Acts s (.token pieces token) t
  | closes {pieces : List Trivia} {token : Token} {t : Scanner} {count : Nat}
      (dedent : token.kind = .dedent) (outside : s.nesting = 0) (left : t.rest ≠ [])
      (blocks : t.indents.blocks <:+ s.indents.blocks)
      (length : t.indents.blocks.length + (count + 1) = s.indents.blocks.length)
      (kept : t.pending = List.replicate count (t.mark .dedent)) (begun : t.atLineStart = false)
      (content : t.lineHasContent = s.lineHasContent)
      (inside : token.start < s.offset + s.rest.length) : Acts s (.token pieces token) t
  | ends {pieces : List Trivia} {token : Token} {t : Scanner} (empty : t.rest = [])
      (all : token.withTrivia [] :: t.pending =
        closing s.lineHasContent s.indents.blocks.length t.offset)
      (blocks : t.indents.blocks = []) (content : t.lineHasContent = false) :
      Acts s (.token pieces token) t
  | fails {cause : LexicalFault} {position : Nat} {t : Scanner}
      (blocks : t.indents.blocks <:+ s.indents.blocks) :
      Acts s (.fault cause position) t

theorem Acts.after {found : Found} (h : Acts s found t) (pieces : List Trivia) :
    Acts s (found.after pieces) t := by
  cases h with
  | passes quiet blocks nesting content start => exact .passes quiet blocks nesting content start
  | reads plain quiet blocks begun shorter inside =>
      exact .reads plain quiet blocks begun shorter inside
  | breaks newline content outside quiet blocks ended inside =>
      exact .breaks newline content outside quiet blocks ended inside
  | opens indent start outside left deeper quiet blocks begun content inside =>
      exact .opens indent start outside left deeper quiet blocks begun content inside
  | closes dedent outside left blocks length kept begun content inside =>
      exact .closes dedent outside left blocks length kept begun content inside
  | ends empty all blocks content => exact .ends empty all blocks content
  | fails blocks => exact .fails blocks

/-- The trivia before a token makes no difference. -/
theorem Acts.withTrivia {pieces : List Trivia} {token : Token} (h : Acts s (.token pieces token) t)
    (trivia : List Trivia) : Acts s (.token pieces (token.withTrivia trivia)) t := by
  cases h with
  | reads plain quiet blocks begun shorter inside =>
      exact .reads plain quiet blocks begun shorter inside
  | breaks newline content outside quiet blocks ended inside =>
      exact .breaks newline content outside quiet blocks ended inside
  | opens indent start outside left deeper quiet blocks begun content inside =>
      exact .opens indent start outside left deeper quiet blocks begun content inside
  | closes dedent outside left blocks length kept begun content inside =>
      exact .closes dedent outside left blocks length kept begun content inside
  | ends empty all blocks content => exact .ends empty all blocks content

/-- The same is done from a state before, if only blanks have been passed and a line begun. -/
theorem Acts.of_earlier {found : Found} (h : Acts u found t) (le : u.rest.length ≤ s.rest.length)
    (room : u.offset + u.rest.length = s.offset + s.rest.length)
    (blocks : u.indents.blocks = s.indents.blocks)
    (nesting : u.nesting = s.nesting) (content : u.lineHasContent = s.lineHasContent)
    (start : u.atLineStart = true → s.atLineStart = true) : Acts s found t := by
  have left : u.rest ≠ [] → s.rest ≠ [] := fun some =>
    List.length_pos_iff.1 (Nat.lt_of_lt_of_le (List.length_pos_iff.2 some) le)
  cases h with
  | passes quiet blocks' nesting' content' start' =>
      exact .passes quiet (blocks'.trans blocks) (nesting'.trans nesting) (content'.trans content)
        fun begins => start (start' begins)
  | reads plain quiet blocks' begun shorter inside =>
      exact .reads plain quiet (blocks'.trans blocks) begun (Nat.lt_of_lt_of_le shorter le)
        (room ▸ inside)
  | breaks newline content' outside quiet blocks' ended inside =>
      exact .breaks newline (content ▸ content') (nesting ▸ outside) quiet (blocks'.trans blocks)
        ended (room ▸ inside)
  | opens indent start' outside left' deeper quiet blocks' begun content' inside =>
      exact .opens indent (start start') (nesting ▸ outside) (left left') (blocks ▸ deeper) quiet
        (blocks ▸ blocks') begun (content'.trans content) (room ▸ inside)
  | closes dedent outside left' blocks' length kept begun content' inside =>
      exact .closes dedent (nesting ▸ outside) left' (blocks ▸ blocks') (blocks ▸ length) kept begun
        (content'.trans content) (room ▸ inside)
  | ends empty all blocks' content' =>
      exact .ends empty (by rw [all, content, blocks]) blocks' content'
  | fails blocks' => exact .fails (blocks ▸ blocks')

/-! ### Steps -/

theorem passTrivia_acts (quiet : s.pending = []) (kind : TriviaKind) (count : Nat) :
    Acts s (s.passTrivia kind count).1 (s.passTrivia kind count).2 :=
  .passes quiet rfl rfl rfl id

theorem finish_acts (quiet : s.pending = []) (empty : s.rest = []) :
    Acts s s.finish.1 s.finish.2 := by
  unfold finish
  rw [quiet]
  cases content : s.lineHasContent with
  | true => exact .ends empty (by rw [content]; rfl) rfl rfl
  | false =>
      cases blocks : s.indents.blocks.length with
      | zero =>
          refine .ends empty ?_ (List.length_eq_zero_iff.1 blocks) content
          rw [content, blocks]
          exact congrArg (Token.eof s.offset :: ·) quiet
      | succ count => exact .ends empty (by rw [content, blocks]; rfl) rfl rfl

theorem readToken_acts (quiet : s.pending = []) (left : s.rest ≠ [])
    (begun : s.atLineStart = false) : Acts s s.readToken.1 s.readToken.2 := by
  have sits := Lexeme.read_sits left
  unfold readToken
  dsimp only
  split
  · exact .fails (List.suffix_refl _)
  · have some_left := List.length_pos_iff.2 left
    refine .reads ?_ quiet rfl begun ?_ ?_
    · exact sits.isLayout_eq_false
    · have pos := sits.pos
      simp only [skip, List.length_drop]
      omega
    · change s.offset < s.offset + s.rest.length
      omega

/-- A line break that is a token has characters. -/
theorem lexeme_breaksLine {c : Char} {rest : List Char} (front : s.rest = c :: rest)
    (ends : Lexeme.isLineEnd c = true) :
    (s.lexeme .newline (Lexeme.lineBreak s.rest)).BreaksLine := by
  have pos := lineBreak_pos front ends
  refine ⟨rfl, fun none => ?_⟩
  have written : String.ofList (s.rest.take (Lexeme.lineBreak s.rest)) = "" := Option.some.inj none
  have length := congrArg (List.length ∘ String.toList) written
  have le := lineBreak_le s.rest
  simp only [Function.comp_apply, String.toList_ofList, List.length_take, String.toList_empty,
    List.length_nil] at length
  omega

/-- A step within a line; it is not taken at the start of a line but for the end of the text. -/
theorem stepInLine_acts (quiet : s.pending = []) (inLine : s.rest ≠ [] → s.atLineStart = false) :
    Acts s s.stepInLine.1 s.stepInLine.2 := by
  cases front : s.rest with
  | nil =>
      have finish := finish_acts quiet front
      unfold stepInLine
      rw [front]
      exact finish
  | cons c rest =>
      have left : s.rest ≠ [] := by simp [front]
      have inside : s.offset < s.offset + s.rest.length := by
        have := List.length_pos_iff.2 left
        omega
      rw [stepInLine_of_cons front]
      split
      · exact passTrivia_acts quiet _ _
      split
      · rename_i mark
        subst mark
        split
        · rename_i count found
          split
          · have pos := typeComment?_pos (front ▸ found)
            have le := typeComment?_le found
            refine .reads rfl quiet rfl (inLine left) ?_ inside
            simp only [skip, List.length_drop]
            omega
          · exact passTrivia_acts quiet _ _
        · exact passTrivia_acts quiet _ _
      split
      · exact passTrivia_acts quiet _ _
      split
      · rename_i ends
        split
        · exact passTrivia_acts quiet _ _
        · rename_i goes
          simp only [Bool.or_eq_true, decide_eq_true_eq, Bool.not_eq_true', not_or,
            Bool.not_eq_false] at goes
          exact .breaks (lexeme_breaksLine front ends) goes.2 (Nat.eq_zero_of_not_pos goes.1) quiet
            rfl rfl inside
      · exact readToken_acts quiet left (inLine left)

theorem change_suffix {blocks : List Nat} {width : Nat}
    (narrower : (Indentation.change blocks width).1 ≠ .opens) :
    (Indentation.change blocks width).2 <:+ blocks := by
  unfold Indentation.change at narrower ⊢
  dsimp only at narrower ⊢
  split at narrower
  · exact absurd rfl narrower
  · rename_i notWider
    rw [if_neg notWider]
    split
    · split <;> exact List.dropWhile_suffix _
    · exact List.suffix_refl _

theorem change_opens_eq {blocks : List Nat} {width : Nat}
    (h : (Indentation.change blocks width).1 = .opens) :
    blocks.headD 0 < width ∧ (Indentation.change blocks width).2 = width :: blocks := by
  unfold Indentation.change at h ⊢
  dsimp only at h ⊢
  split at h
  · rename_i wider
    rw [if_pos wider]
    exact ⟨wider, rfl⟩
  · split at h
    · split at h <;> cases h
    · cases h

/-- A step behind the indentation of a line that has just begun. -/
theorem stepAtIndentation_acts (quiet : s.pending = []) (start : s.atLineStart = true)
    (outside : s.nesting = 0) (width : Nat) :
    Acts s (s.stepAtIndentation width).1 (s.stepAtIndentation width).2 := by
  cases front : s.rest with
  | nil =>
      have finish := finish_acts quiet front
      unfold stepAtIndentation
      rw [front]
      exact finish
  | cons c rest =>
      have left : s.rest ≠ [] := by simp [front]
      have inside : s.offset < s.offset + s.rest.length := by
        have := List.length_pos_iff.2 left
        omega
      rw [stepAtIndentation_of_cons front]
      split
      · exact passTrivia_acts quiet _ _
      split
      · exact passTrivia_acts quiet _ _
      have after := blocks_begun s width
      cases change : (Indentation.change s.indents.blocks width).1 with
      | stays =>
          have acts := stepInLine_acts (s := s.begun width) quiet fun _ => rfl
          exact acts.of_earlier (Nat.le_refl _) rfl (after.trans (change_stays change)) rfl rfl
            fun begins => nomatch begins
      | opens =>
          obtain ⟨deeper, blocks⟩ := change_opens_eq change
          exact .opens rfl start outside left deeper quiet (after.trans blocks) rfl rfl inside
      | closes count =>
          obtain ⟨pos, length⟩ := change_closes change
          have shorter : (s.begun width).indents.blocks.length + (count - 1 + 1) =
              s.indents.blocks.length := by
            rw [after]
            omega
          have suffix : (s.begun width).indents.blocks <:+ s.indents.blocks :=
            after ▸ change_suffix (by simp [change])
          refine .closes rfl outside left suffix shorter ?_ rfl rfl inside
          change s.pending ++ _ = _
          rw [quiet, List.nil_append]
          rfl
      | unmatched => exact .fails (after ▸ change_suffix (by simp [change]))

/-- **A step does nothing else.** -/
theorem step_acts (h : s.Settled) (quiet : s.pending = []) : Acts s s.step.1 s.step.2 := by
  unfold step
  split
  · rename_i fresh
    simp only [Bool.and_eq_true, decide_eq_true_eq] at fresh
    have le := spaces_le s.rest
    have acts := stepAtIndentation_acts (s := s.skip (Lexeme.spaces s.rest)) quiet fresh.1 fresh.2
      (Indentation.width s.options.tabSize (s.rest.take (Lexeme.spaces s.rest)))
    have earlier : Acts s _ _ := acts.of_earlier (by simp [skip])
      (by simp only [skip, List.length_drop]; omega) rfl rfl rfl id
    exact earlier.after _
  · rename_i notFresh
    refine stepInLine_acts quiet fun left => ?_
    cases start : s.atLineStart with
    | false => rfl
    | true =>
        rcases h.outside start with outside | empty
        · simp [start, outside] at notFresh
        · exact absurd empty left

/-! ### Reading a token -/

/-- Steps that pass only trivia. -/
inductive Idles : Scanner → Scanner → Prop
  | refl (s : Scanner) : Idles s s
  | step {s t u : Scanner} {pieces : List Trivia} (stepped : s.step = (.trivia pieces, t))
      (later : Idles t u) : Idles s u

/-- What a step keeps that passes trivia, all such steps keep. -/
theorem Idles.induction {P : Scanner → Prop} (idles : Idles s u) (here : P s)
    (keeps : ∀ {s t : Scanner} {pieces : List Trivia}, s.step = (.trivia pieces, t) → P s → P t) :
    P u := by
  induction idles with
  | refl _ => exact here
  | step stepped _ ih => exact ih (keeps stepped here)

theorem Idles.trans (h : Idles s t) (later : Idles t u) : Idles s u := by
  induction h with
  | refl _ => exact later
  | step stepped _ ih => exact .step stepped (ih later)

/-- Passing trivia leaves lines and blocks as they are. -/
structure Alike (s u : Scanner) : Prop where
  settled : u.Settled
  quiet : u.pending = []
  options : u.options = s.options
  blocks : u.indents.blocks = s.indents.blocks
  nesting : u.nesting = s.nesting
  content : u.lineHasContent = s.lineHasContent
  start : u.atLineStart = true → s.atLineStart = true
  suffix : u.rest <:+ s.rest

theorem Idles.alike (idles : Idles s u) (settled : s.Settled) (quiet : s.pending = []) :
    Alike s u := by
  refine idles.induction (P := Alike s) ⟨settled, quiet, rfl, rfl, rfl, rfl, id, List.suffix_refl _⟩ ?_
  intro v t pieces stepped alike
  have keeps := step_keeps alike.settled alike.quiet
  have moves := step_moves alike.settled alike.quiet
  have acts := step_acts alike.settled alike.quiet
  rw [stepped] at keeps moves acts
  cases acts with
  | passes quiet blocks nesting content start =>
      exact ⟨keeps.settled, quiet, moves.options.trans alike.options, blocks.trans alike.blocks,
        nesting.trans alike.nesting, content.trans alike.content,
        fun begins => alike.start (start begins), moves.suffix.trans alike.suffix⟩

/-- Passing trivia, the scanner stands in its text as before. -/
theorem Idles.standing {text : List Char} (idles : Idles s u) (h : s.Standing text)
    (quiet : s.pending = []) : u.Standing text ∧ u.pending = [] ∧ s.offset ≤ u.offset := by
  refine idles.induction (P := fun u => u.Standing text ∧ u.pending = [] ∧ s.offset ≤ u.offset)
    ⟨h, quiet, Nat.le_refl _⟩ ?_
  rintro v t pieces stepped ⟨standing, quiet, le⟩
  have passes := step_passes standing quiet
  rw [stepped] at passes
  exact ⟨passes.standing, passes.quiet pieces rfl, Nat.le_trans le (passes.covers _ rfl).le⟩

/-- **A token is found by the last of some steps**, of which the others pass trivia. -/
theorem exists_step_of_read {bound : List Char} {trivia : List Trivia} {token : Token}
    (result : read bound trivia s = (.ok token, t)) :
    ∃ u pieces last front, Idles s u ∧ u.step = (.token pieces last, t) ∧
      token = last.withTrivia front := by
  induction bound generalizing trivia s with
  | nil =>
      unfold read at result
      cases stepped : s.step with
      | mk found u =>
          rw [stepped] at result
          cases found with
          | token pieces last =>
              cases result
              exact ⟨s, pieces, last, _, .refl s, stepped, rfl⟩
          | fault _ _ => cases result
          | trivia _ => cases result
  | cons c bound ih =>
      unfold read at result
      cases stepped : s.step with
      | mk found u =>
          rw [stepped] at result
          cases found with
          | token pieces last =>
              cases result
              exact ⟨s, pieces, last, _, .refl s, stepped, rfl⟩
          | fault _ _ => cases result
          | trivia pieces =>
              obtain ⟨v, pieces', last, front, idles, stepped', same⟩ := ih result
              exact ⟨v, pieces', last, front, .step stepped idles, stepped', same⟩

/-- **So is a fault.** -/
theorem exists_step_of_read_error {bound : List Char} {trivia : List Trivia} {error : SyntaxError}
    (enough : s.rest.length ≤ bound.length) (result : read bound trivia s = (.error error, t)) :
    ∃ u cause position, Idles s u ∧ u.step = (.fault cause position, t) ∧
      error = ⟨.lexical cause, position⟩ := by
  induction bound generalizing trivia s with
  | nil =>
      unfold read at result
      cases stepped : s.step with
      | mk found u =>
          rw [stepped] at result
          cases found with
          | token _ _ => cases result
          | fault cause position =>
              cases result
              exact ⟨s, cause, position, .refl s, stepped, rfl⟩
          | trivia pieces =>
              have fewer := rest_lt_of_step stepped
              rw [List.length_nil] at enough
              omega
  | cons c bound ih =>
      unfold read at result
      cases stepped : s.step with
      | mk found u =>
          rw [stepped] at result
          cases found with
          | token _ _ => cases result
          | fault cause position =>
              cases result
              exact ⟨s, cause, position, .refl s, stepped, rfl⟩
          | trivia pieces =>
              have fewer := rest_lt_of_step stepped
              rw [List.length_cons] at enough
              obtain ⟨v, cause, position, idles, stepped', same⟩ := ih (by omega) result
              exact ⟨v, cause, position, .step stepped idles, stepped', same⟩

end Scanner

end PythonSyntax
