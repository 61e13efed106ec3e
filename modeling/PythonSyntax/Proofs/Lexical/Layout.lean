/-
**Line ends among the tokens.**

The end of a line is a token only behind other tokens of the line.  So none comes first, and none
follows another one or the end of a block.

Main definitions:

* `PythonSyntax.Scanner.Settled` — what the scanner keeps true between lines;
* `PythonSyntax.Scanner.Rested` — the same, with a token on which the scanner stands.

Main results:

* `PythonSyntax.Scanner.step_keeps` — a step finds the end of a line only behind a token of it;
* `PythonSyntax.Scanner.advance_rested` — what moving to the next token keeps;
* `PythonSyntax.Scanner.Rested.not_newline` — what follows the end of a line or a block is not the
  end of a line.
-/

import PythonSyntax.Proofs.Lexical.Coverage
import PythonSyntax.Proofs.Parsing.Path

set_option autoImplicit false

namespace PythonSyntax

/-- The token ends a line, or the last line of a block. -/
def Token.EndsLine (token : Token) : Prop := token.kind = .newline ∨ token.kind = .dedent

namespace Scanner

/-- What the scanner keeps true between lines.  At the start of a line nothing of it has been found
yet, and no bracket is open unless the text is at its end.  The same is so while tokens are kept, of
which none ends a line by itself. -/
structure Settled (s : Scanner) : Prop where
  start : s.atLineStart = true → s.lineHasContent = false
  outside : s.atLineStart = true → s.nesting = 0 ∨ s.rest = []
  kept : s.pending ≠ [] → s.lineHasContent = false
  marks : ∀ token ∈ s.pending, token.kind ≠ .newline

/-- What a step keeps true.  It finds the end of a line only if the line holds a token, and behind
the end of a line or a block a new line has not begun. -/
structure Keeps (content : Bool) (found : Found) (t : Scanner) : Prop where
  settled : t.Settled
  trivia : ∀ pieces, found = .trivia pieces → t.lineHasContent = content ∧ t.pending = []
  newline : ∀ pieces token, found = .token pieces token → token.kind = .newline → content = true
  ended : ∀ pieces token, found = .token pieces token → token.EndsLine → t.lineHasContent = false

variable {s : Scanner}

theorem Keeps.of_trivia {content : Bool} {pieces : List Trivia} {t : Scanner} (settled : t.Settled)
    (same : t.lineHasContent = content) (quiet : t.pending = []) :
    Keeps content (.trivia pieces) t :=
  ⟨settled, fun _ _ => ⟨same, quiet⟩, by simp, by simp⟩

theorem Keeps.of_token {content : Bool} {pieces : List Trivia} {token : Token} {t : Scanner}
    (settled : t.Settled) (newline : token.kind = .newline → content = true)
    (ended : token.EndsLine → t.lineHasContent = false) :
    Keeps content (.token pieces token) t := by
  refine ⟨settled, by simp, ?_, ?_⟩
  · intro _ _ found
    cases found
    exact newline
  · intro _ _ found
    cases found
    exact ended

theorem Keeps.of_fault {content : Bool} {cause : LexicalFault} {position : Nat} {t : Scanner}
    (settled : t.Settled) : Keeps content (.fault cause position) t :=
  ⟨settled, by simp, by simp, by simp⟩

theorem Keeps.after {content : Bool} {found : Found} {t : Scanner} (h : Keeps content found t)
    (pieces : List Trivia) : Keeps content (found.after pieces) t := by
  cases found with
  | trivia more =>
      obtain ⟨same, quiet⟩ := h.trivia more rfl
      exact .of_trivia h.settled same quiet
  | token more last => exact .of_token h.settled (h.newline more last rfl) (h.ended more last rfl)
  | fault _ _ => exact .of_fault h.settled

/-! ### Steps -/

/-- A scanner that keeps no tokens is settled if the start of a line is as it should be. -/
theorem Settled.of_quiet {t : Scanner} (quiet : t.pending = [])
    (start : t.atLineStart = true → t.lineHasContent = false)
    (outside : t.atLineStart = true → t.nesting = 0 ∨ t.rest = []) : t.Settled :=
  ⟨start, outside, fun some => absurd quiet some, by simp [quiet]⟩

theorem Settled.skip (h : s.Settled) (quiet : s.pending = []) (count : Nat) :
    (s.skip count).Settled := by
  refine .of_quiet quiet h.start fun start => ?_
  rcases h.outside start with outside | empty
  · exact Or.inl outside
  · exact Or.inr (by simp [Scanner.skip, empty])

theorem passTrivia_keeps (h : s.Settled) (quiet : s.pending = []) (kind : TriviaKind)
    (count : Nat) :
    Keeps s.lineHasContent (s.passTrivia kind count).1 (s.passTrivia kind count).2 :=
  .of_trivia (h.skip quiet count) rfl quiet

/-- The marks at the end of the text. -/
theorem finish_keeps (h : s.Settled) (quiet : s.pending = []) (empty : s.rest = []) :
    Keeps s.lineHasContent s.finish.1 s.finish.2 := by
  have closing : ∀ token ∈ List.replicate s.indents.blocks.length (s.mark .dedent) ++
      [Token.eof s.offset], token.kind ≠ .newline := by
    intro token mem
    rcases List.mem_append.1 mem with mem | mem
    · rw [List.eq_of_mem_replicate mem]
      simp [mark, Token.mark]
    · rw [List.mem_singleton.1 mem]
      simp [Token.eof, Token.mark]
  unfold finish
  dsimp only
  split
  · rename_i content
    refine .of_token ⟨fun _ => rfl, fun _ => Or.inr empty, fun _ => rfl, ?_⟩ (fun _ => content)
      fun _ => rfl
    simpa [quiet] using closing
  · rename_i noContent
    rw [Bool.not_eq_true] at noContent
    split
    · exact .of_token h (by simp [Token.eof, Token.mark]) fun _ => noContent
    · rename_i first more split
      rw [split] at closing
      refine .of_token ⟨fun _ => noContent, h.outside, fun _ => noContent, ?_⟩ ?_
        fun _ => noContent
      · intro token mem
        rw [quiet, List.nil_append] at mem
        exact closing token (List.mem_cons_of_mem _ mem)
      · intro newline
        exact absurd newline (closing first List.mem_cons_self)

theorem readToken_keeps (quiet : s.pending = []) (left : s.rest ≠ [])
    (inLine : s.atLineStart = false) (content : Bool) :
    Keeps content s.readToken.1 s.readToken.2 := by
  have sits := Lexeme.read_sits left
  unfold readToken
  dsimp only
  split
  · exact .of_fault (.of_quiet quiet (by simp [Scanner.skip, inLine])
      (by simp [Scanner.skip, inLine]))
  · refine .of_token (.of_quiet quiet (by simp [Scanner.skip, inLine])
      (by simp [Scanner.skip, inLine])) ?_ ?_
    · intro newline
      change (Lexeme.read s.rest).kind = .newline at newline
      exact absurd sits.notLayout (by simp [newline])
    · rintro (newline | dedent)
      · change (Lexeme.read s.rest).kind = .newline at newline
        exact absurd sits.notLayout (by simp [newline])
      · change (Lexeme.read s.rest).kind = .dedent at dedent
        exact absurd sits.notLayout (by simp [dedent])

/-- A step within a line; it is not taken at the start of a line but for the end of the text. -/
theorem stepInLine_keeps (h : s.Settled) (quiet : s.pending = [])
    (inLine : s.rest ≠ [] → s.atLineStart = false) :
    Keeps s.lineHasContent s.stepInLine.1 s.stepInLine.2 := by
  unfold stepInLine
  split
  · rename_i empty
    exact finish_keeps h quiet empty
  · rename_i c rest split
    have left : s.rest ≠ [] := by simp [split]
    split
    · exact passTrivia_keeps h quiet _ _
    · split
      · split
        · split
          · refine .of_token (h.skip quiet _) ?_ ?_
            · simp [lexeme]
            · simp [Token.EndsLine, lexeme]
          · exact passTrivia_keeps h quiet _ _
        · exact passTrivia_keeps h quiet _ _
      · split
        · exact passTrivia_keeps h quiet _ _
        · split
          · dsimp only
            split
            · exact passTrivia_keeps h quiet _ _
            · rename_i inside
              simp only [Bool.or_eq_true, decide_eq_true_eq, Bool.not_eq_true', not_or,
                Bool.not_eq_false] at inside
              refine .of_token (.of_quiet quiet (fun _ => rfl) fun _ => Or.inl ?_)
                (fun _ => inside.2) fun _ => rfl
              exact Nat.eq_zero_of_not_pos inside.1
          · exact readToken_keeps quiet left (inLine left) _

/-- A step behind the indentation of a line that has just begun. -/
theorem stepAtIndentation_keeps (h : s.Settled) (quiet : s.pending = [])
    (start : s.atLineStart = true) (width : Nat) :
    Keeps s.lineHasContent (s.stepAtIndentation width).1 (s.stepAtIndentation width).2 := by
  have noContent := h.start start
  unfold stepAtIndentation
  split
  · rename_i empty
    exact finish_keeps h quiet empty
  · split
    · exact passTrivia_keeps h quiet _ _
    · split
      · exact passTrivia_keeps h quiet _ _
      · have begun : Scanner.Settled (s.begun width) :=
          .of_quiet quiet (by simp [begun]) (by simp [begun])
        dsimp only
        split
        · exact stepInLine_keeps begun quiet fun _ => rfl
        · exact .of_token begun (by simp [mark, Token.mark])
            (by simp [Token.EndsLine, mark, Token.mark])
        · refine .of_token ⟨begun.start, begun.outside, fun _ => noContent, ?_⟩
            (by simp [mark, Token.mark]) fun _ => noContent
          intro token mem
          rw [quiet, List.nil_append] at mem
          rw [List.eq_of_mem_replicate mem]
          simp [mark, Token.mark]
        · exact .of_fault begun

/-- **A step finds the end of a line only behind a token of the line.** -/
theorem step_keeps (h : s.Settled) (quiet : s.pending = []) :
    Keeps s.lineHasContent s.step.1 s.step.2 := by
  unfold step
  split
  · rename_i fresh
    simp only [Bool.and_eq_true, decide_eq_true_eq] at fresh
    unfold stepAtLineStart
    exact (stepAtIndentation_keeps (h.skip quiet _) quiet fresh.1 _).after _
  · rename_i notFresh
    refine stepInLine_keeps h quiet fun left => ?_
    cases start : s.atLineStart with
    | false => rfl
    | true =>
        rcases h.outside start with outside | empty
        · simp [start, outside] at notFresh
        · exact absurd empty left

/-! ### Tokens -/

theorem read_keeps {bound : List Char} {trivia : List Trivia} {token : Token} {t : Scanner}
    (h : s.Settled) (quiet : s.pending = []) (result : read bound trivia s = (.ok token, t)) :
    Keeps s.lineHasContent (.token [] token) t := by
  induction bound generalizing trivia s with
  | nil =>
      have step := step_keeps h quiet
      unfold read at result
      cases eq : s.step with
      | mk found u =>
          rw [eq] at result step
          cases found with
          | token pieces last =>
              cases result
              exact .of_token step.settled (step.newline pieces last rfl) (step.ended pieces last rfl)
          | fault _ _ => cases result
          | trivia _ => cases result
  | cons c bound ih =>
      have step := step_keeps h quiet
      unfold read at result
      cases eq : s.step with
      | mk found u =>
          rw [eq] at result step
          cases found with
          | token pieces last =>
              cases result
              exact .of_token step.settled (step.newline pieces last rfl) (step.ended pieces last rfl)
          | fault _ _ => cases result
          | trivia pieces =>
              obtain ⟨same, quiet'⟩ := step.trivia pieces rfl
              rw [← same]
              exact ih step.settled quiet' result

theorem next_keeps {token : Token} {t : Scanner} (h : s.Settled)
    (result : s.next = (.ok token, t)) : Keeps s.lineHasContent (.token [] token) t := by
  unfold next at result
  split at result
  · rename_i first pending eq
    cases result
    have noContent := h.kept (by simp [eq])
    refine .of_token ⟨h.start, h.outside, fun _ => noContent, ?_⟩ ?_ fun _ => noContent
    · intro later mem
      exact h.marks later (by simp [eq, show later ∈ pending from mem])
    · intro newline
      exact absurd newline (h.marks token (by simp [eq]))
  · rename_i quiet
    exact read_keeps h quiet result

/-- The scanner is settled, and behind the end of a line or a block a new line has not begun. -/
structure Rested (s : Scanner) : Prop where
  settled : s.Settled
  ended : s.current.EndsLine → s.lineHasContent = false

/-- What moving to the next token keeps. -/
theorem advance_rested {t : Scanner} (h : s.Rested) (moved : s.advance = (none, t)) :
    t.Rested ∧ (s.current.EndsLine → t.current.kind ≠ .newline) := by
  unfold advance at moved
  split at moved
  · rename_i eof
    cases moved
    refine ⟨h, fun _ newline => ?_⟩
    rw [eof] at newline
    cases newline
  · split at moved
    · rename_i token u step
      cases moved
      have kept := next_keeps h.settled step
      refine ⟨⟨⟨kept.settled.start, kept.settled.outside, kept.settled.kept, kept.settled.marks⟩,
        kept.ended [] token rfl⟩, fun ended newline => ?_⟩
      have content := kept.newline [] token rfl newline
      rw [h.ended ended] at content
      cases content
    · cases moved

theorem initial_settled (options : Options) (text : List Char) :
    (initial options text).Settled :=
  ⟨fun _ => rfl, fun _ => Or.inl rfl, fun _ => rfl, by simp [initial]⟩

/-- On its first token the scanner is rested, and that token is not the end of a line. -/
theorem ofText_rested {options : Options} {text : List Char}
    (h : ofText options text = .ok s) : s.Rested ∧ s.current.kind ≠ .newline := by
  unfold ofText at h
  split at h
  · rename_i token u first
    cases h
    have kept := next_keeps (initial_settled options text) first
    refine ⟨⟨⟨kept.settled.start, kept.settled.outside, kept.settled.kept, kept.settled.marks⟩,
      kept.ended [] token rfl⟩, fun newline => ?_⟩
    have content := kept.newline [] token rfl newline
    cases content
  · cases h

theorem Rested.of_path {tokens : List Token} {t : Scanner} (h : s.Rested)
    (path : Path s tokens t) : t.Rested := by
  induction path with
  | nil => exact h
  | cons _ moved _ ih => exact ih (advance_rested h moved).1

/-- **What follows the end of a line or a block is not the end of a line.** -/
theorem Rested.not_newline {front : List Token} {last : Token} {t : Scanner} (h : s.Rested)
    (path : Path s (front ++ [last]) t) (ended : last.EndsLine) : t.current.kind ≠ .newline := by
  obtain ⟨middle, toLast, lastPath⟩ := Path.append_iff.1 path
  obtain ⟨here, next, moved, stopped⟩ := Path.cons_iff.1 lastPath
  rw [Path.nil_iff] at stopped
  subst here stopped
  have moved : middle.advance = (none, t) := moved
  exact (advance_rested (h.of_path toLast) moved).2 ended

end Scanner

end PythonSyntax
