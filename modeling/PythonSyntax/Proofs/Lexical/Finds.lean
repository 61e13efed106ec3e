/-
**What steps find.**

A token is found by steps over trivia and one step more.  How many steps are allowed makes no
difference, since each one over trivia passes a character.

Main definitions:

* `PythonSyntax.Token.BreaksLine` — the token is the end of a line that is written in the text;
* `PythonSyntax.Scanner.Finds` — steps over trivia lead to a token;
* `PythonSyntax.Scanner.InLine`, `PythonSyntax.Scanner.Fresh`, `PythonSyntax.Scanner.Spent` — the
  scanner stands behind a token of a line, behind the end of a line, or at the end of the text;
* `PythonSyntax.Scanner.Moves` — what a step does to brackets and blocks, and where it leads.

Main results:

* `PythonSyntax.Scanner.finds_of_read`, `PythonSyntax.Scanner.read_of_finds` — reading a token is
  finding it by steps;
* `PythonSyntax.Scanner.step_moves`, `PythonSyntax.Scanner.Finds.moves` — what a step and what all
  steps to a token do.
-/

import PythonSyntax.Proofs.Lexical.Layout
import PythonSyntax.Proofs.Lexical.Budget
import PythonSyntax.Proofs.Syntax.Bare

set_option autoImplicit false

namespace PythonSyntax

/-- The token is the end of a line that is written in the text. -/
def Token.BreaksLine (token : Token) : Prop := token.kind = .newline ∧ token.value ≠ some ""

namespace Scanner

variable {s t : Scanner}

/-! ### Steps by the next character -/

/-- A step within a line, by the character that comes next. -/
theorem stepInLine_of_cons {c : Char} {rest : List Char} (front : s.rest = c :: rest) :
    s.stepInLine =
      if Lexeme.isSpace c then
        s.passTrivia .whitespace (Lexeme.spaces s.rest)
      else if c = '#' then
        match Lexeme.typeComment? s.rest with
        | some count =>
          if s.options.typeComments && s.lineHasContent then
            (.token [] (s.lexeme .typeComment count), s.skip count)
          else
            s.passTrivia .comment (Lexeme.comment s.rest)
        | none => s.passTrivia .comment (Lexeme.comment s.rest)
      else if c = '\\' && rest.head?.any Lexeme.isLineEnd then
        s.passTrivia .continuation (1 + Lexeme.lineBreak rest)
      else if Lexeme.isLineEnd c then
        if 0 < s.nesting || !s.lineHasContent then
          s.passTrivia .newline (Lexeme.lineBreak s.rest)
        else
          (.token [] (s.lexeme .newline (Lexeme.lineBreak s.rest)),
            { s.skip (Lexeme.lineBreak s.rest) with atLineStart := true, lineHasContent := false })
      else
        s.readToken := by
  unfold stepInLine
  split
  · simp_all
  · rename_i d more eq
    cases front.symm.trans eq
    rfl

/-- A step behind the indentation of a line, by the character that comes next. -/
theorem stepAtIndentation_of_cons {c : Char} {rest : List Char} (front : s.rest = c :: rest)
    (width : Nat) :
    s.stepAtIndentation width =
      if c = '#' then
        s.passTrivia .comment (Lexeme.comment s.rest)
      else if Lexeme.isLineEnd c then
        s.passTrivia .newline (Lexeme.lineBreak s.rest)
      else
        match (Indentation.change s.indents.blocks width).1 with
        | .stays => (s.begun width).stepInLine
        | .opens => (.token [] (s.mark .indent), s.begun width)
        | .closes count =>
          (.token [] (s.mark .dedent),
            { s.begun width with
              pending := s.pending ++ List.replicate (count - 1) (s.mark .dedent) })
        | .unmatched => (.fault .unmatchedUnindent s.offset, s.begun width) := by
  rw [← s.indents.change_fst]
  unfold stepAtIndentation
  split
  · simp_all
  · rename_i d more eq
    cases front.symm.trans eq
    rfl

@[simp] theorem skip_zero (s : Scanner) : s.skip 0 = s := rfl

@[simp] theorem after_nil (found : Found) : found.after [] = found := by
  cases found <;> rfl

/-- At the end of the text a step finds what is to be delivered there. -/
theorem step_of_rest_nil (empty : s.rest = []) : s.step = s.finish := by
  unfold step stepAtLineStart stepInLine
  simp [empty, Lexeme.spaces, stepAtIndentation]

/-! ### Where steps lead -/

/-- The scanner stands behind a token of a line. -/
structure InLine (s : Scanner) : Prop where
  quiet : s.pending = []
  begun : s.atLineStart = false
  content : s.lineHasContent = true

/-- The scanner stands behind the end of a line that is written in the text. -/
structure Fresh (s : Scanner) : Prop where
  quiet : s.pending = []
  start : s.atLineStart = true
  content : s.lineHasContent = false
  outside : s.nesting = 0

/-- At the end of the text, with nothing on the line, the scanner has only marks of the ends of
blocks and of the text to deliver. -/
structure Spent (s : Scanner) : Prop where
  rest : s.rest = []
  content : s.lineHasContent = false
  kept : ∀ token ∈ s.pending, token.kind = .dedent ∨ token.kind = .eof

/-- What a token that has been found tells of where the scanner stands behind it.  The characters
that were left before it are `before`. -/
structure Behind (before : List Char) (token : Token) (t : Scanner) : Prop where
  name : token.kind = .name → t.InLine
  newline : token.kind = .newline →
    (t.Fresh ∧ ∃ c, Lexeme.isLineEnd c = true ∧ c :: t.rest <:+ before) ∨
      t.Spent ∧ token.value = some ""

/-- What a step does to brackets and blocks, and where it leads. -/
structure Moves (s : Scanner) (found : Found) (t : Scanner) : Prop where
  suffix : t.rest <:+ s.rest
  options : t.options = s.options
  kept : ∀ token ∈ t.pending, token.kind = .dedent ∨ token.kind = .eof
  blocks : (∀ width ∈ s.indents.blocks, 0 < width) → ∀ width ∈ t.indents.blocks, 0 < width
  passed : ∀ pieces, found = .trivia pieces → t.nesting = s.nesting
  nests : ∀ pieces token, found = .token pieces token →
    t.nesting = nestingAfter s.nesting token.kind
  behind : ∀ pieces token, found = .token pieces token → Behind s.rest token t

theorem Moves.of_trivia {pieces : List Trivia} (suffix : t.rest <:+ s.rest)
    (options : t.options = s.options)
    (kept : ∀ token ∈ t.pending, token.kind = .dedent ∨ token.kind = .eof)
    (blocks : (∀ width ∈ s.indents.blocks, 0 < width) → ∀ width ∈ t.indents.blocks, 0 < width)
    (same : t.nesting = s.nesting) : Moves s (.trivia pieces) t :=
  ⟨suffix, options, kept, blocks, fun _ _ => same, by simp, by simp⟩

theorem Moves.of_token {pieces : List Trivia} {token : Token} (suffix : t.rest <:+ s.rest)
    (options : t.options = s.options)
    (kept : ∀ token ∈ t.pending, token.kind = .dedent ∨ token.kind = .eof)
    (blocks : (∀ width ∈ s.indents.blocks, 0 < width) → ∀ width ∈ t.indents.blocks, 0 < width)
    (nests : t.nesting = nestingAfter s.nesting token.kind) (behind : Behind s.rest token t) :
    Moves s (.token pieces token) t := by
  refine ⟨suffix, options, kept, blocks, by simp, ?_, ?_⟩
  · intro _ _ found
    cases found
    exact nests
  · intro _ _ found
    cases found
    exact behind

theorem Moves.of_fault {cause : LexicalFault} {position : Nat} (suffix : t.rest <:+ s.rest)
    (options : t.options = s.options)
    (kept : ∀ token ∈ t.pending, token.kind = .dedent ∨ token.kind = .eof)
    (blocks : (∀ width ∈ s.indents.blocks, 0 < width) → ∀ width ∈ t.indents.blocks, 0 < width) :
    Moves s (.fault cause position) t :=
  ⟨suffix, options, kept, blocks, by simp, by simp, by simp⟩

/-- Where nothing is kept, only marks are. -/
theorem kept_of_quiet (quiet : s.pending = []) :
    ∀ token ∈ s.pending, token.kind = .dedent ∨ token.kind = .eof := by
  simp [quiet]

/-- A step that is taken from a state with fewer characters left. -/
theorem Moves.of_suffix {u : Scanner} {found : Found} (h : Moves u found t)
    (suffix : u.rest <:+ s.rest) (options : u.options = s.options)
    (blocks : (∀ width ∈ s.indents.blocks, 0 < width) → ∀ width ∈ u.indents.blocks, 0 < width)
    (same : u.nesting = s.nesting) : Moves s found t := by
  refine ⟨h.suffix.trans suffix, h.options.trans options, h.kept,
    fun all => h.blocks (blocks all), ?_, ?_, ?_⟩
  · exact fun pieces found => (h.passed pieces found).trans same
  · exact fun pieces token found => same ▸ h.nests pieces token found
  · intro pieces token found
    have behind := h.behind pieces token found
    refine ⟨behind.name, fun newline => ?_⟩
    rcases behind.newline newline with ⟨fresh, c, ends, last⟩ | spent
    · exact Or.inl ⟨fresh, c, ends, last.trans suffix⟩
    · exact Or.inr spent

theorem Moves.after {found : Found} (h : Moves s found t) (pieces : List Trivia) :
    Moves s (found.after pieces) t := by
  cases found with
  | trivia more => exact .of_trivia h.suffix h.options h.kept h.blocks (h.passed more rfl)
  | token more last =>
      exact .of_token h.suffix h.options h.kept h.blocks (h.nests more last rfl)
        (h.behind more last rfl)
  | fault _ _ => exact .of_fault h.suffix h.options h.kept h.blocks

theorem passTrivia_moves (quiet : s.pending = []) (kind : TriviaKind) (count : Nat) :
    Moves s (s.passTrivia kind count).1 (s.passTrivia kind count).2 :=
  .of_trivia (List.drop_suffix _ _) rfl (kept_of_quiet (s := s) quiet) id rfl

/-- The marks at the end of the text. -/
theorem finish_moves (quiet : s.pending = []) (empty : s.rest = []) :
    Moves s s.finish.1 s.finish.2 := by
  have marks : ∀ n, ∀ token ∈ List.replicate n (s.mark .dedent) ++ [Token.eof s.offset],
      token.kind = .dedent ∨ token.kind = .eof := by
    intro n token mem
    rcases List.mem_append.1 mem with mem | mem
    · rw [List.eq_of_mem_replicate mem]
      exact Or.inl rfl
    · rw [List.mem_singleton.1 mem]
      exact Or.inr rfl
  unfold finish
  rw [quiet]
  cases content : s.lineHasContent with
  | true =>
      exact .of_token (List.suffix_refl _) rfl (marks _) (by simp) rfl
        ⟨nofun, fun _ => Or.inr ⟨⟨empty, rfl, marks _⟩, rfl⟩⟩
  | false =>
      cases s.indents.blocks.length with
      | zero =>
          exact .of_token (List.suffix_refl _) rfl (kept_of_quiet (s := s) quiet) id rfl
            ⟨nofun, nofun⟩
      | succ n =>
          exact .of_token (List.suffix_refl _) rfl (marks n) (fun _ => nofun) rfl ⟨nofun, nofun⟩

theorem readToken_moves (quiet : s.pending = []) (left : s.rest ≠ [])
    (begun : s.atLineStart = false) : Moves s s.readToken.1 s.readToken.2 := by
  have sits := Lexeme.read_sits left
  unfold readToken
  dsimp only
  split
  · exact .of_fault (List.drop_suffix _ _) rfl (kept_of_quiet (s := s) quiet) id
  · refine .of_token (List.drop_suffix _ _) rfl (kept_of_quiet (s := s) quiet) id rfl
      ⟨fun _ => ⟨quiet, begun, rfl⟩, fun newline => ?_⟩
    change (Lexeme.read s.rest).kind = .newline at newline
    exact absurd sits.notLayout (by simp [newline])

/-- A line break is one of the characters at which a line ends, or two of them. -/
theorem exists_lineBreak {c : Char} {rest : List Char} (front : s.rest = c :: rest)
    (ends : Lexeme.isLineEnd c = true) :
    ∃ d, Lexeme.isLineEnd d = true ∧ d :: s.rest.drop (Lexeme.lineBreak s.rest) <:+ s.rest := by
  rw [front]
  rcases Lexeme.lineBreak_cases ends rest with ⟨more, rfl, rfl⟩ | ⟨-, one⟩
  · exact ⟨'\n', rfl, List.suffix_cons _ _⟩
  · rw [one]
    exact ⟨c, ends, List.suffix_refl _⟩

/-- A step within a line; it is not taken at the start of a line but for the end of the text. -/
theorem stepInLine_moves (quiet : s.pending = []) (inLine : s.rest ≠ [] → s.atLineStart = false) :
    Moves s s.stepInLine.1 s.stepInLine.2 := by
  cases front : s.rest with
  | nil =>
      have finish := finish_moves quiet front
      unfold stepInLine
      rw [front]
      exact finish
  | cons c rest =>
      have left : s.rest ≠ [] := by simp [front]
      rw [stepInLine_of_cons front]
      split
      · exact passTrivia_moves quiet _ _
      split
      · split
        · split
          · exact .of_token (List.drop_suffix _ _) rfl (kept_of_quiet (s := s) quiet) id rfl
              ⟨nofun, nofun⟩
          · exact passTrivia_moves quiet _ _
        · exact passTrivia_moves quiet _ _
      split
      · exact passTrivia_moves quiet _ _
      split
      · rename_i ends
        split
        · exact passTrivia_moves quiet _ _
        · rename_i inside
          simp only [Bool.or_eq_true, decide_eq_true_eq, not_or] at inside
          refine .of_token (List.drop_suffix _ _) rfl (kept_of_quiet (s := s) quiet) id rfl
            ⟨nofun, fun _ => Or.inl ⟨?_, ?_⟩⟩
          · exact ⟨quiet, rfl, rfl, Nat.eq_zero_of_not_pos inside.1⟩
          · exact exists_lineBreak front ends
      · exact readToken_moves quiet left (inLine left)

/-- The widths of open blocks are positive. -/
theorem change_pos {blocks : List Nat} {width : Nat} (h : ∀ width ∈ blocks, 0 < width) :
    ∀ other ∈ (Indentation.change blocks width).2, 0 < other := by
  intro other mem
  unfold Indentation.change at mem
  dsimp only at mem
  split at mem
  · rename_i deeper
    rcases List.mem_cons.1 mem with rfl | mem
    · exact Nat.zero_lt_of_lt deeper
    · exact h other mem
  · split at mem
    · split at mem <;> exact h other ((List.dropWhile_suffix _).subset mem)
    · exact h other mem

/-- A step behind the indentation of a line. -/
theorem stepAtIndentation_moves (quiet : s.pending = []) (width : Nat) :
    Moves s (s.stepAtIndentation width).1 (s.stepAtIndentation width).2 := by
  cases front : s.rest with
  | nil =>
      have finish := finish_moves quiet front
      unfold stepAtIndentation
      rw [front]
      exact finish
  | cons c rest =>
      rw [stepAtIndentation_of_cons front]
      split
      · exact passTrivia_moves quiet _ _
      split
      · exact passTrivia_moves quiet _ _
      have wide : (∀ width ∈ s.indents.blocks, 0 < width) →
          ∀ other ∈ (s.begun width).indents.blocks, 0 < other := by
        rw [blocks_begun]
        exact change_pos
      cases (Indentation.change s.indents.blocks width).1 with
      | stays =>
          have inLine := stepInLine_moves (s := s.begun width) quiet fun _ => rfl
          exact inLine.of_suffix (List.suffix_refl _) rfl wide rfl
      | opens =>
          exact .of_token (List.suffix_refl _) rfl (kept_of_quiet (s := s) quiet) wide rfl
            ⟨nofun, nofun⟩
      | closes count =>
          refine .of_token (List.suffix_refl _) rfl ?_ wide rfl ⟨nofun, nofun⟩
          intro token mem
          change token ∈ s.pending ++ List.replicate (count - 1) (s.mark .dedent) at mem
          rw [quiet, List.nil_append] at mem
          rw [List.eq_of_mem_replicate mem]
          exact Or.inl rfl
      | unmatched =>
          exact .of_fault (List.suffix_refl _) rfl (kept_of_quiet (s := s) quiet) wide

/-- **What a step does to brackets and blocks, and where it leads.** -/
theorem step_moves (h : s.Settled) (quiet : s.pending = []) : Moves s s.step.1 s.step.2 := by
  unfold step
  split
  · unfold stepAtLineStart
    have moves := stepAtIndentation_moves (s := s.skip (Lexeme.spaces s.rest)) quiet
      (Indentation.width s.options.tabSize (s.rest.take (Lexeme.spaces s.rest)))
    exact (moves.of_suffix (List.drop_suffix _ _) rfl id rfl).after _
  · rename_i notFresh
    refine stepInLine_moves quiet fun left => ?_
    cases start : s.atLineStart with
    | false => rfl
    | true =>
        rcases h.outside start with outside | empty
        · simp [start, outside] at notFresh
        · exact absurd empty left

/-! ### Finding a token -/

/-- Steps over trivia lead to a token, given without its place. -/
inductive Finds : Scanner → Token → Scanner → Prop
  | token {s t : Scanner} {pieces : List Trivia} {token : Token}
      (step : s.step = (.token pieces token, t)) : Finds s token.plain t
  | trivia {s t u : Scanner} {pieces : List Trivia} {token : Token}
      (step : s.step = (.trivia pieces, t)) (later : Finds t token u) : Finds s token u

namespace Finds

variable {u : Scanner} {token last : Token} {pieces : List Trivia}

/-- If a step finds a token, it is the token that is found. -/
theorem of_step (found : Finds s token t) (step : s.step = (.token pieces last, u)) :
    token = last.plain ∧ t = u := by
  cases found with
  | token step' =>
      cases step.symm.trans step'
      exact ⟨rfl, rfl⟩
  | trivia step' _ => cases step.symm.trans step'

/-- What is found is found behind the trivia that a step passes. -/
theorem later (found : Finds s token t) (step : s.step = (.trivia pieces, u)) :
    Finds u token t := by
  cases found with
  | token step' => cases step.symm.trans step'
  | trivia step' later =>
      cases step.symm.trans step'
      exact later

end Finds

/-- Behind a fault nothing is found. -/
theorem not_finds_of_fault {u : Scanner} {token : Token} {cause : LexicalFault} {position : Nat}
    (step : s.step = (.fault cause position, u)) : ¬Finds s token t := by
  intro found
  cases found with
  | token step' => cases step.symm.trans step'
  | trivia step' _ => cases step.symm.trans step'

/-- What is read is found by steps. -/
theorem finds_of_read {bound : List Char} {trivia : List Trivia} {token : Token}
    (result : read bound trivia s = (.ok token, t)) : Finds s token.plain t := by
  induction bound generalizing trivia s with
  | nil =>
      unfold read at result
      cases step : s.step with
      | mk found u =>
          rw [step] at result
          cases found with
          | token pieces last =>
              cases result
              rw [Token.plain_withTrivia]
              exact .token step
          | fault _ _ => cases result
          | trivia _ => cases result
  | cons c bound ih =>
      unfold read at result
      cases step : s.step with
      | mk found u =>
          rw [step] at result
          cases found with
          | token pieces last =>
              cases result
              rw [Token.plain_withTrivia]
              exact .token step
          | fault _ _ => cases result
          | trivia pieces => exact .trivia step (ih result)

/-- **What is found by steps is read**: each step over trivia passes a character. -/
theorem read_of_finds {bound : List Char} {token : Token} (trivia : List Trivia)
    (found : Finds s token t) (enough : s.rest.length ≤ bound.length) :
    ∃ last, read bound trivia s = (.ok last, t) ∧ last.plain = token := by
  induction found generalizing bound trivia with
  | token step =>
      unfold read
      rw [step]
      exact ⟨_, rfl, rfl⟩
  | @trivia s t u pieces token step later ih =>
      have shortens := s.step_shortens
      rw [step] at shortens
      have fewer : t.rest.length < s.rest.length := shortens pieces rfl
      obtain ⟨c, bound, rfl⟩ := List.exists_cons_of_length_pos (l := bound) (by omega)
      unfold read
      rw [step]
      exact ih _ (by simp only [List.length_cons] at enough; omega)

/-- **What the steps to a token do to brackets and blocks, and where they lead.** -/
theorem Finds.moves {token : Token} (h : s.Settled) (quiet : s.pending = [])
    (found : Finds s token t) : Moves s (.token [] token) t := by
  induction found with
  | token step =>
      have moves := step_moves h quiet
      rw [step] at moves
      have behind := moves.behind _ _ rfl
      have nests := moves.nests _ _ rfl
      exact .of_token moves.suffix moves.options moves.kept moves.blocks nests
        ⟨behind.name, behind.newline⟩
  | trivia step later ih =>
      have moves := step_moves h quiet
      have keeps := step_keeps h quiet
      rw [step] at moves keeps
      exact (ih keeps.settled (keeps.trivia _ rfl).2).of_suffix moves.suffix moves.options
        moves.blocks (moves.passed _ rfl)

theorem Finds.settled {token : Token} (h : s.Settled) (quiet : s.pending = [])
    (found : Finds s token t) : t.Settled := by
  induction found with
  | token step =>
      have keeps := step_keeps h quiet
      rw [step] at keeps
      exact keeps.settled
  | trivia step later ih =>
      have keeps := step_keeps h quiet
      rw [step] at keeps
      exact ih keeps.settled (keeps.trivia _ rfl).2

/-- What is found by steps is the next token. -/
theorem Finds.advance {token : Token} (found : Finds s token t) (quiet : s.pending = [])
    (running : s.current.kind ≠ .eof) :
    ∃ last : Token, s.advance = (none, { t with current := last }) ∧ last.plain = token := by
  obtain ⟨last, read, same⟩ := read_of_finds [] found (Nat.le_refl _)
  exact ⟨last, by rw [Scanner.advance, if_neg running, next, quiet, read], same⟩

theorem finds_of_advance (quiet : s.pending = []) (running : s.current.kind ≠ .eof)
    (moved : s.advance = (none, t)) :
    ∃ u, Finds s t.current.plain u ∧ t = { u with current := t.current } := by
  rw [Scanner.advance, if_neg running, next, quiet] at moved
  split at moved
  · rename_i token u found
    cases moved
    exact ⟨u, finds_of_read found, rfl⟩
  · cases moved

/-- **What the scanner keeps true from token to token.**  Behind a name it stands in a line, and
behind the end of a line at the start of the next one or at the end of the text. -/
structure Ready (s : Scanner) : Prop where
  rested : s.Rested
  kept : ∀ token ∈ s.pending, token.kind = .dedent ∨ token.kind = .eof
  blocks : ∀ width ∈ s.indents.blocks, 0 < width
  name : s.current.kind = .name → s.InLine
  newline : s.current.kind = .newline → s.Fresh ∨ s.Spent ∧ s.current.value = some ""

/-- What moving to the next token does. -/
structure Steps (s t : Scanner) : Prop where
  suffix : t.rest <:+ s.rest
  options : t.options = s.options
  nests : t.nesting = nestingAfter s.nesting t.current.kind
  ready : t.Ready
  breaks : t.current.BreaksLine →
    t.Fresh ∧ ∃ c, Lexeme.isLineEnd c = true ∧ c :: t.rest <:+ s.rest

theorem Moves.steps {token last : Token} {u : Scanner} (h : Moves s (.token [] token) u)
    (blocks : ∀ width ∈ s.indents.blocks, 0 < width) (same : last.plain = token)
    (rested : Rested { u with current := last }) : Steps s { u with current := last } := by
  subst same
  have behind := h.behind _ _ rfl
  have nests := h.nests _ _ rfl
  refine ⟨h.suffix, h.options, nests, ⟨rested, h.kept, h.blocks blocks, ?_, ?_⟩, ?_⟩
  · intro name
    obtain ⟨quiet, begun, content⟩ := behind.name name
    exact ⟨quiet, begun, content⟩
  · intro newline
    rcases behind.newline newline with ⟨⟨quiet, start, content, outside⟩, -⟩ |
      ⟨⟨rest, content, kept⟩, value⟩
    · exact Or.inl ⟨quiet, start, content, outside⟩
    · exact Or.inr ⟨⟨rest, content, kept⟩, value⟩
  · intro breaks
    rcases behind.newline breaks.1 with ⟨⟨quiet, start, content, outside⟩, last⟩ | ⟨-, value⟩
    · exact ⟨⟨quiet, start, content, outside⟩, last⟩
    · exact absurd value breaks.2

/-- **Moving to the next token.** -/
theorem advance_steps (h : s.Ready) (going : s.current.kind ≠ .eof)
    (moved : s.advance = (none, t)) : Steps s t := by
  have rested := (advance_rested h.rested moved).1
  unfold advance at moved
  rw [if_neg going] at moved
  split at moved
  · rename_i token u step
    cases moved
    unfold next at step
    split at step
    · rename_i first pending eq
      cases step
      have kept := fun other mem => h.kept other (eq ▸ List.mem_cons_of_mem _ mem)
      have mark : token.kind = .dedent ∨ token.kind = .eof :=
        h.kept token (eq ▸ List.mem_cons_self)
      have differs : token.kind ≠ .name ∧ token.kind ≠ .newline := by
        rcases mark with mark | mark <;> simp [mark]
      refine ⟨List.suffix_refl _, rfl, ?_, ⟨rested, kept, h.blocks,
        fun name => absurd name differs.1, fun newline => absurd newline differs.2⟩,
        fun breaks => absurd breaks.1 differs.2⟩
      rcases mark with mark | mark <;> simp [nestingAfter, mark, TokenKind.opens, TokenKind.closes]
    · rename_i quiet
      exact ((finds_of_read step).moves h.rested.settled quiet).steps h.blocks rfl rested
  · cases moved

/-- The end of the text is never left. -/
theorem advance_of_eof (ended : s.current.kind = .eof) : s.advance = (none, s) := by
  rw [advance, if_pos ended]

theorem Ready.of_advance (h : s.Ready) (moved : s.advance = (none, t)) : t.Ready := by
  by_cases ended : s.current.kind = .eof
  · cases (advance_of_eof ended).symm.trans moved
    exact h
  · exact (advance_steps h ended moved).ready

theorem Ready.of_path {tokens : List Token} (h : s.Ready) (path : Path s tokens t) : t.Ready := by
  induction path with
  | nil => exact h
  | cons _ moved _ ih => exact ih (h.of_advance moved)

/-- Moving to the first token. -/
theorem ofText_steps {options : Options} {text : List Char} (h : ofText options text = .ok s) :
    Steps (initial options text) s := by
  have rested := (ofText_rested h).1
  unfold ofText at h
  split at h
  · rename_i token u step
    cases h
    exact ((finds_of_read step).moves (initial_settled options text) rfl).steps (by simp [initial])
      rfl rested
  · cases h

/-- The scanner has come from the beginning of a text to some token of it.  Behind the end of a line
that is written there, it stands behind the character at which the line ends. -/
structure Inside (options : Options) (text : List Char) (s : Scanner) : Prop where
  ready : s.Ready
  options : s.options = options
  suffix : s.rest <:+ text
  breaks : s.current.BreaksLine →
    s.Fresh ∧ ∃ c, Lexeme.isLineEnd c = true ∧ c :: s.rest <:+ text

variable {options : Options} {text : List Char}

theorem ofText_inside (h : ofText options text = .ok s) : s.Inside options text :=
  have steps := ofText_steps h
  ⟨steps.ready, steps.options, steps.suffix, steps.breaks⟩

/-- What is passed from the beginning of a text is inside of it. -/
theorem Inside.of_path {tokens : List Token} (h : s.Inside options text) (path : Path s tokens t) :
    t.Inside options text := by
  induction path with
  | nil => exact h
  | @cons s next t token tokens _ moved _ ih =>
      by_cases ended : s.current.kind = .eof
      · cases (advance_of_eof ended).symm.trans moved
        exact ih h
      · have steps := advance_steps h.ready ended moved
        refine ih ⟨steps.ready, steps.options.trans h.options, steps.suffix.trans h.suffix, ?_⟩
        intro breaks
        obtain ⟨fresh, c, ends, last⟩ := steps.breaks breaks
        exact ⟨fresh, c, ends, last.trans h.suffix⟩

end Scanner

end PythonSyntax
