/-
**Where one text ends and another begins.**

At the end of a text whose last line is ended, the scanner delivers the ends of the open blocks.  If
more text follows, the next line that holds something closes the same blocks, provided that it is
not indented; from there on the scanner reads what it would read at the beginning of that text.

Main definitions:

* `PythonSyntax.Token.dedent` — the end of a block, without its place;
* `PythonSyntax.Scanner.Opens` — the first step on a line, with open blocks and without them.

Main results:

* `PythonSyntax.Scanner.Fresh.path_nil` — the ends of blocks at the end of a text;
* `PythonSyntax.Scanner.Fresh.path_ofText` — the ends of blocks before more text;
* `PythonSyntax.Scanner.exists_path_append` — **the tokens of two texts in a row** are those of the
  first up to its end, and then those of the second.
-/

import Mathlib.Data.List.TakeWhile
import PythonSyntax.Proofs.Lexical.Beside

set_option autoImplicit false

namespace PythonSyntax

/-- The end of a block, without its place. -/
def Token.dedent : Token := ⟨0, 0, .dedent, none, []⟩

namespace Scanner

variable {s t : Scanner}

/-! ### Tokens that are kept -/

/-- Tokens that are kept are delivered one after another. -/
theorem path_of_kept {marks later : List Token} (kept : s.pending = marks ++ later)
    (running : s.current.kind ≠ .eof) (marking : ∀ token ∈ marks, token.kind ≠ .eof) :
    ∃ tokens current, Path s tokens { s with pending := later, current := current } ∧
      tokens ++ [current] = s.current :: marks := by
  induction marks generalizing s with
  | nil =>
      refine ⟨[], s.current, ?_, rfl⟩
      rw [List.nil_append] at kept
      rw [← kept]
      exact .nil _
  | cons mark marks ih =>
      have moved : s.advance = (none, { s with pending := marks ++ later, current := mark }) := by
        rw [advance, if_neg running, next, kept]
        rfl
      obtain ⟨tokens, current, path, eq⟩ := ih (s := { s with
        pending := marks ++ later, current := mark }) rfl (marking mark List.mem_cons_self)
        fun token mem => marking token (List.mem_cons_of_mem _ mem)
      exact ⟨s.current :: tokens, current, .cons rfl moved path, by rw [List.cons_append, eq]⟩

/-! ### The first line behind the end of another -/

/-- The scanner, had no block been opened. -/
def unblocked (s : Scanner) : Scanner := { s with indents := .atMargin }

/-- The scanner, had it kept no token. -/
def emptied (s : Scanner) : Scanner := { s with pending := [] }

/-- The marks of the ends of all open blocks; the first of them is apart from the others. -/
def Closing (s : Scanner) (first : Token) (marks : List Token) : Prop :=
  (first :: marks).map Token.plain = List.replicate s.indents.blocks.length Token.dedent

theorem Closing.kind {first : Token} {marks : List Token} (h : s.Closing first marks) :
    ∀ token ∈ first :: marks, token.kind = .dedent := by
  intro token mem
  have plain := List.mem_map_of_mem (f := Token.plain) mem
  rw [h] at plain
  exact congrArg Token.kind (List.eq_of_mem_replicate plain)

theorem closing_replicate {count : Nat} (blocks : s.indents.blocks.length = count + 1)
    (t : Scanner) :
    s.Closing (t.mark .dedent) (List.replicate count (t.mark .dedent)) := by
  rw [Closing, blocks, List.replicate_succ, List.map_cons, List.map_replicate]
  rfl

/-- A step at the start of a line, with and without open blocks: over trivia it is the same; at the
end of the text the blocks are closed first; a line that is indented opens a block where there was
none; and a line that is not indented closes all blocks. -/
inductive Opens (s : Scanner) : Prop
  | passes {pieces : List Trivia} {u : Scanner} (step : s.step = (.trivia pieces, u))
      (step' : s.unblocked.step = (.trivia pieces, u.unblocked)) (fresh : u.Fresh)
      (same : u.indents.blocks = s.indents.blocks)
  | ends {pieces pieces' : List Trivia} {first mark : Token} {marks : List Token} {u : Scanner}
      (step : s.step = (.token pieces first, u)) (closing : s.Closing first marks)
      (kept : u.pending = marks ++ [mark])
      (step' : s.unblocked.step = (.token pieces' mark, u.emptied))
  | indents {pieces : List Trivia} {token : Token} {u : Scanner}
      (step : s.unblocked.step = (.token pieces token, u)) (indent : token.kind = .indent)
  | goesOn {pieces : List Trivia} (blanks : List Trivia) {first : Token} {marks : List Token}
      {u : Scanner} (step : s.step = (.token pieces first, u)) (closing : s.Closing first marks)
      (kept : u.pending = marks)
      (step' : s.unblocked.step = (u.emptied.step.1.after blanks, u.emptied.step.2))

/-- A line without indentation closes all blocks. -/
theorem change_zero {blocks : List Nat} (some : blocks ≠ []) (pos : ∀ width ∈ blocks, 0 < width) :
    Indentation.change blocks 0 = (.closes blocks.length, []) := by
  obtain ⟨top, others, rfl⟩ := List.exists_cons_of_ne_nil some
  have none : (top :: others).dropWhile (0 < ·) = [] :=
    List.dropWhile_eq_nil_iff.2 fun width mem => by simpa using pos width mem
  have deep : 0 < top := pos top List.mem_cons_self
  unfold Indentation.change
  simp [none, deep]

theorem emptied_of_quiet (quiet : s.pending = []) : s.emptied = s := by
  rw [emptied, ← quiet]

theorem finish_of_blocks {count : Nat} (content : s.lineHasContent = false)
    (blocks : s.indents.blocks.length = count + 1) :
    s.finish = (.token [] (s.mark .dedent), { s with
      indents := .atMargin
      pending := s.pending ++ List.replicate count (s.mark .dedent) ++ [Token.eof s.offset] }) := by
  rw [finish, content, blocks]
  rfl

theorem finish_unblocked (content : s.lineHasContent = false) :
    s.unblocked.finish = (.token [] (Token.eof s.offset), s.unblocked) := by
  rw [finish, show s.unblocked.lineHasContent = false from content]
  rfl

/-- The blanks at the start of a line, as trivia. -/
def blanks (s : Scanner) : List Trivia :=
  if Lexeme.spaces s.rest = 0 then [] else [s.piece .whitespace (Lexeme.spaces s.rest)]

/-- How far the blanks indent the line. -/
def indentation (s : Scanner) : Nat :=
  Indentation.width s.options.tabSize (s.rest.take (Lexeme.spaces s.rest))

theorem Fresh.step_eq (h : s.Fresh) :
    s.step = (((s.skip (Lexeme.spaces s.rest)).stepAtIndentation s.indentation).1.after s.blanks,
      ((s.skip (Lexeme.spaces s.rest)).stepAtIndentation s.indentation).2) := by
  rw [step, if_pos (by simp [h.start, h.outside])]
  rfl

theorem Fresh.unblocked (h : s.Fresh) : s.unblocked.Fresh :=
  ⟨h.quiet, h.start, h.content, h.outside⟩

theorem Fresh.skip (h : s.Fresh) (count : Nat) : (s.skip count).Fresh :=
  ⟨h.quiet, h.start, h.content, h.outside⟩

theorem Fresh.opens (h : s.Fresh) (some : s.indents.blocks ≠ [])
    (pos : ∀ width ∈ s.indents.blocks, 0 < width) : s.Opens := by
  obtain ⟨count, blocks⟩ : ∃ count, s.indents.blocks.length = count + 1 :=
    ⟨s.indents.blocks.length - 1, by have := List.length_pos_iff.2 some; omega⟩
  have step := h.step_eq
  have step' : s.unblocked.step = _ := h.unblocked.step_eq
  change s.unblocked.step = (((s.skip (Lexeme.spaces s.rest)).unblocked.stepAtIndentation
    s.indentation).1.after s.blanks, ((s.skip (Lexeme.spaces s.rest)).unblocked.stepAtIndentation
    s.indentation).2) at step'
  have fresh := h.skip (Lexeme.spaces s.rest)
  have same : (s.skip (Lexeme.spaces s.rest)).indents.blocks = s.indents.blocks := rfl
  generalize s.skip (Lexeme.spaces s.rest) = u at *
  cases front : u.rest with
  | nil =>
      have finish : u.stepAtIndentation s.indentation = u.finish := by
        rw [stepAtIndentation, front]
      have finish' : u.unblocked.stepAtIndentation s.indentation = u.unblocked.finish := by
        rw [stepAtIndentation, show u.unblocked.rest = [] from front]
      rw [finish, finish_of_blocks fresh.content (same ▸ blocks)] at step
      rw [finish', finish_unblocked fresh.content] at step'
      have emptied : u.unblocked.emptied = u.unblocked := emptied_of_quiet fresh.quiet
      refine .ends step (closing_replicate blocks u) ?_ (step'.trans (Prod.ext rfl emptied.symm))
      change u.pending ++ _ ++ _ = _
      rw [fresh.quiet, List.nil_append]
  | cons c rest =>
      rw [stepAtIndentation_of_cons front] at step
      rw [stepAtIndentation_of_cons (s := u.unblocked) front] at step'
      by_cases isComment : c = '#'
      · rw [if_pos isComment] at step step'
        exact .passes step step' (fresh.skip _) same
      rw [if_neg isComment] at step step'
      by_cases ends : Lexeme.isLineEnd c = true
      · rw [if_pos ends] at step step'
        exact .passes step step' (fresh.skip _) same
      rw [if_neg ends] at step step'
      by_cases indented : s.indentation = 0
      · rw [indented, same, change_zero some pos] at step
        rw [indented] at step'
        have emptied : (u.unblocked.begun 0).emptied = u.unblocked.begun 0 :=
          emptied_of_quiet fresh.quiet
        refine .goesOn s.blanks step (closing_replicate blocks u) ?_ ?_
        · change u.pending ++ List.replicate (s.indents.blocks.length - 1) _ = _
          rw [fresh.quiet, blocks, List.nil_append, Nat.add_sub_cancel]
        · have margins : (u.begun 0).indents = (u.unblocked.begun 0).indents :=
            Indents.eq_of_blocks (by
              rw [blocks_begun, blocks_begun, same, change_zero some pos]
              rfl)
          have closed : u.begun 0 = u.unblocked.begun 0 := congrArg (fun indents =>
            { u with atLineStart := false, indents := indents }) margins
          refine step'.trans ?_
          rw [closed]
          change ((u.unblocked.begun 0).stepInLine.1.after _, _) =
            ((u.unblocked.begun 0).emptied.step.1.after _, (u.unblocked.begun 0).emptied.step.2)
          rw [emptied]
          rfl
      · have deeper : 0 < s.indentation := Nat.pos_of_ne_zero indented
        have opens : (Indentation.change u.unblocked.indents.blocks s.indentation).1 = .opens := by
          change (Indentation.change [] s.indentation).1 = _
          simp [Indentation.change, deeper]
        rw [opens] at step'
        exact .indents step' rfl

/-- A token or trivia behind blanks. -/
theorem exists_of_after {found : Found} {blanks pieces : List Trivia} :
    (∀ {token : Token}, found.after blanks = .token pieces token →
      ∃ more, found = .token more token) ∧
    (found.after blanks = .trivia pieces → ∃ more, found = .trivia more) := by
  cases found with
  | trivia more => exact ⟨nofun, fun _ => ⟨more, rfl⟩⟩
  | token more last =>
      refine ⟨fun eq => ⟨more, ?_⟩, nofun⟩
      cases eq
      rfl
  | fault _ _ => exact ⟨nofun, nofun⟩

/-- **The next line that holds something closes all blocks**, if it is not indented, and then has
the tokens that it would have had without them. -/
theorem Fresh.closes {f : Scanner} {token : Token} (h : s.Fresh) (some : s.indents.blocks ≠ [])
    (pos : ∀ width ∈ s.indents.blocks, 0 < width) (found : Finds f token t) (same : f = s.unblocked)
    (notIndented : token.kind ≠ .indent) :
    ∃ first marks u, Finds s first.plain u ∧ s.Closing first marks ∧
      (u.pending = marks ∧ Finds u.emptied token t ∨
        ∃ mark, u.pending = marks ++ [mark] ∧ mark.plain = token ∧ t = u.emptied) := by
  induction found generalizing s with
  | token stepped =>
      subst same
      cases h.opens some pos with
      | passes step step' fresh same => cases step'.symm.trans stepped
      | ends step closing kept step' =>
          cases step'.symm.trans stepped
          exact ⟨_, _, _, .token step, closing, Or.inr ⟨_, kept, rfl, rfl⟩⟩
      | indents step indent =>
          cases step.symm.trans stepped
          exact absurd indent notIndented
      | goesOn blanks step closing kept step' =>
          obtain ⟨found, behind⟩ := Prod.mk.inj (step'.symm.trans stepped)
          obtain ⟨more, eq⟩ := exists_of_after.1 found
          exact ⟨_, _, _, .token step, closing, Or.inl ⟨kept, .token (Prod.ext eq behind)⟩⟩
  | trivia stepped later ih =>
      subst same
      cases h.opens some pos with
      | passes step step' fresh same =>
          cases step'.symm.trans stepped
          obtain ⟨first, marks, u, found, closing, rest⟩ :=
            ih fresh (same ▸ some) (same ▸ pos) rfl notIndented
          exact ⟨first, marks, u, .trivia step found, by rwa [Closing, ← same], rest⟩
      | ends step closing kept step' => cases step'.symm.trans stepped
      | indents step indent => cases step.symm.trans stepped
      | goesOn blanks step closing kept step' =>
          obtain ⟨found, behind⟩ := Prod.mk.inj (step'.symm.trans stepped)
          obtain ⟨more, eq⟩ := exists_of_after.2 found
          exact ⟨_, _, _, .token step, closing, Or.inl ⟨kept, .trivia (Prod.ext eq behind) later⟩⟩

theorem Beside.trans {u : Scanner} (h : Beside [] s t) (h' : Beside [] t u) : Beside [] s u :=
  ⟨by rw [h'.rest, h.rest, List.append_nil, List.append_nil], h'.options.trans h.options,
    h'.blocks.trans h.blocks, h'.nesting.trans h.nesting, h'.atLineStart.trans h.atLineStart,
    h'.lineHasContent.trans h.lineHasContent, h'.pending.trans h.pending, Or.inr (Or.inl rfl)⟩

/-- The current token makes no difference to what is read. -/
theorem beside_current (s : Scanner) (current : Token) :
    Beside [] s { s with current := current } :=
  ⟨(List.append_nil _).symm, rfl, rfl, rfl, rfl, rfl, rfl, Or.inr (Or.inl rfl)⟩

/-- Behind the ends of blocks, tokens are found as if the blocks had been closed before. -/
theorem exists_path_of_closes {first token : Token} {marks : List Token} {u : Scanner}
    (settled : s.Settled) (quiet : s.pending = []) (running : s.current.kind ≠ .eof)
    (found : Finds s first.plain u) (closing : s.Closing first marks)
    (later : u.pending = marks ∧ Finds u.emptied token t ∨
      ∃ mark, u.pending = marks ++ [mark] ∧ mark.plain = token ∧ t = u.emptied) :
    ∃ tokens v last, Path s tokens { v with current := last } ∧ Beside [] t v ∧
      last.plain = token ∧ tokens.map Token.plain =
        s.current.plain :: List.replicate s.indents.blocks.length Token.dedent := by
  obtain ⟨last, moved, plain⟩ := found.advance quiet running
  have isDedent : last.kind = .dedent :=
    (congrArg Token.kind plain).trans (closing.kind first List.mem_cons_self)
  have notEof : ∀ token ∈ last :: marks, token.kind ≠ .eof := by
    rintro token (_ | ⟨_, mem⟩) eof
    · exact nomatch isDedent.symm.trans eof
    · exact nomatch (closing.kind token (List.mem_cons_of_mem _ mem)).symm.trans eof
  -- All marks but the last are passed, and then the last one.
  obtain ⟨rest, kept⟩ : ∃ rest, u.pending = marks ++ rest := by
    rcases later with ⟨kept, -⟩ | ⟨mark, kept, -⟩
    · exact ⟨[], by rw [kept, List.append_nil]⟩
    · exact ⟨[mark], kept⟩
  obtain ⟨tokens, current, path, eq⟩ := path_of_kept (s := { u with current := last }) kept
    (notEof last List.mem_cons_self) fun token mem => notEof token (List.mem_cons_of_mem _ mem)
  have going : current.kind ≠ .eof := notEof current (eq ▸ List.mem_append_right _ (by simp))
  have all : (s.current :: (tokens ++ [current])).map Token.plain =
      s.current.plain :: List.replicate s.indents.blocks.length Token.dedent := by
    rw [eq, List.map_cons, List.map_cons, plain, ← closing]
    rfl
  rcases later with ⟨none, found'⟩ | ⟨mark, some, same, rfl⟩
  · obtain rfl : rest = [] := by simpa [none] using kept
    have settled' : u.emptied.Settled := by
      have settled := found.settled settled quiet
      exact ⟨settled.start, settled.outside, fun some => absurd rfl some, nofun⟩
    rcases found'.beside settled' rfl (beside_current u.emptied current) with
      ⟨v, found'', beside⟩ | ⟨more, -⟩
    · obtain ⟨next, moved', plain'⟩ := found''.advance rfl going
      exact ⟨_, v, next, .cons rfl moved (Path.append_iff.2 ⟨_, path, .cons rfl moved' (.nil _)⟩),
        beside, plain', all⟩
    · exact absurd rfl more
  · obtain rfl : rest = [mark] := by simpa [some, eq_comm] using kept
    have moved' : Scanner.advance { u with pending := [mark], current := current } =
        (none, { u with pending := [], current := mark }) := by
      rw [advance, if_neg going]
      rfl
    exact ⟨_, u.emptied, mark,
      .cons rfl moved (Path.append_iff.2 ⟨_, path, .cons rfl moved' (.nil _)⟩),
      beside_current u.emptied u.emptied.current, same, all⟩

/-- **Behind the end of a line, the ends of the open blocks come first**, and then what would come
at the beginning of the text that is left. -/
theorem Fresh.path_ofText {f : Scanner} (h : s.Fresh) (ready : s.Ready)
    (running : s.current.kind ≠ .eof) (opened : ofText s.options s.rest = .ok f)
    (notIndented : f.current.kind ≠ .indent) :
    ∃ tokens g, Path s tokens g ∧ Alongside [] f g ∧
      tokens.map Token.plain =
        s.current.plain :: List.replicate s.indents.blocks.length Token.dedent := by
  -- The beginning of the text is read as from here, had no block been opened.
  have begins : Beside [] (initial s.options s.rest) s.unblocked :=
    ⟨(List.append_nil _).symm, rfl, rfl, h.outside, h.start, h.content,
      congrArg (List.map Token.plain) h.quiet, Or.inr (Or.inl rfl)⟩
  unfold ofText at opened
  split at opened
  · rename_i token u found
    cases opened
    rcases (finds_of_read found).beside (initial_settled _ _) rfl begins with
      ⟨t, found, beside⟩ | ⟨some, -⟩
    · by_cases none : s.indents.blocks = []
      · have margins : Indents.atMargin = s.indents := Indents.eq_of_blocks none.symm
        have same : s.unblocked = s := by rw [Scanner.unblocked, margins]
        obtain ⟨last, moved, plain⟩ := (same ▸ found).advance h.quiet running
        exact ⟨[s.current], _, .cons rfl moved (.nil _), beside.alongside plain, by simp [none]⟩
      · obtain ⟨first, marks, v, found', closing, later⟩ :=
          h.closes none ready.blocks found rfl notIndented
        obtain ⟨tokens, w, last, path, beside', plain, all⟩ :=
          exists_path_of_closes ready.rested.settled h.quiet running found' closing later
        exact ⟨tokens, _, path, (beside.trans beside').alongside plain, all⟩
    · exact absurd rfl some
  · cases opened

/-! ### Two texts in a row -/

/-- Two ways to the end of the text pass the same tokens. -/
theorem path_eof_unique {front front' : List Token} {t' : Scanner} (path : Path s front t)
    (path' : Path s front' t') (ended : t.current.kind = .eof) (ended' : t'.current.kind = .eof)
    (running : ∀ token ∈ front, token.kind ≠ .eof)
    (running' : ∀ token ∈ front', token.kind ≠ .eof) : front = front' := by
  induction path generalizing front' with
  | nil c =>
      cases path' with
      | nil => rfl
      | cons here _ _ => exact absurd (here ▸ ended) (running' _ List.mem_cons_self)
  | cons here moved rest ih =>
      cases path' with
      | nil => exact absurd (here ▸ ended') (running _ List.mem_cons_self)
      | cons here' moved' rest' =>
          cases moved.symm.trans moved'
          rw [← here, ← here', ih rest' ended
            (fun token mem => running token (List.mem_cons_of_mem _ mem))
            fun token mem => running' token (List.mem_cons_of_mem _ mem)]

/-- **The ends of blocks at the end of a text** whose last line is ended. -/
theorem Fresh.path_nil {marks : List Token} (h : s.Fresh) (ready : s.Ready) (empty : s.rest = [])
    (path : Path s (s.current :: marks) t) (ended : t.current.kind = .eof)
    (running : ∀ token ∈ s.current :: marks, token.kind ≠ .eof) :
    marks.map Token.plain = List.replicate s.indents.blocks.length Token.dedent := by
  have opened : ofText s.options s.rest = .ok (initial s.options []) := by
    rw [empty]
    rfl
  have here := running _ List.mem_cons_self
  obtain ⟨tokens, g, path', along, plain⟩ := h.path_ofText ready here opened nofun
  have running' : ∀ token ∈ tokens, token.kind ≠ .eof := by
    intro token mem eof
    have mem := List.mem_map_of_mem (f := Token.plain) mem
    rw [plain] at mem
    rcases List.mem_cons.1 mem with same | mem
    · exact here ((congrArg Token.kind same).symm.trans eof)
    · exact nomatch (congrArg Token.kind (List.eq_of_mem_replicate mem)).symm.trans eof
  have ended' : g.current.kind = .eof := congrArg Token.kind along.current
  rw [← path_eof_unique path path' ended ended' running running', List.map_cons] at plain
  exact (List.cons.inj plain).2

/-- Two scanners on the first tokens of a text and of a longer one. -/
theorem ofText_alongside {options : Options} {first more : List Char}
    (closed : Line.Closed first more) (opened : ofText options first = .ok s) :
    (∃ t, ofText options (first ++ more) = .ok t ∧ Alongside more s t) ∨
      more ≠ [] ∧ s.rest = [] ∧ ¬s.current.BreaksLine := by
  have begins : Beside more (initial options first) (initial options (first ++ more)) :=
    ⟨rfl, rfl, rfl, rfl, rfl, rfl, rfl, Or.inr closed⟩
  unfold ofText at opened ⊢
  split at opened
  · rename_i token u found
    cases opened
    rcases (finds_of_read found).beside (initial_settled _ _) rfl begins with
      ⟨t, found', beside⟩ | spent
    · obtain ⟨token', read, same⟩ := read_of_finds [] found' (Nat.le_refl _)
      have next : (initial options (first ++ more)).next = (.ok token', t) := read
      exact Or.inl ⟨_, by rw [next], beside.alongside same⟩
    · exact Or.inr spent
  · cases opened

/-- **The tokens of two texts in a row** are those of the first, if its last line is ended, and then
those of the second, if its first line is not indented. -/
theorem exists_path_append {options : Options} {first more : List Char} {e f : Scanner}
    {front tokens : List Token} (opened : ofText options first = .ok s) (path : Path s front e)
    (breaks : e.current.BreaksLine) (empty : e.rest = []) (noReturn : '\r' ∉ first)
    (opened' : ofText options more = .ok f) (path' : Path f tokens t)
    (notIndented : f.current.kind ≠ .indent) :
    ∃ c all d, ofText options (first ++ more) = .ok c ∧ Path c all d ∧
      d.current.plain = t.current.plain ∧
      all.map Token.plain = front.map Token.plain ++
        (e.current.plain :: List.replicate e.indents.blocks.length Token.dedent) ++
          tokens.map Token.plain := by
  have inside := (ofText_inside opened).of_path path
  have closed : Line.Closed first more := by
    obtain ⟨-, last, ends, suffix⟩ := inside.breaks breaks
    rw [empty] at suffix
    obtain ⟨begin, rfl⟩ := suffix
    have notReturn : last ≠ '\r' := fun same => noReturn (by simp [same])
    have isFeed : last = '\n' := by simpa [Lexeme.isLineEnd, notReturn] using ends
    exact Or.inr ⟨begin, by rw [isFeed]⟩
  -- The first text is passed in the same way if the second one follows.
  have ready := (ofText_inside opened).ready
  rcases ofText_alongside closed opened with ⟨c, opened₂, along⟩ | ⟨-, none, quiet⟩
  · obtain ⟨front', e', path₂, same, along'⟩ := along.path ready path (Or.inr breaks)
    have beside := along'.beside
    have kind : e'.current.kind = e.current.kind := (Token.plain_eq_iff.1 along'.current).1
    have fresh := (inside.breaks breaks).1
    have fresh' : e'.Fresh :=
      ⟨List.map_eq_nil_iff.1 (beside.pending.trans (congrArg _ fresh.quiet)),
        beside.atLineStart.trans fresh.start, beside.lineHasContent.trans fresh.content,
        beside.nesting.trans fresh.outside⟩
    have opened₃ : ofText e'.options e'.rest = .ok f := by
      rw [beside.options, inside.options, beside.rest, empty]
      exact opened'
    have running : e'.current.kind ≠ .eof := by
      rw [kind, breaks.1]
      simp
    -- Then the blocks are closed, and the second text is passed as if it stood alone.
    obtain ⟨marks, g, path₃, along₃, same₃⟩ :=
      fresh'.path_ofText ((ofText_inside opened₂).of_path path₂).ready running opened₃ notIndented
    obtain ⟨tokens', d, path₄, same₄, along₄⟩ :=
      along₃.path (ofText_inside opened').ready path' (Or.inl rfl)
    refine ⟨c, front' ++ marks ++ tokens', d, opened₂, ?_, along₄.current, ?_⟩
    · exact Path.append_iff.2 ⟨g, Path.append_iff.2 ⟨e', path₂, path₃⟩, path₄⟩
    · rw [List.map_append, List.map_append, same, same₃, same₄, along'.current, beside.blocks]
  · exact absurd breaks (ready.not_breaksLine path none quiet)

end Scanner

end PythonSyntax
