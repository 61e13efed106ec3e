/-
**The end of the text is reached.**

A scanner can be moved on again and again, also after moves that failed.  Each move takes something
of what is left: characters, open blocks, a line to be ended, or tokens that are kept.  So after
about two moves for each character of the text the scanner stands at its end, where it stays; and
on the way no loop goes on for ever.

Main definitions:

* `PythonSyntax.Scanner.movesLeft` — a bound on the moves before the end of the text is current;
* `PythonSyntax.Scanner.Forfeits` — what a fault takes.

Main results:

* `PythonSyntax.Scanner.step_forfeits` — a fault takes characters, or it closes blocks;
* `PythonSyntax.Scanner.step_movesLeft` — a step that does not find the end of the text lowers the
  bound, whatever it comes to;
* `PythonSyntax.Scanner.Reachable.movesLeft_advance` — so does moving to the next token;
* `PythonSyntax.Scanner.Reachable.ended_repeat` — so after that many moves the end is current;
* `PythonSyntax.scanning_ends` — **the end of the text is reached**.
-/

import PythonSyntax.Proofs.Lexical.LayoutTokens
import PythonSyntax.Proofs.Parsing.Sessions

set_option autoImplicit false

namespace PythonSyntax

namespace Scanner

variable {s t u : Scanner} {options : Options} {text : List Char}

/-! ### What a fault takes -/

/-- What a fault takes: characters are passed or blocks are closed, and else nothing changes that
makes for tokens. -/
structure Forfeits (s t : Scanner) : Prop where
  pending : t.pending = s.pending
  content : t.lineHasContent = s.lineHasContent
  rest : t.rest.length ≤ s.rest.length
  blocks : t.indents.blocks.length ≤ s.indents.blocks.length
  less : t.rest.length < s.rest.length ∨ t.indents.blocks.length < s.indents.blocks.length

/-- Blanks may have been passed before. -/
theorem Forfeits.of_skip {count : Nat} (h : Forfeits (s.skip count) t) : Forfeits s t := by
  have le : (s.skip count).rest.length ≤ s.rest.length := by simp [skip]
  exact ⟨h.pending, h.content, Nat.le_trans h.rest le, h.blocks,
    h.less.imp_left fun less => Nat.lt_of_lt_of_le less le⟩

variable {cause : LexicalFault} {position : Nat}

theorem finish_ne_fault : s.finish ≠ (.fault cause position, t) := by
  unfold finish
  dsimp only
  split
  · simp
  · split <;> simp

/-- A malformed literal is passed. -/
theorem readToken_forfeits (left : s.rest ≠ [])
    (stepped : s.readToken = (.fault cause position, t)) : Forfeits s t := by
  have sits := Lexeme.read_sits left
  have pos := sits.pos
  have some_left := List.length_pos_iff.2 left
  unfold readToken at stepped
  dsimp only at stepped
  split at stepped
  · cases stepped
    have fewer : (s.skip (Lexeme.read s.rest).length).rest.length < s.rest.length := by
      simp only [skip, List.length_drop]
      omega
    exact ⟨rfl, rfl, Nat.le_of_lt fewer, Nat.le_refl _, Or.inl fewer⟩
  · cases stepped

theorem stepInLine_forfeits (stepped : s.stepInLine = (.fault cause position, t)) :
    Forfeits s t := by
  cases front : s.rest with
  | nil =>
      have finish : s.stepInLine = s.finish := by rw [stepInLine, front]
      exact absurd (finish ▸ stepped) finish_ne_fault
  | cons c rest =>
      rw [stepInLine_of_cons front] at stepped
      split at stepped
      · cases stepped
      split at stepped
      · split at stepped
        · split at stepped <;> cases stepped
        · cases stepped
      split at stepped
      · cases stepped
      split at stepped
      · split at stepped <;> cases stepped
      · exact readToken_forfeits (by simp [front]) stepped

/-- A line that is indented like no open block closes at least one. -/
theorem length_change_unmatched {blocks : List Nat} {width : Nat}
    (h : (Indentation.change blocks width).1 = .unmatched) :
    (Indentation.change blocks width).2.length < blocks.length := by
  unfold Indentation.change at h ⊢
  dsimp only at h ⊢
  split at h
  · cases h
  · rename_i notWider
    rw [if_neg notWider]
    split at h
    · rename_i narrower
      rw [if_pos narrower]
      split at h
      · cases h
      · rename_i other
        rw [if_neg other]
        cases blocks with
        | nil => simp at narrower
        | cons top outer =>
            have dropped : (outer.dropWhile (decide <| width < ·)).length ≤ outer.length :=
              (List.dropWhile_suffix _).length_le
            simp only [List.headD_cons] at narrower
            simp only [List.dropWhile_cons, decide_eq_true narrower, if_true, List.length_cons]
            omega
    · cases h

theorem stepAtIndentation_forfeits {width : Nat}
    (stepped : s.stepAtIndentation width = (.fault cause position, t)) : Forfeits s t := by
  cases front : s.rest with
  | nil =>
      have finish : s.stepAtIndentation width = s.finish := by rw [stepAtIndentation, front]
      exact absurd (finish ▸ stepped) finish_ne_fault
  | cons c rest =>
      rw [stepAtIndentation_of_cons front] at stepped
      split at stepped
      · cases stepped
      split at stepped
      · cases stepped
      split at stepped
      · rename_i stays
        have inLine := stepInLine_forfeits stepped
        have same : (s.begun width).indents.blocks = s.indents.blocks :=
          (blocks_begun s width).trans (change_stays stays)
        exact ⟨inLine.pending, inLine.content, inLine.rest, same ▸ inLine.blocks,
          same ▸ inLine.less⟩
      · cases stepped
      · cases stepped
      · rename_i unmatched
        cases stepped
        have fewer := length_change_unmatched unmatched
        rw [← blocks_begun] at fewer
        exact ⟨rfl, rfl, Nat.le_refl _, Nat.le_of_lt fewer, Or.inr fewer⟩

/-- **A fault takes characters, or it closes blocks.** -/
theorem step_forfeits (stepped : s.step = (.fault cause position, t)) : Forfeits s t := by
  unfold step at stepped
  split at stepped
  · unfold stepAtLineStart at stepped
    dsimp only at stepped
    generalize inner : (s.skip (Lexeme.spaces s.rest)).stepAtIndentation
      (Indentation.width s.options.tabSize (s.rest.take (Lexeme.spaces s.rest))) = result at stepped
    obtain ⟨found, u⟩ := result
    cases found with
    | trivia _ => cases stepped
    | token _ _ => cases stepped
    | fault _ _ =>
        cases stepped
        exact (stepAtIndentation_forfeits inner).of_skip
  · exact stepInLine_forfeits stepped

/-! ### The bound -/

/-- The end of the text has been found, and is kept. -/
def keepsEnd (s : Scanner) : Bool := s.pending.any fun token => token.kind = .eof

/-- A bound on the moves before the end of the text is current.  A character makes for a token or a
fault, and it may begin a line that holds a token, or be a blank that opens a block; an open block
makes for the mark of its end, a line that holds a token for a line end, and the text for its own
end. -/
def movesLeft (s : Scanner) : Nat :=
  2 * s.rest.length + s.indents.blocks.length + s.pending.length +
    (if s.lineHasContent then 1 else 0)
    + (if s.keepsEnd then 0 else 1)

theorem movesLeft_of_quiet (quiet : s.pending = []) :
    s.movesLeft =
      2 * s.rest.length + s.indents.blocks.length + (if s.lineHasContent then 1 else 0) + 1 := by
  simp [movesLeft, keepsEnd, quiet]

theorem movesLeft_initial : (initial options text).movesLeft = 2 * text.length + 1 :=
  movesLeft_of_quiet rfl

/-- A scanner that has not come to the end of the text has moves left. -/
theorem movesLeft_pos (s : Scanner) : 0 < s.movesLeft := by
  unfold movesLeft keepsEnd
  cases kept : s.pending with
  | nil => simp
  | cons token pending => simp only [List.length_cons]; omega

theorem Forfeits.movesLeft_lt (h : Forfeits s t) : t.movesLeft < s.movesLeft := by
  have rest := h.rest
  have blocks := h.blocks
  have less := h.less
  unfold movesLeft keepsEnd
  rw [h.pending, h.content]
  omega

/-- What is made up at the end of the text makes for no more moves than were left for it. -/
theorem movesLeft_of_closing {pieces : List Trivia} {token : Token} (quiet : s.pending = [])
    (empty : t.rest = []) (blocks : t.indents.blocks = []) (content : t.lineHasContent = false)
    (all : token.withTrivia pieces :: t.pending =
      closing s.lineHasContent s.indents.blocks.length t.offset) :
    token.kind = .eof ∨ t.movesLeft < s.movesLeft := by
  have last : Token.eof t.offset ∈ token.withTrivia pieces :: t.pending := by
    rw [all]
    simp [closing]
  rcases List.mem_cons.1 last with first | kept
  · exact Or.inl (congrArg Token.kind first).symm
  · right
    have keeps : t.keepsEnd = true := List.any_eq_true.2 ⟨_, kept, rfl⟩
    have count := congrArg List.length all
    have length : (closing s.lineHasContent s.indents.blocks.length t.offset).length =
        (if s.lineHasContent then 1 else 0) + (s.indents.blocks.length + 1) := by
      unfold closing
      split <;> simp [Nat.add_comm 1]
    rw [length, List.length_cons] at count
    rw [movesLeft_of_quiet quiet, movesLeft, empty, blocks, content, keeps]
    simp only [List.length_nil, Bool.false_eq_true, if_true, if_false]
    omega

/-- **A step lowers the bound**, whatever it comes to, if it does not find the end of the text. -/
theorem step_movesLeft (settled : s.Settled) (quiet : s.pending = []) :
    (∃ pieces token, s.step.1 = .token pieces token ∧ token.kind = .eof) ∨
      s.step.2.movesLeft < s.movesLeft := by
  have acts := step_acts settled quiet
  have shorter := (step_moves settled quiet).suffix.length_le
  have spends := step_spends (Nat.le_refl s.budget)
  generalize stepped : s.step = result at acts shorter spends ⊢
  obtain ⟨found, t⟩ := result
  dsimp only at acts shorter spends ⊢
  rw [movesLeft_of_quiet quiet]
  cases acts with
  | passes quiet' blocks _ content _ =>
      have fewer := rest_lt_of_step stepped
      right
      rw [movesLeft_of_quiet quiet', blocks, content]
      omega
  | reads _ quiet' blocks _ fewer _ =>
      right
      rw [movesLeft_of_quiet quiet', blocks]
      split <;> omega
  | breaks _ content _ quiet' blocks ended _ =>
      right
      rw [movesLeft_of_quiet quiet', blocks, content, ended]
      simp only [Bool.false_eq_true, if_true, if_false]
      omega
  | opens indent _ _ _ _ quiet' blocks _ content _ =>
      -- The blanks that indent the line pay for the block.
      have spent := spends.token _ _ rfl (by simp [indent])
      right
      rw [movesLeft_of_quiet quiet', blocks, content, List.length_cons]
      simp only [Scanner.budget, quiet, quiet', blocks, content, List.length_cons] at spent
      omega
  | @closes _ _ _ count _ _ _ _ length kept _ content _ =>
      have notEnd : t.keepsEnd = false := by simp [keepsEnd, kept, mark, Token.mark]
      right
      rw [movesLeft, kept, List.length_replicate, content, notEnd]
      simp only [Bool.false_eq_true, if_false]
      omega
  | ends empty all blocks content =>
      rcases movesLeft_of_closing quiet empty blocks content all with ended | less
      · exact Or.inl ⟨_, _, rfl, ended⟩
      · right
        rwa [movesLeft_of_quiet quiet] at less
  | fails _ =>
      right
      rw [← movesLeft_of_quiet quiet]
      exact (step_forfeits stepped).movesLeft_lt

/-! ### The next token -/

/-- Passing trivia does not raise the bound. -/
theorem Alike.movesLeft_le (h : Alike s u) (quiet : s.pending = []) :
    u.movesLeft ≤ s.movesLeft := by
  have shorter := h.suffix.length_le
  rw [movesLeft_of_quiet quiet, movesLeft_of_quiet h.quiet, h.blocks, h.content]
  omega

/-- Trivia may have been passed before a fault. -/
theorem Alike.forfeits (h : Alike s u) (quiet : s.pending = []) (fault : Forfeits u t) :
    Forfeits s t :=
  have shorter := h.suffix.length_le
  ⟨(fault.pending.trans h.quiet).trans quiet.symm, fault.content.trans h.content,
    Nat.le_trans fault.rest shorter, h.blocks ▸ fault.blocks,
    fault.less.imp (fun less => Nat.lt_of_lt_of_le less shorter) fun less => h.blocks ▸ less⟩

/-- **Not finding a token takes characters, or it closes blocks.** -/
theorem Nested.forfeits_of_next {error : SyntaxError} (h : s.Nested)
    (failed : s.next = (.error error, t)) : Forfeits s t := by
  cases kept : s.pending with
  | cons token pending =>
      rw [Scanner.next, kept] at failed
      cases failed
  | nil =>
      rw [Scanner.next, kept] at failed
      obtain ⟨u, cause, position, idles, stepped, -⟩ :=
        exists_step_of_read_error (Nat.le_refl _) failed
      exact (idles.alike h.settled kept).forfeits kept (step_forfeits stepped)

/-- **The next token takes of the bound**, if it is not the end of the text, and so does a fault. -/
theorem Nested.movesLeft_next (h : s.Nested) :
    (∃ token, s.next.1 = .ok token ∧ token.kind = .eof) ∨ s.next.2.movesLeft < s.movesLeft := by
  generalize found : s.next = result
  obtain ⟨error | token, t⟩ := result
  · exact Or.inr (h.forfeits_of_next found).movesLeft_lt
  · cases kept : s.pending with
    | cons first pending =>
        rw [Scanner.next, kept] at found
        cases found
        by_cases ended : token.kind = .eof
        · exact Or.inl ⟨token, rfl, ended⟩
        · right
          simp [movesLeft, keepsEnd, kept, ended]
    | nil =>
        rw [Scanner.next, kept] at found
        obtain ⟨u, pieces, last, front, idles, stepped, rfl⟩ := exists_step_of_read found
        have alike := idles.alike h.settled kept
        have lowers := step_movesLeft alike.settled alike.quiet
        rw [stepped] at lowers
        rcases lowers with ⟨_, _, same, ended⟩ | less
        · cases same
          exact Or.inl ⟨_, rfl, ended⟩
        · exact Or.inr (Nat.lt_of_lt_of_le less (alike.movesLeft_le kept))

/-! ### Moving on -/

/-- **Moving on lowers the bound**, also if it fails, before the end of the text is current. -/
theorem Reachable.movesLeft_advance (h : Reachable options text s) :
    s.advance.2.current.kind = .eof ∨ s.advance.2.movesLeft < s.movesLeft := by
  by_cases ended : s.current.kind = .eof
  · left
    rwa [advance, if_pos ended]
  · have lowers := h.nested.movesLeft_next
    rw [advance, if_neg ended]
    generalize s.next = result at lowers ⊢
    obtain ⟨found | token, t⟩ := result
    · rcases lowers with ⟨token, same, _⟩ | less
      · cases same
      · exact Or.inr less
    · rcases lowers with ⟨last, same, ended⟩ | less
      · cases same
        exact Or.inl ended
      · exact Or.inr less

/-- At the end of the text nothing changes any more. -/
theorem advance_of_ended (ended : s.current.kind = .eof) : s.advance = (none, s) := if_pos ended

theorem repeat_of_ended (ended : s.current.kind = .eof) (calls : Nat) :
    Nat.repeat (fun s => s.advance.2) calls s = s := by
  induction calls with
  | zero => rfl
  | succ calls ih => rw [Nat.repeat, ih, advance_of_ended ended]

/-- **After as many moves as were left the end of the text is current**, whatever has failed. -/
theorem Reachable.ended_repeat (h : Reachable options text s) (calls : Nat) :
    (Nat.repeat (fun s => s.advance.2) calls s).current.kind = .eof ∨
      (Nat.repeat (fun s => s.advance.2) calls s).movesLeft + calls ≤ s.movesLeft := by
  induction calls with
  | zero => exact Or.inr (Nat.le_refl _)
  | succ calls ih =>
      have lowers := (h.after calls).movesLeft_advance
      rcases ih with ended | le
      · left
        rw [Nat.repeat, advance_of_ended ended]
        exact ended
      · exact lowers.imp_right fun less => by rw [Nat.repeat]; omega

/-- The first token takes one of the moves that a text allows. -/
theorem movesLeft_ofText (opened : ofText options text = .ok s) :
    s.current.kind = .eof ∨ s.movesLeft ≤ 2 * text.length := by
  have lowers := (initial_nested options text).movesLeft_next
  unfold ofText at opened
  split at opened
  · rename_i token t found
    cases opened
    rw [found, movesLeft_initial] at lowers
    rcases lowers with ⟨last, same, ended⟩ | less
    · cases same
      exact Or.inl ended
    · exact Or.inr (Nat.le_of_lt_succ less)
  · cases opened

/-- Two moves for each character are enough. -/
theorem ended_of_le (opened : ofText options text = .ok s) {calls : Nat}
    (enough : 2 * text.length ≤ calls) :
    (Nat.repeat (fun s => s.advance.2) calls s).current.kind = .eof := by
  rcases movesLeft_ofText opened with ended | le
  · rwa [repeat_of_ended ended]
  · rcases (Reachable.first opened).ended_repeat calls with ended | left
    · exact ended
    · have pos := (Nat.repeat (fun s => s.advance.2) calls s).movesLeft_pos
      omega

/-! ### Failed moves -/

theorem Reachable.sited (h : Reachable options text s) : s.Sited text := by
  induction h with
  | first opened => exact ofText_sited opened
  | moved _ ih => exact ih.advance.1

/-- A failed move leaves the scanner on its token. -/
theorem Reachable.forfeits_of_advance {error : SyntaxError} (h : Reachable options text s)
    (failed : s.advance = (some error, t)) : Forfeits s t ∧ t.current = s.current := by
  have onwards := (next_reaches h.sited.standing).onwards
  unfold advance at failed
  split at failed
  · cases failed
  · split at failed
    · cases failed
    · rename_i found
      cases failed
      rw [found] at onwards
      exact ⟨h.nested.forfeits_of_next found, onwards.current⟩

/-- The scanner has not gone back, if it moves at all. -/
theorem Reachable.offset_le (h : Reachable options text s) : s.offset ≤ s.advance.2.offset := by
  have onwards := (next_reaches h.sited.standing).onwards
  unfold advance
  split
  · exact Nat.le_refl _
  · split <;> (rename_i found; rw [found] at onwards; exact onwards.le)

/-- Characters that are no longer left have been passed. -/
theorem Standing.offset_lt_of_rest (h : s.Standing text) (h' : t.Standing text)
    (less : t.rest.length < s.rest.length) : s.offset < t.offset := by
  rw [h.rest, h'.rest, List.length_drop, List.length_drop] at less
  omega

/-- **A failed move passes characters or closes blocks**, and nothing else is current. -/
theorem Reachable.failed_advance {error : SyntaxError} (h : Reachable options text s)
    (failed : s.advance = (some error, t)) :
    t.current = s.current ∧
      (s.offset < t.offset ∨ t.indents.blocks.length < s.indents.blocks.length) := by
  obtain ⟨forfeits, current⟩ := h.forfeits_of_advance failed
  have standing := h.sited.advance.1.standing
  rw [failed] at standing
  exact ⟨current, forfeits.less.imp_left (h.sited.standing.offset_lt_of_rest standing)⟩

/-! ### Steps and tokens come to an end -/

/-- **There are not infinitely many steps in a row that pass only trivia.** -/
theorem wellFounded_trivia :
    WellFounded fun t s : Scanner => ∃ pieces, s.step = (.trivia pieces, t) :=
  Subrelation.wf (fun ⟨_, stepped⟩ => rest_lt_of_step stepped)
    (InvImage.wf (fun s : Scanner => s.rest.length) Nat.lt_wfRel.wf)

/-- The characters that are left are enough to find the next token. -/
theorem next_ne_exhausted {error : SyntaxError} (failed : s.next = (.error error, t)) :
    error.cause ≠ .exhausted := by
  unfold next at failed
  split at failed
  · cases failed
  · exact read_ne_exhausted (Nat.le_refl _) failed

theorem tokens_ne_exhausted (s : Scanner) {error : SyntaxError} (failed : s.tokens = .error error) :
    error.cause ≠ .exhausted := by
  induction s using advance_induction with
  | step s ih =>
      rw [tokens_eq] at failed
      split at failed
      · cases failed
      · rename_i running
        split at failed
        · rename_i moved
          cases failed
          exact advance_ne_exhausted moved
        · rename_i t moved
          cases later : t.tokens with
          | ok tokens => simp [later, Except.map] at failed
          | error blamed =>
              rw [later] at failed
              cases failed
              exact ih t running moved later

end Scanner

/-- **Reading all tokens of a text comes to an end**: it never takes more steps than are allowed. -/
theorem tokenize_ne_exhausted {options : Options} {text : List Char} {error : SyntaxError}
    (failed : tokenize options text = .error error) : error.cause ≠ .exhausted := by
  rw [tokenize_eq] at failed
  cases opened : Scanner.ofText options text with
  | ok scanner =>
      rw [opened] at failed
      exact scanner.tokens_ne_exhausted failed
  | error blamed =>
      rw [opened] at failed
      cases failed
      unfold Scanner.ofText at opened
      split at opened
      · cases opened
      · rename_i found
        cases opened
        exact Scanner.next_ne_exhausted found

/-- **The end of the text is reached.**  When a scanner over a text is moved on `2 * n + 2` times,
where `n` is the number of characters, then the end of the text is current, whatever moves have
failed.  In every state that can be reached a failed move leaves the scanner on its token, and
passes characters or closes blocks; no move goes back; and at the end of the text nothing changes.
So the steps to a token come to an end, and so do the tokens. -/
theorem scanning_ends (options : Options) (text : List Char) :
    (∀ scanner, Scanner.ofText options text = .ok scanner → ∀ calls, 2 * text.length + 2 ≤ calls →
      (Nat.repeat (fun s => s.advance.2) calls scanner).current.kind = .eof) ∧
    (∀ s, Scanner.Reachable options text s →
      (∀ error t, s.advance = (some error, t) →
        t.current = s.current ∧
          (s.offset < t.offset ∨ t.indents.blocks.length < s.indents.blocks.length)) ∧
      s.offset ≤ s.advance.2.offset ∧ s.current.start ≤ s.advance.2.current.start ∧
      (s.current.kind = .eof → s.advance = (none, s))) ∧
    (WellFounded fun t s : Scanner => ∃ pieces, s.step = (.trivia pieces, t)) ∧
    (∀ (s : Scanner) (error : SyntaxError), s.next.1 = .error error → error.cause ≠ .exhausted) ∧
    ∀ error, tokenize options text = .error error → error.cause ≠ .exhausted := by
  refine ⟨?ends, ?moves, Scanner.wellFounded_trivia, ?steps, fun error => tokenize_ne_exhausted⟩
  case ends =>
    intro scanner opened calls enough
    exact Scanner.ended_of_le opened (by omega)
  case moves =>
    intro s reachable
    exact ⟨fun error t => reachable.failed_advance, reachable.offset_le,
      reachable.sited.advance.2.1, Scanner.advance_of_ended⟩
  case steps =>
    intro s error failed
    exact Scanner.next_ne_exhausted (Prod.ext failed rfl)

/-- A line that is indented like no open block, met after six moves, and a literal without digits
behind it: the end of the text is current all the same. -/
theorem scanning_ends_unindented :
    ∃ scanner, Scanner.ofText {} "if x:\n  y\n z 0x".toList = .ok scanner ∧
      (Nat.repeat (fun s => s.advance.2) 32 scanner).current.kind = .eof ∧
      ∃ s, Scanner.Reachable {} "if x:\n  y\n z 0x".toList s ∧ s.advance.1.isSome = true ∧
        s.advance.2.current = s.current ∧
        (s.offset < s.advance.2.offset ∨
          s.advance.2.indents.blocks.length < s.indents.blocks.length) := by
  obtain ⟨scanner, opened, failed⟩ : ∃ scanner,
      Scanner.ofText {} "if x:\n  y\n z 0x".toList = .ok scanner ∧
        (Nat.repeat (fun s => s.advance.2) 6 scanner).advance.1.isSome = true :=
    exists_ok_of_any (by decide +kernel)
  obtain ⟨s, reachable, failed⟩ : ∃ s, Scanner.Reachable {} "if x:\n  y\n z 0x".toList s ∧
      s.advance.1.isSome = true := ⟨_, (Scanner.Reachable.first opened).after 6, failed⟩
  obtain ⟨error, blamed⟩ := Option.isSome_iff_exists.1 failed
  obtain ⟨ends, moves, -⟩ := scanning_ends {} "if x:\n  y\n z 0x".toList
  exact ⟨scanner, opened, ends scanner opened 32 (by decide +kernel), s, reachable, failed,
    (moves s reachable).1 error s.advance.2 (Prod.ext blamed rfl)⟩

end PythonSyntax
