/-
**How many tokens are still to come.**

Every token that the scanner delivers, but for the end of the text, lowers its budget.  So the
budget bounds the tokens of a text, and a text whose tokens can be read one by one has them all.

Main definitions:

* `PythonSyntax.Scanner.Spends` — what a step leaves of a budget;
* `PythonSyntax.Scanner.Shortens` — a step that passes trivia leaves fewer characters.

Main results:

* `PythonSyntax.Scanner.step_spends` — a step that finds a token lowers the budget;
* `PythonSyntax.Scanner.advance_spends` — so does moving to the next token;
* `PythonSyntax.Scanner.advance_ne_exhausted` — moving never takes too many steps;
* `PythonSyntax.Scanner.tokensFrom_eq` — the tokens up to the end of the text are found within the
  budget;
* `PythonSyntax.Scanner.tokensFrom_prefix` — tokens that are passed are the first ones of all;
* `PythonSyntax.tokenize_eq_ok_iff` — the tokens of a text are those that are passed.
-/

import PythonSyntax.Proofs.Lexical.Coverage
import PythonSyntax.Proofs.Parsing.Path

set_option autoImplicit false

namespace PythonSyntax

namespace Scanner

/-- What a step leaves of a budget: passing trivia adds nothing to it, and finding a token that is
not the end of the text takes something of it. -/
structure Spends (budget : Nat) (found : Found) (t : Scanner) : Prop where
  trivia : ∀ pieces, found = .trivia pieces → t.budget ≤ budget
  token : ∀ pieces token, found = .token pieces token → token.kind ≠ .eof → t.budget < budget

variable {s : Scanner} {budget : Nat}

theorem Spends.of_trivia {pieces : List Trivia} {t : Scanner} (h : t.budget ≤ budget) :
    Spends budget (.trivia pieces) t :=
  ⟨fun _ _ => h, fun _ _ found => by cases found⟩

theorem Spends.of_token {pieces : List Trivia} {token : Token} {t : Scanner}
    (h : token.kind ≠ .eof → t.budget < budget) : Spends budget (.token pieces token) t := by
  refine ⟨by simp, fun _ _ found ne => ?_⟩
  cases found
  exact h ne

theorem Spends.of_fault {cause : LexicalFault} {position : Nat} {t : Scanner} :
    Spends budget (.fault cause position) t :=
  ⟨by simp, by simp⟩

theorem Spends.after {found : Found} {t : Scanner} (h : Spends budget found t)
    (pieces : List Trivia) : Spends budget (found.after pieces) t := by
  cases found with
  | trivia more => exact .of_trivia (h.trivia more rfl)
  | token more last => exact .of_token (h.token more last rfl)
  | fault cause position => exact .of_fault

/-! ### Steps -/

/-- The characters that are passed count three times. -/
theorem skip_budget {count : Nat} (le : count ≤ s.rest.length) :
    (s.skip count).budget + 3 * count = s.budget := by
  have fewer : (s.skip count).rest.length + count = s.rest.length := by
    simp only [skip, List.length_drop]
    omega
  have same : (s.skip count).lineHasContent = s.lineHasContent := rfl
  have same' : (s.skip count).indents.blocks = s.indents.blocks := rfl
  have same'' : (s.skip count).pending = s.pending := rfl
  simp only [Scanner.budget, same, same', same'']
  omega

theorem passTrivia_spends (le : s.budget ≤ budget) (kind : TriviaKind) {count : Nat}
    (within : count ≤ s.rest.length) :
    Spends budget (s.passTrivia kind count).1 (s.passTrivia kind count).2 := by
  refine .of_trivia ?_
  have skipped := skip_budget within
  change (s.skip count).budget ≤ budget
  omega

theorem finish_spends (le : s.budget ≤ budget) : Spends budget s.finish.1 s.finish.2 := by
  unfold Scanner.budget at le
  unfold finish
  dsimp only
  split
  · rename_i content
    refine .of_token fun _ => ?_
    rw [if_pos content] at le
    simp only [Scanner.budget, Indents.blocks_atMargin, List.length_append, List.length_replicate,
      List.length_nil, List.length_singleton, Bool.false_eq_true, if_false]
    omega
  · rename_i quiet
    rw [if_neg quiet] at le
    split
    · exact .of_token fun ne => absurd rfl ne
    · rename_i first more closing
      have length := congrArg List.length closing
      rw [List.length_replicate, List.length_cons] at length
      refine .of_token fun _ => ?_
      simp only [Scanner.budget, Indents.blocks_atMargin, List.length_append, List.length_nil,
        List.length_singleton, if_neg quiet]
      omega

theorem readToken_spends (le : s.budget ≤ budget) (left : s.rest ≠ []) :
    Spends budget s.readToken.1 s.readToken.2 := by
  have sits := Lexeme.read_sits left
  have pos := sits.pos
  have within := sits.within
  unfold readToken
  dsimp only
  split
  · exact .of_fault
  · refine .of_token fun _ => ?_
    unfold Scanner.budget at le
    simp only [Scanner.budget, skip, List.length_drop, if_true]
    omega

theorem spaces_pos {rest : List Char} {c : Char} {more : List Char} (eq : rest = c :: more)
    (space : Lexeme.isSpace c = true) : 0 < Lexeme.spaces rest := by
  simp [Lexeme.spaces, eq, space]

theorem lineBreak_pos {rest : List Char} {c : Char} {more : List Char} (eq : rest = c :: more)
    (ends : Lexeme.isLineEnd c = true) : 0 < Lexeme.lineBreak rest := by
  subst eq
  unfold Lexeme.lineBreak
  split
  · exact Nat.two_pos
  · rename_i d _ _ same
    cases same
    rw [if_pos ends]
    exact Nat.one_pos
  · rename_i nil
    cases nil

/-- A comment that declares a type has a mark at its front. -/
theorem typeComment?_pos {more : List Char} {count : Nat}
    (h : Lexeme.typeComment? ('#' :: more) = some count) : 0 < count := by
  unfold Lexeme.typeComment? at h
  dsimp only at h
  split at h
  · cases h
    simp [Lexeme.comment, Lexeme.isLineEnd]
  · cases h

theorem stepInLine_spends (le : s.budget ≤ budget) :
    Spends budget s.stepInLine.1 s.stepInLine.2 := by
  unfold stepInLine
  split
  · exact finish_spends le
  · rename_i c rest split
    have left : s.rest ≠ [] := by simp [split]
    split
    · exact passTrivia_spends le _ (spaces_le _)
    · split
      · rename_i mark
        subst mark
        split
        · rename_i count found
          split
          · have pos := typeComment?_pos (split ▸ found)
            have skipped := skip_budget (typeComment?_le found)
            refine .of_token fun _ => ?_
            change (s.skip count).budget < budget
            omega
          · exact passTrivia_spends le _ (comment_le _)
        · exact passTrivia_spends le _ (comment_le _)
      · split
        · refine passTrivia_spends le _ ?_
          have := lineBreak_le rest
          rw [split, List.length_cons]
          omega
        · split
          · rename_i ends
            dsimp only
            split
            · exact passTrivia_spends le _ (lineBreak_le _)
            · have pos := lineBreak_pos split ends
              have skipped := skip_budget (lineBreak_le s.rest)
              refine .of_token fun _ => ?_
              simp only [Scanner.budget, Bool.false_eq_true, if_false] at le skipped ⊢
              omega
          · exact readToken_spends le left

/-- A line that closes blocks closes at least one. -/
theorem change_closes {blocks : List Nat} {width count : Nat}
    (h : (Indentation.change blocks width).1 = .closes count) :
    0 < count ∧ (Indentation.change blocks width).2.length + count = blocks.length := by
  unfold Indentation.change at h ⊢
  dsimp only at h ⊢
  split at h
  · cases h
  · rename_i notWider
    rw [if_neg notWider]
    split at h
    · rename_i narrower
      rw [if_pos narrower]
      split at h
      · rename_i found
        cases h
        rw [if_pos found]
        cases blocks with
        | nil => simp at narrower
        | cons top outer =>
            have dropped : (outer.dropWhile (decide <| width < ·)).length ≤ outer.length :=
              (List.dropWhile_suffix _).length_le
            simp only [List.headD_cons] at narrower
            simp only [List.dropWhile_cons, decide_eq_true narrower, if_true, List.length_cons]
            omega
      · cases h
    · cases h

theorem change_opens {blocks : List Nat} {width : Nat}
    (h : (Indentation.change blocks width).1 = .opens) :
    0 < width ∧ (Indentation.change blocks width).2.length = blocks.length + 1 := by
  unfold Indentation.change at h ⊢
  dsimp only at h ⊢
  split at h
  · rename_i wider
    rw [if_pos wider]
    exact ⟨by omega, rfl⟩
  · split at h
    · split at h <;> cases h
    · cases h

theorem change_stays {blocks : List Nat} {width : Nat}
    (h : (Indentation.change blocks width).1 = .stays) :
    (Indentation.change blocks width).2 = blocks := by
  unfold Indentation.change at h ⊢
  dsimp only at h ⊢
  split at h
  · cases h
  · rename_i notWider
    rw [if_neg notWider]
    split at h
    · split at h <;> cases h
    · rename_i notNarrower
      rw [if_neg notNarrower]

/-- Behind the indentation of a line only the open blocks, and what is kept, count otherwise. -/
theorem begun_budget (s : Scanner) (width : Nat) (pending : List Token) :
    Scanner.budget { s.begun width with pending := pending } + 2 * s.indents.blocks.length +
        s.pending.length =
      s.budget + 2 * (Indentation.change s.indents.blocks width).2.length + pending.length := by
  have counted : Scanner.budget { s.begun width with pending := pending } =
      3 * s.rest.length + 2 * (s.begun width).indents.blocks.length + pending.length +
        (if s.lineHasContent then 2 else 0) + 3 := rfl
  rw [counted, blocks_begun, Scanner.budget]
  omega

/-- A line that is indented has passed a blank, which pays for the block that it opens. -/
theorem stepAtIndentation_spends {width : Nat} (le : s.budget ≤ budget)
    (paid : 0 < width → s.budget + 3 ≤ budget) :
    Spends budget (s.stepAtIndentation width).1 (s.stepAtIndentation width).2 := by
  unfold stepAtIndentation
  split
  · exact finish_spends le
  · split
    · exact passTrivia_spends le _ (comment_le _)
    · split
      · exact passTrivia_spends le _ (lineBreak_le _)
      · rw [s.indents.change_fst]
        split
        · rename_i stays
          refine stepInLine_spends ?_
          have begun : (s.begun width).budget + _ + _ = _ := begun_budget s width s.pending
          rw [change_stays stays] at begun
          omega
        · rename_i opens
          obtain ⟨wide, length⟩ := change_opens opens
          have paid := paid wide
          refine .of_token fun _ => ?_
          have begun : (s.begun width).budget + _ + _ = _ := begun_budget s width s.pending
          rw [length] at begun
          dsimp only
          omega
        · rename_i count closes
          obtain ⟨pos, length⟩ := change_closes closes
          refine .of_token fun _ => ?_
          have begun := begun_budget s width
            (s.pending ++ List.replicate (count - 1) (s.mark .dedent))
          rw [List.length_append, List.length_replicate] at begun
          dsimp only at begun ⊢
          omega
        · exact .of_fault

theorem stepAtLineStart_spends (le : s.budget ≤ budget) :
    Spends budget s.stepAtLineStart.1 s.stepAtLineStart.2 := by
  have skipped := skip_budget (spaces_le s.rest)
  unfold stepAtLineStart
  dsimp only
  refine (stepAtIndentation_spends (by omega) fun wide => ?_).after _
  have pos : 0 < Lexeme.spaces s.rest := by
    rcases Nat.eq_zero_or_pos (Lexeme.spaces s.rest) with none | pos
    · simp [none, Indentation.width] at wide
    · exact pos
  omega

/-- **A step that finds a token lowers the budget**, and one that passes trivia does not raise
it. -/
theorem step_spends (le : s.budget ≤ budget) : Spends budget s.step.1 s.step.2 := by
  unfold step
  split
  · exact stepAtLineStart_spends le
  · exact stepInLine_spends le

/-! ### Tokens -/

theorem read_spends {bound : List Char} {trivia : List Trivia} {token : Token} {t : Scanner}
    (le : s.budget ≤ budget) (result : read bound trivia s = (.ok token, t))
    (ne : token.kind ≠ .eof) : t.budget < budget := by
  have step := step_spends le
  induction bound generalizing trivia s with
  | nil =>
      unfold read at result
      cases eq : s.step with
      | mk found u =>
          rw [eq] at result step
          cases found with
          | token pieces last =>
              cases result
              exact step.token pieces last rfl ne
          | fault _ _ => cases result
          | trivia _ => cases result
  | cons c bound ih =>
      unfold read at result
      cases eq : s.step with
      | mk found u =>
          rw [eq] at result step
          cases found with
          | token pieces last =>
              cases result
              exact step.token pieces last rfl ne
          | fault _ _ => cases result
          | trivia pieces =>
              have le' := step.trivia pieces rfl
              exact ih le' result (step_spends le')

/-- **Moving to the next token lowers the budget**, until the end of the text. -/
theorem advance_spends {t : Scanner} (running : s.current.kind ≠ .eof)
    (moved : s.advance = (none, t)) (ne : t.current.kind ≠ .eof) : t.budget < s.budget := by
  unfold advance at moved
  rw [if_neg running] at moved
  split at moved
  · rename_i token u step
    cases moved
    change u.budget < s.budget
    unfold next at step
    split at step
    · rename_i first pending kept
      cases step
      simp only [Scanner.budget, kept, List.length_cons]
      omega
    · exact read_spends (Nat.le_refl _) step ne
  · cases moved

/-! ### Trivia -/

/-- After a step that passes only trivia, fewer characters are left. -/
def Shortens (limit : Nat) (found : Found) (t : Scanner) : Prop :=
  ∀ pieces, found = .trivia pieces → t.rest.length < limit

theorem Shortens.of_token {limit : Nat} {pieces : List Trivia} {token : Token} {t : Scanner} :
    Shortens limit (.token pieces token) t := by
  simp [Shortens]

theorem Shortens.of_fault {limit : Nat} {cause : LexicalFault} {position : Nat} {t : Scanner} :
    Shortens limit (.fault cause position) t := by
  simp [Shortens]

theorem finish_shortens {limit : Nat} : Shortens limit s.finish.1 s.finish.2 := by
  unfold finish
  dsimp only
  split
  · exact .of_token
  · split <;> exact .of_token

theorem passTrivia_shortens {limit : Nat} (le : s.rest.length ≤ limit) (kind : TriviaKind)
    {count : Nat} (pos : 0 < count) (left : s.rest ≠ []) :
    Shortens limit (s.passTrivia kind count).1 (s.passTrivia kind count).2 := by
  have some_left := List.length_pos_iff.2 left
  intro _ _
  simp only [passTrivia, skip, List.length_drop]
  omega

theorem comment_pos {more : List Char} : 0 < Lexeme.comment ('#' :: more) := by
  simp [Lexeme.comment, Lexeme.isLineEnd]

theorem stepInLine_shortens {limit : Nat} (le : s.rest.length ≤ limit) :
    Shortens limit s.stepInLine.1 s.stepInLine.2 := by
  unfold stepInLine
  split
  · exact finish_shortens
  · rename_i c rest split
    have left : s.rest ≠ [] := by simp [split]
    split
    · rename_i space
      exact passTrivia_shortens le _ (spaces_pos split space) left
    · split
      · rename_i mark
        subst mark
        have pos : 0 < Lexeme.comment s.rest := split ▸ comment_pos
        split
        · split
          · exact .of_token
          · exact passTrivia_shortens le _ pos left
        · exact passTrivia_shortens le _ pos left
      · split
        · exact passTrivia_shortens le _ (by omega) left
        · split
          · rename_i ends
            dsimp only
            split
            · exact passTrivia_shortens le _ (lineBreak_pos split ends) left
            · exact .of_token
          · unfold readToken
            dsimp only
            split
            · exact .of_fault
            · exact .of_token

theorem stepAtIndentation_shortens (width : Nat) {limit : Nat} (le : s.rest.length ≤ limit) :
    Shortens limit (s.stepAtIndentation width).1 (s.stepAtIndentation width).2 := by
  unfold stepAtIndentation
  split
  · exact finish_shortens
  · rename_i c rest split
    have left : s.rest ≠ [] := by simp [split]
    split
    · rename_i mark
      subst mark
      exact passTrivia_shortens le _ (split ▸ comment_pos) left
    · split
      · rename_i ends
        exact passTrivia_shortens le _ (lineBreak_pos split ends) left
      · dsimp only
        split
        · exact stepInLine_shortens le
        · exact .of_token
        · exact .of_token
        · exact .of_fault

/-- **A step that passes only trivia passes a character.** -/
theorem step_shortens (s : Scanner) : Shortens s.rest.length s.step.1 s.step.2 := by
  unfold step
  split
  · unfold stepAtLineStart
    have fewer : (s.skip (Lexeme.spaces s.rest)).rest.length ≤ s.rest.length := by
      simp [skip]
    have shortens := stepAtIndentation_shortens
      (Indentation.width s.options.tabSize (s.rest.take (Lexeme.spaces s.rest))) fewer
    intro pieces found
    dsimp only at found ⊢
    generalize (s.skip (Lexeme.spaces s.rest)).stepAtIndentation
      (Indentation.width s.options.tabSize (s.rest.take (Lexeme.spaces s.rest))) = stepped
      at found shortens ⊢
    obtain ⟨inner, t⟩ := stepped
    cases inner with
    | trivia more => exact shortens more rfl
    | token _ _ => cases found
    | fault _ _ => cases found
  · exact stepInLine_shortens (Nat.le_refl _)

/-- The characters that are left bound the steps to the next token. -/
theorem read_ne_exhausted {bound : List Char} {trivia : List Trivia} {error : SyntaxError}
    {t : Scanner} (enough : s.rest.length ≤ bound.length)
    (result : read bound trivia s = (.error error, t)) : error.cause ≠ .exhausted := by
  have shortens := s.step_shortens
  induction bound generalizing trivia s with
  | nil =>
      unfold read at result
      cases eq : s.step with
      | mk found u =>
          rw [eq] at result shortens
          cases found with
          | token _ _ => cases result
          | fault _ _ =>
              cases result
              simp
          | trivia pieces =>
              have fewer := shortens pieces rfl
              simp only [List.length_nil] at enough
              omega
  | cons c bound ih =>
      unfold read at result
      cases eq : s.step with
      | mk found u =>
          rw [eq] at result shortens
          cases found with
          | token _ _ => cases result
          | fault _ _ =>
              cases result
              simp
          | trivia pieces =>
              have fewer : u.rest.length < s.rest.length := shortens pieces rfl
              rw [List.length_cons] at enough
              exact ih (by omega) result u.step_shortens

/-- **Moving to the next token never takes too many steps.** -/
theorem advance_ne_exhausted {error : SyntaxError} {t : Scanner}
    (failed : s.advance = (some error, t)) : error.cause ≠ .exhausted := by
  unfold advance at failed
  split at failed
  · cases failed
  · split at failed
    · cases failed
    · rename_i step
      cases failed
      unfold next at step
      split at step
      · cases step
      · exact read_ne_exhausted (Nat.le_refl _) step

theorem budget_pos (s : Scanner) : 2 < s.budget := by
  unfold Scanner.budget
  omega

/-- **The tokens up to the end of the text are found within the budget**, if moving from one to the
next never fails. -/
theorem tokensFrom_eq {fuel : Nat} {tokens : List Token} {t : Scanner}
    (path : Path s tokens t) (ended : t.current.kind = .eof)
    (running : ∀ token ∈ tokens, token.kind ≠ .eof) (enough : 1 < fuel)
    (within : s.current.kind ≠ .eof → s.budget ≤ fuel) :
    s.tokensFrom fuel = .ok (tokens ++ [t.current]) := by
  induction path generalizing fuel with
  | nil c =>
      obtain ⟨fuel, rfl⟩ : ∃ n, fuel = n + 1 := ⟨fuel - 1, by omega⟩
      rw [tokensFrom, if_pos ended]
      rfl
  | @cons s t' t token tokens here moved rest ih =>
      have going : s.current.kind ≠ .eof := by
        have first := running token List.mem_cons_self
        rwa [← here] at first
      have pos := s.budget_pos
      have within := within going
      obtain ⟨fuel, rfl⟩ : ∃ n, fuel = n + 1 := ⟨fuel - 1, by omega⟩
      have others : t'.tokensFrom fuel = .ok (tokens ++ [t.current]) := by
        refine ih ended (fun token mem => running token (List.mem_cons_of_mem _ mem)) (by omega) ?_
        intro ne
        have spent := advance_spends going moved ne
        omega
      have moved : s.advance = (none, t') := moved
      have here : s.current = token := here
      rw [tokensFrom, if_neg going, moved]
      simp only [others, Except.map, here, List.cons_append]

/-- The tokens that are found are passed on the way to the end of the text. -/
theorem exists_path_of_tokensFrom {fuel : Nat} {all : List Token}
    (h : s.tokensFrom fuel = .ok all) :
    ∃ tokens t, Path s tokens t ∧ t.current.kind = .eof ∧ (∀ token ∈ tokens, token.kind ≠ .eof) ∧
      all = tokens ++ [t.current] := by
  induction fuel generalizing s all with
  | zero => cases h
  | succ fuel ih =>
      unfold tokensFrom at h
      split at h
      · rename_i ended
        cases h
        exact ⟨[], s, .nil _, ended, fun _ mem => absurd mem List.not_mem_nil, rfl⟩
      · rename_i going
        split at h
        · cases h
        · rename_i next moved
          cases later : next.tokensFrom fuel with
          | error _ => simp [later, Except.map] at h
          | ok others =>
              simp only [later, Except.map, Except.ok.injEq] at h
              obtain ⟨tokens, t, path, ended, running, rfl⟩ := ih later
              exact ⟨s.current :: tokens, t, .cons rfl moved path, ended,
                List.forall_mem_cons.2 ⟨going, running⟩, h.symm⟩

/-- The current token is the first of those that are found from it. -/
theorem tokensFrom_cons {fuel : Nat} {all : List Token} (h : s.tokensFrom fuel = .ok all) :
    ∃ rest, all = s.current :: rest := by
  obtain ⟨tokens, t, path, -, -, rfl⟩ := exists_path_of_tokensFrom h
  cases path with
  | nil => exact ⟨[], rfl⟩
  | cons here _ _ => exact ⟨_, congrArg (· :: _) here.symm⟩

/-- **Tokens that are passed are the first ones of all**, if none of them marks the end of the
text; the one on which the scanner then stands comes next. -/
theorem tokensFrom_prefix {fuel : Nat} {tokens all : List Token} {t : Scanner}
    (path : Path s tokens t) (running : ∀ token ∈ tokens, token.kind ≠ .eof)
    (h : s.tokensFrom fuel = .ok all) : ∃ rest, all = tokens ++ t.current :: rest := by
  induction path generalizing fuel all with
  | nil c => exact tokensFrom_cons h
  | @cons s t' t token tokens here moved rest ih =>
      have going : s.current.kind ≠ .eof := by
        have first := running token List.mem_cons_self
        rwa [← here] at first
      have here : s.current = token := here
      have moved : s.advance = (none, t') := moved
      cases fuel with
      | zero => cases h
      | succ fuel =>
          rw [tokensFrom, if_neg going, moved] at h
          cases later : t'.tokensFrom fuel with
          | error _ => simp [later, Except.map] at h
          | ok others =>
              simp only [later, Except.map, Except.ok.injEq, here] at h
              obtain ⟨more, eq⟩ :=
                ih (fun token mem => running token (List.mem_cons_of_mem _ mem)) later
              exact ⟨more, by rw [← h, eq, List.cons_append]⟩

end Scanner

/-- **The tokens of a text** are passed from its first token to its end. -/
theorem tokenize_eq_ok_iff {options : Options} {text : List Char} {all : List Token} :
    tokenize options text = .ok all ↔ ∃ scanner tokens t,
      Scanner.ofText options text = .ok scanner ∧ Path scanner tokens t ∧ t.current.kind = .eof ∧
        (∀ token ∈ tokens, token.kind ≠ .eof) ∧ all = tokens ++ [t.current] := by
  unfold tokenize
  constructor
  · intro h
    cases opened : Scanner.ofText options text with
    | error _ => simp [opened, bind, Except.bind] at h
    | ok scanner =>
        simp only [opened, bind, Except.bind] at h
        obtain ⟨tokens, t, path⟩ := Scanner.exists_path_of_tokensFrom h
        exact ⟨scanner, tokens, t, rfl, path⟩
  · rintro ⟨scanner, tokens, t, opened, path, ended, running, rfl⟩
    have pos := scanner.budget_pos
    have found := Scanner.tokensFrom_eq path ended running (by omega) fun _ => Nat.le_refl _
    simp only [opened, bind, Except.bind, found]

/-- What is computed of a result holds of it. -/
theorem exists_ok_of_any {α : Type} {result : Except SyntaxError α} {check : α → Bool}
    (h : result.toOption.any check = true) : ∃ value, result = .ok value ∧ check value = true := by
  cases result with
  | error _ => cases h
  | ok value => exact ⟨value, rfl, h⟩

/-- What is computed of an error holds of it. -/
theorem exists_error_of_any {α : Type} {result : Except SyntaxError α}
    {check : SyntaxError → Bool}
    (h : (match result with | .ok _ => false | .error error => check error) = true) :
    ∃ error, result = .error error ∧ check error = true := by
  cases result with
  | ok _ => cases h
  | error error => exact ⟨error, rfl, h⟩

end PythonSyntax
