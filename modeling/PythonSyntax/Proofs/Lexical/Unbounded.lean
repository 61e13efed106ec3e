/-
**The bounds on scanning do not matter.**

The scanner counts the steps to the next token by the characters that were left, and the tokens of a
text by its budget.  Neither bound is ever reached, so both can be forgotten: reading a token is one
step, and after trivia reading again; the tokens of a text are the current one, and then those after
it.

Main definitions:

* `PythonSyntax.Scanner.readFrom`, `PythonSyntax.Scanner.tokens` — reading a token, and all tokens,
  with bounds that suffice.

Main results:

* `PythonSyntax.Scanner.read_of_le`, `PythonSyntax.Scanner.tokensFrom_of_le` — **larger bounds change
  nothing**;
* `PythonSyntax.Scanner.readFrom_eq`, `PythonSyntax.Scanner.tokens_eq` — the equations without
  bounds;
* `PythonSyntax.Scanner.advance_induction` — the end of the text comes.
-/

import PythonSyntax.Proofs.Lexical.Budget

set_option autoImplicit false

namespace PythonSyntax

namespace Scanner

variable {s t : Scanner} {trivia pieces : List Trivia}

/-! ### Steps -/

theorem rest_lt_of_step (stepped : s.step = (.trivia pieces, t)) :
    t.rest.length < s.rest.length := by
  have shortens := s.step_shortens
  rw [stepped] at shortens
  exact shortens pieces rfl

/-- Bounds that are not smaller than what is left give the same token. -/
theorem read_of_le {bound bound' : List Char} (enough : s.rest.length ≤ bound.length)
    (enough' : s.rest.length ≤ bound'.length) : read bound trivia s = read bound' trivia s := by
  induction bound generalizing bound' trivia s with
  | nil =>
      unfold read
      cases eq : s.step with
      | mk found t =>
          cases found with
          | token _ _ => rfl
          | fault _ _ => rfl
          | trivia pieces =>
              have fewer := rest_lt_of_step eq
              rw [List.length_nil] at enough
              omega
  | cons c bound ih =>
      unfold read
      cases eq : s.step with
      | mk found t =>
          cases found with
          | token _ _ => rfl
          | fault _ _ => rfl
          | trivia pieces =>
              have fewer := rest_lt_of_step eq
              rw [List.length_cons] at enough
              cases bound' with
              | nil =>
                  rw [List.length_nil] at enough'
                  omega
              | cons c' bound' =>
                  rw [List.length_cons] at enough'
                  exact ih (by omega) (by omega)

/-- Reading the next token off the text, after some trivia. -/
def readFrom (s : Scanner) (trivia : List Trivia) : Except SyntaxError Token × Scanner :=
  read s.rest trivia s

theorem next_of_quiet (quiet : s.pending = []) : s.next = s.readFrom [] := by
  rw [next, quiet]
  rfl

/-- **Reading a token is one step, and after trivia reading again.** -/
theorem readFrom_eq (s : Scanner) (trivia : List Trivia) :
    s.readFrom trivia = match s.step with
      | (.token pieces token, t) => (.ok (token.withTrivia (trivia ++ pieces)), t)
      | (.fault fault position, t) => (.error ⟨.lexical fault, position⟩, t)
      | (.trivia pieces, t) => t.readFrom (trivia ++ pieces) := by
  change read s.rest trivia s = _
  unfold read
  cases eq : s.step with
  | mk found t =>
      cases found with
      | token _ _ => rfl
      | fault _ _ => rfl
      | trivia pieces =>
          have fewer := rest_lt_of_step eq
          cases left : s.rest with
          | nil =>
              rw [left, List.length_nil] at fewer
              omega
          | cons c rest =>
              rw [left, List.length_cons] at fewer
              exact read_of_le (by omega) (Nat.le_refl _)

/-! ### Tokens -/

/-- Bounds that are not smaller than the budget give the same tokens. -/
theorem tokensFrom_of_le {fuel fuel' : Nat} (some : 1 < fuel) (some' : 1 < fuel')
    (enough : s.current.kind ≠ .eof → s.budget ≤ fuel)
    (enough' : s.current.kind ≠ .eof → s.budget ≤ fuel') :
    s.tokensFrom fuel = s.tokensFrom fuel' := by
  induction fuel generalizing s fuel' with
  | zero => exact absurd some (Nat.not_lt_zero 1)
  | succ fuel ih =>
      obtain ⟨fuel', rfl⟩ : ∃ n, fuel' = n + 1 := ⟨fuel' - 1, by omega⟩
      unfold tokensFrom
      by_cases ended : s.current.kind = .eof
      · rw [if_pos ended, if_pos ended]
      · rw [if_neg ended, if_neg ended]
        have pos := s.budget_pos
        have enough := enough ended
        have enough' := enough' ended
        cases moved : s.advance with
        | mk error t =>
            cases error with
            | some _ => rfl
            | none =>
                have spent := fun ne => advance_spends ended moved ne
                have same : t.tokensFrom fuel = t.tokensFrom fuel' := ih (by omega) (by omega)
                  (fun ne => by have := spent ne; omega) (fun ne => by have := spent ne; omega)
                exact congrArg (Except.map (s.current :: ·)) same

/-- **What follows from the same of the next token holds everywhere**, since the end of the text
comes. -/
theorem advance_induction {P : Scanner → Prop}
    (step : ∀ s, (∀ t, s.current.kind ≠ .eof → s.advance = (none, t) → P t) → P s)
    (s : Scanner) : P s := by
  induction left : (if s.current.kind = .eof then 0 else s.budget) using Nat.strongRecOn
    generalizing s with
  | ind left ih =>
      refine step s fun t running moved => ih _ ?_ t rfl
      rw [← left, if_neg running]
      have pos := s.budget_pos
      split
      · omega
      · rename_i running'
        exact advance_spends running moved running'

/-- The current token and all those after it. -/
def tokens (s : Scanner) : Except SyntaxError (List Token) := s.tokensFrom s.budget

/-- **The tokens are the current one, and then those after it.** -/
theorem tokens_eq (s : Scanner) :
    s.tokens = if s.current.kind = .eof then .ok [s.current]
      else match s.advance with
        | (some error, _) => .error error
        | (none, t) => t.tokens.map (s.current :: ·) := by
  have pos := s.budget_pos
  obtain ⟨fuel, eq⟩ : ∃ n, s.budget = n + 1 := ⟨s.budget - 1, by omega⟩
  unfold tokens
  rw [eq, tokensFrom]
  by_cases ended : s.current.kind = .eof
  · rw [if_pos ended, if_pos ended]
  · rw [if_neg ended, if_neg ended]
    cases moved : s.advance with
    | mk error t =>
        cases error with
        | some _ => rfl
        | none =>
            have pos' := t.budget_pos
            have spent := fun ne => advance_spends ended moved ne
            have same : t.tokensFrom fuel = t.tokensFrom t.budget := tokensFrom_of_le (by omega)
              (by omega) (fun ne => by have := spent ne; omega) fun _ => Nat.le_refl _
            exact congrArg (Except.map (s.current :: ·)) same

end Scanner

/-- The tokens of a text are those from its first one on. -/
theorem tokenize_eq (options : Options) (text : List Char) :
    tokenize options text = (Scanner.ofText options text).bind Scanner.tokens := rfl

end PythonSyntax
