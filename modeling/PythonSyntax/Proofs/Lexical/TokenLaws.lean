/-
**What holds of every token.**

A token is read off a text, or it marks where lines and blocks begin and end, or it is a type
comment.  What holds of tokens of each of these sorts, whatever trivia stands before them, thus
holds of every token that is delivered.

Main definitions:

* `PythonSyntax.TokenLaw` — what holds of tokens of each sort;
* `PythonSyntax.Found.Obeys` — what holds of the token that is found, if one is.

Main results:

* `PythonSyntax.TokenLaw.step` — it holds of the token that a step finds;
* `PythonSyntax.TokenLaw.of_path`, `PythonSyntax.TokenLaw.of_tokenize` — **it holds of every
  token**.
-/

import PythonSyntax.Proofs.Lexical.Acts

set_option autoImplicit false

namespace PythonSyntax

/-- What holds of every token that is read where no blank and no line end stands, of those that mark
lines and blocks, and of type comments, whatever trivia stands before them. -/
structure TokenLaw (P : Token → Prop) : Prop where
  layout : ∀ {token : Token}, token.kind.isLayout = true → P token
  typeComment : ∀ {token : Token}, token.kind = .typeComment → P token
  reads : ∀ {s : Scanner} {c : Char} {rest : List Char}, s.rest = c :: rest →
    Lexeme.isLineEnd c = false → (Lexeme.read s.rest).fault = none →
      P (s.lexeme (Lexeme.read s.rest).kind (Lexeme.read s.rest).length)
  withTrivia : ∀ {token : Token} (pieces : List Trivia), P token → P (token.withTrivia pieces)

/-- It holds of the token that is found, if one is. -/
def Found.Obeys (P : Token → Prop) : Found → Prop
  | .token _ found => P found
  | _ => True

theorem Found.Obeys.after {P : Token → Prop} {found : Found} (h : found.Obeys P)
    (pieces : List Trivia) : (found.after pieces).Obeys P := by
  cases found <;> exact h

namespace TokenLaw

open Scanner

variable {P : Token → Prop} {s t : Scanner}

/-! ### Steps -/

theorem finish (law : TokenLaw P) (s : Scanner) : s.finish.1.Obeys P := by
  unfold Scanner.finish
  dsimp only
  split
  · exact law.layout rfl
  · cases s.indents.blocks.length <;> exact law.layout rfl

theorem stepInLine (law : TokenLaw P) (s : Scanner) : s.stepInLine.1.Obeys P := by
  cases front : s.rest with
  | nil =>
      unfold Scanner.stepInLine
      rw [front]
      exact law.finish s
  | cons c rest =>
      rw [stepInLine_of_cons front]
      split
      · trivial
      split
      · split
        · split
          · exact law.typeComment rfl
          · trivial
        · trivial
      split
      · trivial
      split
      · split
        · trivial
        · exact law.layout rfl
      · rename_i inLine
        unfold Scanner.readToken
        dsimp only
        split
        · trivial
        · rename_i formed
          exact law.reads front (by simpa using inLine) formed

theorem stepAtIndentation (law : TokenLaw P) (s : Scanner) (width : Nat) :
    (s.stepAtIndentation width).1.Obeys P := by
  cases front : s.rest with
  | nil =>
      unfold Scanner.stepAtIndentation
      rw [front]
      exact law.finish s
  | cons c rest =>
      rw [stepAtIndentation_of_cons front]
      split
      · trivial
      split
      · trivial
      split
      · exact law.stepInLine _
      · exact law.layout rfl
      · exact law.layout rfl
      · trivial

/-- **It holds of the token that a step finds.** -/
theorem step (law : TokenLaw P) (s : Scanner) : s.step.1.Obeys P := by
  unfold Scanner.step
  split
  · exact (law.stepAtIndentation _ _).after _
  · exact law.stepInLine s

/-! ### Tokens -/

theorem next {token : Token} (law : TokenLaw P)
    (marks : ∀ token ∈ s.pending, token.kind = .dedent ∨ token.kind = .eof)
    (result : s.next = (.ok token, t)) : P token := by
  unfold Scanner.next at result
  split at result
  · rename_i first pending kept
    cases result
    refine law.layout ?_
    rcases marks token (kept ▸ List.mem_cons_self) with mark | mark <;> rw [mark] <;> rfl
  · obtain ⟨u, pieces, last, front, -, stepped, rfl⟩ := exists_step_of_read result
    have obeys := law.step u
    rw [stepped] at obeys
    exact law.withTrivia _ obeys

theorem advance (law : TokenLaw P) (h : s.Ready) (here : P s.current)
    (moved : s.advance = (none, t)) : P t.current := by
  unfold Scanner.advance at moved
  split at moved
  · cases moved
    exact here
  · split at moved
    · rename_i token u found
      cases moved
      exact law.next h.kept found
    · cases moved

theorem ofText {options : Options} {text : List Char} (law : TokenLaw P)
    (opened : ofText options text = .ok s) : P s.current := by
  unfold Scanner.ofText at opened
  split at opened
  · rename_i token u found
    cases opened
    exact law.next (by simp [initial]) found
  · cases opened

/-- **It holds of every token that is delivered.** -/
theorem of_path {options : Options} {text : List Char} {tokens : List Token} (law : TokenLaw P)
    (opened : Scanner.ofText options text = .ok s) (path : Path s tokens t) :
    ∀ token ∈ tokens ++ [t.current], P token := by
  have ready := (ofText_steps opened).ready
  have first := law.ofText opened
  clear opened
  induction path with
  | nil => simpa using first
  | @cons s next t token tokens here moved rest ih =>
      have here : s.current = token := here
      subst here
      exact List.forall_mem_cons.2 ⟨first, ih (ready.of_advance moved)
        (law.advance ready first moved)⟩

/-- **It holds of every token of a text.** -/
theorem of_tokenize {options : Options} {text : List Char} {tokens : List Token}
    (law : TokenLaw P) (read : tokenize options text = .ok tokens) : ∀ token ∈ tokens, P token := by
  obtain ⟨scanner, front, t, opened, path, -, -, rfl⟩ := tokenize_eq_ok_iff.1 read
  exact law.of_path opened path

end TokenLaw

end PythonSyntax
