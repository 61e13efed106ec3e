/-
**Type comments as tokens, or between tokens.**

Whether a comment that declares a type is a token is an option.  With the option or without it the
scanner passes the same characters: what is a token in one case is a comment between tokens in the
other.  So the tokens without the option are those with it, but for type comments; what stands before
a type comment, and the comment, stand before the token that comes after it.

Main definitions:

* `PythonSyntax.Options.untyped`, `PythonSyntax.Scanner.untyped` — without type comments as tokens;
* `PythonSyntax.Token.asComment` — a type comment as a comment between tokens;
* `PythonSyntax.foldComments` — tokens with the type comments between them;
* `PythonSyntax.leftover` — what the type comments among some tokens leave to the token after these.

Main results:

* `PythonSyntax.foldComments_append` — tokens in a row;
* `PythonSyntax.Scanner.step_untyped` — a step without the option is the step with it;
* `PythonSyntax.Scanner.tokens_untyped`, `PythonSyntax.tokenize_untyped` — **the tokens without the
  option**.
-/

import PythonSyntax.Proofs.Lexical.Finds
import PythonSyntax.Proofs.Lexical.Unbounded

set_option autoImplicit false

namespace PythonSyntax

/-! ### Comments among tokens -/

/-- The options without type comments as tokens. -/
def Options.untyped (options : Options) : Options := { options with typeComments := false }

namespace Token

/-- A type comment as a comment between tokens. -/
def asComment (token : Token) : Trivia := ⟨token.start, token.stop, .comment, token.text⟩

/-- What a token leaves to the one after it if `before` has been left to it: a type comment leaves
what stands before it, and itself. -/
def leaves (before : List Trivia) (token : Token) : List Trivia :=
  if token.kind = .typeComment then before ++ token.trivia ++ [token.asComment] else []

/-- The token behind further trivia. -/
def behind (before : List Trivia) (token : Token) : Token :=
  token.withTrivia (before ++ token.trivia)

@[simp] theorem behind_nil (token : Token) : token.behind [] = token := rfl

@[simp] theorem kind_behind (before : List Trivia) (token : Token) :
    (token.behind before).kind = token.kind := rfl

theorem leaves_behind (before : List Trivia) (token : Token) :
    (token.behind before).leaves [] = token.leaves before := rfl

@[simp] theorem spells_behind (before : List Trivia) (token : Token) (word : String) :
    (token.behind before).spells word = token.spells word := rfl

end Token

/-- What the type comments among some tokens leave to the token after them, if `before` has been
left to the first. -/
def leftover (before : List Trivia) (tokens : List Token) : List Trivia :=
  tokens.foldl Token.leaves before

/-- The tokens that are no type comments, each behind what those before it have left; `before` has
been left to the first. -/
def foldComments : List Trivia → List Token → List Token
  | _, [] => []
  | before, token :: rest =>
    if token.kind = .typeComment then foldComments (token.leaves before) rest
    else token.behind before :: foldComments [] rest

section

variable {before : List Trivia} {token : Token}

theorem foldComments_cons_of_eq (typed : token.kind = .typeComment) (rest : List Token) :
    foldComments before (token :: rest) = foldComments (token.leaves before) rest := by
  rw [foldComments, if_pos typed]

theorem foldComments_cons_of_ne (other : token.kind ≠ .typeComment) (rest : List Token) :
    foldComments before (token :: rest) = token.behind before :: foldComments [] rest := by
  rw [foldComments, if_neg other]

theorem Token.leaves_of_ne (other : token.kind ≠ .typeComment) : token.leaves before = [] :=
  if_neg other

theorem leftover_append (before : List Trivia) (first second : List Token) :
    leftover before (first ++ second) = leftover (leftover before first) second :=
  List.foldl_append

/-- **What the first of two rows of tokens leaves stands before the second.** -/
theorem foldComments_append (before : List Trivia) (first second : List Token) :
    foldComments before (first ++ second) =
      foldComments before first ++ foldComments (leftover before first) second := by
  induction first generalizing before with
  | nil => rfl
  | cons token first ih =>
      rw [List.cons_append, leftover, List.foldl_cons]
      by_cases typed : token.kind = .typeComment
      · rw [foldComments_cons_of_eq typed, foldComments_cons_of_eq typed]
        exact ih _
      · rw [foldComments_cons_of_ne typed, foldComments_cons_of_ne typed, List.cons_append,
          Token.leaves_of_ne typed]
        exact congrArg (_ :: ·) (ih [])

end

/-! ### Steps -/

/-- What is found if type comments stand between tokens. -/
def Found.untyped : Found → Found
  | .token pieces last =>
    if last.kind = .typeComment then .trivia (pieces ++ [last.asComment]) else .token pieces last
  | found => found

namespace Found

theorem untyped_token {pieces : List Trivia} {last : Token} (other : last.kind ≠ .typeComment) :
    (token pieces last).untyped = token pieces last := if_neg other

theorem untyped_after (found : Found) (pieces : List Trivia) :
    (found.after pieces).untyped = found.untyped.after pieces := by
  cases found with
  | trivia _ | fault _ _ => rfl
  | token more last =>
      unfold after untyped
      dsimp only
      split
      · rw [List.append_assoc]
      · rfl

end Found

namespace Scanner

variable {s t : Scanner}

/-- The scanner without type comments as tokens, on another token. -/
def untyped (current : Token) (s : Scanner) : Scanner :=
  { s with options := s.options.untyped, current := current }

/-- What a step comes to without type comments as tokens. -/
def untypedStep (current : Token) (step : Found × Scanner) : Found × Scanner :=
  (step.1.untyped, step.2.untyped current)

variable (current : Token)

theorem finish_untyped (s : Scanner) :
    (s.untyped current).finish = untypedStep current s.finish := by
  have same : (s.untyped current).indents.blocks = s.indents.blocks := rfl
  unfold finish
  rw [same]
  dsimp only
  change (if s.lineHasContent = true then _ else _) = _
  split
  · rfl
  · cases s.indents.blocks <;> rfl

theorem readToken_untyped (left : s.rest ≠ []) :
    (s.untyped current).readToken = untypedStep current s.readToken := by
  have sits := Lexeme.read_sits left
  unfold readToken
  have same : (s.untyped current).rest = s.rest := rfl
  simp only [same]
  cases (Lexeme.read s.rest).fault with
  | some fault => rfl
  | none =>
      have other : (s.lexeme (Lexeme.read s.rest).kind (Lexeme.read s.rest).length).kind ≠
          .typeComment := fun typed => sits.notLayout (by
        change (Lexeme.read s.rest).kind = _ at typed
        simp [typed])
      exact Prod.ext (Found.untyped_token other).symm rfl

/-- **A type comment is the comment that is passed otherwise.** -/
theorem stepInLine_untyped (s : Scanner) :
    (s.untyped current).stepInLine = untypedStep current s.stepInLine := by
  cases front : s.rest with
  | nil =>
      have front' : (s.untyped current).rest = [] := front
      unfold stepInLine
      rw [front, front']
      exact finish_untyped current s
  | cons c rest =>
      have front' : (s.untyped current).rest = c :: rest := front
      rw [stepInLine_of_cons front, stepInLine_of_cons front']
      by_cases space : Lexeme.isSpace c = true
      · rw [if_pos space, if_pos space]
        rfl
      rw [if_neg space, if_neg space]
      by_cases mark : c = '#'
      · rw [if_pos mark, if_pos mark]
        have same : (s.untyped current).rest = s.rest := rfl
        rw [same]
        cases found : Lexeme.typeComment? s.rest with
        | none => rfl
        | some count =>
            dsimp only
            split
            · rename_i typed
              exact absurd typed Bool.false_ne_true
            · split
              · rw [typeComment?_eq found]
                rfl
              · rfl
      rw [if_neg mark, if_neg mark]
      split
      · rfl
      split
      · change (if 0 < s.nesting || !s.lineHasContent then _ else _) = _
        split <;> rfl
      · exact readToken_untyped current (by simp [front])

theorem stepAtIndentation_untyped (s : Scanner) (width : Nat) :
    (s.untyped current).stepAtIndentation width =
      untypedStep current (s.stepAtIndentation width) := by
  cases front : s.rest with
  | nil =>
      have front' : (s.untyped current).rest = [] := front
      unfold stepAtIndentation
      rw [front, front']
      exact finish_untyped current s
  | cons c rest =>
      have front' : (s.untyped current).rest = c :: rest := front
      rw [stepAtIndentation_of_cons front, stepAtIndentation_of_cons front']
      split
      · rfl
      split
      · rfl
      have blocks : (s.untyped current).indents.blocks = s.indents.blocks := rfl
      rw [blocks]
      cases (Indentation.change s.indents.blocks width).1 with
      | stays => exact stepInLine_untyped current (s.begun width)
      | opens | closes _ | unmatched => rfl

/-- **A step without type comments as tokens is the step with them**, but for a type comment that it
finds. -/
theorem step_untyped (s : Scanner) : (s.untyped current).step = untypedStep current s.step := by
  unfold step
  change (if s.atLineStart && s.nesting = 0 then _ else _) = _
  split
  · change (Found.after _ (stepAtIndentation (untyped current (s.skip _)) _).1,
      (stepAtIndentation (untyped current (s.skip _)) _).2) = _
    rw [stepAtIndentation_untyped]
    exact Prod.ext (Found.untyped_after _ _).symm rfl
  · exact stepInLine_untyped current s

/-! ### Tokens -/

/-- What has been passed before stands before the token. -/
theorem readFrom_behind (s : Scanner) (before trivia : List Trivia) :
    s.readFrom (before ++ trivia) =
      ((s.readFrom trivia).1.map (Token.behind before), (s.readFrom trivia).2) := by
  induction left : s.rest.length using Nat.strongRecOn generalizing s trivia with
  | ind left ih =>
      rw [readFrom_eq, readFrom_eq s trivia]
      cases stepped : s.step with
      | mk found t =>
          cases found with
          | token pieces token =>
              dsimp only
              rw [List.append_assoc]
              rfl
          | fault _ _ => rfl
          | trivia pieces =>
              dsimp only
              rw [List.append_assoc]
              exact ih _ (left ▸ rest_lt_of_step stepped) t _ rfl

/-- **Reading a token without type comments as tokens** goes on where a type comment is read with
them. -/
theorem readFrom_untyped (s : Scanner) (trivia : List Trivia) :
    (s.untyped current).readFrom trivia = match s.readFrom trivia with
      | (.ok token, t) =>
        if token.kind = .typeComment then (t.untyped current).readFrom (token.leaves [])
        else (.ok token, t.untyped current)
      | (.error error, t) => (.error error, t.untyped current) := by
  induction left : s.rest.length using Nat.strongRecOn generalizing s trivia with
  | ind left ih =>
      rw [readFrom_eq, step_untyped, readFrom_eq s]
      cases stepped : s.step with
      | mk found t =>
          cases found with
          | token pieces token =>
              by_cases typed : token.kind = .typeComment
              · have leaves : (token.withTrivia (trivia ++ pieces)).leaves [] =
                    trivia ++ (pieces ++ [token.asComment]) :=
                  (if_pos typed).trans (List.append_assoc trivia pieces [token.asComment])
                have found : untypedStep current (.token pieces token, t) =
                    (.trivia (pieces ++ [token.asComment]), t.untyped current) :=
                  Prod.ext (if_pos typed) rfl
                rw [found]
                change (t.untyped current).readFrom _ = if token.kind = .typeComment then _ else _
                rw [if_pos typed, leaves]
              · have found : untypedStep current (.token pieces token, t) =
                    (.token pieces token, t.untyped current) := Prod.ext (if_neg typed) rfl
                rw [found]
                exact (if_neg typed).symm
          | fault _ _ => rfl
          | trivia pieces => exact ih _ (left ▸ rest_lt_of_step stepped) t _ rfl

/-- Behind a type comment no tokens are kept. -/
theorem Finds.quiet {token : Token} (found : Finds s token t) (h : s.Settled)
    (quiet : s.pending = []) (typed : token.kind = .typeComment) : t.pending = [] := by
  induction found with
  | @token s t pieces token stepped =>
      -- The step passes a comment if type comments are no tokens.
      have settled : (s.untyped (Token.eof 0)).Settled := ⟨h.start, h.outside, h.kept, h.marks⟩
      have keeps := step_keeps settled quiet
      rw [step_untyped, stepped] at keeps
      exact (keeps.trivia _ (if_pos typed)).2
  | trivia stepped later ih =>
      have keeps := step_keeps h quiet
      rw [stepped] at keeps
      exact ih keeps.settled (keeps.trivia _ rfl).2 typed

/-- The tokens behind the current one, read off the text; `before` has been left to the first of
them. -/
def following (before : List Trivia) (s : Scanner) : Except SyntaxError (List Token) :=
  match s.readFrom before with
  | (.ok token, t) => { t with current := token }.tokens
  | (.error error, _) => .error error

theorem tokens_of_quiet (quiet : s.pending = []) (running : s.current.kind ≠ .eof) :
    s.tokens = (s.following []).map (s.current :: ·) := by
  rw [tokens_eq, if_neg running, advance, if_neg running, next_of_quiet quiet, following]
  cases s.readFrom [] with
  | mk result t => cases result <;> rfl

/-- The tokens of a scanner begin with the current one. -/
theorem head_of_tokens {tokens : List Token} (h : s.tokens = .ok tokens) :
    tokens = s.current :: tokens.drop 1 := by
  rw [tokens_eq] at h
  split at h
  · cases h
    rfl
  · split at h
    · cases h
    · rename_i t _
      cases behind : t.tokens with
      | error error =>
          rw [behind] at h
          cases h
      | ok rest =>
          rw [behind] at h
          cases h
          rfl

/-- The tokens without type comments are those with them, folded: behind a token that is none, and
behind a type comment. -/
structure Folds (s : Scanner) : Prop where
  onOther : s.current.kind ≠ .typeComment → ∀ token : Token, token.kind = s.current.kind →
    (s.untyped token).tokens =
      s.tokens.map fun tokens => token :: foldComments [] (tokens.drop 1)
  onTyped : s.current.kind = .typeComment → s.pending = [] → ∀ current before,
    (s.untyped current).following before = (s.following []).map (foldComments before)

/-- What follows is folded if what is read next is. -/
theorem following_untyped (h : s.Settled) (quiet : s.pending = [])
    (folds : ∀ token t, s.readFrom [] = (.ok token, t) → Folds { t with current := token })
    (before : List Trivia) :
    (s.untyped current).following before = (s.following []).map (foldComments before) := by
  have begins := readFrom_behind s before []
  rw [List.append_nil] at begins
  unfold following
  rw [readFrom_untyped, begins]
  cases read : s.readFrom [] with
  | mk result t =>
      cases result with
      | error error => rfl
      | ok token =>
          have folds := folds token t read
          change (match (if token.kind = .typeComment then _ else _ : Except SyntaxError Token ×
            Scanner) with | (.ok token, t) => _ | (.error error, _) => _) = Except.map _ _
          by_cases typed : token.kind = .typeComment
          · have kept : t.pending = [] :=
              (finds_of_read read).quiet h quiet typed
            have rest := tokens_of_quiet (s := { t with current := token }) kept (by simp [typed])
            rw [if_pos typed, Token.leaves_behind]
            refine (folds.onTyped typed kept current _).trans ?_
            change _ = Except.map _ (tokens _)
            rw [rest]
            cases following [] { t with current := token } with
            | error error => rfl
            | ok rest => exact congrArg Except.ok (foldComments_cons_of_eq typed rest).symm
          · rw [if_neg typed]
            refine (folds.onOther typed (token.behind before) rfl).trans ?_
            change _ = Except.map _ (tokens _)
            cases found : tokens { t with current := token } with
            | error error => rfl
            | ok tokens =>
                refine congrArg Except.ok ?_
                rw [head_of_tokens found]
                exact (foldComments_cons_of_ne typed _).symm

/-- **The tokens without type comments are those with them, folded.** -/
theorem Ready.folds (h : s.Ready) : s.Folds := by
  refine advance_induction (P := fun s => s.Ready → s.Folds) ?_ s h
  intro s ih ready
  have behind : s.current.kind ≠ .eof → s.pending = [] → ∀ current before,
      (s.untyped current).following before = (s.following []).map (foldComments before) := by
    intro running quiet current before
    refine following_untyped current ready.rested.settled quiet ?_ before
    intro token t read
    have moved : s.advance = (none, { t with current := token }) := by
      rw [advance, if_neg running, next_of_quiet quiet, read]
    exact ih _ running moved (ready.of_advance moved)
  refine ⟨fun other token same => ?_, fun typed => behind (by simp [typed])⟩
  by_cases ended : s.current.kind = .eof
  · have ended' : (s.untyped token).current.kind = .eof := same.trans ended
    rw [tokens_eq, tokens_eq, if_pos ended, if_pos ended']
    rfl
  have running : (s.untyped token).current.kind ≠ .eof := fun eof => ended (same.symm.trans eof)
  cases kept : s.pending with
  | nil =>
      rw [tokens_of_quiet (s := s.untyped token) kept running, tokens_of_quiet kept ended,
        behind ended kept]
      cases s.following [] <;> rfl
  | cons first pending =>
      have moved : s.advance = (none, { s with pending := pending, current := first }) := by
        rw [advance, if_neg ended, next, kept]
      have moved' : (s.untyped token).advance =
          (none, ({ s with pending := pending, current := first } : Scanner).untyped first) := by
        have kept' : (s.untyped token).pending = first :: pending := kept
        rw [advance, if_neg running, next, kept']
        rfl
      have mark : first.kind ≠ .typeComment := by
        rcases ready.kept first (kept ▸ List.mem_cons_self) with mark | mark <;> simp [mark]
      have folds := (ih _ ended moved (ready.of_advance moved)).onOther mark first rfl
      rw [tokens_eq, if_neg running, moved', tokens_eq s, if_neg ended, moved]
      dsimp only
      rw [folds]
      cases found : tokens { s with pending := pending, current := first } with
      | error error => rfl
      | ok tokens =>
          refine congrArg (fun rest => Except.ok (token :: rest)) ?_
          have head := head_of_tokens found
          generalize tokens.drop 1 = rest at head ⊢
          rw [head]
          change first.behind [] :: foldComments [] rest = foldComments [] (first :: rest)
          exact (foldComments_cons_of_ne mark rest).symm

end Scanner

/-- **The tokens of a text without type comments are those with them, folded**; if there are none,
the error is the same. -/
theorem tokenize_untyped (options : Options) (text : List Char) :
    tokenize options.untyped text = (tokenize options text).map (foldComments []) := by
  have following : ∀ options, tokenize options text = (Scanner.initial options text).following [] := by
    intro options
    rw [tokenize_eq, Scanner.ofText, Scanner.next_of_quiet rfl, Scanner.following]
    cases (Scanner.initial options text).readFrom [] with
    | mk result t => cases result <;> rfl
  rw [following, following]
  refine Scanner.following_untyped (s := Scanner.initial options text) (Token.eof 0)
    (Scanner.initial_settled options text) rfl ?_ []
  intro token t read
  have opened : Scanner.ofText options text = .ok { t with current := token } := by
    rw [Scanner.ofText, Scanner.next_of_quiet rfl, read]
  exact (Scanner.ofText_steps opened).ready.folds

end PythonSyntax
