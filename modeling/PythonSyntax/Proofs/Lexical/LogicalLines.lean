/-
**Logical lines.**

The tokens that a scanner delivers are what it passes of the text.  Where a line has begun, its
tokens come up to its end, and a line break between them is passed within brackets only.  At the end
of the text what is open is closed, and nothing else is delivered.

Main definitions:

* `PythonSyntax.LineFrom` — how the tokens of a line go on, and its end;
* `PythonSyntax.Closes` — the ends of the open blocks, and of the text;
* `PythonSyntax.Scanner.Yields` — the tokens that a scanner delivers.

Main results:

* `PythonSyntax.Scanner.Yields.written` — what is delivered is what is passed of the text;
* `PythonSyntax.Scanner.Begun.turn` — what the next token of a line can be;
* `PythonSyntax.Scanner.Begun.goesOn` — **where a line has begun, its tokens come up to its end**.
-/

import PythonSyntax.Proofs.Lexical.LayoutTokens

set_option autoImplicit false

namespace PythonSyntax

open Lexeme

/-! ### Lines of tokens -/

/-- The texts of tokens, with what stands before them. -/
def writtenOf (tokens : List Token) : List Char :=
  (tokens.flatMap Token.pieces).flatMap fun piece => piece.text.toList

theorem writtenOf_cons (token : Token) (tokens : List Token) :
    writtenOf (token :: tokens) = writtenOf [token] ++ writtenOf tokens := by
  simp [writtenOf]

theorem writtenOf_append (tokens more : List Token) :
    writtenOf (tokens ++ more) = writtenOf tokens ++ writtenOf more := by
  simp [writtenOf]

/-- What stands before the token. -/
def Token.lead (token : Token) : List Char := token.trivia.flatMap fun piece => piece.text.toList

theorem writtenOf_singleton (token : Token) :
    writtenOf [token] = token.lead ++ token.text.toList := by
  simp [writtenOf, Token.pieces, Token.lead, Token.piece, Trivia.piece, List.flatMap_map]

/-- A line ends before the token, but its end is no token. -/
def Token.CrossesLine (token : Token) : Prop := ∃ piece ∈ token.trivia, piece.kind = .newline

/-- The tokens with which a line goes on where some brackets are open, and its end.  Line breaks are
crossed within brackets only.  At the end all brackets are closed, unless the text ends there. -/
structure LineFrom (depth : Nat) (tokens : List Token) (last : Token) : Prop where
  plain : ∀ token ∈ tokens, token.kind.isLayout = false
  ends : last.kind = .newline
  closed : last.BreaksLine → nestAll depth tokens = 0
  crossed : ∀ before token after, tokens ++ [last] = before ++ token :: after →
    token.CrossesLine → 0 < nestAll depth before

/-- The ends of some blocks, and of the text. -/
def Closes (blocks : Nat) (tokens : List Token) : Prop :=
  tokens.map Token.kind = List.replicate blocks TokenKind.dedent ++ [.eof]

theorem Closes.isLayout {blocks : Nat} {token : Token} {tokens : List Token}
    (h : Closes blocks (token :: tokens)) : token.kind.isLayout = true := by
  cases blocks with
  | zero =>
      have kind : token.kind = .eof := (List.cons.inj h).1
      rw [kind]
      rfl
  | succ =>
      have kind : token.kind = .dedent := (List.cons.inj h).1
      rw [kind]
      rfl

/-! ### Tokens up to the end of the text -/

/-- The last of the tokens is the end of the text, and no other one is. -/
def Ended (tokens : List Token) : Prop :=
  ∃ front last, tokens = front ++ [last] ∧ last.kind = .eof ∧ ∀ token ∈ front, token.kind ≠ .eof

namespace Ended

variable {token : Token} {tokens : List Token}

theorem ne_nil (h : Ended tokens) : tokens ≠ [] := by
  obtain ⟨front, last, rfl, -⟩ := h
  simp

theorem tail (h : Ended (token :: tokens)) (running : token.kind ≠ .eof) : Ended tokens := by
  obtain ⟨front, last, split, ended, others⟩ := h
  cases front with
  | nil =>
      obtain ⟨rfl, -⟩ := List.cons.inj split
      exact absurd ended running
  | cons first front =>
      obtain ⟨-, rfl⟩ := List.cons.inj split
      exact ⟨front, last, rfl, ended, fun other mem => others other (List.mem_cons_of_mem _ mem)⟩

theorem eq_nil (h : Ended (token :: tokens)) (ended : token.kind = .eof) : tokens = [] := by
  obtain ⟨front, last, split, -, others⟩ := h
  cases front with
  | nil => exact (List.cons.inj split).2
  | cons first front =>
      obtain ⟨rfl, -⟩ := List.cons.inj split
      exact absurd ended (others token List.mem_cons_self)

end Ended

/-- The trivia that a step passes. -/
def Found.passed : Found → List Trivia
  | .trivia pieces | .token pieces _ => pieces
  | .fault _ _ => []

namespace Scanner

variable {s t u : Scanner} {token : Token} {tokens more : List Token} {text : List Char}

/-- The scanner with another token on which it stands. -/
def on (s : Scanner) (token : Token) : Scanner := { s with current := token }

/-- The scanner delivers the tokens, one after another. -/
inductive Yields : Scanner → List Token → Scanner → Prop
  | nil (s : Scanner) : Yields s [] s
  | cons {s t u : Scanner} {token : Token} {tokens : List Token} (found : s.next = (.ok token, t))
      (later : Yields (t.on token) tokens u) : Yields s (token :: tokens) u

theorem Yields.append (h : Yields s tokens t) (later : Yields t more u) :
    Yields s (tokens ++ more) u := by
  induction h with
  | nil => exact later
  | cons found _ ih => exact .cons found (ih later)

/-- The tokens behind the current one are delivered. -/
theorem yields_of_path (path : Path s tokens t) (running : ∀ token ∈ tokens, token.kind ≠ .eof) :
    ∃ more, tokens ++ [t.current] = s.current :: more ∧ Yields s more t := by
  induction path with
  | nil => exact ⟨[], rfl, .nil _⟩
  | @cons s next t token tokens here moved rest ih =>
      obtain ⟨more, split, later⟩ := ih fun other mem => running other (List.mem_cons_of_mem _ mem)
      have here : s.current = token := here
      have moved : s.advance = (none, next) := moved
      unfold Scanner.advance at moved
      rw [if_neg (here ▸ running token List.mem_cons_self)] at moved
      split at moved
      · rename_i other u found
        cases moved
        refine ⟨other :: more, ?_, .cons found later⟩
        rw [List.cons_append, split, here]
      · cases moved

/-- The tokens of a text are delivered from its beginning. -/
theorem exists_yields {options : Options} (found : tokenize options text = .ok tokens) :
    ∃ last, Yields (initial options text) tokens last ∧ Ended tokens := by
  obtain ⟨s, passed, last, opened, path, ended, running, rfl⟩ := tokenize_eq_ok_iff.1 found
  obtain ⟨more, split, yields⟩ := yields_of_path path running
  refine ⟨last, ?_, passed, last.current, rfl, ended, running⟩
  rw [split]
  unfold ofText at opened
  split at opened
  · rename_i first u found
    cases opened
    exact .cons found yields
  · cases opened

/-- The tokens that are delivered are what is passed of the text. -/
theorem Yields.written (h : Yields s tokens t) (standing : s.Standing text) :
    t.Standing text ∧ s.rest = writtenOf tokens ++ t.rest := by
  induction h with
  | nil => exact ⟨standing, rfl⟩
  | @cons s t u token tokens found _ ih =>
      have delivers := next_covers standing found
      obtain ⟨standing', later⟩ := ih
        ⟨delivers.standing.le, delivers.standing.rest, delivers.standing.pending⟩
      refine ⟨standing', ?_⟩
      have later : t.rest = writtenOf tokens ++ u.rest := later
      have here : writtenOf [token] = s.rest.take (t.offset - s.offset) := by
        rw [writtenOf, List.flatMap_singleton, delivers.covers.written, standing.rest]
      have behind : t.rest = s.rest.drop (t.offset - s.offset) := by
        rw [delivers.standing.rest, standing.rest, List.drop_drop,
          Nat.add_sub_cancel' delivers.covers.le]
      rw [writtenOf_cons, here, List.append_assoc, ← later, behind, List.take_append_drop]

/-- What is passed before the first token of a line. -/
theorem Yields.lead_eq {idle blanks : List Char} {marks : List Token}
    (front : Yields s (marks ++ [token]) (t.on token)) (standing : s.Standing text)
    (split : s.rest = idle ++ (blanks ++ (token.text.toList ++ t.rest))) :
    writtenOf marks ++ token.lead = idle ++ blanks := by
  have written : s.rest = writtenOf (marks ++ [token]) ++ t.rest := (front.written standing).2
  rw [split, writtenOf_append, writtenOf_singleton] at written
  have same : writtenOf marks ++ token.lead ++ (token.text.toList ++ t.rest) =
      idle ++ blanks ++ (token.text.toList ++ t.rest) := by
    simpa using written.symm
  exact List.append_cancel_right same

/-! ### Marks that are kept -/

/-- Marks that are kept are delivered first. -/
theorem Yields.of_kept {marks later : List Token} (h : Yields s tokens t) (ended : Ended tokens)
    (kept : s.pending = marks ++ later) (marking : ∀ token ∈ marks, token.kind ≠ .eof) :
    ∃ more u, tokens = marks ++ more ∧ Yields s marks u ∧ Yields u more t ∧ Ended more ∧
      ∃ current, u = { s with pending := later, current := current } := by
  induction marks generalizing s tokens with
  | nil =>
      have kept : s.pending = later := kept
      exact ⟨tokens, s, rfl, .nil s, h, ended, s.current, by rw [← kept]⟩
  | cons mark marks ih =>
      cases h with
      | nil => exact absurd rfl ended.ne_nil
      | @cons _ t' _ token tokens found rest =>
          rw [next, kept] at found
          cases found
          obtain ⟨more, u, rfl, front, back, ended', current, eq⟩ := ih rest
            (ended.tail (marking mark List.mem_cons_self)) rfl
            fun token mem => marking token (List.mem_cons_of_mem _ mem)
          exact ⟨more, u, rfl, .cons (by rw [next, kept]; rfl) front, back, ended', current, eq⟩

/-- If the ends of the blocks and of the text are kept, nothing else is delivered. -/
theorem Yields.of_closing {blocks : Nat} (h : Yields s tokens t) (ended : Ended tokens)
    (kept : Closes blocks s.pending) : tokens = s.pending := by
  obtain ⟨marks, finish, split, dedents, eof⟩ := List.map_eq_append_iff.1 kept
  obtain ⟨last, rfl, kind⟩ := List.map_eq_singleton_iff.1 eof
  have marking : ∀ token ∈ marks, token.kind ≠ .eof := by
    intro token mem
    have mem := List.mem_map_of_mem (f := Token.kind) mem
    rw [dedents] at mem
    simp [List.eq_of_mem_replicate mem]
  obtain ⟨more, u, rfl, -, back, ended', current, rfl⟩ := h.of_kept ended split marking
  cases back with
  | nil => exact absurd rfl ended'.ne_nil
  | cons found rest =>
      rw [next] at found
      cases found
      rw [split, ended'.eq_nil kind]

/-- Of what is made up, the ends of the blocks and of the text come last. -/
theorem exists_closing {content : Bool} {blocks offset : Nat} {tokens : List Token}
    (all : tokens.map Token.plain = (closing content blocks offset).map Token.plain) :
    ∃ front back, tokens = front ++ back ∧ Closes blocks back ∧
      (content = false → front = []) ∧
      (content = true → ∃ token, front = [token] ∧ token.kind = .newline ∧ ¬ token.BreaksLine) := by
  rw [closing, List.map_append] at all
  obtain ⟨front, back, rfl, made, marks⟩ := List.map_eq_append_iff.1 all
  have kinds := congrArg (List.map Token.kind) marks
  refine ⟨front, back, rfl, ?_, fun none => ?_, fun some => ?_⟩
  · simpa [Closes, Function.comp_def, Token.mark, Token.eof] using kinds
  · subst none
    exact List.map_eq_nil_iff.1 made
  · subst some
    obtain ⟨token, rfl, same⟩ := List.map_eq_singleton_iff.1 made
    obtain ⟨kind, value⟩ := Token.plain_eq_iff.1 same
    exact ⟨token, rfl, kind, fun breaks => breaks.2 value⟩

/-- The first of the marks that are made up is followed by the others. -/
theorem Yields.closes {blocks : Nat} (h : Yields s tokens t) (ended : Ended (token :: tokens))
    (kinds : Closes blocks (token :: s.pending)) : Closes blocks (token :: tokens) := by
  cases blocks with
  | zero =>
      obtain ⟨kind, -⟩ := List.cons.inj kinds
      rw [ended.eq_nil kind]
      exact congrArg (fun kind => [kind]) kind
  | succ blocks =>
      obtain ⟨kind, kept⟩ := List.cons.inj kinds
      rw [h.of_closing (ended.tail (by simp [kind])) kept]
      exact kinds

/-- If no line is to be ended, the blocks and the text end. -/
theorem Yields.closes_of_closing {blocks offset : Nat} (h : Yields (u.on token) tokens t)
    (ended : Ended (token :: tokens)) (all : (token :: u.pending).map Token.plain =
      (closing false blocks offset).map Token.plain) : Closes blocks (token :: tokens) := by
  obtain ⟨front, back, split, kinds, none, -⟩ := exists_closing all
  rw [none rfl, List.nil_append] at split
  rw [← split] at kinds
  exact h.closes ended kinds

/-! ### Within a line -/

theorem finish_passed (s : Scanner) : s.finish.1.passed = [] := by
  unfold finish
  dsimp only
  split
  · rfl
  · split <;> rfl

theorem readToken_passed (s : Scanner) : s.readToken.1.passed = [] := by
  unfold readToken
  dsimp only
  split <;> rfl

/-- A line has begun, and the scanner keeps no token. -/
structure Begun (s : Scanner) : Prop where
  quiet : s.pending = []
  begun : s.atLineStart = false

theorem Begun.settled (h : s.Begun) : s.Settled :=
  .of_quiet h.quiet (fun start => (nomatch h.begun.symm.trans start))
    fun start => (nomatch h.begun.symm.trans start)

theorem Begun.step_eq (h : s.Begun) : s.step = s.stepInLine := by
  rw [step, if_neg (by simp [h.begun])]

/-- Where a line has begun, a step finds a token of it or its end, up to the end of the text. -/
theorem Begun.step_token {pieces : List Trivia} (h : s.Begun) (left : s.rest ≠ [])
    (stepped : s.step = (.token pieces token, t)) :
    token.kind = .newline ∨ token.kind.isLayout = false ∧ t.lineHasContent = true := by
  obtain ⟨c, rest, front⟩ := List.exists_cons_of_ne_nil left
  rw [h.step_eq, stepInLine_of_cons front] at stepped
  -- The next character is a blank, or begins a comment, a continuation, a line end or a token.
  split at stepped
  · cases stepped
  split at stepped
  · split at stepped
    · split at stepped
      · rename_i marked
        cases stepped
        exact Or.inr ⟨rfl, (Bool.and_eq_true_iff.1 marked).2⟩
      · cases stepped
    · cases stepped
  split at stepped
  · cases stepped
  split at stepped
  · split at stepped
    · cases stepped
    · cases stepped
      exact Or.inl rfl
  · unfold readToken at stepped
    dsimp only at stepped
    split at stepped
    · cases stepped
    · cases stepped
      exact Or.inr ⟨(read_sits left).isLayout_eq_false, rfl⟩

/-- It passes the end of a line only within brackets, or before any token of the line. -/
theorem Begun.step_passed (h : s.Begun) :
    ∀ piece ∈ s.step.1.passed, piece.kind = .newline →
      0 < s.nesting ∨ s.lineHasContent = false := by
  have other : ∀ {kind : TriviaKind} {count : Nat}, kind ≠ .newline →
      ∀ piece ∈ (s.passTrivia kind count).1.passed, piece.kind = .newline →
        0 < s.nesting ∨ s.lineHasContent = false := by
    intro kind count differs piece mem newline
    rw [List.mem_singleton.1 mem] at newline
    exact absurd newline differs
  cases front : s.rest with
  | nil =>
      rw [step_of_rest_nil front, finish_passed]
      exact nofun
  | cons c rest =>
      rw [h.step_eq, stepInLine_of_cons front]
      split
      · exact other (by simp)
      split
      · split
        · split
          · exact nofun
          · exact other (by simp)
        · exact other (by simp)
      split
      · exact other (by simp)
      split
      · split
        · rename_i passed
          exact fun _ _ _ => by simpa using passed
        · exact nofun
      · rw [readToken_passed]
        exact nofun

/-- A step that passes trivia leaves the line as it is. -/
theorem Begun.step_alike {pieces : List Trivia} (h : s.Begun)
    (stepped : s.step = (.trivia pieces, t)) :
    t.Begun ∧ t.indents.blocks = s.indents.blocks ∧ t.nesting = s.nesting ∧
      t.lineHasContent = s.lineHasContent := by
  have acts := step_acts h.settled h.quiet
  rw [stepped] at acts
  cases acts with
  | passes quiet blocks nesting content start =>
      refine ⟨⟨quiet, Bool.eq_false_iff.2 fun begins => ?_⟩, blocks, nesting, content⟩
      cases h.begun.symm.trans (start begins)

/-- What the next token is, where a line has begun: one of the line, or the end of the line, or the
first of those that are made up at the end of the text. -/
inductive Turn (s : Scanner) (token : Token) (t : Scanner) : Prop
  | reads (plain : token.kind.isLayout = false) (begun : t.Begun)
      (content : t.lineHasContent = true) (blocks : t.indents.blocks = s.indents.blocks)
  | breaks (newline : token.kind = .newline) (content : s.lineHasContent = true)
      (outside : s.nesting = 0) (fresh : t.Fresh) (blocks : t.indents.blocks = s.indents.blocks)
  | ends (empty : t.rest = []) (all : (token :: t.pending).map Token.plain =
      (closing s.lineHasContent s.indents.blocks.length t.offset).map Token.plain)

/-- **Where a line has begun, its tokens come**, and then its end. -/
theorem Begun.turn (h : s.Begun) (found : Finds s token t) : Turn s token t := by
  induction found with
  | @token s t pieces last stepped =>
      have acts := step_acts h.settled h.quiet
      have moves := step_moves h.settled h.quiet
      rw [stepped] at acts moves
      cases acts with
      | reads plain quiet blocks begun shorter inside =>
          have left : s.rest ≠ [] := by
            intro none
            rw [none] at shorter
            cases shorter
          rcases h.step_token left stepped with newline | ⟨-, content⟩
          · rw [newline] at plain
            cases plain
          · exact .reads plain ⟨quiet, begun⟩ content blocks
      | breaks newline content outside quiet blocks ended inside =>
          rcases (moves.behind _ _ rfl).newline newline.1 with ⟨fresh, -⟩ | ⟨-, none⟩
          · exact .breaks newline.1 content outside fresh blocks
          · exact absurd none newline.2
      | opens indent start => cases h.begun.symm.trans start
      | closes dedent outside left blocks =>
          have left' : s.rest ≠ [] := by
            rintro none
            have suffix := moves.suffix
            rw [none] at suffix
            exact left (List.suffix_nil.1 suffix)
          rcases h.step_token left' stepped with newline | ⟨plain, -⟩
          · cases dedent.symm.trans newline
          · rw [dedent] at plain
            cases plain
      | ends empty all blocks content =>
          refine .ends empty ?_
          rw [← all]
          rfl
  | @trivia s t u pieces last stepped later ih =>
      obtain ⟨begun, blocks, nesting, content⟩ := h.step_alike stepped
      cases ih begun with
      | reads plain begun content' blocks' =>
          exact .reads plain begun content' (blocks'.trans blocks)
      | breaks newline content' outside fresh blocks' =>
          exact .breaks newline (content ▸ content') (nesting ▸ outside) fresh
            (blocks'.trans blocks)
      | ends empty all => exact .ends empty (content ▸ blocks ▸ all)

/-- Behind a token of a line, line breaks are crossed within brackets only. -/
theorem Begun.crosses {trivia : List Trivia} (h : s.Begun) (content : s.lineHasContent = true)
    (before : ∀ piece ∈ trivia, piece.kind = .newline → 0 < s.nesting)
    (found : s.readFrom trivia = (.ok token, t)) :
    ∀ piece ∈ token.trivia, piece.kind = .newline → 0 < s.nesting := by
  -- A step over trivia keeps the brackets and the line, so the bound on what was passed carries on.
  induction left : s.rest.length using Nat.strongRecOn generalizing s trivia with
  | _ n ih =>
      have here : ∀ piece ∈ trivia ++ s.step.1.passed, piece.kind = .newline → 0 < s.nesting := by
        intro piece mem newline
        rcases List.mem_append.1 mem with mem | mem
        · exact before piece mem newline
        · simpa [content] using h.step_passed piece mem newline
      rw [readFrom_eq] at found
      cases stepped : s.step with
      | mk result u =>
          rw [stepped] at found here
          cases result with
          | token pieces last =>
              cases found
              exact here
          | fault _ _ => cases found
          | trivia pieces =>
              obtain ⟨begun, -, nesting, content'⟩ := h.step_alike stepped
              rw [← nesting] at here ⊢
              exact ih _ (left ▸ rest_lt_of_step stepped) begun (content'.trans content) here found
                rfl

/-- **Behind a token of a line**, others come up to its end; then a line begins, or the text is at
its end and what is open is closed. -/
theorem Begun.goesOn (h : s.Begun) (content : s.lineHasContent = true) (yields : Yields s tokens t)
    (ended : Ended tokens) :
    ∃ inner last more u, tokens = inner ++ [last] ++ more ∧ Yields s (inner ++ [last]) u ∧
      Yields u more t ∧ LineFrom s.nesting inner last ∧ u.options = s.options ∧
      (u.Fresh ∧ u.indents.blocks = s.indents.blocks ∧ Ended more ∨
        u.rest = [] ∧ Closes s.indents.blocks.length more) := by
  -- The next token goes on with the line, or it is the end of it, which settles what comes behind.
  induction yields with
  | nil => exact absurd rfl ended.ne_nil
  | @cons s v t token tokens found later ih =>
      have result : s.readFrom [] = (.ok token, v) := next_of_quiet h.quiet ▸ found
      have finds : Finds s token.plain v := finds_of_read result
      have moves := finds.moves h.settled h.quiet
      have nests : v.nesting = nestingAfter s.nesting token.kind := moves.nests _ token.plain rfl
      have crosses : token.CrossesLine → 0 < s.nesting := by
        rintro ⟨piece, mem, newline⟩
        exact h.crosses content (by simp) result piece mem newline
      have single : ∀ before other after, [] ++ [token] = before ++ other :: after →
          other.CrossesLine → 0 < nestAll s.nesting before := by
        intro before other after split
        cases before with
        | nil =>
            obtain ⟨rfl, -⟩ := List.cons.inj split
            exact crosses
        | cons _ _ => simp at split
      cases h.turn finds with
      | reads plain begun content' blocks =>
          have running : token.kind ≠ .eof := (TokenKind.ne_of_isLayout plain).2.2.2
          obtain ⟨inner, last, more, u, rfl, front, back, line, options, behind⟩ :=
            ih ⟨begun.quiet, begun.begun⟩ content' (ended.tail running)
          have line : LineFrom v.nesting inner last := line
          rw [nests] at line
          refine ⟨token :: inner, last, more, u, rfl, .cons found front, back,
            ⟨List.forall_mem_cons.2 ⟨plain, line.plain⟩, line.ends, ?_, ?_⟩,
            options.trans moves.options, ?_⟩
          · rw [nestAll_cons]
            exact line.closed
          · intro before other after split
            cases before with
            | nil =>
                obtain ⟨rfl, -⟩ := List.cons.inj split
                exact crosses
            | cons first before =>
                obtain ⟨rfl, parts⟩ := List.cons.inj split
                rw [nestAll_cons]
                exact line.crossed before other after parts
          · have blocks : (v.on token).indents.blocks = s.indents.blocks := blocks
            rwa [blocks] at behind
      | breaks newline _ outside fresh blocks =>
          have running : token.kind ≠ .eof := by
            have newline : token.kind = .newline := newline
            simp [newline]
          exact ⟨[], token, tokens, v.on token, rfl, .cons found (.nil _), later,
            ⟨nofun, newline, fun _ => outside, single⟩, moves.options,
            Or.inl ⟨⟨fresh.quiet, fresh.start, fresh.content, fresh.outside⟩, blocks,
              ended.tail running⟩⟩
      | ends empty all =>
          obtain ⟨front, back, split, marks, -, made⟩ := exists_closing all
          obtain ⟨last, rfl, newline, notBroken⟩ := made content
          obtain ⟨rfl, kept⟩ := List.cons.inj split
          have newline : token.kind = .newline := newline
          have kept : (v.on token).pending = back := kept
          rw [← kept] at marks
          have rest := later.of_closing (ended.tail (by simp [newline])) marks
          exact ⟨[], token, tokens, v.on token, rfl, .cons found (.nil _), later,
            ⟨nofun, newline, fun breaks => absurd breaks notBroken, single⟩, moves.options,
            Or.inr ⟨empty, rest ▸ marks⟩⟩

end Scanner

end PythonSyntax
