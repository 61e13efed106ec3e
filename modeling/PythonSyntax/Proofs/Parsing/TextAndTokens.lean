/-
**A text is parsed as its tokens are.**

A parser may read a text token by token, or be given all its tokens.  Both come to the same, tree or
error: what it asks of a line, where one begins, is answered alike by a look at the characters and by
a look at the tokens.  Within brackets the answers differ, but it is not asked there.  There has to
be no string in single quotes with a line break of two characters in it; over such a one the look at
the characters does not lead.

Main definitions:

* `PythonSyntax.Halfway` — a scanner has come to a token of a text, and a list holds this token and
  those after it.

Main results:

* `PythonSyntax.Halfway.opensBlock` — **outside of brackets both see the same of a line**;
* `PythonSyntax.Halfway.outside` — a line that begins with a name begins outside of brackets;
* `PythonSyntax.parse_eq_of_tokenize` — **a text is parsed as its tokens are**;
* `PythonSyntax.parse_ne_of_wraps` — a text with a string that goes on over a line break of two
  characters.
-/

import PythonSyntax.Proofs.Lexical.LayoutTokens
import PythonSyntax.Proofs.Lexical.Sight
import PythonSyntax.Proofs.Parsing.Completeness
import PythonSyntax.Proofs.Parsing.SideBySide

set_option autoImplicit false

namespace PythonSyntax

/-! ### Lines -/

/-- The first token that is not on the line, if the last one is not. -/
theorem exists_line (tokens : List Token) {last : Token} (ends : last.kind.onLine = false) :
    ∃ line stop more, tokens ++ [last] = line ++ stop :: more ∧
      (∀ token ∈ line, token.kind.onLine = true) ∧ stop.kind.onLine = false ∧
        (stop ∈ tokens ∨ more = []) := by
  induction tokens with
  | nil => exact ⟨[], last, [], rfl, nofun, ends, Or.inr rfl⟩
  | cons token tokens ih =>
      cases onLine : token.kind.onLine with
      | false => exact ⟨[], token, tokens ++ [last], rfl, nofun, onLine, Or.inl List.mem_cons_self⟩
      | true =>
          obtain ⟨line, stop, more, split, inside, ends, among⟩ := ih
          refine ⟨token :: line, stop, more, congrArg (token :: ·) split, ?_, ends,
            among.imp_left (List.mem_cons_of_mem _)⟩
          exact List.forall_mem_cons.2 ⟨onLine, inside⟩

namespace Lookahead

variable {look : Lookahead} {tokens : List Token}

/-- A colon that has been seen stands outside of brackets. -/
theorem depth_of_colon (outside : look.colon = true → look.depth = 0)
    (colon : (look.meetAll tokens).colon = true) : (look.meetAll tokens).depth = 0 := by
  induction tokens generalizing look with
  | nil => exact outside colon
  | cons token tokens ih =>
      refine ih (fun colon => ?_) colon
      unfold meetOne at colon ⊢
      split
      · rename_i comment
        rw [if_pos comment] at colon
        exact outside colon
      · rename_i comment
        rw [if_neg comment] at colon
        exact of_decide_eq_true (Bool.and_eq_true_iff.1 colon).2

/-- The marks at the end of a text are no colons. -/
theorem colon_ofTokens_of_marks (isOpen : look.depth ≠ 0) (colon : look.colon = false)
    (marks : ∀ token ∈ tokens, token.kind = .newline ∨ token.kind = .dedent ∨ token.kind = .eof) :
    (ofTokens look tokens).colon = false := by
  induction tokens generalizing look with
  | nil => exact colon
  | cons token tokens ih =>
      have marks' := fun other mem => marks other (List.mem_cons_of_mem _ mem)
      rcases marks token List.mem_cons_self with kind | kind | kind
      · simpa [ofTokens, kind, isOpen] using ih isOpen colon marks'
      all_goals
        simp only [ofTokens, kind, isOpen]
        exact ih isOpen rfl marks'

end Lookahead

/-! ### A scanner and a list of its tokens -/

/-- The scanner has come to one of the tokens, and the list holds this token and those after it. -/
structure Halfway (all : List Token) (s : Scanner) (list : TokenList) : Prop where
  ready : s.Ready
  passed : ∃ front, all = front ++ list.toList ∧ s.nesting = nestAll 0 (front ++ [s.current])
  rest : ∃ tokens last, Path s tokens last ∧ last.current.kind = .eof ∧
    (∀ token ∈ tokens, token.kind ≠ .eof) ∧ list.toList = tokens ++ [last.current]

namespace Halfway

variable {text : List Char} {all : List Token} {s t : Scanner} {list : TokenList}

theorem current (h : Halfway all s list) : list.current = s.current := by
  obtain ⟨tokens, last, path, -, -, eq⟩ := h.rest
  cases path with
  | nil => exact (List.cons.inj eq).1
  | cons here _ _ =>
      have here : s.current = _ := here
      exact (List.cons.inj eq).1.trans here.symm

/-- **Both move together**, up to the end of both. -/
theorem advance (h : Halfway all s list) :
    s.advance.1 = none ∧ Halfway all s.advance.2 list.advance := by
  obtain ⟨front, split, nesting⟩ := h.passed
  obtain ⟨tokens, last, path, ended, running, eq⟩ := h.rest
  obtain ⟨current, upcoming⟩ := list
  change all = front ++ current :: upcoming at split
  change current :: upcoming = _ at eq
  cases path with
  | nil =>
      rw [Scanner.advance_of_eof ended]
      obtain ⟨-, rfl⟩ := List.cons.inj eq
      exact ⟨rfl, h⟩
  | @cons _ next _ token tokens here moved rest =>
      obtain ⟨rfl, later⟩ := List.cons.inj eq
      have moved : s.advance = (none, next) := moved
      have here : s.current = current := here
      have steps := Scanner.advance_steps h.ready (here ▸ running current List.mem_cons_self) moved
      cases upcoming with
      | nil => simp at later
      | cons other upcoming =>
          rw [moved]
          refine ⟨rfl, steps.ready, ⟨front ++ [current], ?_, ?_⟩, tokens, last, rest, ended,
            fun token mem => running token (List.mem_cons_of_mem _ mem), later⟩
          · rw [split, List.append_assoc]
            rfl
          · rw [steps.nests, nesting, here]
            exact (nestAll_concat 0 _ _).symm

/-- **A line that begins with a name begins outside of brackets**: behind the mark of a line or a
block no bracket is open, unless the text is at its end. -/
theorem outside (h : Halfway all s list) (laidOut : LaidOut text all)
    (mark : s.current.kind.isLineMark = true) (moved : s.advance = (none, t))
    (name : t.current.kind = .name) : t.nesting = 0 := by
  obtain ⟨-, after⟩ := h.advance
  rw [moved] at after
  obtain ⟨front, split, -⟩ := h.passed
  have more : list.upcoming ≠ [] := by
    intro none
    have same : list.advance = list := by
      rw [TokenList.advance, none]
    have kind := congrArg Token.kind (after.current.symm.trans (same ▸ h.current))
    rw [name] at kind
    rw [← kind] at mark
    cases mark
  rw [TokenList.toList_advance more, h.current] at split
  rcases laidOut.level_or_ended split mark with level | ended
  · have going : s.current.kind ≠ .eof := fun eof => by rw [eof] at mark; cases mark
    have steps := Scanner.advance_steps h.ready going moved
    obtain ⟨front', split', nesting⟩ := h.passed
    rw [TokenList.toList_advance more, h.current, split] at split'
    obtain rfl := List.append_cancel_right split'
    rw [steps.nests, nesting, nestAll_append, level, name]
    rcases TokenKind.isLineMark_iff.1 mark with kind | kind | kind <;>
      simp [kind, Scanner.nestingAfter, TokenKind.opens, TokenKind.closes]
  · have kind := ended t.current (by rw [← after.current]; exact List.mem_cons_self)
    rw [name] at kind
    rcases kind with kind | kind <;> cases kind

/-- **Outside of brackets both see the same of a line.** -/
theorem opensBlock (h : Halfway all s list) (laidOut : LaidOut text all)
    (flat : ∀ token ∈ all, token.wraps = false) (name : s.current.kind = .name)
    (outside : s.nesting = 0) : Cursor.opensBlock list = s.opensBlock := by
  obtain ⟨front, split, nesting⟩ := h.passed
  obtain ⟨tokens, last, path, ended, running, eq⟩ := h.rest
  obtain ⟨current, upcoming⟩ := list
  obtain rfl : current = s.current := h.current
  change all = front ++ s.current :: upcoming at split
  change s.current :: upcoming = _ at eq
  -- The end of the text may be passed again and again.
  have whole : Path s (s.current :: upcoming) last :=
    eq ▸ Path.append_iff.2 ⟨last, path, .cons rfl (Scanner.advance_of_eof ended) (.nil last)⟩
  cases tokens with
  | nil =>
      rw [(List.cons.inj eq).1, ended] at name
      cases name
  | cons first tokens =>
  obtain ⟨rfl, later⟩ := List.cons.inj eq
  change upcoming = tokens ++ [last.current] at later
  have lastEnds : last.current.kind.onLine = false := by rw [ended]; rfl
  obtain ⟨line, stop, more, parts, onLine, ends, among⟩ := exists_line tokens lastEnds
  rw [later, parts] at whole split
  have sees := Scanner.opensBlock_of_path (h.ready.name name) outside (by simp [name]) whole onLine
    ends fun token mem => flat token (by simp [split, mem])
  change (Lookahead.ofTokens .start upcoming).opensBlock = _
  rw [sees, later, parts]
  by_cases closed : (Lookahead.start.meetAll line).depth = 0
  · rw [Lookahead.ofTokens_append onLine ends closed]
  -- If brackets are open where the line ends, then so does the text, and neither sees a colon.
  have marks : ∀ token ∈ stop :: more,
      token.kind = .newline ∨ token.kind = .dedent ∨ token.kind = .eof := by
    have stops : stop.kind = .newline ∨ stop.kind = .eof := by
      simpa [TokenKind.onLine, Decidable.or_iff_not_imp_left] using ends
    refine List.forall_mem_cons.2 ⟨stops.imp_right Or.inr, ?_⟩
    rcases stops with newline | eof
    · have here : all = (front ++ s.current :: line) ++ stop :: more := by simp [split]
      rcases laidOut.level_or_ended here (TokenKind.isLineMark_iff.2 (Or.inl newline)) with
        level | ended
      · rw [List.append_cons, nestAll_append, ← nesting, outside] at level
        exact absurd ((Lookahead.depth_meetAll .start line).trans level) closed
      · exact fun token mem => Or.inr (ended token mem)
    · have notAmong : stop ∉ tokens := fun mem =>
        running stop (List.mem_cons_of_mem _ mem) eof
      rw [among.resolve_left notAmong]
      simp
  have unseen : (Lookahead.start.meetAll line).colon = false :=
    Bool.eq_false_iff.2 fun colon => closed (Lookahead.depth_of_colon (fun _ => rfl) colon)
  rw [Lookahead.ofTokens_onLine onLine, Lookahead.opensBlock, Lookahead.opensBlock, unseen,
    Lookahead.colon_ofTokens_of_marks closed unseen marks]
  rfl

end Halfway

/-- The scanner and the list stay alongside each other. -/
theorem Halfway.alongside {text : List Char} {all : List Token} (laidOut : LaidOut text all)
    (flat : ∀ token ∈ all, token.wraps = false) :
    Alongside .equality (fun _ => False) (fun s : Scanner => s.nesting = 0) (Halfway all) where
  current h := h.current
  opensBlock h name outside := h.opensBlock laidOut flat name outside
  advance {s list} h := by
    obtain ⟨moves, after⟩ := h.advance
    refine Or.inr ⟨?_, after⟩
    change Option.Rel _ s.advance.1 none
    rw [moves]
    exact .none
  calms h mark moved name := h.outside laidOut mark moved name
  stays := id

/-- **A text is parsed as its tokens are**: to the same tree, or to the same error.  It has tokens,
and no string in single quotes among them holds a line break of two characters. -/
theorem parse_eq_of_tokenize {options : Options} {text : List Char} {tokens : List Token}
    (found : tokenize options text = .ok tokens) (flat : ∀ token ∈ tokens, token.wraps = false)
    (entry : Entry) :
    parse options entry text = ((Session.start (TokenList.ofList tokens)).parse entry).1 := by
  have laidOut := LaidOut.of_tokenize found
  obtain ⟨scanner, passed, last, opened, path, ended, running, rfl⟩ := tokenize_eq_ok_iff.1 found
  have steps := Scanner.ofText_steps opened
  have list : (TokenList.ofList (passed ++ [last.current])).toList = passed ++ [last.current] :=
    TokenList.toList_ofList ended
  have begins : Halfway (passed ++ [last.current]) scanner
      (TokenList.ofList (passed ++ [last.current])) :=
    ⟨steps.ready, ⟨[], list.symm, steps.nests.trans (nestAll_concat 0 [] _).symm⟩, passed, last,
      path, ended, running, list⟩
  -- No bracket is open before the first token.
  have calm : Standpoint.lineStart.Holds (fun s : Scanner => s.nesting = 0) scanner := by
    intro name
    have name : scanner.current.kind = .name := name
    rw [steps.nests, name]
    rfl
  have sides : Session.Sides .equality (Halfway (passed ++ [last.current]))
      (Session.start scanner) (Session.start (TokenList.ofList (passed ++ [last.current]))) :=
    ⟨begins, congrArg Token.start begins.current, rfl⟩
  rcases Session.parse_alike_at (Halfway.alongside laidOut flat) Scanner.countdown
    TokenList.countdown trivial (TokenList.countdown_good_ofList _) calm sides entry with
    never | ⟨result, -⟩
  · exact never.elim
  · rw [result.eq, parse, opened]
    rfl

/-- A `match` statement whose subject goes on over a line break of two characters: it is read from
its tokens, but not from its text. -/
theorem parse_ne_of_wraps :
    let text := "match 'a\\\r\nb':\r\n  case x: pass\r\n".toList
    ∃ tokens tree error, tokenize {} text = .ok tokens ∧
      ((Session.start (TokenList.ofList tokens)).parse .file).1 = .ok tree ∧
      parse {} .file text = .error error ∧ tokens.any Token.wraps = true ∧
      tree.tokens.length = 12 ∧ error.position = 6 := by
  intro text
  obtain ⟨tokens, found, both⟩ : ∃ tokens, tokenize {} text = .ok tokens ∧
      (tokens.any Token.wraps &&
        ((Session.start (TokenList.ofList tokens)).parse .file).1.toOption.any
          (fun tree => tree.tokens.length = 12)) = true :=
    exists_ok_of_any (by decide +kernel)
  obtain ⟨wraps, length⟩ := Bool.and_eq_true_iff.1 both
  obtain ⟨tree, read, length⟩ := exists_ok_of_any length
  obtain ⟨error, failed, place⟩ : ∃ error, parse {} .file text = .error error ∧
      decide (error.position = 6) = true := exists_error_of_any (by decide +kernel)
  exact ⟨tokens, tree, error, found, read, failed, wraps, of_decide_eq_true length,
    of_decide_eq_true place⟩

end PythonSyntax
