/-
**Modules in a row.**

A text whose last line is ended may be followed by another one.  Its tokens are then followed by
those of the other: the blocks that are open at the end of the first text are closed by the first
line of the second, instead of by the end of the text.  So the statements of both are the statements
of the whole.

Main definitions:

* `PythonSyntax.EndsInNewline` — the last line of the text is ended.

Main results:

* `PythonSyntax.tokenize_append` — **the tokens of two texts in a row**;
* `PythonSyntax.exists_parse_of_tokens` — a text with the tokens of a module is parsed as it;
* `PythonSyntax.parse_append` — **modules in a row are a module**, with the statements of both.
-/

import PythonSyntax.Proofs.Lexical.Junction
import PythonSyntax.Proofs.Parsing.KindsDecide
import PythonSyntax.Proofs.Parsing.Spans
import PythonSyntax.Proofs.Parsing.TextAndTokens

set_option autoImplicit false

namespace PythonSyntax

open Phrase

/-! ### Tokens -/

/-- A text is empty, or its last line is ended in the text: behind the end of the line only blocks
are ended. -/
def EndsInNewline (options : Options) (text : List Char) : Prop :=
  text = [] ∨ ∃ front newline dedents eof,
    tokenize options text = .ok (front ++ newline :: dedents ++ [eof]) ∧ newline.BreaksLine ∧
      newline.stop = text.length ∧ (∀ token ∈ dedents, token.kind = .dedent) ∧ eof.kind = .eof

/-- What holds of the kinds of tokens holds of tokens that are alike. -/
theorem forall_kind_of_plain {P : TokenKind → Prop} {tokens tokens' : List Token}
    (same : tokens'.map Token.plain = tokens.map Token.plain)
    (h : ∀ token ∈ tokens, P token.kind) : ∀ token ∈ tokens', P token.kind := by
  intro token mem
  have mem := List.mem_map_of_mem (f := Token.plain) mem
  rw [same] at mem
  obtain ⟨other, mem, eq⟩ := List.mem_map.1 mem
  have kind := h other mem
  rwa [← Token.plain_kind, eq] at kind

/-- **The tokens of two texts in a row** are those of the first and those of the second, up to their
places, if the last line of the first is ended and the second does not begin with an indented
line. -/
theorem tokenize_append {options : Options} {first more : List Char}
    {front dedents rest : List Token} {newline eof next : Token} (noReturn : '\r' ∉ first)
    (found : tokenize options first = .ok (front ++ newline :: dedents ++ [eof]))
    (breaks : newline.BreaksLine) (last : newline.stop = first.length)
    (found' : tokenize options more = .ok (next :: rest)) (notIndented : next.kind ≠ .indent) :
    ∃ all, tokenize options (first ++ more) = .ok all ∧ all.map Token.plain =
      (front ++ newline :: dedents ++ next :: rest).map Token.plain := by
  obtain ⟨s, tokens, t, opened, path, ended, running, eq⟩ := tokenize_eq_ok_iff.1 found
  obtain ⟨rfl, -⟩ := List.append_inj' eq rfl
  obtain ⟨e, before, after⟩ := Path.append_iff.1 path
  have here : e.current = newline := (Path.cons_iff.1 after).1
  subst here
  -- The first text ends where its last line does, with some blocks open.
  have empty : e.rest = [] := by
    have placed := (Scanner.ofText_placed opened).of_path before
      fun token mem => running token (List.mem_append_left _ mem)
    rw [placed.standing.rest, ← placed.stop, last, List.drop_length]
  have inside := (Scanner.ofText_inside opened).of_path before
  have closed := (inside.breaks breaks).1.path_nil inside.ready empty after ended
    fun token mem => running token (List.mem_append_right _ mem)
  obtain ⟨f, tokens', t', opened', path', ended', running', eq'⟩ := tokenize_eq_ok_iff.1 found'
  have begins : f.current = next := by
    cases path' with
    | nil => exact (List.cons.inj eq').1.symm
    | cons here _ _ => exact here.trans (List.cons.inj eq').1.symm
  obtain ⟨c, all, d, opened₂, path₂, same, eq₂⟩ := Scanner.exists_path_append opened before breaks
    empty noReturn opened' path' (begins ▸ notIndented)
  rw [← closed, ← List.map_cons, ← List.map_append, ← List.map_append] at eq₂
  have kind : d.current.kind = .eof := (congrArg Token.kind same).trans ended'
  refine ⟨all ++ [d.current], tokenize_eq_ok_iff.2 ⟨c, all, d, opened₂, path₂, kind, ?_, rfl⟩, ?_⟩
  · refine forall_kind_of_plain (P := (· ≠ .eof)) eq₂ fun token mem => ?_
    rcases List.mem_append.1 mem with mem | mem
    · exact running token mem
    · exact running' token mem
  · calc (all ++ [d.current]).map Token.plain
        = all.map Token.plain ++ [d.current.plain] := List.map_append
      _ = (front ++ e.current :: dedents ++ tokens').map Token.plain ++ [t'.current.plain] := by
          rw [eq₂, same]
      _ = (front ++ e.current :: dedents ++ next :: rest).map Token.plain := by
          change _ ++ [t'.current].map Token.plain = _
          rw [eq', ← List.append_assoc, ← List.map_append]

/-! ### Texts without carriage returns -/

namespace Scanner

variable {text : List Char} {s t : Scanner}

theorem Delivers.subset {start : Nat} {token : Token} (h : Delivers text start token s) :
    token.text.toList ⊆ text :=
  h.covers.subset token.piece (by simp [Token.pieces])

/-- The tokens that are passed are written in the text. -/
theorem Standing.subset_of_path {tokens : List Token} (h : s.Standing text)
    (here : s.current.text.toList ⊆ text) (path : Path s tokens t) :
    ∀ token ∈ tokens ++ [t.current], token.text.toList ⊆ text := by
  induction path with
  | nil => simpa using here
  | @cons s next t token tokens stands moved rest ih =>
      have stands : s.current = token := stands
      subst stands
      refine List.forall_mem_cons.2 ⟨here, ?_⟩
      have moved : s.advance = (none, next) := moved
      unfold Scanner.advance at moved
      split at moved
      · cases moved
        exact ih h here
      · split at moved
        · rename_i token u found
          cases moved
          have delivers := next_covers h found
          exact ih ⟨delivers.standing.le, delivers.standing.rest, delivers.standing.pending⟩
            delivers.subset
        · cases moved

end Scanner

/-- In a text without carriage returns no string goes on over a line break of two characters. -/
theorem wraps_of_tokenize {options : Options} {text : List Char} {tokens : List Token}
    (found : tokenize options text = .ok tokens) (noReturn : '\r' ∉ text) :
    ∀ token ∈ tokens, token.wraps = false := by
  obtain ⟨scanner, passed, last, opened, path, -, -, rfl⟩ := tokenize_eq_ok_iff.1 found
  have first : scanner.Standing text ∧ scanner.current.text.toList ⊆ text := by
    unfold Scanner.ofText at opened
    split at opened
    · rename_i token u next
      cases opened
      have delivers := Scanner.next_covers (Scanner.initial_standing options text) next
      exact ⟨⟨delivers.standing.le, delivers.standing.rest, delivers.standing.pending⟩,
        delivers.subset⟩
    · cases opened
  intro token mem
  have written := first.1.subset_of_path first.2 path token mem
  refine Bool.eq_false_iff.2 fun wraps => ?_
  simp only [Token.wraps, Bool.and_eq_true, Option.any_eq_true] at wraps
  obtain ⟨-, value, eq, wraps⟩ := wraps
  have among : '\r' ∈ value.toList := by
    unfold Quotation.wraps at wraps
    split at wraps
    · cases wraps
    · rename_i quote body split
      have body_wraps := of_decide_eq_true (Bool.and_eq_true_iff.1 wraps).2
      refine (List.dropWhile_suffix (fun c => !Quotation.isQuote c)).subset ?_
      rw [split]
      exact List.mem_cons_of_mem _ (body_wraps.subset List.mem_cons_self)
  refine noReturn (written ?_)
  rwa [Token.text, eq]

/-! ### Modules -/

/-- Tokens that are the same up to their places are akin. -/
theorem Token.akin_of_plain {one two : Token} (same : two.plain = one.plain) : one.Akin two := by
  obtain ⟨kind, value⟩ := Token.plain_eq_iff.1 same
  exact ⟨kind, fun word _ => by rw [spells, spells, kind, value]⟩

/-- Tokens correspond to each other if they are the same up to their places. -/
def Likeness.plain : Likeness where
  token one two := two.plain = one.plain
  start _ _ := True
  stop _ _ := True
  kind same := (Token.akin_of_plain same).kind
  spells same := (Token.akin_of_plain same).spells
  start_of _ := trivial
  stop_of _ := trivial
  begun_of _ := trivial

open TokenList in
/-- **A text with the tokens of a module is parsed as that module**, up to places. -/
theorem exists_parse_of_tokens {options : Options} {text : List Char} {all : List Token}
    {children : List Child} (found : tokenize options text = .ok all) (noReturn : '\r' ∉ text)
    (matched : Ebnf.module.Matches (Derives ebnf) Flow.outside children)
    (same : all.map Token.plain = (Tree.tokensOf children).map Token.plain) :
    ∃ read, parse options .file text = .ok read ∧
      read.unplaced = .node .fileInput 0 0 (Tree.sketchOf Token.plain children) := by
  have conforms : Tree.Conforms (.node .fileInput 0 0 children) := ⟨0, 0, children, matched, rfl⟩
  obtain ⟨tree, t, parsed, bare⟩ := Session.exists_parse_of_conforms conforms
  obtain ⟨-, tokens, mark, eq, ends⟩ := conforms.reading
  rw [eq] at parsed
  rw [Tree.tokens_node] at eq
  have alike : List.Forall₂ Likeness.plain.token (tokens ++ [mark]) all := by
    have pairs : List.Forall₂ (· = ·) (all.map Token.plain)
        ((tokens ++ [mark]).map Token.plain) := by
      rw [same, eq]
      exact List.forall₂_refl _
    rw [List.forall₂_map_left_iff, List.forall₂_map_right_iff] at pairs
    exact pairs.flip
  have akin := alike.imp fun _ _ plain => Token.akin_of_plain plain
  have whole : (ofList (tokens ++ [mark])).toList = tokens ++ [mark] := toList_ofList ends
  have whole' : (ofList all).toList = all := by
    obtain ⟨_, _, _, -, -, ended, -, rfl⟩ := tokenize_eq_ok_iff.1 found
    exact toList_ofList ended
  -- The text is read as its tokens are, and those are read as the tokens of the module.
  have sides : Session.Sides .plain (Level (tokens ++ [mark]) all)
      (Session.start (ofList (tokens ++ [mark]))) (Session.start (ofList all)) :=
    ⟨⟨0, whole, whole'⟩, trivial, rfl⟩
  rcases Session.parse_alike (abreast_of_level akin fun here => here.of_forall₂ alike) countdown
    countdown (countdown_good_ofList _) (countdown_good_ofList _) sides .file with
    never | ⟨result, -⟩
  · exact never.elim
  rw [parsed, ← parse_eq_of_tokenize found (wraps_of_tokenize found noReturn)] at result
  generalize parse options .file text = outcome at result
  cases result with
  | @ok _ read trees =>
      refine ⟨read, rfl, (Tree.Like.sketch_eq (f := Token.plain) id tree read trees).trans ?_⟩
      rw [← Tree.sketch_bare, bare, Tree.sketch_bare]
      rfl

/-- The children that take a field, without places. -/
theorem Tree.childrenAt_unplaced (tree : Tree) (field : Field) :
    tree.unplaced.childrenAt field = (tree.childrenAt field).map Tree.unplaced := by
  unfold childrenAt unplaced
  rw [children_sketch, sketchOf_eq_map, List.filter_map, List.map_map, List.map_map]
  rfl

/-- Statements without tokens are none. -/
theorem Phrase.Matches.statements_eq_nil {flow : Flow} {statements : List Child}
    (h : Matches (Derives ebnf) flow (.many (.part .statements .statement)) statements)
    (none : Tree.tokensOf statements = []) : statements = [] := by
  rcases Matches.many_iff.1 h with rfl | ⟨first, others, one, -, rfl⟩
  · rfl
  · obtain ⟨tree, derived, rfl⟩ := Matches.part_iff.1 one
    obtain ⟨token, rest, eq, -⟩ := derived.begins
    simp [eq] at none

/-- The tokens of a module begin with no mark of a block. -/
theorem Tree.Conforms.exists_first {tree : Tree} (h : tree.Conforms) :
    ∃ first rest, tree.tokens = first :: rest ∧ first.kind ≠ .indent := by
  obtain ⟨start, stop, children, matched, rfl⟩ := h
  rcases matched.begins (fun _ _ _ part => part.begins) with ⟨-, null⟩ | ⟨first, rest, eq, mem⟩
  · cases null
  · refine ⟨first, rest, eq, fun indent => ?_⟩
    rw [indent] at mem
    revert mem
    decide

/-- **Modules in a row are a module**, with the statements of both, up to offsets and what stands
between tokens.  The last line of the first one must be ended. -/
theorem parse_append {options : Options} {first more : List Char} {one two : Tree}
    (noReturn : '\r' ∉ first) (noReturn' : '\r' ∉ more) (ends : EndsInNewline options first)
    (parsed : parse options .file first = .ok one) (parsed' : parse options .file more = .ok two) :
    ∃ tree, parse options .file (first ++ more) = .ok tree ∧
      (tree.childrenAt .statements).map Tree.unplaced =
        (one.childrenAt .statements ++ two.childrenAt .statements).map Tree.unplaced := by
  have conforms := Tree.Conforms.of_parse parsed
  have conforms' := Tree.Conforms.of_parse parsed'
  have found := conforms.reading.1 ▸ (parse_file_lossless parsed).1
  have found' := conforms'.reading.1 ▸ (parse_file_lossless parsed').1
  obtain ⟨next, rest, eq', notIndented⟩ := conforms'.exists_first
  obtain ⟨start, stop, _, matched, rfl⟩ := conforms
  obtain ⟨statements, _, listed, marked, rfl⟩ := Matches.seq_iff.1 matched
  obtain ⟨mark, -, rfl⟩ := Matches.leaf_iff.1 (Matches.last_iff.1 marked)
  obtain ⟨start', stop', _, matched', rfl⟩ := conforms'
  obtain ⟨statements', _, listed', marked', rfl⟩ := Matches.seq_iff.1 matched'
  obtain ⟨mark', -, rfl⟩ := Matches.leaf_iff.1 (Matches.last_iff.1 marked')
  have split : Tree.tokensOf (statements ++ [(.eof, .leaf mark)]) =
      Tree.tokensOf statements ++ [mark] := by
    simp [Tree.tokensOf_append]
  rw [Tree.tokens_node, split] at found
  rcases ends with rfl | ⟨front, newline, dedents, eof, found₂, breaks, last, -, -⟩
  · -- The empty text has no statements.
    have only : [Token.eof 0] = Tree.tokensOf statements ++ [mark] := Except.ok.inj found
    obtain ⟨none, -⟩ := List.append_inj' (show [] ++ [Token.eof 0] = _ from only) rfl
    obtain rfl := listed.statements_eq_nil none.symm
    exact ⟨_, parsed', rfl⟩
  · obtain ⟨tokens, -⟩ := List.append_inj' (Except.ok.inj (found₂.symm.trans found)) rfl
    obtain ⟨all, found₃, same⟩ :=
      tokenize_append noReturn found₂ breaks last (eq' ▸ found') notIndented
    have whole : Ebnf.module.Matches (Derives ebnf) Flow.outside
        (statements ++ (statements' ++ [(.eof, .leaf mark')])) := by
      rw [← List.append_assoc]
      exact .seq (listed.many_join listed') marked'
    rw [tokens, ← eq', Tree.tokens_node, ← Tree.tokensOf_append] at same
    obtain ⟨tree, parsed₂, alike⟩ :=
      exists_parse_of_tokens found₃ (by simp [noReturn, noReturn']) whole same
    refine ⟨tree, parsed₂, ?_⟩
    rw [← Tree.childrenAt_unplaced, alike]
    change (Tree.node .fileInput 0 0 _).unplaced.childrenAt .statements = _
    rw [Tree.childrenAt_unplaced]
    simp [Tree.childrenAt, Tree.children, List.filter_append]

/-- A `match` statement behind an `if` statement whose block the end of the text had closed. -/
theorem parse_append_match :
    ∃ one two tree, parse {} .file "if a:\n  b\n".toList = .ok one ∧
      parse {} .file "match c:\n  case 1: d\n".toList = .ok two ∧
      EndsInNewline {} "if a:\n  b\n".toList ∧
      parse {} .file ("if a:\n  b\n".toList ++ "match c:\n  case 1: d\n".toList) = .ok tree ∧
      (tree.childrenAt .statements).map Tree.unplaced =
        (one.childrenAt .statements ++ two.childrenAt .statements).map Tree.unplaced ∧
      (tree.childrenAt .statements).length = 2 := by
  obtain ⟨one, parsed, length⟩ : ∃ one, parse {} .file "if a:\n  b\n".toList = .ok one ∧
      decide ((one.childrenAt .statements).length = 1) = true :=
    exists_ok_of_any (by decide +kernel)
  obtain ⟨two, parsed', length'⟩ : ∃ two,
      parse {} .file "match c:\n  case 1: d\n".toList = .ok two ∧
        decide ((two.childrenAt .statements).length = 1) = true :=
    exists_ok_of_any (by decide +kernel)
  have ends : EndsInNewline {} "if a:\n  b\n".toList := by
    obtain ⟨tokens, found, check⟩ : ∃ tokens, tokenize {} "if a:\n  b\n".toList = .ok tokens ∧
        decide ((tokens.drop 6).map (fun token => (token.kind, token.value, token.stop)) =
          [(.newline, some "\n", 10), (.dedent, none, 10), (.eof, none, 10)]) = true :=
      exists_ok_of_any (by decide +kernel)
    obtain ⟨newline, _, eq, isNewline, rest⟩ := List.map_eq_cons_iff.1 (of_decide_eq_true check)
    obtain ⟨dedent, _, rfl, isDedent, rest⟩ := List.map_eq_cons_iff.1 rest
    obtain ⟨eof, _, rfl, isEof, none⟩ := List.map_eq_cons_iff.1 rest
    obtain rfl := List.map_eq_nil_iff.1 none
    simp only [Prod.mk.injEq] at isNewline isDedent isEof
    have parts : tokens = tokens.take 6 ++ newline :: [dedent] ++ [eof] := by
      rw [List.append_assoc]
      exact (eq ▸ List.take_append_drop 6 tokens).symm
    refine Or.inr ⟨_, newline, [dedent], eof, parts ▸ found, ⟨isNewline.1, ?_⟩, isNewline.2.2,
      List.forall_mem_singleton.2 isDedent.1, isEof.1⟩
    rw [isNewline.2.1]
    decide
  obtain ⟨tree, parsed₂, same⟩ :=
    parse_append (by decide) (by decide) ends parsed parsed'
  have count := congrArg List.length same
  simp only [List.length_map, List.length_append, of_decide_eq_true length,
    of_decide_eq_true length'] at count
  exact ⟨one, two, tree, parsed, parsed', ends, parsed₂, same, count⟩

end PythonSyntax
