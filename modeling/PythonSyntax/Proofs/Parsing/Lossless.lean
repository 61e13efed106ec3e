/-
**Parsing loses no token.**

Read field by field, the tree of a text has the tokens that the scanner finds in the text: each once,
and in the order of the text.

Main results:

* `PythonSyntax.Phrase.Matches.reading_eq` — the reading of a node that is as a phrase says;
* `PythonSyntax.Scanner.statements_of_lines` — no line of a text is empty for the parser;
* `PythonSyntax.parse_lossless` — what is parsed, read field by field, is what was scanned.
-/

import PythonSyntax.Proofs.Lexical.Budget
import PythonSyntax.Proofs.Lexical.Layout
import PythonSyntax.Proofs.Parsing.Soundness
import PythonSyntax.Proofs.Syntax.Slots
import PythonSyntax.Proofs.Syntax.Closers

set_option autoImplicit false

namespace PythonSyntax

open Phrase

/-! ### Readings of whole trees -/

/-- The reading of a node that is as a phrase says is the tokens of its children. -/
theorem Phrase.Matches.reading_eq {p : Phrase} {kind : NodeKind} {flow : Flow}
    {children : List Child} (h : p.Matches (Derives ebnf) flow children)
    (suits : p.suits kind = true) (plain : p.trees = []) (start stop : Nat) :
    (Tree.node kind start stop children).reading = Tree.tokensOf children := by
  refine Tree.reading_eq_tokens _ fun inner mem => ?_
  rcases List.mem_cons.1 mem with rfl | mem
  · exact h.fits suits start stop
  · refine Matches.forall_subtrees (D := Derives ebnf) (P := Tree.Fits) (fun _ => trivial)
      (h.mono fun _ _ _ derived => ⟨derived, derived.fits⟩) ?_ inner mem
    intro kind inner flow start stop children made
    simp [plain] at made

/-- No token of children that are as a phrase says marks the end of the text. -/
theorem Phrase.Matches.ne_eof {p : Phrase} {flow : Flow} {children : List Child}
    (h : p.Matches (Derives ebnf) flow children) (lacks : p.lacksKind .eof = true) :
    ∀ token ∈ Tree.tokensOf children, token.kind ≠ .eof :=
  h.ne_kind (fun _ _ _ derived => derived.ne_eof) lacks

/-! ### Lines -/

/-- The lines of a module: statements, and ends of empty lines. -/
def Entry.line : Phrase := alt (leaf .newlines [.newline]) (part .statements .statement)

/-- The last token of a statement ends a line. -/
theorem Derives.endsLine {flow : Flow} {tree : Tree} (h : Derives ebnf flow .statement tree) :
    ∃ front last, tree.tokens = front ++ [last] ∧ last.EndsLine := by
  obtain ⟨front, last, split, mem⟩ := h.ends
  refine ⟨front, last, split, ?_⟩
  simpa [Nonterminal.closers, Nonterminal.lineClosers, Token.EndsLine] using mem

/-- Lines that the scanner has found are statements: none is empty, since a statement takes the end
of its line and what follows that is not the end of a line. -/
theorem Scanner.statements_of_lines {flow : Flow} {children : List Child} {s t : Scanner}
    (h : (many Entry.line).Matches (Derives ebnf) flow children)
    (path : Path s (Tree.tokensOf children) t) (rested : s.Rested)
    (first : s.current.kind ≠ .newline) :
    (many (part .statements .statement)).Matches (Derives ebnf) flow children := by
  generalize eq : many Entry.line = p at h
  induction h generalizing s with
  | stop => exact .stop
  | @more flow p front back line lines ih ih' =>
      cases eq
      rw [Tree.tokensOf_append] at path
      obtain ⟨middle, before, after⟩ := Path.append_iff.1 path
      rcases Matches.alt_iff.1 line with empty | statement
      · obtain ⟨token, mem, rfl⟩ := Matches.leaf_iff.1 empty
        obtain ⟨here, -⟩ := Path.cons_iff.1 before
        have here : s.current = token := here
        rw [here] at first
        exact absurd (by simpa using mem) first
      · obtain ⟨tree, derived, rfl⟩ := Matches.part_iff.1 statement
        obtain ⟨start, last, split, ends⟩ := derived.endsLine
        rw [Tree.tokensOf_cons, Tree.tokensOf_nil, List.append_nil] at before
        have next := rested.not_newline (split ▸ before) ends
        exact .more statement (ih' after (rested.of_path before) next rfl)
  | _ => cases eq

/-! ### What is parsed -/

/-- A parse of a text is one by a session on its first token. -/
theorem parse_eq_ok_iff {options : Options} {entry : Entry} {text : List Char} {tree : Tree} :
    parse options entry text = .ok tree ↔ ∃ scanner, Scanner.ofText options text = .ok scanner ∧
      ∃ session, (Session.start scanner).parse entry = (.ok tree, session) := by
  unfold parse
  cases Scanner.ofText options text with
  | error _ => simp [bind, Except.bind]
  | ok scanner =>
      simp only [bind, Except.bind, Except.ok.injEq, exists_eq_left']
      constructor
      · intro h
        exact ⟨_, Prod.ext h rfl⟩
      · rintro ⟨session, h⟩
        rw [h]

/-- The tokens up to the end of the text, passed by a parser, are all tokens of the text. -/
theorem tokenize_of_path {options : Options} {text : List Char} {scanner t : Scanner}
    {front : List Token} {last : Token} (opened : Scanner.ofText options text = .ok scanner)
    (path : Path scanner (front ++ [last]) t) (ended : last.kind = .eof)
    (running : ∀ token ∈ front, token.kind ≠ .eof) :
    tokenize options text = .ok (front ++ [last]) := by
  obtain ⟨middle, before, after⟩ := Path.append_iff.1 path
  obtain ⟨here, -⟩ := Path.cons_iff.1 after
  have here : middle.current = last := here
  subst here
  exact tokenize_eq_ok_iff.2 ⟨scanner, front, middle, opened, before, ended, running, rfl⟩

/-- What is parsed as a module. -/
theorem parse_file_lossless {options : Options} {text : List Char} {tree : Tree}
    (h : parse options .file text = .ok tree) :
    tokenize options text = .ok tree.reading ∧ tree.childrenAt .newlines = [] := by
  obtain ⟨scanner, opened, session, parsed⟩ := parse_eq_ok_iff.1 h
  obtain ⟨start, stop, children, matched, rfl⟩ := Session.parse_matches parsed
  obtain ⟨path, -⟩ := Session.parseBy_path parsed
  obtain ⟨lines, mark, matchedLines, matchedMark, rfl⟩ := Matches.seq_iff.1 matched
  obtain ⟨eof, ended, rfl⟩ := Matches.leaf_iff.1 (Matches.last_iff.1 matchedMark)
  obtain ⟨rested, first⟩ := Scanner.ofText_rested opened
  rw [Tree.tokens_node, Tree.tokensOf_append] at path
  obtain ⟨middle, before, -⟩ := Path.append_iff.1 path
  have statements := Scanner.statements_of_lines matchedLines before rested first
  have all : (row [many (part .statements .statement), leaf .eof [.eof]]).Matches (Derives ebnf)
      Flow.outside (lines ++ [(.eof, .leaf eof)]) := .seq statements matchedMark
  constructor
  · have read : (Tree.node Entry.file.kind start stop (lines ++ [(.eof, .leaf eof)])).reading = _ :=
      all.reading_eq (by decide) rfl start stop
    rw [read, Tree.tokensOf_append]
    exact tokenize_of_path opened path (by simpa using ended)
      (statements.ne_eof (by decide))
  · have lacks : (row [many (part .statements .statement), leaf .eof [.eof]]).lacks .newlines = true :=
      by decide
    rw [Tree.childrenAt, Tree.children, all.filter_lacks lacks, List.map_nil]

/-- What is parsed as an expression. -/
theorem parse_eval_lossless {options : Options} {text : List Char} {tree : Tree}
    (h : parse options .eval text = .ok tree) : tokenize options text = .ok tree.reading := by
  obtain ⟨scanner, opened, session, parsed⟩ := parse_eq_ok_iff.1 h
  obtain ⟨start, stop, children, matched, rfl⟩ := Session.parse_matches parsed
  obtain ⟨path, -⟩ := Session.parseBy_path parsed
  have read : (Tree.node Entry.eval.kind start stop children).reading = _ :=
    matched.reading_eq (by decide) rfl start stop
  rw [read]
  obtain ⟨value, others, matchedValue, matchedOthers, rfl⟩ := Matches.seq_iff.1 matched
  obtain ⟨newlines, mark, matchedNewlines, matchedMark, rfl⟩ := Matches.seq_iff.1 matchedOthers
  obtain ⟨eof, ended, rfl⟩ := Matches.leaf_iff.1 (Matches.last_iff.1 matchedMark)
  rw [Tree.tokens_node, ← List.append_assoc, Tree.tokensOf_append] at path
  rw [← List.append_assoc, Tree.tokensOf_append]
  refine tokenize_of_path opened path (by simpa using ended) fun token mem => ?_
  rw [Tree.tokensOf_append, List.mem_append] at mem
  rcases mem with mem | mem
  · exact matchedValue.ne_eof (by decide) token mem
  · exact matchedNewlines.ne_eof (by decide) token mem

/-- What is parsed as a statement, by a session on the first token. -/
theorem parse_single_lossless {options : Options} {text : List Char} {scanner : Scanner}
    {tree : Tree} {session : Session Scanner} (opened : Scanner.ofText options text = .ok scanner)
    (parsed : (Session.start scanner).parse .single = (.ok tree, session)) :
    Path scanner tree.reading session.cursor ∧
      ∀ tokens, tokenize options text = .ok tokens →
        ∃ rest, tokens = tree.reading ++ session.current :: rest := by
  obtain ⟨start, stop, children, matched, rfl⟩ := Session.parse_matches parsed
  obtain ⟨path, -⟩ := Session.parseBy_path parsed
  have read : (Tree.node Entry.single.kind start stop children).reading = _ :=
    matched.reading_eq (by decide) rfl start stop
  rw [read]
  refine ⟨path, fun tokens found => ?_⟩
  simp only [tokenize, opened, bind, Except.bind] at found
  exact Scanner.tokensFrom_prefix path (matched.ne_eof (by decide)) found

/-- **What is parsed, read field by field, is what was scanned.**  A module and an expression have
all tokens of the text, and no line of a module is empty for the parser.  A statement has those that
precede the token on which the parser is left. -/
theorem parse_lossless (options : Options) (text : List Char) :
    (∀ tree, parse options .file text = .ok tree →
      tokenize options text = .ok tree.reading ∧ tree.childrenAt .newlines = []) ∧
    (∀ tree, parse options .eval text = .ok tree → tokenize options text = .ok tree.reading) ∧
    (∀ scanner tree session, Scanner.ofText options text = .ok scanner →
      (Session.start scanner).parse .single = (.ok tree, session) →
        Path scanner tree.reading session.cursor ∧
          ∀ tokens, tokenize options text = .ok tokens →
            ∃ rest, tokens = tree.reading ++ session.current :: rest) := by
  refine ⟨fun tree => parse_file_lossless, fun tree => parse_eval_lossless, ?_⟩
  intro scanner tree session opened parsed
  exact parse_single_lossless opened parsed

/-- A call with a keyword argument and a last comma is a module, an expression and a statement. -/
theorem parse_lossless_call :
    (∃ tree, parse {} .file "f(a, b=1,)\n".toList = .ok tree ∧ tree.reading.length = 11 ∧
      tokenize {} "f(a, b=1,)\n".toList = .ok tree.reading ∧ tree.childrenAt .newlines = []) ∧
    (∃ tree, parse {} .eval "f(a, b=1,)\n".toList = .ok tree ∧ tree.reading.length = 11 ∧
      tokenize {} "f(a, b=1,)\n".toList = .ok tree.reading) ∧
    ∃ scanner tree session, Scanner.ofText {} "f(a, b=1,)\n".toList = .ok scanner ∧
      (Session.start scanner).parse .single = (.ok tree, session) ∧ tree.reading.length = 10 ∧
      ∃ rest, tokenize {} "f(a, b=1,)\n".toList = .ok (tree.reading ++ session.current :: rest) := by
  obtain ⟨file, eval, single⟩ := parse_lossless {} "f(a, b=1,)\n".toList
  obtain ⟨module, parsed, length⟩ : ∃ tree, parse {} .file "f(a, b=1,)\n".toList = .ok tree ∧
      decide (tree.reading.length = 11) = true := exists_ok_of_any (by decide +kernel)
  obtain ⟨value, parsed', length'⟩ : ∃ tree, parse {} .eval "f(a, b=1,)\n".toList = .ok tree ∧
      decide (tree.reading.length = 11) = true := exists_ok_of_any (by decide +kernel)
  obtain ⟨scanner, opened, ran⟩ : ∃ scanner, Scanner.ofText {} "f(a, b=1,)\n".toList = .ok scanner ∧
      ((Session.start scanner).parse .single).1.toOption.any
        (fun tree => decide (tree.reading.length = 10)) = true :=
    exists_ok_of_any (by decide +kernel)
  obtain ⟨statement, parsed'', length''⟩ := exists_ok_of_any ran
  refine ⟨⟨module, parsed, by simpa using length, file module parsed⟩,
    ⟨value, parsed', by simpa using length', eval value parsed'⟩, scanner, statement, _, opened,
    Prod.ext parsed'' rfl, by simpa using length'', ?_⟩
  obtain ⟨-, front⟩ := single scanner statement _ opened (Prod.ext parsed'' rfl)
  have all := (file module parsed).1
  obtain ⟨rest, split⟩ := front _ all
  exact ⟨rest, split ▸ all⟩

end PythonSyntax
