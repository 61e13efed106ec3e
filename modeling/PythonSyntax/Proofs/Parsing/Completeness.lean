/-
**Parsing undoes writing a tree down as tokens.**

A module that is as the grammar says is written down as the list of its tokens, and parsing the list
gives the module back, up to spans.  A list of tokens tells lines that begin with the word `match`
apart, because what stands on a line is balanced; and the depth to which reading goes suffices for
any module.  The same holds of other cursors on the tokens of a module.

Main definitions:

* `PythonSyntax.LooksAlong` — the cursor knows whether a line opens a block;
* `PythonSyntax.Ebnf.module` — the children of a module;
* `PythonSyntax.Tree.Conforms` — the tree is a module by the grammar.

Main results:

* `PythonSyntax.TokenList.toList_of_path` — a list of tokens from which some tokens can be taken
  begins with them;
* `PythonSyntax.foresight_of_looksAlong` — then it tells lines that begin with `match` apart;
* `PythonSyntax.looksAlong_tokenList` — a list of tokens does;
* `PythonSyntax.Session.exists_parse_of_readable`, `PythonSyntax.Session.exists_parse_of_path` —
  **every module by the grammar is parsed wherever its tokens stand**;
* `PythonSyntax.Tree.Conforms.parse_reading` — **every module by the grammar is parsed from its
  tokens**;
* `PythonSyntax.Tree.Conforms.bare_eq` — a list of tokens is that of one module at most.
-/

import PythonSyntax.Proofs.Parsing.CompleteStatements
import PythonSyntax.Proofs.Parsing.Depth
import PythonSyntax.Proofs.Parsing.Lossless
import PythonSyntax.Proofs.Syntax.Nesting
import PythonSyntax.Cursor.TokenList

set_option autoImplicit false

namespace PythonSyntax

open Phrase

/-! ### Lists of tokens -/

namespace TokenList

/-- Moving over a token that is not the last of the list. -/
theorem toList_advance {list : TokenList} (more : list.upcoming ≠ []) :
    list.toList = list.current :: list.advance.toList := by
  obtain ⟨current, upcoming⟩ := list
  cases upcoming with
  | nil => exact absurd rfl more
  | cons next rest => rfl

/-- **A list from which some tokens can be taken begins with them**, up to the first of a kind; after
its last token, that token is taken again and again. -/
theorem toList_of_path {list list' : TokenList} {front more : List Token} {last : Token}
    (path : Path list (front ++ last :: more) list')
    (differ : ∀ token ∈ front, token.kind ≠ last.kind) :
    ∃ rest, list.toList = front ++ last :: rest := by
  induction front generalizing list with
  | nil =>
      obtain ⟨here, -⟩ := Path.cons_iff.1 path
      exact ⟨list.upcoming, congrArg (· :: list.upcoming) here⟩
  | cons token front ih =>
      obtain ⟨here, next, moved, path⟩ := Path.cons_iff.1 path
      cases moved
      obtain ⟨rest, eq⟩ := ih path fun other mem => differ other (List.mem_cons_of_mem _ mem)
      refine ⟨rest, ?_⟩
      by_cases none : list.upcoming = []
      · -- The list would have to stay on a token of two kinds.
        exfalso
        have stays : list.advance = list := by
          rw [advance, none]
        have single : [list.current] = front ++ last :: rest := by
          rw [stays, toList, none] at eq
          exact eq
        cases front with
        | nil =>
            cases single
            exact differ token List.mem_cons_self (congrArg Token.kind here.symm)
        | cons _ _ => simp at single
      · rw [toList_advance none, eq]
        exact congrArg (· :: _) here

/-- All tokens of a list can be taken. -/
theorem exists_path (list : TokenList) : ∃ list', Path list list.toList list' := by
  obtain ⟨current, upcoming⟩ := list
  induction upcoming generalizing current with
  | nil => exact ⟨_, .cons rfl rfl (.nil _)⟩
  | cons next rest ih =>
      obtain ⟨list', path⟩ := ih next
      exact ⟨list', .cons rfl rfl path⟩

/-- A list that ends with the mark of the end is taken as it is. -/
theorem toList_ofList {tokens : List Token} {mark : Token} (ends : mark.kind = .eof) :
    (ofList (tokens ++ [mark])).toList = tokens ++ [mark] := by
  cases tokens with
  | nil => simp [ofList, closed, toList, ends]
  | cons first more => simp [ofList, closed, toList, ends]

end TokenList

/-! ### Lines that begin with the word `match` -/

/-- What stands on one line, before its end, is what a list of tokens looks at. -/
theorem TokenList.opensBlock_of_path {list list' : TokenList} {first last : Token}
    {line more : List Token} (path : Path list (first :: (line ++ last :: more)) list')
    (onLine : ∀ token ∈ line, token.kind.onLine = true) (starts : first.kind.onLine = true)
    (ends : last.kind.onLine = false) (closed : (Lookahead.start.meetAll line).depth = 0) :
    Cursor.opensBlock list = (Lookahead.start.meetAll line).opensBlock := by
  have differ : ∀ token ∈ first :: line, token.kind ≠ last.kind := by
    intro token mem same
    have inside : token.kind.onLine = true := by
      rcases List.mem_cons.1 mem with rfl | mem
      · exact starts
      · exact onLine token mem
    rw [same, ends] at inside
    cases inside
  obtain ⟨rest, eq⟩ := toList_of_path path differ
  have upcoming : list.upcoming = line ++ last :: rest := (List.cons.inj eq).2
  change (Lookahead.ofTokens .start list.upcoming).opensBlock = _
  rw [upcoming, Lookahead.ofTokens_append onLine ends closed]

/-- The line of a `match` statement, after its first word, ends with a colon after its subject. -/
theorem Derives.opensBlock_subject {flow : Flow} {subject : Tree} {colon : Token}
    (derived : Derives ebnf flow .namedExprList subject) (isColon : colon.kind = .symbol .colon) :
    (Lookahead.start.meetAll (subject.tokens ++ [colon])).opensBlock = true := by
  have seen := (derived.glance rfl).sees .start nofun
  have closed : (Lookahead.start.meetAll subject.tokens).depth = 0 := seen.depth
  obtain ⟨first, others, eq, begins⟩ := derived.begins
  have some : 1 ≤ (Lookahead.start.meetAll subject.tokens).pieces := by
    have counts : first.kind ≠ .typeComment := by
      intro same
      rw [same] at begins
      revert begins
      decide
    rw [eq, Lookahead.meetAll_cons]
    refine Nat.le_trans ?_ (Lookahead.pieces_le_meetAll _ _)
    rw [Lookahead.meetOne, if_neg counts]
    exact Nat.le_refl _
  rw [Lookahead.meetAll_append, Lookahead.meetAll_cons, Lookahead.meetAll_nil]
  generalize Lookahead.start.meetAll subject.tokens = look at closed some
  obtain ⟨depth, pieces, isLast⟩ := look
  cases closed
  have met : Lookahead.meetOne ⟨0, pieces, isLast⟩ colon = ⟨0, pieces + 1, true⟩ := by
    rw [Lookahead.meetOne, isColon]
    rfl
  rw [met]
  simpa [Lookahead.opensBlock] using some

/-- The line of a simple statement ends with no colon outside of brackets. -/
theorem Derives.exists_line {flow : Flow} {tree : Tree}
    (derived : Derives ebnf flow .simpleStatement tree) :
    ∃ line last, tree.tokens = line ++ [last] ∧ last.kind = .newline ∧ line ≠ [] ∧
      (∀ token ∈ line, token.kind.onLine = true) ∧
      ∀ look : Lookahead, (look.colon = true → look.depth = 0) →
        Glance.Sees ⟨0, false⟩ look.depth (look.meetAll line) := by
  obtain ⟨start, stop, children, matched, rfl⟩ := derived.node rfl
  obtain ⟨first, _, one, rest, rfl⟩ := Matches.seq_iff.1 matched
  obtain ⟨others, _, more, ended, rfl⟩ := Matches.seq_iff.1 rest
  obtain ⟨last, isNewline, rfl⟩ := Matches.leaf_iff.1 (Matches.last_iff.1 ended)
  have both := Matches.seq one more
  have parts : ∀ flow name tree, Derives ebnf flow name tree → name.inline = true →
      Balanced name tree.tokens := fun _ _ _ part inline => part.glance inline
  have computed : (seq (.part .statements .smallStatement) (further .separators [.symbol .semiColon]
      (.part .statements .smallStatement))).glance ⟨0, true⟩ = some ⟨0, false⟩ := by decide
  refine ⟨Tree.tokensOf (first ++ others), last, by simp [Tree.tokensOf_append], ?_, ?_, ?_, ?_⟩
  · simpa using isNewline
  · obtain ⟨tree, part, rfl⟩ := Matches.part_iff.1 one
    obtain ⟨token, more, eq, -⟩ := part.begins
    simp [eq]
  · exact (both.glance parts computed (show Glance.Sees _ 0 .start from ⟨rfl, nofun, nofun⟩)).2
  · exact fun look outside => (both.glance parts computed ⟨rfl, fun _ => rfl, outside⟩).1

/-- The cursor knows from the tokens of a line whether it opens a block, if the line begins with a
name and closes the brackets that it opens. -/
def LooksAlong (σ : Type) [Cursor σ] : Prop :=
  ∀ {c c' : σ} {first last : Token} {line more : List Token},
    Path c (first :: (line ++ last :: more)) c' → first.kind = .name → last.kind = .newline →
    (∀ token ∈ line, token.kind.onLine = true) → (∀ depth, nestAll depth line = depth) →
      Cursor.opensBlock c = (Lookahead.start.meetAll line).opensBlock

theorem looksAlong_tokenList : LooksAlong TokenList := by
  intro list list' first last line more path isName isNewline onLine balanced
  refine TokenList.opensBlock_of_path path onLine ?_ ?_ ?_
  · rw [isName]
    rfl
  · rw [isNewline]
    rfl
  · rw [Lookahead.depth_meetAll, balanced]
    rfl

/-- **A cursor that knows whether lines open blocks tells lines that begin with the word `match`
apart.** -/
theorem foresight_of_looksAlong {σ : Type} [Cursor σ] (looks : LooksAlong σ) : Foresight σ := by
  constructor
  · intro flow tree c c' derived path
    obtain ⟨start, stop, children, matched, rfl⟩ := derived.node rfl
    obtain ⟨_, _, word, rest, rfl⟩ := Matches.seq_iff.1 matched
    obtain ⟨_, _, part, rest', rfl⟩ := Matches.seq_iff.1 rest
    obtain ⟨_, _, sign, rest'', rfl⟩ := Matches.seq_iff.1 rest'
    obtain ⟨_, more, newline, -, rfl⟩ := Matches.seq_iff.1 rest''
    obtain ⟨first, spelled, rfl⟩ := Matches.word_iff.1 word
    obtain ⟨subject, listed, rfl⟩ := Matches.part_iff.1 part
    obtain ⟨colon, isColon, rfl⟩ := Matches.leaf_iff.1 sign
    obtain ⟨last, isNewline, rfl⟩ := Matches.leaf_iff.1 newline
    have isColon : colon.kind = .symbol .colon := by simpa using isColon
    have isNewline : last.kind = .newline := by simpa using isNewline
    simp only [Token.spells, Bool.and_eq_true, decide_eq_true_eq] at spelled
    have tokens : (Tree.node .matchStatement start stop ([(.matchToken, .leaf first)] ++
        ([(.subject, subject)] ++ ([(.colon, .leaf colon)] ++ ([(.newline, .leaf last)] ++
          more))))).tokens =
            first :: ((subject.tokens ++ [colon]) ++ last :: Tree.tokensOf more) := by
      simp
    rw [tokens] at path
    rw [looks path spelled.1 isNewline ?_ ?_, listed.opensBlock_subject isColon]
    · intro token mem
      rcases List.mem_append.1 mem with mem | mem
      · exact (listed.glance rfl).onLine token mem
      · rw [List.mem_singleton.1 mem, isColon]
        rfl
    · intro depth
      rw [nestAll_append, listed.level, nestAll_cons, isColon]
      rfl
  · intro flow tree c c' derived path spelled
    obtain ⟨line, last, eq, isNewline, some, onLine, seen⟩ := derived.exists_line
    have level := derived.level
    rw [eq] at path level
    obtain ⟨first, line, rfl⟩ := List.exists_cons_of_ne_nil some
    have here : Cursor.current c = first := (Path.cons_iff.1 path).1
    change (Cursor.current c).spells "match" = true at spelled
    rw [here] at spelled
    simp only [Token.spells, Bool.and_eq_true, decide_eq_true_eq] at spelled
    have seen := seen .start fun colon => absurd colon Bool.false_ne_true
    rw [Lookahead.meetAll_cons] at seen
    have word : Lookahead.start.meetOne first = ⟨0, 1, false⟩ := by
      rw [Lookahead.meetOne, spelled.1]
      rfl
    have colon : ((Lookahead.start.meetOne first).meetAll line).colon =
        (Lookahead.start.meetAll line).colon :=
      (Lookahead.meetAll_congr _ _ (by rw [word]; rfl) (by rw [word]; rfl)).2
    have balanced : ∀ depth, nestAll depth line = depth := by
      intro depth
      have level := level depth
      rw [nestAll_append, nestAll_cons, nestAll_cons, nestAll_nil, spelled.1, isNewline] at level
      exact level
    rw [looks path spelled.1 isNewline
      (fun token mem => onLine token (List.mem_cons_of_mem _ mem)) balanced, Lookahead.opensBlock,
      ← colon, Bool.eq_false_iff.2 fun ends => absurd (seen.colon ends) Bool.false_ne_true]
    rfl

/-! ### Modules -/

/-- The children of a module without empty lines. -/
def Ebnf.module : Phrase := row [.many (.part .statements .statement), .leaf .eof [.eof]]

/-- **The tree is a module by the grammar**, without empty lines. -/
def Tree.Conforms (tree : Tree) : Prop :=
  ∃ start stop children, Ebnf.module.Matches (Derives ebnf) Flow.outside children ∧
    tree = .node .fileInput start stop children

/-- The reading of a module by the grammar is the tokens of its statements and the mark of the
end. -/
theorem Tree.Conforms.reading {tree : Tree} (h : tree.Conforms) :
    tree.reading = tree.tokens ∧
      ∃ tokens mark, tree.tokens = tokens ++ [mark] ∧ mark.kind = .eof := by
  obtain ⟨start, stop, children, matched, rfl⟩ := h
  refine ⟨matched.reading_eq (by decide) rfl start stop, ?_⟩
  obtain ⟨statements, _, -, ended, rfl⟩ := Matches.seq_iff.1 matched
  obtain ⟨mark, isEof, rfl⟩ := Matches.leaf_iff.1 (Matches.last_iff.1 ended)
  exact ⟨Tree.tokensOf statements, mark, by simp [Tree.tokensOf_append], by simpa using isEof⟩

namespace Session

/-- A module whose statements are readable is parsed wherever its tokens stand, if the cursor has
room for them: calls of bounded depth read its statements. -/
theorem exists_parse_of_readable {σ : Type} [Cursor σ] {s : Session σ} {c : σ}
    {children : List Child}
    (readable : Ebnf.module.Matches (Readable (Bounded (σ := σ))) s.flow children)
    (path : Path s.cursor (Tree.tokensOf children) c)
    (enough : (Tree.tokensOf children).length ≤ Cursor.budget s.cursor + 1) :
    ∃ read t, s.parse .file = (.ok read, t) ∧
      read.bare = .node .fileInput 0 0 (Tree.bareOf children) := by
  obtain ⟨statements, _, added, t, rfl, bare, looped, -, -, rest, behind⟩ :=
    exists_first (.loop (.not (.on [.eof]))
      (.branch (.on [.newline]) (.shift .newlines) (.call .statement .statements))) (.ofList [.eof])
        (completes_of_completes _ _ (by decide)) readable path
    (by decide) (KindSet.mem_full _) []
  obtain ⟨last, isLast, rfl⟩ := Matches.leaf_iff.1 (Matches.last_iff.1 rest)
  obtain ⟨u, taken, -⟩ := exists_takes (s := t) (by simpa using behind)
  have mark : t.answers added.reverse (.on [.eof]) = true := by
    rw [answers, taken.1]
    exact isLast
  -- There is one token more than the statements have.
  obtain ⟨more, fuel, le⟩ : ∃ more, s.depth = more + 1 ∧
      63 + 64 * (Frame.tokens added.reverse).length ≤ more := by
    have same : Tree.tokensOf added = Tree.tokensOf statements := by
      rw [← Tree.tokensOf_bareOf, bare, Tree.tokensOf_bareOf]
    rw [Tree.tokensOf_append, List.length_append, ← same, ← Frame.tokens_reverse] at enough
    change _ + 1 ≤ _ at enough
    exact ⟨64 * (Cursor.budget s.cursor + 1) - 1, by rw [depth]; omega, by omega⟩
  have ran : run Grammar.python s.depth Entry.file.rule [] s =
      .done ((.eof, .leaf last) :: added.reverse) u := by
    have front := follow_of_follows (show Rule.shallow _ 63 = true by decide) looped
      (show _ = Frame.tokens [] ++ Frame.tokens added.reverse by simp) le
    rw [List.append_nil] at front
    have rule : Entry.file.rule = .seq (.loop (.not (.on [.eof]))
        (.branch (.on [.newline]) (.shift .newlines) (.call .statement .statements)))
          (.seq (Rule.expect .eof .eof "end of file") .done) := rfl
    rw [fuel, run, rule, follow, front]
    simp only [follow, Rule.expect, mark, if_true, shift_eq_done_iff.2 ⟨last, taken, rfl⟩]
  refine ⟨Frame.build ((.eof, .leaf last) :: added.reverse) .fileInput u.position u.lastStop, u, ?_,
    ?_⟩
  · rw [parse, parseBy, ran]
    rfl
  · simp [Frame.build, bare]

/-- **A module by the grammar is parsed wherever its tokens stand**, if the cursor tells lines that
begin with the word `match` apart and has room for them. -/
theorem exists_parse_of_path {σ : Type} [Cursor σ] (foresight : Foresight σ) {s : Session σ} {c : σ}
    {children : List Child} (matched : Ebnf.module.Matches (Derives ebnf) Flow.outside children)
    (flow : s.flow = .outside) (path : Path s.cursor (Tree.tokensOf children) c)
    (enough : (Tree.tokensOf children).length ≤ Cursor.budget s.cursor + 1) :
    ∃ read t, s.parse .file = (.ok read, t) ∧
      read.bare = .node .fileInput 0 0 (Tree.bareOf children) :=
  exists_parse_of_readable
    ((flow ▸ matched).mono fun _ _ _ => readable_of_derives closed_bounded foresight) path enough

/-- **A module by the grammar is parsed from its tokens.** -/
theorem exists_parse_of_conforms {tree : Tree} (h : tree.Conforms) :
    ∃ read t, (start (TokenList.ofList tree.tokens)).parse .file = (.ok read, t) ∧
      read.bare = tree.bare := by
  obtain ⟨-, tokens, mark, eq, isEof⟩ := h.reading
  obtain ⟨begins, ends, children, matched, rfl⟩ := h
  rw [Tree.tokens_node] at eq ⊢
  have all : (TokenList.ofList (Tree.tokensOf children)).toList = Tree.tokensOf children := by
    rw [eq]
    exact TokenList.toList_ofList isEof
  obtain ⟨list, path⟩ := (TokenList.ofList (Tree.tokensOf children)).exists_path
  rw [all] at path
  exact exists_parse_of_path (foresight_of_looksAlong looksAlong_tokenList) matched rfl path
    (Nat.le_of_eq (congrArg List.length all.symm))

end Session

/-- **Every module by the grammar is parsed from its tokens**, read field by field, and comes back
as it was, up to spans. -/
theorem Tree.Conforms.parse_reading (tree : Tree) (h : tree.Conforms) :
    ∃ read, ((Session.start (TokenList.ofList tree.reading)).parse .file).1 = .ok read ∧
      read.bare = tree.bare := by
  obtain ⟨read, t, parsed, bare⟩ := Session.exists_parse_of_conforms h
  exact ⟨read, by rw [h.reading.1, parsed], bare⟩

/-- **What is parsed from a text is a module by the grammar.** -/
theorem Tree.Conforms.of_parse {options : Options} {text : List Char} {tree : Tree}
    (h : parse options .file text = .ok tree) : tree.Conforms := by
  obtain ⟨scanner, opened, session, parsed⟩ := parse_eq_ok_iff.1 h
  obtain ⟨start, stop, children, matched, rfl⟩ := Session.parse_matches parsed
  obtain ⟨path, -⟩ := Session.parseBy_path parsed
  obtain ⟨lines, mark, matchedLines, matchedMark, rfl⟩ := Matches.seq_iff.1 matched
  obtain ⟨rested, first⟩ := Scanner.ofText_rested opened
  rw [Tree.tokens_node, Tree.tokensOf_append] at path
  obtain ⟨middle, before, -⟩ := Path.append_iff.1 path
  exact ⟨start, stop, _, .seq (Scanner.statements_of_lines matchedLines before rested first)
    matchedMark, rfl⟩

/-- A `match` statement in which the word is also assigned comes back from its tokens. -/
theorem Tree.Conforms.parse_reading_match :
    ∃ tree read : Tree, tree.Conforms ∧ tree.tokens.length = 18 ∧
      ((Session.start (TokenList.ofList tree.reading)).parse .file).1 = .ok read ∧
        read.bare = tree.bare := by
  obtain ⟨tree, parsed, length⟩ : ∃ tree,
      parse {} .file "match x:\n  case y: match[1:] = z\n".toList = .ok tree ∧
        decide (tree.tokens.length = 18) = true := exists_ok_of_any (by decide +kernel)
  have conforms := Tree.Conforms.of_parse parsed
  obtain ⟨read, again, bare⟩ := Tree.Conforms.parse_reading tree conforms
  exact ⟨tree, read, conforms, by simpa using length, again, bare⟩

/-- A list of tokens is that of one module at most, up to spans. -/
theorem Tree.Conforms.bare_eq {tree other : Tree} (h : tree.Conforms) (h' : other.Conforms)
    (same : tree.reading = other.reading) : tree.bare = other.bare := by
  obtain ⟨read, t, parsed, bare⟩ := Session.exists_parse_of_conforms h
  obtain ⟨read', t', parsed', bare'⟩ := Session.exists_parse_of_conforms h'
  rw [← h.reading.1, same, h'.reading.1, parsed'] at parsed
  cases parsed
  exact bare.symm.trans bare'

end PythonSyntax
