/-
**Parsing without type comments.**

A text that is parsed with type comments as tokens is parsed with them between tokens, and gives the
same module without its type comments.  The tokens are folded; the module without its type comments is
one by the grammar, and its tokens are these.  What a line that begins with the word `match` is can be
told from the place of its first token, which does not depend on the option.

Main definitions:

* `PythonSyntax.Located` — a scanner in a text, from which the end of the text is reached;
* `PythonSyntax.blockFollows` — the line of a token, after it, opens a block.

Main results:

* `PythonSyntax.tellsLines_located` — where a token stands tells whether its line opens a block;
* `PythonSyntax.Session.parse_located` — a located scanner is read as a scanner is;
* `PythonSyntax.parse_untyped` — **tokens are folded and modules lose their type comments**, if type
  comments are no tokens.
-/

import PythonSyntax.Proofs.Parsing.Foretold
import PythonSyntax.Proofs.Parsing.SideBySide
import PythonSyntax.Proofs.Parsing.UncommentedSpans

set_option autoImplicit false

namespace PythonSyntax

open Phrase (Matches)

/-! ### Scanners in a text -/

/-- The line of the token, after it, opens a block. -/
def blockFollows (text : List Char) (token : Token) : Bool :=
  (Lookahead.ofText .code .start (text.drop token.stop)).opensBlock

/-- What stands between tokens does not matter. -/
theorem blockFollows_behind (text : List Char) (before : List Trivia) (token : Token) :
    blockFollows text (token.behind before) = blockFollows text token := rfl

/-- A scanner that stands in the text just after its current token, and from which the end of the
text is reached. -/
structure Located (text : List Char) where
  scanner : Scanner
  placed : scanner.Placed text
  complete : ∃ tokens, scanner.tokens = .ok tokens

/-- A scanner from which the end is reached moves on. -/
theorem Scanner.Placed.moves {text : List Char} {s : Scanner} {tokens : List Token}
    (h : s.Placed text) (complete : s.tokens = .ok tokens) :
    s.advance.1 = none ∧ s.advance.2.Placed text ∧ ∃ more, s.advance.2.tokens = .ok more ∧
      (s.current.kind = .eof ∧ tokens = [s.current] ∨ tokens = s.current :: more) := by
  by_cases ended : s.current.kind = .eof
  · have here : tokens = [s.current] := by
      rw [tokens_eq, if_pos ended] at complete
      exact (Except.ok.inj complete).symm
    rw [advance_of_eof ended]
    exact ⟨rfl, h, tokens, complete, Or.inl ⟨ended, here⟩⟩
  · rw [tokens_eq, if_neg ended] at complete
    split at complete
    · cases complete
    · rename_i t moved
      rw [moved]
      cases found : t.tokens with
      | error error =>
          rw [found] at complete
          cases complete
      | ok more =>
          rw [found] at complete
          exact ⟨rfl, (h.advance ended moved).1, more, rfl, Or.inr (Except.ok.inj complete).symm⟩

/-- It moves as the scanner does. -/
instance {text : List Char} : Cursor (Located text) where
  current c := c.scanner.current
  advance c := (none, ⟨c.scanner.advance.2,
    let ⟨_, complete⟩ := c.complete
    (c.placed.moves complete).2.1,
    let ⟨_, complete⟩ := c.complete
    let ⟨_, _, more, complete', _⟩ := c.placed.moves complete
    ⟨more, complete'⟩⟩)
  opensBlock c := c.scanner.opensBlock
  budget c := c.scanner.budget

/-- **Where a token stands tells whether its line opens a block.** -/
theorem tellsLines_located (text : List Char) : TellsLines (Located text) (blockFollows text) := by
  intro c
  change (Lookahead.ofText .code .start c.scanner.rest).opensBlock = _
  rw [c.placed.standing.rest, ← c.placed.stop]
  rfl

namespace Located

variable {text : List Char}

/-- All tokens can be passed. -/
theorem exists_path {tokens : List Token} (c : Located text) (all : c.scanner.tokens = .ok tokens) :
    ∃ c', Path c tokens c' := by
  induction tokens generalizing c with
  | nil =>
      obtain ⟨-, -, more, -, ⟨-, none⟩ | none⟩ := c.placed.moves all
      · cases none
      · cases none
  | cons token tokens ih =>
      obtain ⟨-, -, more, complete, ⟨-, single⟩ | eq⟩ := c.placed.moves all
      · cases single
        exact ⟨_, .cons rfl rfl (.nil _)⟩
      · cases eq
        obtain ⟨c', path⟩ := ih (Cursor.advance c).2 complete
        exact ⟨c', .cons rfl rfl path⟩

end Located

/-- **A located scanner is read as a scanner is.** -/
theorem Session.parse_located {text : List Char} (c : Located text) (entry : Entry) :
    ((start c).parse entry).1 = ((start c.scanner).parse entry).1 := by
  have abreast : Abreast (σ := Located text) (τ := Scanner) .equality (fun _ => False)
      (fun c d => d = c.scanner) := by
    refine ⟨?_, ?_, ?_, id⟩
    · rintro c _ rfl
      rfl
    · rintro c _ rfl
      rfl
    · rintro c _ rfl
      refine Or.inr ⟨?_, rfl⟩
      obtain ⟨_, complete⟩ := c.complete
      have moves : (Cursor.advance c.scanner).1 = none := (c.placed.moves complete).1
      rw [moves]
      exact .none
  have sides : Sides .equality (fun (c : Located text) (d : Scanner) => d = c.scanner) (start c)
      (start c.scanner) := ⟨rfl, rfl, rfl⟩
  rcases parse_alike_of_budget abreast rfl sides entry with never | ⟨result, -⟩
  · exact never.elim
  · exact result.eq.symm

/-- A parse of a text is one by a session on a located scanner, if the text has tokens. -/
theorem exists_located {options : Options} {text : List Char} {tokens : List Token}
    (h : tokenize options text = .ok tokens) :
    ∃ c : Located text, c.scanner.tokens = .ok tokens ∧
      ∀ entry, parse options entry text = ((Session.start c).parse entry).1 := by
  rw [tokenize_eq] at h
  cases opened : Scanner.ofText options text with
  | error error =>
      rw [opened] at h
      cases h
  | ok scanner =>
      rw [opened] at h
      refine ⟨⟨scanner, Scanner.ofText_placed opened, tokens, h⟩, h, fun entry => ?_⟩
      rw [Session.parse_located, parse, opened]
      rfl

/-! ### Modules without their type comments -/

/-- Statements are foretold without their type comments if they are so with them. -/
theorem Tree.Foretold.uncommented {sees : Token → Bool} {tree : Tree}
    (respects : ∀ before token, sees (token.behind before) = sees token)
    (sheds : tree.kind? ≠ none → tree.Sheds) (h : tree.Foretold sees) (before : List Trivia) :
    (tree.uncommented before).Foretold sees := by
  intro first head
  rw [kind?_uncommented]
  cases tree with
  | leaf token =>
      exact ⟨fun kind => absurd kind.symm (Option.some_ne_none _),
        fun kind => absurd kind.symm (Option.some_ne_none _)⟩
  | node kind start stop children =>
      have sheds := sheds (Option.some_ne_none _)
      obtain ⟨first', rest, eq, other⟩ := sheds.first
      rw [sheds.tokens, eq, foldComments_cons_of_ne other] at head
      cases head
      rw [respects, Token.spells_behind]
      exact h first' (by rw [eq]; rfl)

/-- So are all statements in a tree. -/
theorem Tree.holdsForetold_uncommented {sees : Token → Bool} {tree : Tree}
    (respects : ∀ before token, sees (token.behind before) = sees token)
    (sheds : ∀ inner ∈ tree.subtrees, inner.kind? ≠ none → inner.Sheds)
    (h : ∀ inner ∈ tree.subtrees, inner.HoldsForetold sees) (before : List Trivia) :
    ∀ inner ∈ (tree.uncommented before).subtrees, inner.HoldsForetold sees := by
  intro inner mem child isChild statement
  obtain ⟨other, among, before', rfl⟩ := mem_subtrees_uncommented tree before mem
  rw [children_uncommented] at isChild
  obtain ⟨child, found, before'', rfl⟩ := mem_uncommentedOf isChild
  have inside : child.2 ∈ tree.subtrees := by
    refine (subtrees_of_mem tree among).1 _ ?_
    cases other with
    | leaf token => cases found
    | node kind start stop children =>
        exact List.mem_cons_of_mem _ (mem_subtreesOf.2 ⟨child, found, child.2.mem_subtrees_self⟩)
  exact (h other among child found statement).uncommented respects (sheds _ inside) before''

/-- The nodes of a module shed their type comments. -/
theorem Tree.Conforms.sheds {tree : Tree} (h : tree.Conforms) :
    ∀ inner ∈ tree.subtrees, inner.kind? ≠ none → inner.Sheds := by
  obtain ⟨start, stop, children, matched, rfl⟩ := h
  intro inner mem node
  rcases List.mem_cons.1 mem with rfl | mem
  · exact matched.node_sheds (by decide) start stop
  · have parts : Ebnf.module.Matches (fun flow name tree => True ∧ ∀ inner ∈ tree.subtrees,
        inner.kind? ≠ none → inner.Sheds) Flow.outside children :=
      matched.mono fun _ _ _ part => ⟨trivial, part.sheds⟩
    exact parts.forall_subtrees (fun token node => absurd rfl node) nofun inner mem node

/-- **A module is one by the grammar without its type comments**, too. -/
theorem Ebnf.module_uncommented {flow : Flow} {children : List Child}
    (h : Ebnf.module.Matches (Derives ebnf) flow children) (before : List Trivia) :
    Ebnf.module.Matches (Derives ebnf) flow (Tree.uncommentedOf before children) :=
  h.uncommented (fun _ _ _ part => part.uncommented)
    (fun _ _ _ part => part.unplaced_uncommented) (by decide)
    (Phrase.respects_of_unconditional (by decide)) before

/-- All nodes of a module that is parsed span their tokens. -/
theorem spanning_of_parse {options : Options} {text : List Char} {tree : Tree}
    (h : parse options .file text = .ok tree) : tree.Spanning := by
  obtain ⟨-, tokens, mark, eq, -⟩ := (Tree.Conforms.of_parse h).reading
  obtain ⟨scanner, -, session, parsed⟩ := parse_eq_ok_iff.1 h
  have filled : tree.tokens ≠ [] := by simp [eq]
  have accounted : tree.Accounted :=
    ⟨Session.parseBy_spanned parsed, Session.parse_unmarked parsed filled⟩
  exact fun inner mem node => (accounted.of_mem mem).spansTokens node

/-- A scanner has room for its tokens. -/
theorem Scanner.length_le_of_tokensFrom {fuel : Nat} {s : Scanner} {tokens : List Token}
    (h : s.tokensFrom fuel = .ok tokens) : tokens.length ≤ fuel := by
  induction fuel generalizing s tokens with
  | zero => cases h
  | succ fuel ih =>
      unfold tokensFrom at h
      split at h
      · cases h
        exact Nat.succ_le_succ (Nat.zero_le _)
      · split at h
        · cases h
        · rename_i t moved
          cases found : t.tokensFrom fuel with
          | error error =>
              rw [found] at h
              cases h
          | ok more =>
              rw [found] at h
              cases h
              exact Nat.succ_le_succ (ih found)

/-- **Type comments between tokens are those that are tokens otherwise.**  Without them the tokens are
folded, and if there are none the error is the same; a module that is parsed with type comments as
tokens is parsed without, and is the same but for its type comments. -/
theorem parse_untyped (options : Options) (text : List Char) :
    tokenize options.untyped text = (tokenize options text).map (foldComments []) ∧
      ∀ tree, parse options .file text = .ok tree →
        parse options.untyped .file text = .ok (tree.uncommented []) := by
  refine ⟨tokenize_untyped options text, fun tree parsed => ?_⟩
  have conforms := Tree.Conforms.of_parse parsed
  have sheds := conforms.sheds
  have all := (parse_file_lossless parsed).1
  rw [conforms.reading.1] at all
  have folded := tokenize_untyped options text
  rw [all] at folded
  -- Both parses are those of located scanners.
  obtain ⟨c, -, same⟩ := exists_located all
  obtain ⟨c', complete, same'⟩ := exists_located folded
  have foretold := Tree.holdsForetold_uncommented (blockFollows_behind text) sheds
    (Session.parse_foretold (tellsLines_located text) (Prod.ext ((same .file).symm.trans parsed) rfl)) []
  obtain ⟨start, stop, children, matched, rfl⟩ := conforms
  -- The folded tokens are those of the module without its type comments, which is read from them.
  have tokens : Tree.tokensOf (Tree.uncommentedOf [] children) =
      foldComments [] (Tree.tokensOf children) := (sheds _ List.mem_cons_self nofun).tokens []
  obtain ⟨d, path⟩ := c'.exists_path complete
  obtain ⟨read, t, parsed', bare⟩ : ∃ read t, (Session.start c').parse .file = (.ok read, t) ∧
      read.bare = .node .fileInput 0 0 (Tree.bareOf (Tree.uncommentedOf [] children)) := by
    refine Session.exists_parse_of_foretold (tellsLines_located text)
      (Ebnf.module_uncommented matched []) ⟨foretold _ List.mem_cons_self, ?_⟩ (tokens ▸ path) ?_
    · intro child mem inner inside
      exact foretold inner (List.mem_cons_of_mem _ (Tree.mem_subtreesOf.2 ⟨child, mem, inside⟩))
    · rw [tokens]
      exact Nat.le_succ_of_le (Scanner.length_le_of_tokensFrom complete)
  have untyped : parse options.untyped .file text = .ok read := by rw [same', parsed']
  rw [untyped]
  -- What is read is the module up to spans, and both trees span the same tokens.
  exact congrArg Except.ok (Tree.eq_of_bare _ _ (spanning_of_parse untyped)
    ((spanning_of_parse parsed).uncommented sheds []) bare)

/-- An assignment with a type comment: it ends with its value if the comment is no token. -/
theorem parse_untyped_assignment : ∃ tree,
    parse ⟨8, true⟩ .file "x = y  # type: int\n".toList = .ok tree ∧
    (tree.subtrees.filter fun inner => (inner.childAt? .typeComment).isSome).map
      (fun inner => (inner.kind?, inner.start, inner.stop)) = [(some .assignment, 0, 18)] ∧
    ((tree.uncommented []).subtrees.filter fun inner => inner.kind? = some .assignment).map
      (fun inner => (inner.start, inner.stop)) = [(0, 5)] ∧
    parse {} .file "x = y  # type: int\n".toList = .ok (tree.uncommented []) := by
  obtain ⟨tree, parsed, spans⟩ : ∃ tree,
      parse ⟨8, true⟩ .file "x = y  # type: int\n".toList = .ok tree ∧
        decide ((tree.subtrees.filter fun inner => (inner.childAt? .typeComment).isSome).map
            (fun inner => (inner.kind?, inner.start, inner.stop)) = [(some .assignment, 0, 18)] ∧
          ((tree.uncommented []).subtrees.filter fun inner => inner.kind? = some .assignment).map
            (fun inner => (inner.start, inner.stop)) = [(0, 5)]) = true :=
    exists_ok_of_any (by decide +kernel)
  obtain ⟨typed, untyped⟩ := of_decide_eq_true spans
  exact ⟨tree, parsed, typed, untyped, (parse_untyped ⟨8, true⟩ _).2 tree parsed⟩

end PythonSyntax
