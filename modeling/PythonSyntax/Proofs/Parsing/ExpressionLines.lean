/-
**An expression alone, and as the only line of a module.**

Tokens can be read as an expression or as a module.  If they are those of an expression and the end
of its line, the module has that expression on its only line; and if a module has an expression on
its only line, without a star, then that expression is read alone.  The two ways read different
lists of expressions, and a module takes a line that begins with the word `match` for a statement
unless the cursor tells it apart.

Main definitions:

* `PythonSyntax.Tree.IsExpressionLine` — a line with an expression on it and nothing else;
* `PythonSyntax.Tree.Starred` — an expression with a star, or a list of which some element has one;
* `PythonSyntax.Tree.expressionLine` — the line with an expression on it;
* `PythonSyntax.Tree.input` — a tree, ends of lines and the end of the text.

Main results:

* `PythonSyntax.Derives.starred_of_test`, `PythonSyntax.Derives.test_of_starred` — lists with and
  without stars;
* `PythonSyntax.Derives.expressionLine`, `PythonSyntax.Derives.of_expressionLine` — lines with an
  expression on them;
* `PythonSyntax.Session.file_of_eval`, `PythonSyntax.Session.eval_of_file` — one way of reading
  from the other;
* `PythonSyntax.Session.expression_lines` — **the two ways of reading agree**, over any tokens.
-/

import PythonSyntax.Proofs.Parsing.Completeness
import PythonSyntax.Proofs.Parsing.Exact
import PythonSyntax.Proofs.Syntax.Counts

set_option autoImplicit false

namespace PythonSyntax

open Phrase (Matches)

/-! ### Lines and expressions -/

namespace Tree

/-- The line has the expression on it and nothing else. -/
structure IsExpressionLine (line expression newline : Tree) : Prop where
  kind : line.kind? = some .simpleStatement
  separators : line.childrenAt .separators = []
  newline : line.childrenAt .newline = [newline]
  only : ∃ statement, line.childrenAt .statements = [statement] ∧
    statement.kind? = some .exprStatement ∧ statement.childrenAt .expr = [expression]

/-- The expression has a star, or it is a list of which some element has one. -/
def Starred (tree : Tree) : Prop :=
  tree.kind? = some .starExpr ∨
    tree.kind? = some .testList ∧ ∃ element ∈ tree.childrenAt .elements,
      element.kind? = some .starExpr

instance (tree : Tree) : Decidable tree.Starred := inferInstanceAs (Decidable (_ ∨ _ ∧ _))

/-- The line with the expression on it and nothing else. -/
def expressionLine (expression : Tree) (newline : Token) : Tree :=
  .node .simpleStatement expression.start newline.stop
    [(.statements, .node .exprStatement expression.start expression.stop [(.expr, expression)]),
      (.newline, .leaf newline)]

theorem isExpressionLine_expressionLine (expression : Tree) (newline : Token) :
    (expression.expressionLine newline).IsExpressionLine expression (.leaf newline) :=
  ⟨rfl, rfl, rfl, _, rfl, rfl, rfl⟩

theorem tokens_expressionLine (expression : Tree) (newline : Token) :
    (expression.expressionLine newline).tokens = expression.tokens ++ [newline] := by
  simp [expressionLine]

/-- The nodes of the line span their tokens if those of the expression do. -/
theorem expressionLine_spanning {expression : Tree} {newline : Token} (h : expression.Spanning)
    (node : expression.kind? ≠ none) (isNewline : newline.kind = .newline) :
    (expression.expressionLine newline).Spanning := by
  obtain ⟨first, last, head, ends, start, stop⟩ := h _ expression.mem_subtrees_self node
  intro inner mem inside
  simp only [expressionLine, subtrees_node, subtreesOf_cons, subtreesOf_nil, subtrees_leaf,
    List.append_nil, List.cons_append, List.mem_cons, List.mem_append, List.not_mem_nil,
    or_false] at mem
  rcases mem with rfl | rfl | mem | rfl
  · have plain : withoutMarks [newline] = [newline] := by
      simp [withoutMarks, isNewline, TokenKind.isBlockMark]
    refine ⟨first, newline, ?_, ?_, start, rfl⟩
    · simp [head]
    · simp [withoutMarks_append, plain]
  · exact ⟨first, last, by simpa using head, by simpa using ends, start, stop⟩
  · exact h inner mem inside
  · exact absurd rfl inside

/-! ### What is read as a whole -/

/-- Children that are tokens and take one field. -/
def leaves (field : Field) (tokens : List Token) : List Child :=
  tokens.map fun token => (field, .leaf token)

/-- A tree, ends of lines and the end of the text. -/
def input (field : Field) (tree : Tree) (newlines : List Token) (mark : Token) : List Child :=
  (field, tree) :: (leaves .newlines newlines ++ [(.eof, .leaf mark)])

variable {field : Field} {tree : Tree} {newlines tokens : List Token} {mark : Token}

@[simp] theorem tokensOf_leaves : tokensOf (leaves field tokens) = tokens := by
  induction tokens with
  | nil => rfl
  | cons token rest ih => exact congrArg (token :: ·) ih

theorem mem_childrenAt {kind : NodeKind} {start stop : Nat} {children : List Child} :
    tree ∈ (node kind start stop children).childrenAt field ↔ (field, tree) ∈ children := by
  simp [childrenAt, Tree.children]

theorem tokensOf_input :
    tokensOf (input field tree newlines mark) = tree.tokens ++ (newlines ++ [mark]) := by
  simp [input, tokensOf_append]

theorem kind?_of_mem_leaves {inner : Tree} (mem : inner ∈ subtreesOf (leaves field tokens)) :
    inner.kind? = none := by
  obtain ⟨child, found, inside⟩ := mem_subtreesOf.1 mem
  obtain ⟨token, -, rfl⟩ := List.mem_map.1 found
  rw [List.mem_singleton.1 inside]
  rfl

theorem filter_leaves (field other : Field) (tokens : List Token) :
    (leaves field tokens).filter (fun child => child.1 = other) =
      if field = other then leaves field tokens else [] := by
  induction tokens with
  | nil => simp [leaves]
  | cons token rest ih =>
      change List.filter _ ((field, .leaf token) :: leaves field rest) = _
      rw [List.filter_cons, ih]
      by_cases same : field = other
      · simp [same, leaves]
      · simp [same]

theorem childrenAt_input (kind : NodeKind) (start stop : Nat) (inside : field ≠ .newlines)
    (before : field ≠ .eof) :
    (node kind start stop (input field tree newlines mark)).childrenAt field = [tree] := by
  simp [childrenAt, children, input, filter_leaves, inside.symm, before.symm]

theorem newlines_input (kind : NodeKind) (start stop : Nat) (inside : field ≠ .newlines) :
    (node kind start stop (input field tree newlines mark)).childrenAt .newlines =
      newlines.map .leaf := by
  have named : (leaves .newlines newlines).map Prod.snd = newlines.map .leaf := by simp [leaves]
  simp [childrenAt, children, input, filter_leaves, inside, named]

/-- The nodes in what is read as a whole span their tokens if those of the tree do. -/
theorem input_spanning (h : tree.Spanning) : ∀ inner ∈ subtreesOf (input field tree newlines mark),
    inner.kind? ≠ none → inner.SpansTokens := by
  intro inner mem node
  rw [input, subtreesOf_cons, subtreesOf_append, List.mem_append, List.mem_append] at mem
  rcases mem with mem | mem | mem
  · exact h inner mem node
  · exact absurd (kind?_of_mem_leaves mem) node
  · rw [show inner = .leaf mark by simpa using mem] at node
    exact absurd rfl node

end Tree

/-! ### Phrases -/

namespace Phrase

variable {D : Flow → Nonterminal → Tree → Prop} {flow : Flow} {p : Phrase} {field : Field}
  {children : List Child} {tokens : List Token}

theorem Matches.many_leaves (each : ∀ token ∈ tokens, Matches D flow p [(field, .leaf token)]) :
    Matches D flow (.many p) (Tree.leaves field tokens) := by
  induction tokens with
  | nil => exact .stop
  | cons token rest ih =>
      refine .more (each token List.mem_cons_self) (ih fun other mem => ?_)
      exact each other (List.mem_cons_of_mem _ mem)

/-- Tokens in a row. -/
theorem Matches.exists_leaves (h : Matches D flow (.many p) children) (field : Field)
    (kinds : List TokenKind)
    (single : ∀ {front}, Matches D flow p front → Matches D flow (.leaf field kinds) front) :
    ∃ tokens, children = Tree.leaves field tokens ∧
      ∀ token ∈ tokens, kinds.contains token.kind = true := by
  generalize eq : Phrase.many p = phrase at h
  induction h with
  | stop => exact ⟨[], rfl, nofun⟩
  | more one _ _ ih =>
      cases eq
      obtain ⟨token, mem, rfl⟩ := Matches.leaf_iff.1 (single one)
      obtain ⟨tokens, rfl, all⟩ := ih single rfl
      exact ⟨token :: tokens, rfl, List.forall_mem_cons.2 ⟨mem, all⟩⟩
  | _ => cases eq

/-- Further elements are further elements of another sort if each of them is. -/
theorem Matches.further_mono {D' : Flow → Nonterminal → Tree → Prop} {one two : Nonterminal}
    (h : (Ebnf.furtherElements field one).Matches D flow children)
    (elements : ∀ tree, (field, tree) ∈ children → D flow one tree → D' flow two tree) :
    (Ebnf.furtherElements field two).Matches D' flow children := by
  generalize eq : Ebnf.furtherElements field one = phrase at h
  induction h with
  | noFurther => exact .noFurther
  | lastSeparator mem =>
      cases eq
      exact .lastSeparator mem
  | further mem first _ _ ih =>
      cases eq
      obtain ⟨tree, derived, rfl⟩ := Matches.part_iff.1 first
      refine .further mem (.part (elements tree (by simp) derived)) (ih ?_ rfl)
      intro other found
      exact elements other (List.mem_cons_of_mem _ (List.mem_append_right _ found))
  | _ => cases eq

/-- A list is a list of another sort if each of its elements is of that sort. -/
theorem Matches.list_mono {D' : Flow → Nonterminal → Tree → Prop} {one two : Nonterminal}
    {tree : Tree} (h : (Ebnf.list one).Matches D flow [(field, tree)])
    (alone : D flow one tree → D' flow two tree)
    (elements : tree.kind? = some .testList → ∀ element ∈ tree.childrenAt .elements,
      D flow one element → D' flow two element) :
    ∃ field, (Ebnf.list two).Matches D' flow [(field, tree)] := by
  rcases Matches.alt_iff.1 h with single | several
  · obtain ⟨_, derived, eq⟩ := Matches.part_iff.1 single
    cases eq
    exact ⟨_, .left (.part (alone derived))⟩
  · obtain ⟨start, stop, children, inner, eq⟩ := Matches.tree_iff.1 several
    cases eq
    have each : ∀ element, (.elements, element) ∈ children → D flow one element →
        D' flow two element := fun element mem => elements rfl element (Tree.mem_childrenAt.2 mem)
    obtain ⟨_, _, first, more, rfl⟩ := Matches.seq_iff.1 inner
    obtain ⟨element, derived, rfl⟩ := Matches.part_iff.1 first
    obtain ⟨_, others, sign, last, rfl⟩ := Matches.seq_iff.1 more
    obtain ⟨token, isComma, rfl⟩ := Matches.leaf_iff.1 sign
    refine ⟨_, .right (.tree start stop (.cons (.part (each element (by simp) derived))
      (.cons (.leaf isComma) (Matches.last_iff.2 ?_))))⟩
    rcases Matches.alt_iff.1 (Matches.last_iff.1 last) with further | none
    · obtain ⟨_, rest, second, others, rfl⟩ := Matches.seq_iff.1 further
      obtain ⟨element', derived', rfl⟩ := Matches.part_iff.1 second
      refine .left (.cons (.part (each element' (by simp) derived')) (others.further_mono ?_))
      intro other found
      exact each other (by simp [found])
    · rw [Matches.nil_iff.1 none]
      exact .right .nil

end Phrase

namespace Derives

variable {flow : Flow} {tree line expression newline : Tree}

/-! ### Lists with and without stars -/

/-- Expressions without stars are expressions that may have some. -/
theorem starred_of_test (h : Derives ebnf flow .testList tree) :
    Derives ebnf flow .testListStarExpr tree := by
  have widen : ∀ {element}, Derives ebnf flow .test element →
      Derives ebnf flow .starOrTest element := fun derived => .intro (.right (.part derived))
  obtain ⟨field, matched⟩ := iff_matches.1 h
  obtain ⟨_, matched⟩ := Matches.list_mono matched widen fun _ _ _ => widen
  exact .intro matched

/-- Expressions without stars are such if they are among expressions that may have some. -/
theorem test_of_starred (h : Derives ebnf flow .testListStarExpr tree) (plain : ¬ tree.Starred) :
    Derives ebnf flow .testList tree := by
  have narrow : ∀ {element}, element.kind? ≠ some .starExpr →
      Derives ebnf flow .starOrTest element → Derives ebnf flow .test element := by
    intro element unstarred derived
    obtain ⟨field, matched⟩ := iff_matches.1 derived
    rcases Matches.alt_iff.1 matched with starred | plain
    · obtain ⟨_, starred, eq⟩ := Matches.part_iff.1 starred
      cases eq
      obtain ⟨start, stop, children, -, rfl⟩ := starred.node rfl
      exact absurd rfl unstarred
    · obtain ⟨_, derived, eq⟩ := Matches.part_iff.1 plain
      cases eq
      exact derived
  obtain ⟨field, matched⟩ := iff_matches.1 h
  obtain ⟨_, matched⟩ := Matches.list_mono matched (narrow fun star => plain (Or.inl star))
    fun isList element mem => narrow fun star => plain (Or.inr ⟨isList, element, mem, star⟩)
  exact .intro matched

/-! ### Lines with an expression on them -/

/-- The line with an expression on it is a statement. -/
theorem expressionLine {newline : Token} (h : Derives ebnf flow .testListStarExpr expression)
    (isNewline : newline.kind = .newline) :
    Derives ebnf flow .statement (expression.expressionLine newline) := by
  have statement : Derives ebnf flow .exprStatement
      (.node .exprStatement expression.start expression.stop [(.expr, expression)]) :=
    .of_matches .left (Matches.of_otherwise (.tree _ _ (.cons (.part h) .nil)))
  have small : Derives ebnf flow .smallStatement
      (.node .exprStatement expression.start expression.stop [(.expr, expression)]) :=
    .of_matches .left (Matches.of_otherwise (.part statement))
  have line : Derives ebnf flow .simpleStatement (expression.expressionLine newline) := by
    refine .of_matches .left (.tree _ _ (.cons (.part small) (.seq .noFurther (.cons ?_ .nil))))
    exact .leaf (by simp [isNewline])
  exact .of_matches .left (Matches.of_otherwise (.part line))

end Derives

/-- The phrase is that of a line with statements on it. -/
def Phrase.isLine : Phrase → Bool
  | seq (part .statements .smallStatement)
      (seq (further .separators _ _) (seq (leaf .newline [.newline]) nil)) => true
  | _ => false

/-- The phrase is that of an expression as a statement. -/
def Phrase.isExpression : Phrase → Bool
  | seq (part .expr .testListStarExpr) nil => true
  | _ => false

/-- The phrase is as nodes of the kind are made, if these are lines or expressions. -/
def NodeKind.madeOf (kind : NodeKind) (p : Phrase) : Bool :=
  match kind with
  | .simpleStatement => p.isLine
  | .exprStatement => p.isExpression
  | _ => true

theorem Nonterminal.madeOf_ebnf (name : Nonterminal) :
    (ebnf name).rootsPass (fun _ => true) NodeKind.madeOf = true :=
  forall_of_all (fun name => (ebnf name).rootsPass (fun _ => true) NodeKind.madeOf)
    (by decide) name

namespace Derives

variable {flow : Flow} {name : Nonterminal} {tree line expression newline : Tree}

/-- What an expression as a statement is made of. -/
theorem exists_expression (h : Derives ebnf flow name tree)
    (isExpression : tree.kind? = some .exprStatement) :
    ∃ start stop expression, Derives ebnf flow .testListStarExpr expression ∧
      tree = .node .exprStatement start stop [(.expr, expression)] := by
  obtain ⟨kind, inner, start, stop, children, passes, matched, rfl⟩ :=
    h.root_passes (fun name _ => Nonterminal.madeOf_ebnf name) rfl
  obtain rfl : kind = .exprStatement := by simpa [Tree.kind?] using isExpression
  simp only [NodeKind.madeOf, Phrase.isExpression] at passes
  split at passes
  · obtain ⟨expression, derived, rfl⟩ := Matches.part_iff.1 (Matches.last_iff.1 matched)
    exact ⟨start, stop, expression, derived, rfl⟩
  · cases passes

/-- What a line without a semicolon is made of. -/
theorem exists_statement (h : Derives ebnf flow name line)
    (isLine : line.kind? = some .simpleStatement) (single : line.childrenAt .separators = []) :
    ∃ start stop statement newline, Derives ebnf flow .smallStatement statement ∧
      newline.kind = .newline ∧
      line = .node .simpleStatement start stop
        [(.statements, statement), (.newline, .leaf newline)] := by
  obtain ⟨kind, inner, start, stop, children, passes, matched, rfl⟩ :=
    h.root_passes (fun name _ => Nonterminal.madeOf_ebnf name) rfl
  obtain rfl : kind = .simpleStatement := by simpa [Tree.kind?] using isLine
  simp only [NodeKind.madeOf, Phrase.isLine] at passes
  split at passes
  · obtain ⟨_, _, one, rest, rfl⟩ := Matches.seq_iff.1 matched
    obtain ⟨others, _, more, ended, rfl⟩ := Matches.seq_iff.1 rest
    obtain ⟨statement, derived, rfl⟩ := Matches.part_iff.1 one
    obtain ⟨newline, isNewline, rfl⟩ := Matches.leaf_iff.1 (Matches.last_iff.1 ended)
    -- A semicolon would be among the children that take its field, and there are none.
    have unseparated : ∀ child ∈ others, child.1 ≠ .separators := by
      rintro ⟨field, child⟩ mem rfl
      have among : child ∈ (Tree.node .simpleStatement start stop
          ([(.statements, statement)] ++ (others ++ [(.newline, .leaf newline)]))).childrenAt
            .separators := Tree.mem_childrenAt.2 (by simp [mem])
      rw [single] at among
      cases among
    obtain rfl : others = [] := by
      cases more with
      | noFurther => rfl
      | lastSeparator _ => exact absurd rfl (unseparated _ List.mem_cons_self)
      | further _ _ _ => exact absurd rfl (unseparated _ List.mem_cons_self)
    exact ⟨start, stop, statement, newline, derived, by simpa using isNewline, rfl⟩
  · cases passes

/-- What is on a line with an expression on it. -/
theorem of_expressionLine (h : Derives ebnf flow name line)
    (isLine : line.IsExpressionLine expression newline) :
    Derives ebnf flow .testListStarExpr expression ∧ expression ∈ line.subtrees ∧
      ∃ token, newline = .leaf token ∧ token.kind = .newline ∧
        line.tokens = expression.tokens ++ [token] := by
  obtain ⟨kind, separators, newline, statement, only, isExpression, single⟩ := isLine
  obtain ⟨start, stop, other, token, small, isNewline, rfl⟩ := h.exists_statement kind separators
  obtain rfl : other = statement := by simpa [Tree.childrenAt, Tree.children] using only
  obtain ⟨start', stop', inner, derived, rfl⟩ := small.exists_expression isExpression
  obtain rfl : inner = expression := by simpa [Tree.childrenAt, Tree.children] using single
  refine ⟨derived, ?_, token, ?_, isNewline, by simp⟩
  · simp [Tree.mem_subtrees_self]
  · simpa [Tree.childrenAt, Tree.children, eq_comm] using newline

end Derives

/-! ### Expressions and modules -/

namespace Ebnf

variable {flow : Flow} {children : List Child} {tree line : Tree} {newlines : List Token}
  {mark : Token}

/-- What is read as an expression. -/
theorem eval_iff : Entry.eval.phrase.Matches (Derives ebnf) flow children ↔
    ∃ tree newlines mark, Derives ebnf flow .testList tree ∧
      (∀ token ∈ newlines, token.kind = .newline) ∧ mark.kind = .eof ∧
      children = Tree.input .right tree newlines mark := by
  constructor
  · intro matched
    obtain ⟨_, _, one, rest, rfl⟩ := Matches.seq_iff.1 matched
    obtain ⟨_, _, more, ended, rfl⟩ := Matches.seq_iff.1 rest
    obtain ⟨tree, derived, rfl⟩ := Matches.part_iff.1 one
    obtain ⟨mark, isEof, rfl⟩ := Matches.leaf_iff.1 (Matches.last_iff.1 ended)
    obtain ⟨newlines, rfl, all⟩ := more.exists_leaves _ _ id
    exact ⟨tree, newlines, mark, derived, fun token mem => by simpa using all token mem,
      by simpa using isEof, rfl⟩
  · rintro ⟨tree, newlines, mark, derived, all, isEof, rfl⟩
    refine .cons (.part derived) (.seq (Matches.many_leaves fun token mem => ?_)
      (.cons (.leaf (by simp [isEof])) .nil))
    exact .leaf (by simp [all token mem])

/-- A statement and ends of lines are read as a module. -/
theorem file_of_statement (derived : Derives ebnf flow .statement line)
    (all : ∀ token ∈ newlines, token.kind = .newline) (isEof : mark.kind = .eof) :
    Entry.file.phrase.Matches (Derives ebnf) flow
      (Tree.input .statements line newlines mark) := by
  have lines : Matches (Derives ebnf) flow
      (.many (.alt (.leaf .newlines [.newline]) (.part .statements .statement)))
      ((.statements, line) :: Tree.leaves .newlines newlines) :=
    .more (.right (.part derived)) (Matches.many_leaves fun token mem =>
      .left (.leaf (by simp [all token mem])))
  exact .seq lines (.cons (.leaf (by simp [isEof])) .nil)

/-- What is read as a module, if it has one statement and does not begin with the end of a line. -/
theorem exists_of_file (matched : Entry.file.phrase.Matches (Derives ebnf) flow children)
    (begins : ∀ first ∈ (Tree.tokensOf children).head?, first.kind ≠ .newline) {start stop : Nat}
    (single : (Tree.node .fileInput start stop children).childrenAt .statements = [line]) :
    ∃ newlines mark, Derives ebnf flow .statement line ∧
      (∀ token ∈ newlines, token.kind = .newline) ∧ mark.kind = .eof ∧
      children = Tree.input .statements line newlines mark := by
  obtain ⟨lines, _, many, ended, rfl⟩ := Matches.seq_iff.1 matched
  obtain ⟨mark, isEof, rfl⟩ := Matches.leaf_iff.1 (Matches.last_iff.1 ended)
  rcases Matches.many_iff.1 many with rfl | ⟨front, back, first, rest, rfl⟩
  · simp [Tree.childrenAt, Tree.children] at single
  · rcases Matches.alt_iff.1 first with newline | statement
    · obtain ⟨token, isNewline, rfl⟩ := Matches.leaf_iff.1 newline
      exact absurd (by simpa using isNewline) (begins token (by simp))
    · obtain ⟨other, derived, rfl⟩ := Matches.part_iff.1 statement
      obtain ⟨rfl, none⟩ : other = line ∧ ∀ child ∈ back, child.1 ≠ .statements := by
        simpa [Tree.childrenAt, Tree.children] using single
      obtain ⟨newlines, rfl, all⟩ := (rest.without none).exists_leaves .newlines [.newline]
        fun one => (Matches.alt_iff.1 one).resolve_right Matches.never_iff
      exact ⟨newlines, mark, derived, fun token mem => by simpa using all token mem,
        by simpa using isEof, rfl⟩

end Ebnf

namespace Session

variable {σ : Type} [Cursor σ] {s t : Session σ} {tree module line expression newline : Tree}
  {more : List Tree}

/-- The nodes of a tree that is read before ends of lines span their tokens. -/
theorem spanning_of_input {entry : Entry} {kind : NodeKind} {start stop : Nat} {field : Field}
    {newlines : List Token} {mark : Token}
    (parsed : s.parse entry = (.ok (.node kind start stop (tree.input field newlines mark)), t)) :
    tree.Spanning :=
  fun inner mem => parse_children_spanning parsed inner (List.mem_append_left _ mem)

/-- **A module is read from the tokens of an expression and of the ends of its line.** -/
theorem file_of_eval (down : Countdown σ) (foresight : Foresight σ) (good : down.good s.cursor)
    (parsed : s.parse .eval = (.ok tree, t)) (right : tree.childrenAt .right = [expression])
    (newlines : tree.childrenAt .newlines = newline :: more) :
    ∃ module line u, s.parse .file = (.ok module, u) ∧ module.childrenAt .statements = [line] ∧
      line.IsExpressionLine expression newline ∧ module.childrenAt .newlines = more := by
  obtain ⟨start, stop, children, matched, rfl⟩ := parse_matches parsed
  obtain ⟨inner, tokens, mark, derived, all, isEof, rfl⟩ := Ebnf.eval_iff.1 matched
  obtain rfl : inner = expression := by simpa [Tree.childrenAt_input] using right
  rw [Tree.newlines_input _ _ _ (by decide)] at newlines
  obtain ⟨first, rest, rfl, rfl, rfl⟩ := List.map_eq_cons_iff.1 newlines
  have isNewline := all first List.mem_cons_self
  have node : inner.kind? ≠ none := by
    obtain ⟨_, _, _, _, _, _, _, -, -, rfl⟩ := derived.root
    exact Option.some_ne_none _
  have spans := Tree.expressionLine_spanning (spanning_of_input parsed) node isNewline
  have line := derived.starred_of_test.expressionLine isNewline
  -- The expression and the line it is on are followed by the same tokens, taken as other children.
  have path := (parseBy_path parsed).1
  have same : Tree.tokensOf (Tree.input .right inner (first :: rest) mark) =
      Tree.tokensOf (Tree.input .statements (inner.expressionLine first) rest mark) := by
    simp [Tree.tokensOf_input, Tree.tokens_expressionLine]
  rw [Tree.tokens_node, same] at path
  obtain ⟨start', stop', u, read⟩ := parse_of_matches .file (by decide) down foresight good
    (Ebnf.file_of_statement line (fun token mem => all token (List.mem_cons_of_mem _ mem)) isEof)
    path (Tree.input_spanning spans)
  exact ⟨_, _, u, read, Tree.childrenAt_input _ _ _ (by decide) (by decide),
    Tree.isExpressionLine_expressionLine _ _, Tree.newlines_input _ _ _ (by decide)⟩

/-- **An expression is read from the tokens of a module with it on its only line.** -/
theorem eval_of_file (down : Countdown σ) (foresight : Foresight σ) (good : down.good s.cursor)
    (begins : s.current.kind ≠ .newline) (parsed : s.parse .file = (.ok module, t))
    (single : module.childrenAt .statements = [line])
    (isLine : line.IsExpressionLine expression newline) (plain : ¬ expression.Starred) :
    ∃ tree u, s.parse .eval = (.ok tree, u) ∧ tree.childrenAt .right = [expression] ∧
      tree.childrenAt .newlines = newline :: module.childrenAt .newlines := by
  obtain ⟨start, stop, children, matched, rfl⟩ := parse_matches parsed
  have path := (parseBy_path parsed).1
  rw [Tree.tokens_node] at path
  -- An end of a line that came first would be a child of the module before the statement.
  have other : ∀ first ∈ (Tree.tokensOf children).head?, first.kind ≠ .newline := by
    intro first head
    obtain ⟨rest, eq⟩ := List.head?_eq_some_iff.1 head
    rw [eq] at path
    exact (Path.cons_iff.1 path).1 ▸ begins
  obtain ⟨tokens, mark, derived, all, isEof, rfl⟩ := Ebnf.exists_of_file matched other single
  obtain ⟨starred, inside, token, rfl, isNewline, onLine⟩ := derived.of_expressionLine isLine
  have spans : expression.Spanning := fun inner mem =>
    spanning_of_input parsed inner ((Tree.subtrees_of_mem line inside).1 inner mem)
  have same : Tree.tokensOf (Tree.input .statements line tokens mark) =
      Tree.tokensOf (Tree.input .right expression (token :: tokens) mark) := by
    simp [Tree.tokensOf_input, onLine]
  rw [same] at path
  have expression := Ebnf.eval_iff.2 ⟨_, token :: tokens, mark, starred.test_of_starred plain,
    List.forall_mem_cons.2 ⟨isNewline, all⟩, isEof, rfl⟩
  obtain ⟨start', stop', u, read⟩ := parse_of_matches .eval (by decide) down foresight good
    expression path (Tree.input_spanning spans)
  refine ⟨_, u, read, Tree.childrenAt_input _ _ _ (by decide) (by decide), ?_⟩
  rw [Tree.newlines_input _ _ _ (by decide), Tree.newlines_input _ _ _ (by decide), List.map_cons]

/-- **The two ways of reading agree** over any tokens.  If they are read as an expression and at
least one end of a line, they are read as a module that has the same expression on its only line,
and the remaining ends of lines behind it.  If they do not begin with the end of a line and are read
as a module with an expression on its only line, without a star, they are read as the same
expression. -/
theorem expression_lines (tokens : List Token) :
    (∀ tree expression newline more,
      ((start (TokenList.ofList tokens)).parse .eval).1 = .ok tree →
      tree.childrenAt .right = [expression] → tree.childrenAt .newlines = newline :: more →
      ∃ module line, ((start (TokenList.ofList tokens)).parse .file).1 = .ok module ∧
        module.childrenAt .statements = [line] ∧ line.IsExpressionLine expression newline ∧
        module.childrenAt .newlines = more) ∧
    ∀ module line expression newline, (∀ first ∈ tokens.head?, first.kind ≠ .newline) →
      ((start (TokenList.ofList tokens)).parse .file).1 = .ok module →
      module.childrenAt .statements = [line] → line.IsExpressionLine expression newline →
      ¬ expression.Starred →
      ∃ tree, ((start (TokenList.ofList tokens)).parse .eval).1 = .ok tree ∧
        tree.childrenAt .right = [expression] ∧
        tree.childrenAt .newlines = newline :: module.childrenAt .newlines := by
  have good := TokenList.countdown_good_ofList tokens
  have foresight := foresight_of_looksAlong looksAlong_tokenList
  constructor
  · intro tree expression newline more parsed right newlines
    obtain ⟨module, line, u, read, rest⟩ := file_of_eval (s := start (TokenList.ofList tokens))
      TokenList.countdown foresight good (Prod.ext parsed rfl) right newlines
    exact ⟨module, line, congrArg Prod.fst read, rest⟩
  · intro module line expression newline begins parsed single isLine plain
    have other : (TokenList.ofList tokens).current.kind ≠ .newline := by
      cases tokens with
      | nil => exact nofun
      | cons first more => exact begins first rfl
    obtain ⟨tree, u, read, rest⟩ := eval_of_file (s := start (TokenList.ofList tokens))
      TokenList.countdown foresight good other (Prod.ext parsed rfl) single isLine plain
    exact ⟨tree, congrArg Prod.fst read, rest⟩

/-- The line `match(x)` and an empty one behind it.  A module takes the word for a name there, and
the call is read both ways. -/
theorem expression_lines_match :
    let tokens : List Token := [.literal 0 5 .name "match", .mark 5 6 (.symbol .leftParen),
      .literal 6 7 .name "x", .mark 7 8 (.symbol .rightParen), .literal 8 9 .newline "\n",
      .literal 9 10 .newline "\n", .mark 10 10 .eof]
    ∃ tree module line call newline more,
      ((start (TokenList.ofList tokens)).parse .eval).1 = .ok tree ∧
        tree.childrenAt .right = [call] ∧ tree.childrenAt .newlines = newline :: more ∧
      ((start (TokenList.ofList tokens)).parse .file).1 = .ok module ∧
        module.childrenAt .statements = [line] ∧ line.IsExpressionLine call newline ∧
        module.childrenAt .newlines = more ∧
      call.kind? = some .atomExpr ∧ more.length = 1 ∧
      ∃ again, ((start (TokenList.ofList tokens)).parse .eval).1 = .ok again ∧
        again.childrenAt .right = [call] := by
  intro tokens
  obtain ⟨tree, parsed, shape⟩ : ∃ tree,
      ((start (TokenList.ofList tokens)).parse .eval).1 = .ok tree ∧
        decide ((tree.childrenAt .right).map Tree.kind? = [some .atomExpr] ∧
          (tree.childrenAt .newlines).length = 2) = true := exists_ok_of_any (by decide +kernel)
  obtain ⟨calls, two⟩ := of_decide_eq_true shape
  obtain ⟨call, _, right, isCall, none⟩ := List.map_eq_cons_iff.1 calls
  obtain rfl := List.map_eq_nil_iff.1 none
  obtain ⟨newline, more, newlines⟩ := List.exists_cons_of_length_eq_add_one two
  have one : more.length = 1 := by
    rw [newlines, List.length_cons] at two
    exact Nat.succ.inj two
  have plain : ¬ call.Starred := by simp [Tree.Starred, isCall]
  obtain ⟨module, line, parsed', single, isLine, behind⟩ :=
    (expression_lines tokens).1 tree call newline more parsed right newlines
  obtain ⟨again, parsed'', right', -⟩ := (expression_lines tokens).2 module line call newline
    (by decide) parsed' single isLine plain
  exact ⟨tree, module, line, call, newline, more, parsed, right, newlines, parsed', single, isLine,
    behind, isCall, one, again, parsed'', right'⟩

end Session

end PythonSyntax
