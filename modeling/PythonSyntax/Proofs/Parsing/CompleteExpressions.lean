/-
**Expressions that are read in full.**

Lists, comparisons, atoms with what follows them, and what stands in brackets are read by rules that
ask about the pieces that they have collected.  They are gone through by hand.

Main results:

* `PythonSyntax.Session.completesWhole_listOf` — lists of elements;
* `PythonSyntax.Session.readable_comparison`, `PythonSyntax.Session.completesWhole_atomExpr` —
  rules of the ladder of operators;
* `PythonSyntax.Session.readable_name` — a name alone is read as an expression;
* `PythonSyntax.Session.completesWhole_displayItems`,
  `PythonSyntax.Session.completesWhole_curlyItems`,
  `PythonSyntax.Session.completesWhole_curlyDisplay` — comprehensions, lists, sets and
  dictionaries.
-/

import PythonSyntax.Proofs.Parsing.Complete
import PythonSyntax.Proofs.Parsing.Soundness

set_option autoImplicit false

namespace PythonSyntax

/-- Rules that are no chains and that have not been gone through by hand are found complete, and so
are all chains but comparisons. -/
theorem Nonterminal.completes_python (name : Nonterminal) :
    (name.byHand && name != .matchStatement || name.inCurly ||
      if (Grammar.python name).isChain then (Grammar.python name).completesChain name
      else (Grammar.python name).completesWhole name.follow (ebnf name)) = true :=
  forall_of_all (fun name => name.byHand && name != .matchStatement || name.inCurly ||
    if (Grammar.python name).isChain then (Grammar.python name).completesChain name
    else (Grammar.python name).completesWhole name.follow (ebnf name)) (by decide) name

namespace Session

open Phrase Rule

variable {σ : Type} [Cursor σ] {C : Nonterminal → Session σ → Frame → Session σ → Prop}
  {s : Session σ} {c : σ} {after : KindSet} {children : List Child}

/-- **A rule that need not be gone through by hand reads what is derived from its name.** -/
theorem readable_of_checked (closed : Closed C) {flow : Flow} {name : Nonterminal} {field : Field}
    {tree : Tree}
    (checked : (name.byHand && name != .matchStatement || name.inCurly) = false)
    (matched : (ebnf name).Matches (Readable C) flow [(field, tree)]) :
    Readable C flow name tree := by
  have found := name.completes_python
  have outside : name.inCurly = false := (Bool.or_eq_false_iff.1 checked).2
  rw [checked, Bool.false_or] at found
  split at found
  · exact readable_of_completesChain closed found outside matched
  · rename_i single
    refine readable_of_completesWhole closed (by simpa using single)
      (completesWhole_of_completesWhole found) (fun inCurly => ?_) matched
    rw [outside] at inCurly
    cases inCurly

/-- Rules in a row are followed one part after the other. -/
theorem follows_steps_append {front back : List Rule} {frame frame' : Frame} {s s' : Session σ} :
    Follows C (steps (front ++ back)) frame s frame' s' ↔
      ∃ middle t, Follows C (steps front) frame s middle t ∧
        Follows C (steps back) middle t frame' s' := by
  induction front generalizing frame s with
  | nil =>
      constructor
      · intro h
        exact ⟨frame, s, ⟨rfl, rfl⟩, h⟩
      · rintro ⟨_, _, ⟨rfl, rfl⟩, h⟩
        exact h
  | cons rule front ih =>
      constructor
      · rintro ⟨middle, t, one, rest⟩
        obtain ⟨frame'', u, two, three⟩ := ih.1 rest
        exact ⟨frame'', u, ⟨middle, t, one, two⟩, three⟩
      · rintro ⟨frame'', u, ⟨middle, t, one, two⟩, three⟩
        exact ⟨middle, t, one, ih.2 ⟨frame'', u, two, three⟩⟩

/-- A rule that is found complete for one tree completes that tree. -/
theorem completes_tree (rule : Rule) (kind : NodeKind) {inner : Phrase}
    (checked : rule.completesTrees after (.tree .left kind inner) = true) (before : Frame)
    (matched : inner.Matches (Readable C) s.flow children)
    (path : Path s.cursor (Tree.tokensOf children) c)
    (next : after.mem (Cursor.current c).kind = true) :
    ∃ start stop added t, Tree.bareOf added = Tree.bareOf children ∧
      Follows C rule before s [(.left, .node kind start stop (before.reverse ++ added))] t ∧
      s.Arrives c t :=
  completesTrees_of_completesTrees checked _ _ _ before _ _ (List.mem_singleton_self _) matched path
    next

/-- The token with which a row begins is taken. -/
theorem exists_shift {field : Field} {kinds : List TokenKind} {rest : Phrase}
    (matched : (seq (.leaf field kinds) rest).Matches (Readable C) s.flow children)
    (path : Path s.cursor (Tree.tokensOf children) c) :
    ∃ token back t, children = (field, .leaf token) :: back ∧ s.Takes token t ∧
      s.Arrives t.cursor t ∧ rest.Matches (Readable C) t.flow back ∧
      Path t.cursor (Tree.tokensOf back) c := by
  obtain ⟨front, back, first, more, rfl⟩ := Matches.seq_iff.1 matched
  obtain ⟨token, -, rfl⟩ := Matches.leaf_iff.1 first
  obtain ⟨middle, before, behind⟩ := Path.append_iff.1 (Tree.tokensOf_append _ _ ▸ path)
  obtain ⟨t, taken, rfl, same⟩ := exists_takes before
  exact ⟨token, back, t, rfl, taken, ⟨rfl, same⟩, same ▸ more, behind⟩

/-- The tree with which a row begins is read, before a token that may follow it. -/
theorem exists_call {field : Field} {name : Nonterminal} {rest : Phrase}
    (matched : (seq (.part field name) rest).Matches (Readable C) s.flow children)
    (path : Path s.cursor (Tree.tokensOf children) c)
    (follow : (rest.starts Nonterminal.heads after).subset name.follow = true)
    (next : after.mem (Cursor.current c).kind = true) :
    ∃ tree back read t, children = (field, tree) :: back ∧ Readable C s.flow name tree ∧
      (∀ field frame, Follows C (.call name field) frame s ((field, read) :: frame) t) ∧
      read.bare = tree.bare ∧ s.Arrives t.cursor t ∧ rest.Matches (Readable C) t.flow back ∧
      Path t.cursor (Tree.tokensOf back) c := by
  obtain ⟨front, back, first, more, rfl⟩ := Matches.seq_iff.1 matched
  obtain ⟨tree, readable, rfl⟩ := Matches.part_iff.1 first
  obtain ⟨middle, before, behind⟩ := Path.append_iff.1 (Tree.tokensOf_append _ _ ▸ path)
  have starts := more.starts (fun _ _ _ readable => readable.derived.begins) behind next
  obtain ⟨field', read, t, called, bare, rfl, same⟩ := readable.read s middle rfl
    (by simpa using before) (KindSet.mem_of_subset follow starts)
  exact ⟨tree, back, read, t, rfl, readable, fun _ _ => ⟨_, called, rfl⟩, bare, ⟨rfl, same⟩,
    same ▸ more, behind⟩

/-- The first part of a row is read by a rule that is complete for it. -/
theorem exists_first {p rest : Phrase} (rule : Rule) (between : KindSet)
    (completes : Completes C rule between p)
    (matched : (seq p rest).Matches (Readable C) s.flow children)
    (path : Path s.cursor (Tree.tokensOf children) c)
    (subset : (rest.starts Nonterminal.heads after).subset between = true)
    (next : after.mem (Cursor.current c).kind = true) (frame : Frame) :
    ∃ front back added t, children = front ++ back ∧ Tree.bareOf added = Tree.bareOf front ∧
      Follows C rule frame s (added.reverse ++ frame) t ∧ s.Arrives t.cursor t ∧
      p.Matches (Readable C) s.flow front ∧ rest.Matches (Readable C) t.flow back ∧
      Path t.cursor (Tree.tokensOf back) c := by
  obtain ⟨front, back, first, more, rfl⟩ := Matches.seq_iff.1 matched
  obtain ⟨middle, before, behind⟩ := Path.append_iff.1 (Tree.tokensOf_append _ _ ▸ path)
  have starts := more.starts (fun _ _ _ readable => readable.derived.begins) behind next
  obtain ⟨added, t, bare, followed, rfl, same⟩ :=
    completes _ frame _ _ first before (KindSet.mem_of_subset subset starts)
  exact ⟨front, back, added, t, rfl, bare, followed, ⟨rfl, same⟩, first, same ▸ more, behind⟩

/-! ### Lists -/

/-- The parts of a list in its two forms: one element alone, or an element and further ones. -/
inductive ListShape (tree : Tree) : List Child → Child → Prop
  | alone : ListShape tree [] (.elements, tree)
  | several (start stop : Nat) {rest : List Child} (some : rest ≠ []) :
      ListShape tree rest (.left, .node .testList start stop ((.elements, tree) :: rest))

/-- The elements make a list, unless there is only one and no comma. -/
theorem ListShape.finish {tree : Tree} {rest : List Child} {piece : Child}
    (shape : ListShape tree rest piece) (added : List Child)
    (bare : Tree.bareOf added = Tree.bareOf ((.elements, tree) :: rest)) (s : Session σ) :
    ∃ field read, Follows C Grammar.finishList added.reverse s [(field, read)] s ∧
      read.bare = piece.2.bare := by
  cases shape with
  | alone =>
      obtain ⟨read, others, rfl, same, none⟩ := Tree.bareOf_eq_cons bare
      obtain rfl := Tree.bareOf_eq_nil none
      exact ⟨_, read, Or.inr ⟨rfl, rfl, rfl⟩, same⟩
  | several start stop some =>
      refine ⟨_, _, Or.inl ⟨?_, rfl, rfl⟩, ?_⟩
      · have length := congrArg List.length bare
        rw [Tree.length_bareOf, Tree.length_bareOf, List.length_cons] at length
        have := List.length_pos_iff.2 some
        simp only [answers, Frame.satisfies, List.length_reverse, decide_eq_true_eq]
        omega
      · rw [build_reverse, Tree.bare_node, bare, Tree.bare_node]

theorem ListShape.tokens {tree : Tree} {rest : List Child} {piece : Child}
    (shape : ListShape tree rest piece) :
    piece.2.tokens = Tree.tokensOf ((.elements, tree) :: rest) := by
  cases shape with
  | alone => simp
  | several start stop _ => rfl

/-- A list has an element and perhaps further ones. -/
theorem list_parts {D : Flow → Nonterminal → Tree → Prop} {flow : Flow} {element : Nonterminal}
    {piece : Child} (h : (Ebnf.list element).Matches D flow [piece]) :
    ∃ tree rest, D flow element tree ∧
      (Ebnf.furtherElements .elements element).Matches D flow rest ∧ ListShape tree rest piece := by
  rcases Matches.alt_iff.1 h with one | several
  · obtain ⟨tree, readable, eq⟩ := Matches.part_iff.1 one
    cases eq
    exact ⟨tree, [], readable, .noFurther, .alone⟩
  · obtain ⟨start, stop, children, inner, eq⟩ := Matches.tree_iff.1 several
    cases eq
    obtain ⟨front, back, first, more, rfl⟩ := Matches.seq_iff.1 inner
    obtain ⟨tree, readable, rfl⟩ := Matches.part_iff.1 first
    obtain ⟨comma, others, isComma, last, rfl⟩ := Matches.seq_iff.1 more
    obtain ⟨token, mem, rfl⟩ := Matches.leaf_iff.1 isComma
    refine ⟨tree, _, readable, ?_, .several start stop (by simp)⟩
    rcases Matches.alt_iff.1 (Matches.last_iff.1 last) with further | none
    · obtain ⟨second, others, two, rest, rfl⟩ := Matches.seq_iff.1 further
      change Matches D flow _ ((.separators, .leaf token) :: (second ++ others))
      exact .further mem two rest
    · obtain rfl := Matches.nil_iff.1 none
      exact .lastSeparator mem

/-- **A list of elements is read.** -/
theorem completesWhole_listOf {element : Nonterminal} {continues : Test}
    (checked : (separated element .elements continues).completes after
      (elements .elements element) = true) :
    CompletesWhole C (Grammar.listOf element continues) after (Ebnf.list element) := by
  intro piece s c matched path next
  obtain ⟨tree, rest, readable, further, shape⟩ := list_parts matched
  obtain ⟨added, t, bare, followed, arrived⟩ := completes_of_completes _ _ checked
    ((.elements, tree) :: rest) [] s c (.cons (.part readable) (Matches.last_iff.2 further))
    (shape.tokens ▸ path) next
  obtain ⟨field, read, finished, same⟩ := shape.finish (C := C) _ bare t
  rw [List.append_nil] at followed
  exact ⟨field, read, t, ⟨_, t, followed, _, t, finished, rfl, rfl⟩, same, arrived⟩

/-! ### Comparisons -/

/-- A branch completes a node that begins with a token for which it goes one way. -/
theorem CompletesTrees.yes {test : Test} {set : KindSet} {yes no : Rule} {kind : NodeKind}
    {inner : Phrase} (eq : test.kinds? = some set)
    (starts : (inner.starts Nonterminal.heads after).subset set = true)
    (h : CompletesTrees C yes after (.tree .left kind inner)) :
    CompletesTrees C (.branch test yes no) after (.tree .left kind inner) := by
  intro kind' inner' children before s c case matched path next
  obtain ⟨start, stop, added, t, bare, followed, arrived⟩ :=
    h kind' inner' children before s c case matched path next
  cases List.mem_singleton.1 case
  have goes := (answers_of_starts _ eq before matched path next).1 starts
  exact ⟨start, stop, added, t, bare, Or.inl ⟨goes, followed⟩, arrived⟩

theorem CompletesTrees.no {test : Test} {set : KindSet} {yes no : Rule} {kind : NodeKind}
    {inner : Phrase} (eq : test.kinds? = some set)
    (starts : (inner.starts Nonterminal.heads after).disjoint set = true)
    (h : CompletesTrees C no after (.tree .left kind inner)) :
    CompletesTrees C (.branch test yes no) after (.tree .left kind inner) := by
  intro kind' inner' children before s c case matched path next
  obtain ⟨start, stop, added, t, bare, followed, arrived⟩ :=
    h kind' inner' children before s c case matched path next
  cases List.mem_singleton.1 case
  have passes := (answers_of_starts _ eq before matched path next).2 starts
  exact ⟨start, stop, added, t, bare, Or.inr ⟨passes, followed⟩, arrived⟩

/-- The rest of a comparison, from the word `is` on. -/
def identityRule : Rule :=
  steps [
    .shift .op,
    .branch (.onKeyword .notKw)
      (steps [.relabel .isToken, .shift .notToken, .call .expr .right, .reduce .isNot])
      (steps [.call .expr .right, .reduce (.binary .identity)])]

theorem completesTrees_isNot :
    CompletesTrees C identityRule (Nonterminal.follow .expr) (.tree .left .isNot (row [
      keyword .isToken .isKw, keyword .notToken .notKw, .part .right .expr])) := by
  intro kind inner children before s c case matched path next
  cases List.mem_singleton.1 case
  obtain ⟨token, back, t, rfl, taken, arrived, rest, behind⟩ := exists_shift matched path
  have isNot : t.answers ((.op, .leaf token) :: before) (.onKeyword .notKw) = true :=
    (answers_of_starts _ rfl _ rest behind next).1 (by decide)
  obtain ⟨start, stop, added, u, bare, followed, arrived'⟩ := completes_tree
    (steps [.shift .notToken, .call .expr .right, .reduce .isNot]) .isNot (by decide)
    ((.isToken, .leaf token) :: before) rest behind next
  refine ⟨start, stop, (.isToken, .leaf token) :: added, u, by simp [bare], ?_,
    arrived.trans arrived'⟩
  refine ⟨_, t, ⟨token, taken, rfl⟩, _, u, Or.inl ⟨isNot, _, t, ⟨rfl, rfl⟩, followed⟩, ?_, rfl⟩
  simp

theorem completesTrees_identity :
    CompletesTrees C identityRule (Nonterminal.follow .expr) (.tree .left (.binary .identity) (row [
      .leaf .op [BinaryOperator.identity.token], .part .right .expr])) := by
  intro kind inner children before s c case matched path next
  cases List.mem_singleton.1 case
  obtain ⟨token, back, t, rfl, taken, arrived, rest, behind⟩ := exists_shift matched path
  have noNot : t.answers ((.op, .leaf token) :: before) (.onKeyword .notKw) = false :=
    (answers_of_starts _ rfl _ rest behind next).2 (by decide)
  obtain ⟨start, stop, added, u, bare, followed, arrived'⟩ := completes_tree
    (steps [.call .expr .right, .reduce (.binary .identity)]) (.binary .identity)
    (by decide) ((.op, .leaf token) :: before) rest behind next
  refine ⟨start, stop, (.op, .leaf token) :: added, u, by simp [bare], ?_,
    arrived.trans arrived'⟩
  refine ⟨_, t, ⟨token, taken, rfl⟩, _, u, Or.inr ⟨noNot, followed⟩, ?_, rfl⟩
  simp

/-- The loop of comparisons. -/
def comparisonBody : Rule :=
  choose (Grammar.comparisons.map (Grammar.operation .expr) ++ [
    (.onKeyword .notKw, steps [
      .shift .notToken,
      expect (.keyword .inKw) .inToken "'in' after 'not'",
      .call .expr .right,
      .reduce .notIn]),
    (.onKeyword .isKw, identityRule)])
    .done

/-- A comparison that goes on with the word `is` passes over the other operators. -/
theorem CompletesTrees.comparison {kind : NodeKind} {inner : Phrase}
    (starts : inner.starts Nonterminal.heads (Nonterminal.follow .expr) =
      .ofList [.keyword .isKw])
    (h : CompletesTrees C identityRule (Nonterminal.follow .expr) (.tree .left kind inner)) :
    CompletesTrees C comparisonBody (Nonterminal.follow .expr) (.tree .left kind inner) := by
  iterate 8 refine CompletesTrees.no rfl (by rw [starts]; decide) ?_
  exact CompletesTrees.yes rfl (by rw [starts]; decide) h

/-- The trees that an operator of one token, or `not in`, completes. -/
def plainComparisons : List Phrase :=
  ((ebnf .comparison).tails .left .comparison).cases.take 9

theorem completesTrees_comparison :
    CompletesTrees C comparisonBody (Nonterminal.follow .expr)
      ((ebnf .comparison).tails .left .comparison) := by
  have plain : (plainComparisons.all fun q =>
      comparisonBody.completesTrees (Nonterminal.follow .expr) q) = true := by decide
  have split : ((ebnf .comparison).tails .left .comparison).cases = plainComparisons ++
      [.tree .left .isNot (row [
        keyword .isToken .isKw, keyword .notToken .notKw, .part .right .expr]),
       .tree .left (.binary .identity) (row [
        .leaf .op [BinaryOperator.identity.token], .part .right .expr]), .never] := rfl
  intro kind inner children before s c case
  rw [split, List.mem_append] at case
  rcases case with case | case
  · exact completesTrees_of_completesTrees (List.all_eq_true.1 plain _ case) kind inner children
      before s c (List.mem_singleton_self _)
  rcases List.mem_cons.1 case with isNot | case
  · cases isNot
    exact CompletesTrees.comparison (by decide) completesTrees_isNot _ _ children before s c
      (List.mem_singleton_self _)
  rcases List.mem_cons.1 case with identity | case
  · cases identity
    exact CompletesTrees.comparison (by decide) completesTrees_identity _ _ children before
      s c (List.mem_singleton_self _)
  · cases List.mem_singleton.1 case

/-- **Comparisons are read**, grouped to the left. -/
theorem readable_comparison (closed : Closed C) {flow : Flow} {field : Field} {tree : Tree}
    (matched : (ebnf .comparison).Matches (Readable C) flow [(field, tree)]) :
    Readable C flow .comparison tree := by
  have rule : Grammar.python .comparison = steps [.call .expr .left,
      .loop (.on (Grammar.comparisons.map BinaryOperator.token ++
        [.keyword .notKw, .keyword .isKw])) comparisonBody] := rfl
  exact readable_of_chain closed rule rfl (by decide) (by decide)
    (by decide) (by decide) completesTrees_comparison rfl matched

/-! ### Atoms with trailers -/

/-- What an expression with trailers is made of, if nothing is left out. -/
def trailed : Phrase :=
  row [opt (keyword .awaitToken .awaitKw), .part .atom .atom, .many (.part .trailers .trailer)]

/-- In each of its forms such an expression is made of these parts: of the atom alone, or of more. -/
theorem atomExpr_cases {D : Flow → Nonterminal → Tree → Prop} {flow : Flow} {piece : Child}
    (h : (ebnf .atomExpr).Matches D flow [piece]) :
    ∃ children, trailed.Matches D flow children ∧
      (children = [piece] ∨ ∃ start stop, 1 < children.length ∧
        piece = (.left, .node .atomExpr start stop children)) := by
  rcases Matches.alt_iff.1 h with alone | h
  · obtain ⟨tree, readable, eq⟩ := Matches.part_iff.1 alone
    cases eq
    exact ⟨_, .seq (.right .nil) (.cons alone (Matches.last_iff.2 .stop)), Or.inl rfl⟩
  rcases Matches.alt_iff.1 h with awaited | trailing
  · obtain ⟨start, stop, children, inner, eq⟩ := Matches.tree_iff.1 awaited
    cases eq
    obtain ⟨front, back, word, more, rfl⟩ := Matches.seq_iff.1 inner
    refine ⟨_, .seq (.left word) more, Or.inr ⟨start, stop, ?_, rfl⟩⟩
    obtain ⟨token, -, rfl⟩ := Matches.leaf_iff.1 word
    obtain ⟨front, back, atom, -, rfl⟩ := Matches.seq_iff.1 more
    obtain ⟨tree, -, rfl⟩ := Matches.part_iff.1 atom
    simp
  · obtain ⟨start, stop, children, inner, eq⟩ := Matches.tree_iff.1 trailing
    cases eq
    obtain ⟨front, back, atom, more, rfl⟩ := Matches.seq_iff.1 inner
    obtain ⟨one, others, trailer, rest, rfl⟩ := Matches.atLeastOne_iff.1 (Matches.last_iff.1 more)
    refine ⟨_, .seq (.right .nil) (.seq atom (Matches.last_iff.2 (.more trailer rest))),
      Or.inr ⟨start, stop, ?_, rfl⟩⟩
    obtain ⟨tree, -, rfl⟩ := Matches.part_iff.1 atom
    obtain ⟨tree', -, rfl⟩ := Matches.part_iff.1 trailer
    simp

theorem completesWhole_atomExpr :
    CompletesWhole C Grammar.atomExpr (Nonterminal.follow .atomExpr) (ebnf .atomExpr) := by
  intro piece s c matched path next
  obtain ⟨children, parts, shape⟩ := atomExpr_cases matched
  have tokens : Tree.tokensOf children = piece.2.tokens := by
    rcases shape with rfl | ⟨start, stop, -, rfl⟩ <;> simp
  have front : (steps [accept (.keyword .awaitKw) .awaitToken, .call .atom .atom,
      .loop Grammar.startsTrailer (.call .trailer .trailers)]).completes
        (Nonterminal.follow .atomExpr) trailed = true := by decide
  obtain ⟨added, t, bare, followed, arrived⟩ :=
    completes_of_completes _ _ front _ [] s c parts (tokens ▸ path) next
  rw [List.append_nil] at followed
  have rule : Grammar.atomExpr = steps ([accept (.keyword .awaitKw) .awaitToken, .call .atom .atom,
      .loop Grammar.startsTrailer (.call .trailer .trailers)] ++
        [when (.collected .several) (.reduce .atomExpr)]) := rfl
  have length := congrArg List.length bare
  rw [Tree.length_bareOf, Tree.length_bareOf] at length
  simp only [rule, follows_steps_append]
  rcases shape with rfl | ⟨start, stop, several, rfl⟩
  · obtain ⟨read, others, rfl, same, none⟩ := Tree.bareOf_eq_cons bare
    obtain rfl := Tree.bareOf_eq_nil none
    exact ⟨_, read, t, ⟨_, t, followed, _, t, Or.inr ⟨rfl, rfl, rfl⟩, rfl, rfl⟩, same, arrived⟩
  · refine ⟨.left, _, t, ⟨_, t, followed, _, t, Or.inl ⟨?_, rfl, rfl⟩, rfl, rfl⟩, ?_, arrived⟩
    · simpa [answers, Frame.satisfies, length] using several
    · simp [build_reverse, bare]

/-! ### A name alone -/

/-- **A name alone is read as an expression**, by way of all rules of the ladder. -/
theorem readable_name (closed : Closed C) {token : Token} (isName : token.kind = .name)
    (flow : Flow) (start stop : Nat) :
    Readable C flow .test (.node .name start stop [(.token, .leaf token)]) := by
  have word : (row [leaf .token [.name]]).Matches (Readable C) flow [(.token, .leaf token)] :=
    .cons (.leaf (by rw [isName]; rfl)) .nil
  have atom : Readable C flow .atom (.node .name start stop [(.token, .leaf token)]) :=
    readable_of_checked closed rfl (.left (.tree start stop word))
  have atomExpr : Readable C flow .atomExpr _ :=
    readable_of_completesWhole closed rfl completesWhole_atomExpr nofun (.left (.part atom))
  have power : Readable C flow .power _ := readable_of_checked closed rfl (.left (.part atomExpr))
  have factor : Readable C flow .factor _ :=
    readable_of_checked closed rfl (.right (.right (.right (.part power))))
  have term : Readable C flow .term _ := readable_of_checked closed rfl (.left (.part factor))
  have arith : Readable C flow .arithExpr _ := readable_of_checked closed rfl (.left (.part term))
  have shift : Readable C flow .shiftExpr _ := readable_of_checked closed rfl (.left (.part arith))
  have and : Readable C flow .andExpr _ := readable_of_checked closed rfl (.left (.part shift))
  have xor : Readable C flow .xorExpr _ := readable_of_checked closed rfl (.left (.part and))
  have expr : Readable C flow .expr _ := readable_of_checked closed rfl (.left (.part xor))
  have comparison : Readable C flow .comparison _ := readable_comparison closed (.left (.part expr))
  have notTest : Readable C flow .notTest _ :=
    readable_of_checked closed rfl (.right (.part comparison))
  have andTest : Readable C flow .andTest _ :=
    readable_of_checked closed rfl (.left (.part notTest))
  have orTest : Readable C flow .orTest _ := readable_of_checked closed rfl (.left (.part andTest))
  exact readable_of_checked closed rfl (.right (.left (.part orTest)))

/-! ### Expressions with a name -/

/-- The sign `:=` and the value are read after a name. -/
theorem exists_namedExpr (closed : Closed C)
    (checked : (steps [.shift .op, .call .test .value, .reduce .namedExpr]).completesTrees after
      (.tree .left .namedExpr (row [sign .op .colonAssign, .part .value .test])) = true)
    {piece : Child} (matched : Ebnf.namedExpr.Matches (Readable C) s.flow [piece])
    (path : Path s.cursor piece.2.tokens c) (next : after.mem (Cursor.current c).kind = true) :
    ∃ read t result u, Follows C (.call .test .target) [] s [(.target, read)] t ∧
      (KindSet.ofList [.symbol .colonAssign]).mem t.current.kind = true ∧
      Follows C Grammar.namedValue [(.target, read)] t [(.left, result)] u ∧
      result.bare = piece.2.bare ∧ s.Arrives c u := by
  obtain ⟨start, stop, children, inner, eq⟩ := Matches.tree_iff.1 matched
  cases eq
  obtain ⟨front, back, named, value, rfl⟩ := Matches.seq_iff.1 inner
  obtain ⟨start', stop', letters, spelled, rfl⟩ := Matches.tree_iff.1 named
  obtain ⟨token, isName, rfl⟩ := Matches.leaf_iff.1 (Matches.last_iff.1 spelled)
  have target := readable_name closed (by simpa using isName) s.flow start' stop'
  have whole : (seq (.part .target .test) (row [sign .op .colonAssign, .part .value .test])).Matches
      (Readable C) s.flow _ := .seq (.part target) value
  obtain ⟨tree, others, read, t, eq, -, called, bare, arrived, rest, behind⟩ :=
    exists_call whole path (by decide) (KindSet.mem_full _)
  cases eq
  obtain ⟨start'', stop'', added, u, bare', followed, arrived'⟩ := completes_tree
    (steps [.shift .op, .call .test .value, .reduce .namedExpr]) .namedExpr checked
    [(.target, read)] rest behind next
  have named : t.answers [(.target, read)] (.collected (.latestIs [.name])) = true := by
    rw [answers, Frame.satisfies, Frame.latest?, List.head?_cons, Option.map_some, Option.any_some,
      Frame.isOneOf_singleton, ← Tree.kind?_bare, bare]
    rfl
  exact ⟨read, t, _, u, called _ _,
    rest.starts (fun _ _ _ readable => readable.derived.begins) behind (KindSet.mem_full _),
    ⟨_, t, Or.inl ⟨named, rfl, rfl⟩, followed⟩, by simp [bare, bare'],
    arrived.trans arrived'⟩

theorem completesWhole_namedExprTest (closed : Closed C) :
    CompletesWhole C Grammar.namedExprTest (Nonterminal.follow .namedExprTest)
      (ebnf .namedExprTest) := by
  intro piece s c matched path next
  rcases Matches.alt_iff.1 matched with plain | named
  · obtain ⟨tree, readable, eq⟩ := Matches.part_iff.1 plain
    cases eq
    obtain ⟨read, t, called, bare, arrived⟩ := follows_call .test .target
      (by decide) plain path next
    have passes : t.answers [(.target, read)] (.onSymbol .colonAssign) = false := by
      refine answers_of_disjoint (Nonterminal.follow .namedExprTest) rfl _
        (by decide) ?_
      rw [current, arrived.cursor]
      exact next
    exact ⟨_, read, t, ⟨_, t, called, _, t, Or.inr ⟨passes, rfl, rfl⟩, rfl, rfl⟩, bare, arrived⟩
  · obtain ⟨read, t, result, u, called, goes, followed, bare, arrived⟩ :=
      exists_namedExpr closed (by decide) named path next
    refine ⟨_, result, u, ⟨_, t, called, _, u, Or.inl ⟨?_, followed⟩, rfl, rfl⟩, bare, arrived⟩
    rw [KindSet.mem_ofList] at goes
    exact goes

/-! ### Comprehensions and lists in brackets -/

/-- Trees of a kind begin, wherever the grammar has them, with tokens of some kinds. -/
def begun (kind : NodeKind) (kinds : KindSet) (name : Nonterminal) : Bool :=
  (ebnf name).cases.all fun
    | .tree _ kind' inner =>
      kind' != kind || !inner.nullable && (inner.heads Nonterminal.heads).subset kinds
    | _ => true

/-- A tree of the kind begins with tokens of the kinds. -/
theorem begins_of_begun {flow : Flow} {name : Nonterminal} {tree : Tree} {kind : NodeKind}
    {kinds : KindSet} (checked : Nonterminal.all.all (begun kind kinds) = true)
    (derived : Derives ebnf flow name tree) (same : tree.kind? = some kind) :
    Begins kinds tree.tokens := by
  obtain ⟨name', field, kind', inner, start, stop, children, case, matched, rfl⟩ := derived.root
  obtain rfl : kind' = kind := Option.some.inj same
  have found := List.all_eq_true.1 (Nonterminal.forall_of_all _ checked name') _ case
  simp only [bne_self_eq_false, Bool.false_or, Bool.and_eq_true, Bool.not_eq_true'] at found
  rcases matched.begins fun _ _ _ part => part.begins with ⟨-, null⟩ | begins
  · rw [found.1] at null
    cases null
  · exact begins.mono fun _ mem => KindSet.mem_of_subset found.2 mem

/-- A tree that begins otherwise is not of the kind. -/
theorem kind_ne_of_begun {flow : Flow} {name : Nonterminal} {tree : Tree} {kind : NodeKind}
    {kinds : KindSet} (checked : Nonterminal.all.all (begun kind kinds) = true)
    (derived : Derives ebnf flow name tree) (others : name.heads.disjoint kinds = true) :
    tree.kind? ≠ some kind := by
  intro same
  obtain ⟨token, rest, eq, mem⟩ := derived.begins
  obtain ⟨token', rest', eq', mem'⟩ := begins_of_begun checked derived same
  rw [eq'] at eq
  cases eq
  have other := KindSet.not_mem_of_disjoint others mem
  rw [mem'] at other
  cases other

/-- An element that is not of the kind is not refused. -/
theorem follows_unrefused {kind : NodeKind} {complaint : Complaint} {field : Field}
    {read tree : Tree} (bare : read.bare = tree.bare) (other : tree.kind? ≠ some kind)
    (s : Session σ) :
    Follows C (Grammar.refuseElement kind complaint) [(field, read)] s [(field, read)] s := by
  refine Or.inr ⟨?_, rfl, rfl⟩
  rw [← Bool.not_eq_true]
  intro same
  simp only [answers, Frame.satisfies, Frame.latest?, List.head?_cons, Option.map_some,
    Option.any_some] at same
  rw [Frame.isOneOf_singleton, ← Tree.kind?_bare, bare, Tree.kind?_bare] at same
  exact other same

/-- The clauses of a comprehension are read after an element. -/
theorem follows_comprehension {field : Field} {read tree : Tree}
    (checked : (steps [.call .compFor .clause, .reduce .comprehension]).completesTrees after
      (.tree .left .comprehension (row [.part .clause .compFor])) = true)
    (bare : read.bare = tree.bare)
    (matched : (row [.part .clause .compFor]).Matches (Readable C) s.flow children)
    (path : Path s.cursor (Tree.tokensOf children) c)
    (next : after.mem (Cursor.current c).kind = true) (start stop : Nat) :
    ∃ result t, Follows C Grammar.finishComprehension [(field, read)] s [(.left, result)] t ∧
      result.bare = (Tree.node .comprehension start stop ((.element, tree) :: children)).bare ∧
      s.Arrives c t := by
  obtain ⟨start', stop', added, t, bare', followed, arrived⟩ :=
    completes_tree _ .comprehension checked [(.element, read)] matched path next
  exact ⟨_, t, ⟨_, s, ⟨rfl, rfl⟩, followed⟩, by simp [bare, bare'], arrived⟩

/-- The elements of a list are read after the first. -/
theorem follows_further {element : Nonterminal} {field : Field} {read tree : Tree} {piece : Child}
    (continues : Test) (checked : (loop (.onSymbol .comma) (steps [
      .shift .separators,
      .branch (.onSymbol .comma) (object .doubledComma)
        (when continues (.call element .elements))])).completes after
          (Ebnf.furtherElements .elements element) = true) (bare : read.bare = tree.bare)
    (shape : ListShape tree children piece)
    (matched : (Ebnf.furtherElements .elements element).Matches (Readable C) s.flow children)
    (path : Path s.cursor (Tree.tokensOf children) c)
    (next : after.mem (Cursor.current c).kind = true) :
    ∃ field' result t, Follows C (Grammar.restOfList element continues) [(field, read)] s
      [(field', result)] t ∧ result.bare = piece.2.bare ∧ s.Arrives c t := by
  obtain ⟨added, t, bare', followed, arrived⟩ := completes_of_completes _ _ checked children
    [(.elements, read)] s c matched path next
  obtain ⟨field', result, finished, same⟩ :=
    shape.finish (C := C) ((.elements, read) :: added) (by simp [bare, bare']) t
  rw [List.reverse_cons] at finished
  exact ⟨field', result, t, ⟨_, s, ⟨rfl, rfl⟩, _, t, followed, _, t, finished, rfl, rfl⟩, same,
    arrived⟩

/-- A starred expression begins with a star. -/
theorem unstarred {flow : Flow} {name : Nonterminal} {tree : Tree}
    (derived : Derives ebnf flow name tree)
    (others : name.heads.disjoint (.ofList [.symbol .mul]) = true) : tree.kind? ≠ some .starExpr :=
  kind_ne_of_begun (by decide) derived others

/-- **Comprehensions and lists in brackets are read.** -/
theorem completesWhole_displayItems (closed : Closed C) :
    CompletesWhole C Grammar.displayItems (Nonterminal.follow .displayItems)
      (ebnf .displayItems) := by
  intro piece s c matched path next
  rcases Matches.alt_iff.1 matched with clauses | several
  · obtain ⟨start, stop, children, inner, eq⟩ := Matches.tree_iff.1 clauses
    cases eq
    obtain ⟨front, clause, first, rest, rfl⟩ := Matches.seq_iff.1 inner
    obtain ⟨tree, plain, rfl⟩ := Matches.part_iff.1 first
    have readable : Readable C s.flow .starOrNamedExpr tree :=
      readable_of_checked closed rfl (.right (.part plain))
    have whole : (seq (.part .element .starOrNamedExpr) (row [.part .clause .compFor])).Matches
        (Readable C) s.flow ((.element, tree) :: clause) := .seq (.part readable) rest
    obtain ⟨_, _, read, t, eq, -, called, bare, arrived, rest, behind⟩ :=
      exists_call whole path (by decide) next
    cases eq
    have goes : t.answers [(.element, read)] Grammar.startsCompFor = true :=
      (answers_of_starts _ rfl _ rest behind next).1 (by decide)
    obtain ⟨result, u, followed, bare', arrived'⟩ :=
      follows_comprehension (by decide) bare rest behind next start stop
    exact ⟨_, result, u, ⟨_, t, called _ _, _, u, Or.inl ⟨goes, _, t,
      follows_unrefused bare (unstarred plain.derived (by decide)) t, _, u, followed, rfl,
      rfl⟩, rfl, rfl⟩, bare', arrived.trans arrived'⟩
  · obtain ⟨tree, rest, readable, further, shape⟩ := list_parts several
    have whole : (seq (.part .element .starOrNamedExpr)
        (Ebnf.furtherElements .elements .starOrNamedExpr)).Matches (Readable C) s.flow
          ((.element, tree) :: rest) := .seq (.part readable) further
    obtain ⟨_, _, read, t, eq, -, called, bare, arrived, further, behind⟩ :=
      exists_call whole (by simpa [shape.tokens] using path) (by decide) next
    cases eq
    have passes : t.answers [(.element, read)] Grammar.startsCompFor = false :=
      (answers_of_starts _ rfl _ further behind next).2 (by decide)
    obtain ⟨field, result, u, followed, bare', arrived'⟩ :=
      follows_further Grammar.startsStarred (by decide) bare shape further
        behind next
    exact ⟨field, result, u, ⟨_, t, called _ _, _, u, Or.inr ⟨passes, followed⟩, rfl, rfl⟩, bare',
      arrived.trans arrived'⟩

/-! ### Curly brackets -/

/-- The colon and the value are read after a key. -/
theorem follows_entry {field : Field} {read key : Tree}
    (checked : (steps [.shift .colon, .call .test .value, .reduce .dictEntry]).completesTrees after
      (.tree .left .dictEntry (row [sign .colon .colon, .part .value .test])) = true)
    (bare : read.bare = key.bare)
    (matched : (row [sign .colon .colon, .part .value .test]).Matches (Readable C) s.flow children)
    (path : Path s.cursor (Tree.tokensOf children) c)
    (next : after.mem (Cursor.current c).kind = true) (start stop : Nat) :
    ∃ result t, Follows C Grammar.finishDictEntry [(field, read)] s [(.left, result)] t ∧
      result.bare = (Tree.node .dictEntry start stop ((.key, key) :: children)).bare ∧
      s.Arrives c t := by
  obtain ⟨start', stop', added, t, bare', followed, arrived⟩ :=
    completes_tree _ .dictEntry checked [(.key, read)] matched path next
  exact ⟨_, t, ⟨_, s, ⟨rfl, rfl⟩, followed⟩, by simp [bare, bare'], arrived⟩

/-- A key begins an entry of a dictionary; what comes before the colon is read by a call. -/
theorem exists_entry {field field' : Field} {piece : Child}
    (checked : (steps [.shift .colon, .call .test .value, .reduce .dictEntry]).completesTrees after
      (.tree .left .dictEntry (row [sign .colon .colon, .part .value .test])) = true)
    (matched : (Ebnf.dictEntry field).Matches (Readable C) s.flow [piece])
    (path : Path s.cursor piece.2.tokens c) (next : after.mem (Cursor.current c).kind = true) :
    ∃ read t result u, Follows C (.call .test field') [] s [(field', read)] t ∧
      (KindSet.ofList [.symbol .colon]).mem t.current.kind = true ∧
      Follows C Grammar.finishDictEntry [(field', read)] t [(.left, result)] u ∧
      result.bare = piece.2.bare ∧ s.Arrives c u ∧ piece.2.kind? = some .dictEntry ∧
      Nonterminal.expressionHeads.mem s.current.kind = true := by
  obtain ⟨start, stop, children, inner, eq⟩ := Matches.tree_iff.1 matched
  cases eq
  obtain ⟨tree, others, read, t, rfl, readable, called, bare, arrived, rest, behind⟩ :=
    exists_call inner path (by decide) (KindSet.mem_full _)
  obtain ⟨result, u, followed, bare', arrived'⟩ :=
    follows_entry checked bare rest behind next start stop
  exact ⟨read, t, result, u, called _ _, rest.starts (fun _ _ _ part => part.derived.begins) behind
    (KindSet.mem_full _), followed, bare', arrived.trans arrived', rfl,
    Readable.starts inner path (KindSet.mem_full _)⟩

theorem completesWhole_dictItem :
    CompletesWhole C Grammar.dictItem (Nonterminal.follow .dictItem) (ebnf .dictItem) := by
  intro piece s c matched path next
  rcases Matches.alt_iff.1 matched with unpacked | entry
  · obtain ⟨read, t, followed, bare, arrived⟩ := follows_call .dictUnpack .left
      (by decide) unpacked path next
    have goes : s.answers [] (.onSymbol .power) = true :=
      (answers_of_starts _ rfl _ unpacked (by simpa using path) next).1 (by decide)
    exact ⟨_, read, t, Or.inl ⟨goes, followed⟩, bare, arrived⟩
  · obtain ⟨read, t, result, u, called, colon, followed, bare, arrived, -, heads⟩ :=
      exists_entry (by decide) entry path next
    have passes : s.answers [] (.onSymbol .power) = false := by
      rw [answers_of_kinds? rfl]
      exact KindSet.not_mem_of_disjoint (by decide) heads
    have goes : t.answers [(.key, read)] (.onSymbol .colon) = true := by
      rw [answers_of_kinds? rfl]
      exact colon
    exact ⟨_, result, u, Or.inr ⟨passes, _, t, called, _, u, Or.inl ⟨goes, followed⟩, rfl, rfl⟩,
      bare, arrived⟩

/-- What reads the first element in curly brackets reads an entry of a dictionary. -/
theorem curlyFirst_entry {field : Field} {piece : Child}
    (checked : (steps [.shift .colon, .call .test .value, .reduce .dictEntry]).completesTrees after
      (.tree .left .dictEntry (row [sign .colon .colon, .part .value .test])) = true)
    (matched : (Ebnf.dictEntry field).Matches (Readable C) s.flow [piece])
    (path : Path s.cursor piece.2.tokens c) (next : after.mem (Cursor.current c).kind = true) :
    ∃ read t, Follows C Grammar.curlyFirst [] s [(.left, read)] t ∧ read.bare = piece.2.bare ∧
      s.Arrives c t := by
  obtain ⟨read, t, result, u, called, colon, followed, bare, arrived, -, heads⟩ :=
    exists_entry checked matched path next
  have passes : ∀ sign, Nonterminal.expressionHeads.disjoint (.ofList [.symbol sign]) = true →
      s.answers [] (.onSymbol sign) = false := by
    intro sign disjoint
    rw [answers_of_kinds? rfl]
    exact KindSet.not_mem_of_disjoint disjoint heads
  have goes : t.answers [(.left, read)] (.onSymbol .colon) = true := by
    rw [answers_of_kinds? rfl]
    exact colon
  exact ⟨result, u, Or.inr
    ⟨passes _ (by decide), Or.inr ⟨passes _ (by decide), _, t,
    called, _, u, Or.inl ⟨goes, followed⟩, rfl, rfl⟩⟩, bare, arrived⟩

/-- What reads the first element in curly brackets reads an expression. -/
theorem curlyFirst_test {tree : Tree} (readable : Readable C s.flow .test tree)
    (path : Path s.cursor tree.tokens c) (follow : after.subset (Nonterminal.follow .test) = true)
    (noColon : after.disjoint (.ofList [.symbol .colon]) = true)
    (next : after.mem (Cursor.current c).kind = true) :
    ∃ read t, Follows C Grammar.curlyFirst [] s [(.left, read)] t ∧ read.bare = tree.bare ∧
      s.Arrives c t := by
  have matched : (Phrase.part .left .test).Matches (Readable C) s.flow [(.left, tree)] :=
    .part readable
  have passes : ∀ sign, Nonterminal.expressionHeads.disjoint (.ofList [.symbol sign]) = true →
      s.answers [] (.onSymbol sign) = false := fun sign disjoint =>
    (answers_of_starts _ rfl _ matched (by simpa using path) next).2 disjoint
  obtain ⟨field, read, t, called, bare, arrived⟩ :=
    readable.read s c rfl path (KindSet.mem_of_subset follow next)
  have stops : t.answers [(.left, read)] (.onSymbol .colon) = false := by
    refine answers_of_disjoint _ rfl _ noColon ?_
    rw [current, arrived.cursor]
    exact next
  exact ⟨read, t, Or.inr ⟨passes _ (by decide), Or.inr ⟨passes _ (by decide), _, t,
    ⟨_, called, rfl⟩, _, t, Or.inr ⟨stops, rfl, rfl⟩, rfl, rfl⟩⟩, bare, arrived⟩

/-- The first of several elements in curly brackets is read. -/
theorem completesWhole_curlyFirst {name : Nonterminal} (inCurly : name.inCurly = true) :
    CompletesWhole C Grammar.curlyFirst Nonterminal.curlyFollow (ebnf name) := by
  intro piece s c matched path next
  have goes : ∀ {q : Phrase} {sign : Symbol}, q.Matches (Readable C) s.flow [piece] →
      (q.starts Nonterminal.heads Nonterminal.curlyFollow).subset (.ofList [.symbol sign]) = true →
        s.answers [] (.onSymbol sign) = true := fun found subset =>
    (answers_of_starts _ rfl _ found (by simpa using path) next).1 subset
  cases name with
  | dictItem =>
      rcases Matches.alt_iff.1 matched with unpacked | entry
      · obtain ⟨read, t, followed, bare, arrived⟩ :=
          follows_call .dictUnpack .left (by decide) unpacked path next
        exact ⟨_, read, t, Or.inl ⟨goes unpacked (by decide), followed⟩, bare, arrived⟩
      · obtain ⟨read, t, followed, bare, arrived⟩ :=
          curlyFirst_entry (by decide) entry path next
        exact ⟨_, read, t, followed, bare, arrived⟩
  | starOrTest =>
      rcases Matches.alt_iff.1 matched with starred | plain
      · obtain ⟨read, t, followed, bare, arrived⟩ :=
          follows_call .starExpr .left (by decide) starred path next
        have passes : s.answers [] (.onSymbol .power) = false :=
          (answers_of_starts _ rfl _ starred (by simpa using path) next).2 (by decide)
        exact ⟨_, read, t, Or.inr ⟨passes, Or.inl ⟨goes starred (by decide), followed⟩⟩,
          bare, arrived⟩
      · obtain ⟨tree, readable, eq⟩ := Matches.part_iff.1 plain
        cases eq
        obtain ⟨read, t, followed, bare, arrived⟩ :=
          curlyFirst_test readable path (by decide) (by decide) next
        exact ⟨_, read, t, followed, bare, arrived⟩
  | _ => cases inCurly

/-- The elements of a set are no elements of a dictionary, and those of a dictionary are. -/
theorem beginsDictionary_of_readable {flow : Flow} {name : Nonterminal} {field : Field}
    {read tree : Tree} (derived : Derives ebnf flow name tree) (bare : read.bare = tree.bare) :
    (name = .dictItem → Ebnf.beginsDictionary [(field, read)] = true) ∧
      (name.plain = true → Ebnf.beginsDictionary [(field, read)] = false) := by
  have same : Ebnf.beginsDictionary [(field, read)] = Ebnf.beginsDictionary [(field, tree)] := by
    rw [← Ebnf.beginsDictionary_bareOf, ← Ebnf.beginsDictionary_bareOf [(field, tree)]]
    simp [bare]
  rw [same]
  refine ⟨?_, fun plain => derived.not_beginsDictionary plain field⟩
  rintro rfl
  obtain ⟨_, matched⟩ := Derives.iff_matches.1 derived
  rcases Matches.alt_iff.1 matched with unpacked | entry
  · obtain ⟨_, unpacked, eq⟩ := Matches.part_iff.1 unpacked
    cases eq
    obtain ⟨start, stop, inner, -, rfl⟩ := unpacked.node rfl
    rfl
  · obtain ⟨start, stop, inner, -, eq⟩ := Matches.tree_iff.1 entry
    cases eq
    rfl

/-- A comprehension in curly brackets is read after its element. -/
theorem follows_curlyComprehension {read tree : Tree} {t : Session σ} {start stop : Nat}
    (first : Follows C Grammar.curlyFirst [] s [(.left, read)] t) (bare : read.bare = tree.bare)
    (unpacked : tree.kind? ≠ some .dictUnpack) (starred : tree.kind? ≠ some .starExpr)
    (matched : (row [.part .clause .compFor]).Matches (Readable C) t.flow children)
    (path : Path t.cursor (Tree.tokensOf children) c)
    (next : (Nonterminal.follow .curlyItems).mem (Cursor.current c).kind = true) :
    ∃ result u, Follows C Grammar.curlyItems [] s [(.left, result)] u ∧
      result.bare = (Tree.node .comprehension start stop ((.element, tree) :: children)).bare ∧
      t.Arrives c u := by
  have goes : t.answers [(.left, read)] Grammar.startsCompFor = true :=
    (answers_of_starts _ rfl _ matched path next).1 (by decide)
  obtain ⟨result, u, followed, bare', arrived⟩ :=
    follows_comprehension (by decide) bare matched path next start stop
  exact ⟨result, u, ⟨_, t, first, _, u, Or.inl ⟨goes, _, t, follows_unrefused bare unpacked t, _, t,
    follows_unrefused bare starred t, _, u, followed, rfl, rfl⟩, rfl, rfl⟩, bare', arrived⟩

/-- The elements of a dictionary or a set are read. -/
theorem follows_curlyList {name : Nonterminal} {piece : Child} (inCurly : name.inCurly = true)
    (matched : (Ebnf.list name).Matches (Readable C) s.flow [piece])
    (path : Path s.cursor piece.2.tokens c)
    (next : (Nonterminal.follow .curlyItems).mem (Cursor.current c).kind = true) :
    ∃ field read t, Follows C Grammar.curlyItems [] s [(field, read)] t ∧
      read.bare = piece.2.bare ∧ s.Arrives c t := by
  obtain ⟨tree, rest, readable, further, shape⟩ := list_parts matched
  obtain ⟨middle, before, behind⟩ := Path.append_iff.1 (shape.tokens ▸ path)
  have between := further.starts (fun _ _ _ part => part.derived.begins) behind next
  -- With which tokens further elements begin does not depend on their name.
  have follows : ((Ebnf.furtherElements .elements name).starts Nonterminal.heads
      (Nonterminal.follow .curlyItems)).subset Nonterminal.curlyFollow = true :=
    show ((Ebnf.furtherElements .elements .test).starts Nonterminal.heads
      (Nonterminal.follow .curlyItems)).subset Nonterminal.curlyFollow = true by decide
  have noClause : ((Ebnf.furtherElements .elements name).starts Nonterminal.heads
      (Nonterminal.follow .curlyItems)).disjoint (.ofList [.keyword .forKw, .keyword .asyncKw]) =
        true :=
    show ((Ebnf.furtherElements .elements .test).starts Nonterminal.heads
      (Nonterminal.follow .curlyItems)).disjoint (.ofList [.keyword .forKw, .keyword .asyncKw]) =
        true by decide
  obtain ⟨field, read, t, first, bare, rfl, flows⟩ := readable.first inCurly s middle rfl before
    (KindSet.mem_of_subset follows between)
  have passes : t.answers [(field, read)] Grammar.startsCompFor = false :=
    (answers_of_starts _ rfl _ (flows ▸ further) behind next).2 noClause
  obtain ⟨isDictionary, isSet⟩ := beginsDictionary_of_readable readable.derived bare
  cases name with
  | dictItem =>
      obtain ⟨field', result, u, followed, bare', arrived⟩ :=
        follows_further (.either Grammar.startsExpression (.onSymbol .power))
          (by decide) bare shape (flows ▸ further) behind next
      exact ⟨field', result, u, ⟨_, t, first, _, u,
        Or.inr ⟨passes, Or.inl ⟨isDictionary rfl, followed⟩⟩, rfl, rfl⟩, bare',
        (Arrives.mk rfl flows : s.Arrives t.cursor t).trans arrived⟩
  | starOrTest =>
      obtain ⟨field', result, u, followed, bare', arrived⟩ :=
        follows_further Grammar.startsStarred
          (by decide) bare shape (flows ▸ further) behind next
      exact ⟨field', result, u, ⟨_, t, first, _, u,
        Or.inr ⟨passes, Or.inr ⟨isSet rfl, followed⟩⟩, rfl, rfl⟩, bare',
        (Arrives.mk rfl flows : s.Arrives t.cursor t).trans arrived⟩
  | _ => cases inCurly

/-- **What stands in curly brackets is read.** -/
theorem completesWhole_curlyItems :
    CompletesWhole C Grammar.curlyItems (Nonterminal.follow .curlyItems) (ebnf .curlyItems) := by
  intro piece s c matched path next
  rcases Matches.alt_iff.1 matched with entries | matched
  · obtain ⟨start, stop, children, inner, eq⟩ := Matches.tree_iff.1 entries
    cases eq
    obtain ⟨front, clause, first, rest, rfl⟩ := Matches.seq_iff.1 inner
    rw [Tree.tokens_node, Tree.tokensOf_append] at path
    obtain ⟨middle, before, behind⟩ := Path.append_iff.1 path
    obtain ⟨start', stop', entry, made, rfl⟩ := Matches.tree_iff.1 first
    have between := rest.starts (fun _ _ _ part => part.derived.begins) behind next
    obtain ⟨read, t, followed, bare, arrived⟩ :=
      curlyFirst_entry (by decide) first (by simpa using before) between
    obtain ⟨result, u, whole, bare', arrived'⟩ := follows_curlyComprehension
      followed bare (by simp [Tree.kind?]) (by simp [Tree.kind?])
      (arrived.flow ▸ rest) (arrived.cursor ▸ behind) next
    exact ⟨_, result, u, whole, bare', arrived.trans arrived'⟩
  rcases Matches.alt_iff.1 matched with tests | lists
  · obtain ⟨start, stop, children, inner, eq⟩ := Matches.tree_iff.1 tests
    cases eq
    obtain ⟨front, clause, first, rest, rfl⟩ := Matches.seq_iff.1 inner
    rw [Tree.tokens_node, Tree.tokensOf_append] at path
    obtain ⟨middle, before, behind⟩ := Path.append_iff.1 path
    obtain ⟨tree, readable, rfl⟩ := Matches.part_iff.1 first
    have between := rest.starts (fun _ _ _ part => part.derived.begins) behind next
    obtain ⟨read, t, followed, bare, arrived⟩ :=
      curlyFirst_test readable (by simpa using before) (by decide)
        (by decide) between
    have starred := unstarred readable.derived (by decide)
    have unpacked : tree.kind? ≠ some .dictUnpack := by
      have plain := (readable.derived.plain rfl).1
      intro same
      obtain ⟨_, _, _, _⟩ | ⟨_, _, _, _⟩ := tree <;> cases same
      cases plain
    obtain ⟨result, u, whole, bare', arrived'⟩ := follows_curlyComprehension
      followed bare unpacked starred (arrived.flow ▸ rest) (arrived.cursor ▸ behind)
      next
    exact ⟨_, result, u, whole, bare', arrived.trans arrived'⟩
  rcases Matches.alt_iff.1 lists with dictionary | set
  · exact follows_curlyList rfl dictionary path next
  · exact follows_curlyList rfl set path next

/-- Elements in curly brackets are read up to the bracket that makes a node of them. -/
theorem exists_filledCurly {decides : List Child → Bool} (kind : NodeKind)
    (closes : (steps [expectSymbol .rightCurly .rcurly "'\x7d'", .reduce kind]).completesTrees .full
      (.tree .left kind (row [sign .rcurly .rightCurly])) = true) (matched : (row [
      sign .lcurly .leftCurly,
      such decides (.part .inner .curlyItems),
      sign .rcurly .rightCurly]).Matches (Readable C) s.flow children)
    (path : Path s.cursor (Tree.tokensOf children) c) :
    ∃ token t items read u start stop added v, s.Takes token t ∧
      t.answers [(.lcurly, .leaf token)] (.onSymbol .rightCurly) = false ∧
      Follows C (.call .curlyItems .inner) [(.lcurly, .leaf token)] t
        [(.inner, read), (.lcurly, .leaf token)] u ∧
      decides [(.inner, items)] = true ∧ read.bare = items.bare ∧
      Follows C (steps [expectSymbol .rightCurly .rcurly "'\x7d'", .reduce kind])
        [(.inner, read), (.lcurly, .leaf token)] u
        [(.left, .node kind start stop ([(.lcurly, .leaf token), (.inner, read)] ++ added))] v ∧
      Tree.bareOf ([(.lcurly, .leaf token), (.inner, read)] ++ added) = Tree.bareOf children ∧
      s.Arrives c v := by
  obtain ⟨token, back, t, rfl, taken, arrived, rest, behind⟩ := exists_shift matched path
  have open_ : t.answers [(.lcurly, .leaf token)] (.onSymbol .rightCurly) = false :=
    (answers_of_starts _ rfl _ rest behind (KindSet.mem_full _)).2
      (show ((row [.part .inner .curlyItems, sign .rcurly .rightCurly]).starts Nonterminal.heads
        .full).disjoint (.ofList [.symbol .rightCurly]) = true by decide)
  obtain ⟨front, last, filled, closed, rfl⟩ := Matches.seq_iff.1 rest
  obtain ⟨part, decided⟩ := Matches.such_iff.1 filled
  have whole : (seq (.part .inner .curlyItems) (row [sign .rcurly .rightCurly])).Matches
      (Readable C) t.flow (front ++ last) := .seq part closed
  obtain ⟨tree, others, read, u, eq, -, called, bare, arrived', closing, behind⟩ :=
    exists_call whole behind (by decide) (KindSet.mem_full _)
  obtain ⟨items, -, rfl⟩ := Matches.part_iff.1 part
  cases eq
  obtain ⟨start, stop, added, v, bare', followed, arrived''⟩ := completes_tree _ kind closes
    [(.inner, read), (.lcurly, .leaf token)] closing behind (KindSet.mem_full _)
  exact ⟨token, t, tree, read, u, start, stop, added, v, taken, open_, called _ _, decided, bare,
    followed, by simp [bare, bare'], (arrived.trans arrived').trans arrived''⟩

/-- **Dictionaries and sets are read.** -/
theorem completesWhole_curlyDisplay :
    CompletesWhole C Grammar.curlyDisplay (Nonterminal.follow .curlyDisplay)
      (ebnf .curlyDisplay) := by
  intro piece s c matched path next
  -- What is asked about the elements does not depend on their spans.
  have same : ∀ {read items : Tree}, read.bare = items.bare →
      Ebnf.beginsDictionary [(.inner, read)] = Ebnf.beginsDictionary [(.inner, items)] := by
    intro read items bare
    rw [← Ebnf.beginsDictionary_bareOf, ← Ebnf.beginsDictionary_bareOf [(.inner, items)]]
    simp [bare]
  rcases Matches.alt_iff.1 matched with empty | matched
  · obtain ⟨start, stop, children, inner, eq⟩ := Matches.tree_iff.1 empty
    cases eq
    obtain ⟨token, back, t, rfl, taken, arrived, rest, behind⟩ := exists_shift inner path
    have closing : t.answers [(.lcurly, .leaf token)] (.onSymbol .rightCurly) = true :=
      (answers_of_starts _ rfl _ rest behind (KindSet.mem_full _)).1 (by decide)
    obtain ⟨start', stop', added, u, bare, followed, arrived'⟩ := completes_tree
      (steps [.shift .rcurly, .reduce .dictionary]) .dictionary (by decide)
      [(.lcurly, .leaf token)] rest behind (KindSet.mem_full _)
    exact ⟨_, _, u, ⟨_, t, ⟨token, taken, rfl⟩, _, u, Or.inl ⟨closing, followed⟩, rfl, rfl⟩,
      by simp [bare], arrived.trans arrived'⟩
  rcases Matches.alt_iff.1 matched with dictionary | set
  · obtain ⟨start, stop, children, inner, eq⟩ := Matches.tree_iff.1 dictionary
    cases eq
    obtain ⟨token, t, items, read, u, start', stop', added, v, taken, open_, called, decided, bare,
      followed, bare', arrived⟩ :=
        exists_filledCurly .dictionary (by decide) inner path
    rw [← same bare] at decided
    exact ⟨_, _, v, ⟨_, t, ⟨token, taken, rfl⟩, _, v, Or.inr ⟨open_, _, u, called, _, v,
      Or.inl ⟨decided, followed⟩, rfl, rfl⟩, rfl, rfl⟩,
      by rw [Tree.bare_node, bare', Tree.bare_node], arrived⟩
  · obtain ⟨start, stop, children, inner, eq⟩ := Matches.tree_iff.1 set
    cases eq
    obtain ⟨token, t, items, read, u, start', stop', added, v, taken, open_, called, decided, bare,
      followed, bare', arrived⟩ :=
        exists_filledCurly .set (by decide) inner path
    rw [Bool.not_eq_true', ← same bare] at decided
    exact ⟨_, _, v, ⟨_, t, ⟨token, taken, rfl⟩, _, v, Or.inr ⟨open_, _, u, called, _, v,
      Or.inr ⟨decided, followed⟩, rfl, rfl⟩, rfl, rfl⟩,
      by rw [Tree.bare_node, bare', Tree.bare_node], arrived⟩

end Session

end PythonSyntax
