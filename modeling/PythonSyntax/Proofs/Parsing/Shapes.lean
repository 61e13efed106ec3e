/-
**The shapes of nodes.**

The slots of a kind tell how often a field may occur, but not which fields go together.  The grammar
says more: how many separators stand between the elements of a list, which optional fields come with
which others, and which lists are never empty.  All of this holds of every node of a tree that is
parsed.

Main definitions:

* `PythonSyntax.Law` — what fields of a node have to do with each other;
* `PythonSyntax.NodeKind.laws` — the laws for the nodes of a kind;
* `PythonSyntax.Tree.Shaped` — a node as the laws of its kind say;
* `PythonSyntax.Law.governs` — whether all children of a phrase are as a law says.

Main results:

* `PythonSyntax.Law.met` — the children of a phrase that a law governs are as it says;
* `PythonSyntax.Derives.shaped` — every node of a derived tree is shaped;
* `PythonSyntax.Session.parse_shaped` — **every node of a tree that is parsed is shaped**.
-/

import PythonSyntax.Proofs.Parsing.Lossless
import PythonSyntax.Proofs.Syntax.Counts

set_option autoImplicit false

namespace PythonSyntax

/-! ### Laws -/

/-- What fields of a node have to do with each other. -/
inductive Law where
  /-- There are parts, a sign stands after each but the last, and perhaps after that too. -/
  | separated (parts signs : Field)
  /-- There are parts, and a sign stands after each but the last. -/
  | between (parts signs : Field)
  /-- A single part has a sign after it. -/
  | marked (parts signs : Field)
  /-- There is at least one. -/
  | filled (field : Field)
  /-- Both occur once, or neither does. -/
  | together (first second : Field)
  /-- The one occurs only with the other. -/
  | only (field other : Field)
  /-- One of them occurs, or both do. -/
  | either (first second : Field)
  /-- They do not both occur. -/
  | apart (first second : Field)
  /-- The law holds if the field does not occur. -/
  | lacking (field : Field) (law : Law)
  deriving DecidableEq, Repr

namespace Law

/-- The children of the node are as the law says. -/
def MetBy : Law → Tree → Prop
  | separated parts signs, tree =>
    1 ≤ tree.count parts ∧
      (tree.count signs + 1 = tree.count parts ∨
        tree.count signs = tree.count parts)
  | between parts signs, tree => tree.count signs + 1 = tree.count parts
  | marked parts signs, tree => tree.count parts = 1 → tree.count signs = 1
  | filled field, tree => 1 ≤ tree.count field
  | together first second, tree => tree.count first = tree.count second ∧ tree.count first ≤ 1
  | only field other, tree => 1 ≤ tree.count field → 1 ≤ tree.count other
  | either first second, tree => 1 ≤ tree.count first ∨ 1 ≤ tree.count second
  | apart first second, tree => tree.count first = 0 ∨ tree.count second = 0
  | lacking field law, tree => tree.count field = 0 → law.MetBy tree

end Law

/-- The laws for the nodes of a kind. -/
def NodeKind.laws : NodeKind → List Law
  -- lists
  | .testList => [.separated .elements .separators, .marked .elements .separators]
  | .argList => [.separated .arguments .separators]
  | .typedArgsList | .varArgsList => [.separated .parameters .separators]
  | .simpleStatement => [.separated .statements .separators]
  | .importStatement => [.between .names .separators]
  | .withStatement => [.between .items .separators]
  | .globalStatement | .nonlocalStatement => [.between .names .separators]
  | .dottedName => [.between .names .dots]
  | .string => [.filled .tokens]
  | .block => [.filled .statements]
  | .matchStatement => [.filled .cases]
  | .decorators => [.filled .decorators]
  | .assignment => [.filled .targets]
  -- fields that come together
  | .dottedAsName | .importAsName => [.together .asToken .alias]
  | .withItem => [.together .asToken .target]
  | .exceptClause => [.together .asToken .name, .only .asToken .test]
  | .asPattern => [.together .asToken .name]
  | .caseBlock => [.together .ifToken .guard]
  | .assertStatement => [.together .comma .message]
  | .raiseStatement => [.together .fromToken .cause, .only .cause .exception]
  | .functionDef => [.together .arrow .returns]
  | .parameter => [.together .colon .annotated, .together .assign .defaultValue]
  | .annAssign => [.together .colon .annotated, .together .assign .value]
  | .classDef => [.together .lparen .rparen, .only .arguments .lparen]
  | .slice => [.only .step .stepColon]
  | .yieldExpr => [.only .fromToken .value]
  -- alternatives
  | .atomExpr => [.either .awaitToken .trailers]
  | .importFrom =>
    [.either .star .names, .apart .star .names, .either .moduleName .dots,
      .together .lparen .rparen, .only .lparen .names,
      .lacking .star (.separated .names .separators),
      .lacking .star (.lacking .lparen (.between .names .separators))]
  | .tryStatement => [.either .handlers .finallyClause, .only .elseClause .handlers]
  | _ => []

/-- The node is as the laws of its kind say. -/
def Tree.Shaped (tree : Tree) : Prop :=
  ∀ kind, tree.kind? = some kind → ∀ law ∈ kind.laws, law.MetBy tree

theorem Tree.shaped_leaf (token : Token) : (Tree.leaf token).Shaped := by
  intro kind isKind
  cases isKind

/-! ### Phrases that laws govern -/

/-- Whatever the children of the phrase are, the weights of their fields add up to one of the
sums. -/
def Phrase.weighs (p : Phrase) (weight : Field → Int) (all : List Int) : Bool :=
  (p.sums weight).any fun sums => sums.all all.contains

/-- All children of the phrase are as the law says. -/
def Law.governs : Law → Phrase → Bool
  | separated parts signs, p =>
    p.fills parts && p.weighs (Tree.difference parts signs) [0, 1]
  | between parts signs, p => p.weighs (Tree.difference parts signs) [1]
  | marked parts signs, p =>
    p.fills signs && p.weighs (Tree.difference parts signs) [0, 1]
  | filled field, p => p.fills field
  | together first second, p =>
    p.weighs (Tree.difference first second) [0] && p.weighs (Tree.only first) [0, 1]
  | only field other, p => (p.without other).lacks field
  | either first second, p => (p.without first).fills second
  | apart first second, p => p.apart first second
  | lacking field law, p => law.governs (p.without field)

section Children

variable {D : Flow → Nonterminal → Tree → Prop} {flow : Flow} {p : Phrase}
  {children : List Child}

theorem Phrase.Matches.weigh_of_weighs (h : p.Matches D flow children) {weight : Field → Int}
    {all : List Int} (checked : p.weighs weight all = true) : Tree.weigh weight children ∈ all := by
  obtain ⟨sums, computed, within⟩ := (Option.any_eq_true _ _).1 checked
  simpa using List.all_eq_true.1 within _ (h.weigh_mem computed)

/-- What the counts of two fields differ by. -/
theorem Phrase.Matches.count_sub_count (h : p.Matches D flow children) {first second : Field}
    {all : List Int} (checked : p.weighs (Tree.difference first second) all = true)
    (kind : NodeKind) (start stop : Nat) :
    ((Tree.node kind start stop children).count first : Int) -
      (Tree.node kind start stop children).count second ∈ all := by
  rw [← Tree.weigh_only, ← Tree.weigh_only, ← Tree.weigh_difference]
  exact h.weigh_of_weighs checked

theorem Phrase.Matches.count_pos (h : p.Matches D flow children) {field : Field}
    (checked : p.fills field = true) (kind : NodeKind) (start stop : Nat) :
    1 ≤ (Tree.node kind start stop children).count field := by
  rw [Tree.count, Tree.childrenAt, List.length_map]
  exact List.length_pos_iff.2 (h.filter_fills checked)

theorem Tree.ne_of_count {kind : NodeKind} {start stop : Nat} {field : Field}
    (none : (node kind start stop children).count field = 0) :
    ∀ child ∈ children, child.1 ≠ field := by
  intro child mem takes
  have found : 0 < (node kind start stop children).count field :=
    count_pos_iff.2 ⟨child, mem, takes⟩
  omega

/-- **The children of a phrase that a law governs are as the law says.** -/
theorem Law.met {law : Law} (governed : law.governs p = true) (h : p.Matches D flow children)
    (kind : NodeKind) (start stop : Nat) : law.MetBy (.node kind start stop children) := by
  induction law generalizing p with
  | separated parts signs =>
      simp only [governs, Bool.and_eq_true] at governed
      have some := h.count_pos governed.1 kind start stop
      have between := h.count_sub_count governed.2 kind start stop
      simp only [List.mem_cons, List.not_mem_nil, or_false] at between
      exact ⟨some, by omega⟩
  | between parts signs =>
      have between := h.count_sub_count governed kind start stop
      rw [List.mem_singleton] at between
      simp only [MetBy]
      omega
  | marked parts signs =>
      simp only [governs, Bool.and_eq_true] at governed
      have some := h.count_pos governed.1 kind start stop
      have between := h.count_sub_count governed.2 kind start stop
      simp only [List.mem_cons, List.not_mem_nil, or_false] at between
      intro single
      omega
  | filled field => exact h.count_pos governed kind start stop
  | together first second =>
      simp only [governs, Bool.and_eq_true] at governed
      have same := h.count_sub_count governed.1 kind start stop
      have once := h.weigh_of_weighs governed.2
      rw [Tree.weigh_only first kind start stop] at once
      simp only [List.mem_cons, List.not_mem_nil, or_false] at same once
      exact ⟨by omega, by omega⟩
  | only field other =>
      intro occurs
      obtain ⟨child, mem, takes⟩ := Tree.count_pos_iff.1 occurs
      by_contra absent
      have none : (Tree.node kind start stop children).count other = 0 := by omega
      exact (h.without (Tree.ne_of_count none)).ne_of_lacks governed child mem takes
  | either first second =>
      by_cases none : (Tree.node kind start stop children).count first = 0
      · exact Or.inr ((h.without (Tree.ne_of_count none)).count_pos governed kind start stop)
      · exact Or.inl (by omega)
  | apart first second =>
      have absent : ∀ field, (∀ child ∈ children, child.1 ≠ field) →
          (Tree.node kind start stop children).count field = 0 := by
        intro field none
        by_contra some
        obtain ⟨child, mem, takes⟩ := Tree.count_pos_iff.1 (Nat.pos_of_ne_zero some)
        exact none child mem takes
      exact (h.apart governed).imp (absent _) (absent _)
  | lacking field law ih =>
      intro none
      exact ih governed (h.without (Tree.ne_of_count none))

end Children

/-- The children of the phrase are as all laws of the kind say. -/
def Phrase.shapes (kind : NodeKind) (p : Phrase) : Bool := kind.laws.all fun law => law.governs p

theorem Nonterminal.shapes_ebnf (name : Nonterminal) :
    ((ebnf name).trees.all fun made => made.2.shapes made.1) = true :=
  forall_of_all (fun name => (ebnf name).trees.all fun made => made.2.shapes made.1)
    (by decide) name

theorem Entry.shapes_phrase (entry : Entry) :
    entry.phrase.shapes entry.kind = true ∧
      (entry.phrase.trees.all fun made => made.2.shapes made.1) = true := by
  cases entry <;> decide

/-- What a phrase makes is shaped if the phrase has been checked. -/
theorem Phrase.Matches.shaped {p : Phrase} {flow : Flow} {kind : NodeKind} {children : List Child}
    {D : Flow → Nonterminal → Tree → Prop} (h : p.Matches D flow children)
    (checked : p.shapes kind = true) (start stop : Nat) :
    (Tree.node kind start stop children).Shaped := by
  rintro _ ⟨⟩ law mem
  exact Law.met (List.all_eq_true.1 checked law mem) h kind start stop

/-- **Every node of a derived tree is shaped.** -/
theorem Derives.shaped {flow : Flow} {name : Nonterminal} {tree : Tree}
    (h : Derives ebnf flow name tree) : ∀ node ∈ tree.subtrees, node.Shaped :=
  h.forall_subtrees_of_all (fun kind p => p.shapes kind) Tree.shaped_leaf
    (fun matched checked => matched.shaped checked) Nonterminal.shapes_ebnf

/-- **Every node of a tree that is parsed is shaped**, whatever the cursor is: lists have as many
separators as their kind allows, optional fields come together, and no list that needs an element
is empty. -/
theorem Session.parse_shaped {σ : Type} [Cursor σ] {s : Session σ} {entry : Entry} {tree : Tree}
    (h : (s.parse entry).1 = .ok tree) : ∀ node ∈ tree.subtrees, node.Shaped := by
  obtain ⟨start, stop, children, matched, rfl⟩ := parse_matches (Prod.ext h rfl)
  obtain ⟨root, made⟩ := entry.shapes_phrase
  have inner := (matched.mono fun _ _ _ derived => ⟨derived, derived.shaped⟩).forall_subtrees
    Tree.shaped_leaf fun kind inner flow start stop children mem matched =>
      matched.shaped (List.all_eq_true.1 made _ mem) start stop
  intro node mem
  rcases List.mem_cons.1 mem with rfl | mem
  · exact matched.shaped root start stop
  · exact inner node mem

/-- Two names in parentheses with a comma after each, and one without parentheses and commas. -/
theorem parse_shaped_imports : ∃ tree,
    parse {} .file "from . import (a, b as c,)\nfrom d import e\n".toList = .ok tree ∧
    (tree.subtrees.filter fun inner => inner.kind? = some .importFrom).map
      (fun inner => (inner.count .names, inner.count .separators, inner.count .lparen)) =
        [(2, 2, 1), (1, 0, 0)] ∧
    ∀ node ∈ tree.subtrees, node.Shaped := by
  obtain ⟨tree, parsed, counted⟩ : ∃ tree,
      parse {} .file "from . import (a, b as c,)\nfrom d import e\n".toList = .ok tree ∧
        decide ((tree.subtrees.filter fun inner => inner.kind? = some .importFrom).map
          (fun inner => (inner.count .names, inner.count .separators, inner.count .lparen)) =
            [(2, 2, 1), (1, 0, 0)]) = true := exists_ok_of_any (by decide +kernel)
  obtain ⟨scanner, -, session, read⟩ := parse_eq_ok_iff.1 parsed
  exact ⟨tree, parsed, of_decide_eq_true counted, Session.parse_shaped (congrArg Prod.fst read)⟩

end PythonSyntax
