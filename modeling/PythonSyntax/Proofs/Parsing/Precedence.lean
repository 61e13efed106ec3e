/-
**Precedence and associativity.**

Every node of an expression has a rank, which tells how tightly its operator binds.  In a tree that
is parsed, the operands of every node bind as tightly as its kind demands: operators of one rank
group to the left, but for powers, which group to the right.

Main definitions:

* `PythonSyntax.NodeKind.rank?`, `PythonSyntax.Tree.Binds` — ranks;
* `PythonSyntax.NodeKind.demands` — what a node demands of its children;
* `PythonSyntax.Tree.Unconditional` — the conditions of comprehensions;
* `PythonSyntax.Tree.Graded` — a node whose children are as it demands;
* `PythonSyntax.Nonterminal.floor?` — the least rank of what is derived from a name.

Main results:

* `PythonSyntax.Derives.binds` — what is derived from a name binds as tightly as the name says;
* `PythonSyntax.Derives.unconditional` — conditions of comprehensions have none of their own;
* `PythonSyntax.Derives.graded` — every node of a derived tree is graded;
* `PythonSyntax.Session.parse_graded` — every node of a tree that is parsed is graded.
-/

import PythonSyntax.Cursor.TokenList
import PythonSyntax.Proofs.Parsing.Soundness
import PythonSyntax.Proofs.Syntax.Nodes

set_option autoImplicit false

namespace PythonSyntax

/-! ### Ranks -/

/-- How tightly an operator between two operands binds. -/
def BinaryOperator.rank : BinaryOperator → Nat
  | .disjunction => 2
  | .conjunction => 3
  | .less | .greater | .equal | .greaterEqual | .lessEqual | .notEqual | .membership
  | .identity => 5
  | .bitOr => 6
  | .bitXor => 7
  | .bitAnd => 8
  | .shiftLeft | .shiftRight => 9
  | .plus | .minus => 10
  | .mul | .div | .floorDiv | .modulo | .matMul => 11
  | .power => 13

/-- How tightly an operator before an operand binds. -/
def UnaryOperator.rank : UnaryOperator → Nat
  | .negation => 4
  | .plus | .minus | .invert => 12

/-- How tightly the node of an expression binds; other nodes have no rank. -/
def NodeKind.rank? : NodeKind → Option Nat
  | .namedExpr => some 0
  | .conditional | .lambda => some 1
  | .binary op => some op.rank
  | .unary op => some op.rank
  | .notIn | .isNot => some 5
  | .atomExpr => some 14
  | .noneLiteral | .falseLiteral | .trueLiteral | .ellipsis | .name | .number | .string | .tuple
  | .list | .dictionary | .set => some 15
  | _ => none

namespace Tree

/-- The rank of the node. -/
def rank? (tree : Tree) : Option Nat := tree.kind?.bind NodeKind.rank?

/-- The tree is an expression of at least the rank. -/
def Binds (least : Nat) (tree : Tree) : Prop := ∃ rank, tree.rank? = some rank ∧ least ≤ rank

/-- What may stand after `if` in a comprehension: an operand of `or`, or a `lambda` whose body, in
turn, may stand there. -/
inductive Unconditional : Tree → Prop
  | operand {tree : Tree} (binds : tree.Binds 2) : Unconditional tree
  | lambda {start stop : Nat} {children : List Child} {body : Tree}
      (only : (node .lambda start stop children).childrenAt .body = [body])
      (inner : Unconditional body) : Unconditional (node .lambda start stop children)

end Tree

/-! ### Demands -/

/-- What a node demands of a child. -/
inductive Demand where
  /-- A token of the kind. -/
  | token (kind : TokenKind)
  /-- An expression of at least the rank. -/
  | rank (least : Nat)
  /-- An expression of the highest rank. -/
  | atom
  /-- An expression that may stand after `if` in a comprehension. -/
  | unconditional
  deriving DecidableEq, Repr

/-- The tree is as demanded. -/
def Demand.MetBy : Demand → Tree → Prop
  | .token kind, tree => ∃ token, tree = .leaf token ∧ token.kind = kind
  | .rank least, tree => tree.Binds least
  | .atom, tree => tree.rank? = some 15
  | .unconditional, tree => tree.Unconditional

/-- What a node of the kind demands of the children that take its fields. -/
def NodeKind.demands : NodeKind → List (Field × Demand)
  | .binary .power =>
    [(.left, .rank 14), (.op, .token BinaryOperator.power.token), (.right, .rank 12)]
  | .binary op => [(.left, .rank op.rank), (.op, .token op.token), (.right, .rank (op.rank + 1))]
  | .notIn =>
    [(.left, .rank 5), (.notToken, .token (.keyword .notKw)),
     (.inToken, .token (.keyword .inKw)), (.right, .rank 6)]
  | .isNot =>
    [(.left, .rank 5), (.isToken, .token (.keyword .isKw)),
     (.notToken, .token (.keyword .notKw)), (.right, .rank 6)]
  | .unary op => [(.op, .token op.token), (.right, .rank op.rank)]
  | .conditional => [(.body, .rank 2), (.condition, .rank 2), (.otherwise, .rank 1)]
  | .atomExpr => [(.atom, .atom)]
  | .compFor => [(.iterable, .rank 2)]
  | .compIf => [(.condition, .unconditional)]
  | _ => []

namespace Tree

/-- The atom has a word before it or something after it, and what follows are attributes, calls and
subscripts. -/
def Trailed (tree : Tree) : Prop :=
  (tree.childrenAt .awaitToken ≠ [] ∨ tree.childrenAt .trailers ≠ []) ∧
    ∀ trailer ∈ tree.childrenAt .trailers,
      ∃ kind ∈ [NodeKind.dotName, .call, .index], trailer.kind? = some kind

/-- **The children of the node are as its kind demands.** -/
def Graded (tree : Tree) : Prop :=
  ∀ kind, tree.kind? = some kind →
    (∀ field demand, (field, demand) ∈ kind.demands →
      ∃ child, tree.childrenAt field = [child] ∧ demand.MetBy child) ∧
    (kind = .atomExpr → tree.Trailed)

end Tree

/-! ### The ranks of names -/

/-- The least rank of the expressions that are derived from a name. -/
def Nonterminal.floor? : Nonterminal → Option Nat
  | namedExprTest => some 0
  | test | testNoCondition | lambda | lambdaNoCondition => some 1
  | orTest => some 2
  | andTest => some 3
  | notTest => some 4
  | comparison => some 5
  | expr => some 6
  | xorExpr => some 7
  | andExpr => some 8
  | shiftExpr => some 9
  | arithExpr => some 10
  | term => some 11
  | factor => some 12
  | power => some 13
  | atomExpr => some 14
  | atom | parenthesized | listDisplay | curlyDisplay => some 15
  | _ => none

/-- What is derived from the name binds at least so tightly. -/
def Nonterminal.binds (name : Nonterminal) (least : Nat) : Bool :=
  name.floor?.any fun floor => least ≤ floor

theorem Nonterminal.floor_ebnf (name : Nonterminal) :
    (name.floor?.all fun floor => (ebnf name).rootsPass (fun part => part.binds floor)
      fun kind _ => kind.rank?.any fun rank => floor ≤ rank) = true :=
  forall_of_all (fun name => name.floor?.all fun floor =>
    (ebnf name).rootsPass (fun part => part.binds floor)
      fun kind _ => kind.rank?.any fun rank => floor ≤ rank) (by decide) name

theorem Nonterminal.binds_iff {name : Nonterminal} {least : Nat} :
    name.binds least = true ↔ ∃ floor, name.floor? = some floor ∧ least ≤ floor := by
  simp [Nonterminal.binds, Option.any_eq_true]

/-- The alternatives of a name bind at least as tightly as it does. -/
theorem Nonterminal.binds_ebnf {name : Nonterminal} {least : Nat} (h : name.binds least = true) :
    (ebnf name).rootsPass (fun part => part.binds least)
      (fun kind _ => kind.rank?.any fun rank => least ≤ rank) = true := by
  obtain ⟨own, eq, le⟩ := binds_iff.1 h
  have checked := name.floor_ebnf
  rw [eq, Option.all_some] at checked
  refine Phrase.rootsPass_mono (fun part binds => ?_) (fun kind _ ranked => ?_) checked
  · obtain ⟨floor, eq, more⟩ := binds_iff.1 binds
    exact binds_iff.2 ⟨floor, eq, Nat.le_trans le more⟩
  · obtain ⟨rank, eq, more⟩ := (Option.any_eq_true _ _).1 ranked
    rw [decide_eq_true_eq] at more
    exact (Option.any_eq_true _ _).2 ⟨rank, eq, decide_eq_true (Nat.le_trans le more)⟩

/-- The phrase is the body of a function, and may not have a condition. -/
def Phrase.isUnconditionalBody : Phrase → Bool
  | part .body name => name = .testNoCondition
  | _ => false

namespace Derives

variable {flow : Flow} {name : Nonterminal} {tree : Tree}

/-- **What is derived from a name binds as tightly as the name says.** -/
theorem binds {least : Nat} (h : Derives ebnf flow name tree) (floor : name.binds least = true) :
    tree.Binds least := by
  obtain ⟨kind, _, start, stop, children, passes, -, rfl⟩ :=
    h.root_passes (fun _ binds => Nonterminal.binds_ebnf binds) floor
  obtain ⟨rank, ranked, most⟩ := (Option.any_eq_true _ _).1 passes
  rw [decide_eq_true_eq] at most
  exact ⟨rank, ranked, most⟩

/-- **A condition of a comprehension has no condition of its own.** -/
theorem unconditional (h : Derives ebnf flow .testNoCondition tree) : tree.Unconditional := by
  suffices ∀ name, name = .testNoCondition ∨ name = .lambdaNoCondition →
      Derives ebnf flow name tree → tree.Unconditional from this _ (Or.inl rfl) h
  intro name isOne h
  refine Derives.rule_induction (P := fun _ name tree =>
    name = .testNoCondition ∨ name = .lambdaNoCondition → tree.Unconditional) ?_ h isOne
  rintro flow name field tree matched (rfl | rfl)
  · rcases Phrase.Matches.alt_iff.1 matched with lambda | operand
    · obtain ⟨_, derived, eq⟩ := Phrase.Matches.part_iff.1 lambda
      cases eq
      exact derived.2 (Or.inr rfl)
    · obtain ⟨_, derived, eq⟩ := Phrase.Matches.part_iff.1 operand
      cases eq
      exact .operand (derived.1.binds rfl)
  · obtain ⟨start, stop, children, inner, eq⟩ := Phrase.Matches.tree_iff.1 matched
    cases eq
    obtain ⟨body, q, flow', accepted, part, only⟩ :=
      inner.filter_holds .body Phrase.isUnconditionalBody (by decide)
    unfold Phrase.isUnconditionalBody at accepted
    split at accepted
    · rw [decide_eq_true_eq] at accepted
      obtain ⟨_, derived, eq⟩ := Phrase.Matches.part_iff.1 part
      cases eq
      refine .lambda ?_ (derived.2 (Or.inl accepted))
      rw [Tree.childrenAt, Tree.children, only]
      rfl
    · cases accepted

end Derives

/-! ### The demands of phrases -/

/-- What matches the phrase is as demanded. -/
def Demand.acceptedBy : Demand → Phrase → Bool
  | .token kind, .leaf _ kinds => kinds = [kind]
  | .rank least, .part _ name => name.binds least
  | .atom, .part _ name => name.binds 15
  | .unconditional, .part _ name => name = .testNoCondition
  | _, _ => false

theorem NodeKind.rank_le {kind : NodeKind} {rank : Nat} (h : kind.rank? = some rank) :
    rank ≤ 15 := by
  cases kind with
  | binary op =>
      cases op <;> simp only [rank?, BinaryOperator.rank, Option.some.injEq] at h <;> omega
  | unary op =>
      cases op <;> simp only [rank?, UnaryOperator.rank, Option.some.injEq] at h <;> omega
  | _ => simp only [rank?, Option.some.injEq, reduceCtorEq] at h <;> omega

theorem Tree.rank?_le {tree : Tree} {rank : Nat} (h : tree.rank? = some rank) : rank ≤ 15 := by
  obtain ⟨kind, -, ranked⟩ := Option.bind_eq_some_iff.1 h
  exact NodeKind.rank_le ranked

/-- What is accepted is as demanded. -/
theorem Demand.met {demand : Demand} {p : Phrase} {flow : Flow} {field : Field} {tree : Tree}
    (accepted : demand.acceptedBy p = true)
    (h : p.Matches (Derives ebnf) flow [(field, tree)]) : demand.MetBy tree := by
  unfold acceptedBy at accepted
  split at accepted
  · rw [decide_eq_true_eq] at accepted
    obtain ⟨token, mem, eq⟩ := Phrase.Matches.leaf_iff.1 h
    cases eq
    rw [accepted] at mem
    exact ⟨token, rfl, by simpa using mem⟩
  · obtain ⟨_, derived, eq⟩ := Phrase.Matches.part_iff.1 h
    cases eq
    exact derived.binds accepted
  · obtain ⟨_, derived, eq⟩ := Phrase.Matches.part_iff.1 h
    cases eq
    obtain ⟨rank, ranked, least⟩ := derived.binds accepted
    have most := Tree.rank?_le ranked
    rw [MetBy, ranked, Nat.le_antisymm most least]
  · rw [decide_eq_true_eq] at accepted
    obtain ⟨_, derived, eq⟩ := Phrase.Matches.part_iff.1 h
    cases eq
    rw [accepted] at derived
    exact derived.unconditional
  · cases accepted

/-- The phrase is one for what stands after an atom. -/
def Phrase.isTrailer : Phrase → Bool
  | part _ name => name = .trailer
  | _ => false

/-- The children that match the phrase are as a node of the kind demands. -/
def Phrase.grades (kind : NodeKind) (p : Phrase) : Bool :=
  (kind.demands.all fun entry => p.holds entry.1 entry.2.acceptedBy) &&
    (kind != .atomExpr ||
      (p.fills .awaitToken || p.fills .trailers) && p.confines .trailers isTrailer)

theorem Nonterminal.grades_ebnf (name : Nonterminal) :
    ((ebnf name).trees.all fun entry => entry.2.grades entry.1) = true :=
  forall_of_all (fun name => (ebnf name).trees.all fun entry => entry.2.grades entry.1)
    (by decide) name

/-- An atom whose phrase has been checked has a word before it or something after it. -/
theorem Phrase.Matches.trailed {p : Phrase} {flow : Flow} {children : List Child}
    (h : p.Matches (Derives ebnf) flow children)
    (filled : (p.fills .awaitToken || p.fills .trailers) = true)
    (confined : p.confines .trailers isTrailer = true) (kind : NodeKind) (start stop : Nat) :
    (Tree.node kind start stop children).Trailed := by
  constructor
  · rcases Bool.or_eq_true_iff.1 filled with filled | filled
    · left
      simpa [Tree.childrenAt, Tree.children] using h.filter_fills filled
    · right
      simpa [Tree.childrenAt, Tree.children] using h.filter_fills filled
  · intro trailer mem
    obtain ⟨child, found, rfl⟩ := List.mem_map.1 mem
    obtain ⟨isChild, takes⟩ := List.mem_filter.1 found
    obtain ⟨q, flow', accepted, matched⟩ :=
      h.confined isTrailer confined child isChild (by simpa using takes)
    unfold isTrailer at accepted
    split at accepted
    · rw [decide_eq_true_eq] at accepted
      obtain ⟨_, derived, eq⟩ := Phrase.Matches.part_iff.1 matched
      cases eq
      rw [accepted] at derived
      exact derived.kind_mem (by decide)
    · cases accepted

/-- What a phrase makes is graded if the phrase has been checked. -/
theorem Phrase.Matches.graded {p : Phrase} {flow : Flow} {kind : NodeKind} {children : List Child}
    (h : p.Matches (Derives ebnf) flow children) (checked : p.grades kind = true)
    (start stop : Nat) : (Tree.node kind start stop children).Graded := by
  rintro _ ⟨⟩
  simp only [Phrase.grades, Bool.and_eq_true, List.all_eq_true] at checked
  obtain ⟨demanded, trailed⟩ := checked
  refine ⟨fun field demand mem => ?_, ?_⟩
  · obtain ⟨child, q, flow', accepted, matched, only⟩ :=
      h.filter_holds field demand.acceptedBy (demanded _ mem)
    refine ⟨child, ?_, Demand.met accepted matched⟩
    rw [Tree.childrenAt, Tree.children, only]
    rfl
  · rintro rfl
    simp only [bne_self_eq_false, Bool.false_or, Bool.and_eq_true] at trailed
    exact h.trailed trailed.1 trailed.2 _ _ _

theorem Tree.graded_leaf (token : Token) : (Tree.leaf token).Graded := by
  intro kind isKind
  cases isKind

/-- **Every node of a derived tree is graded.** -/
theorem Derives.graded {flow : Flow} {name : Nonterminal} {tree : Tree}
    (h : Derives ebnf flow name tree) : ∀ node ∈ tree.subtrees, node.Graded :=
  h.forall_subtrees_of_all (fun kind p => p.grades kind) Tree.graded_leaf
    (fun matched checked => matched.graded checked) Nonterminal.grades_ebnf

/-! ### What is parsed -/

theorem Entry.grades_phrase (entry : Entry) :
    entry.phrase.grades entry.kind = true ∧
      (entry.phrase.trees.all fun inner => inner.2.grades inner.1) = true := by
  cases entry <;> decide

/-- **Every node of a tree that is parsed is graded**: whatever the cursor is, operators group by
rank and side, powers to the right and all others to the left. -/
theorem Session.parse_graded {σ : Type} [Cursor σ] {s : Session σ} {entry : Entry} {tree : Tree}
    (h : (s.parse entry).1 = .ok tree) : ∀ node ∈ tree.subtrees, node.Graded := by
  obtain ⟨start, stop, children, matched, rfl⟩ := parse_matches (Prod.ext h rfl)
  obtain ⟨root, trees⟩ := entry.grades_phrase
  have inner := (matched.mono fun _ _ _ derived => ⟨derived, derived.graded⟩).forall_subtrees
    Tree.graded_leaf fun kind inner flow start stop children mem matched =>
      matched.graded (List.all_eq_true.1 trees _ mem) start stop
  intro node mem
  rcases List.mem_cons.1 mem with rfl | mem
  · exact matched.graded root start stop
  · exact inner node mem

/-- The tokens of `a-b**-c-d`: both differences group to the left, the power binds its exponent with
the sign before it. -/
theorem Session.parse_graded_difference : ∃ tree,
    ((start (TokenList.ofList [
      .literal 0 1 .name "a", .mark 1 2 (.symbol .minus), .literal 2 3 .name "b",
      .mark 3 5 (.symbol .power), .mark 5 6 (.symbol .minus), .literal 6 7 .name "c",
      .mark 7 8 (.symbol .minus), .literal 8 9 .name "d"])).parse .eval).1 = .ok tree ∧
    tree.subtrees.filterMap Tree.rank? = [10, 10, 15, 13, 15, 12, 15, 15] ∧
    ∀ node ∈ tree.subtrees, node.Graded := by
  refine (?_ : ∃ tree, _ ∧ _).imp fun tree parsed => ⟨parsed.1, parsed.2, parse_graded parsed.1⟩
  exact ⟨_, rfl, by decide +kernel⟩

end PythonSyntax
