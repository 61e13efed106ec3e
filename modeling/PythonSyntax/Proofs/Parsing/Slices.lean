/-
**The bounds of slices.**

What stands behind the first colon of a slice is read as a test, and what stands before it as an
index would be, before it is known that it is none.  So the upper bound and the step of a slice are
never expressions that give a name without parentheses around them, but the lower bound may be one.

Main definitions:

* `PythonSyntax.NodeKind.boundRanks` — how tightly the bounds of a slice bind;
* `PythonSyntax.Tree.Bounded` — a node whose bounds bind as tightly as that.

Main results:

* `PythonSyntax.Derives.bounded` — every slice in a derived tree is bounded;
* `PythonSyntax.Session.parse_bounded` — every slice in a tree that is parsed is bounded;
* `PythonSyntax.Session.exists_namedExpr_lower` — a lower bound that gives a name is read.
-/

import PythonSyntax.Proofs.Parsing.Precedence

set_option autoImplicit false

namespace PythonSyntax

/-! ### Bounds -/

/-- How tightly what takes a field of a node of the kind binds, if anything takes it. -/
def NodeKind.boundRanks : NodeKind → List (Field × Nat)
  | .slice => [(.lower, 0), (.upper, 1), (.step, 1)]
  | _ => []

namespace Tree

/-- **The bounds of a slice bind as tightly as they must**: the upper bound and the step are tests,
and the lower bound is an expression that may give a name. -/
def Bounded (tree : Tree) : Prop :=
  ∀ kind, tree.kind? = some kind → ∀ field least, (field, least) ∈ kind.boundRanks →
    ∀ bound ∈ tree.childrenAt field, bound.Binds least

theorem bounded_leaf (token : Token) : (leaf token).Bounded := by
  intro kind isKind
  cases isKind

/-- What binds more tightly than an expression that gives a name does not give one itself. -/
theorem Binds.ne_namedExpr {tree : Tree} {least : Nat} (h : tree.Binds (least + 1)) :
    tree.kind? ≠ some .namedExpr := by
  intro names
  obtain ⟨rank, ranked, le⟩ := h
  rw [rank?, names] at ranked
  obtain rfl : 0 = rank := Option.some.inj ranked
  exact absurd le (Nat.not_succ_le_zero least)

/-- Behind its colons a slice gives no names but in parentheses. -/
theorem Bounded.ne_namedExpr {tree : Tree} (h : tree.Bounded) (slice : tree.kind? = some .slice)
    {bound : Tree} (behind : bound ∈ tree.childrenAt .upper ∨ bound ∈ tree.childrenAt .step) :
    bound.kind? ≠ some .namedExpr := by
  rcases behind with upper | step
  · exact (h _ slice .upper 1 (by decide) bound upper).ne_namedExpr
  · exact (h _ slice .step 1 (by decide) bound step).ne_namedExpr

end Tree

/-! ### The bounds of phrases -/

/-- The children that match the phrase are as the bounds of a node of the kind must be. -/
def Phrase.bounds (kind : NodeKind) (p : Phrase) : Bool :=
  kind.boundRanks.all fun entry => p.confines entry.1 (Demand.rank entry.2).acceptedBy

theorem Nonterminal.bounds_ebnf (name : Nonterminal) :
    ((ebnf name).trees.all fun made => made.2.bounds made.1) = true :=
  forall_of_all (fun name => (ebnf name).trees.all fun made => made.2.bounds made.1)
    (by decide) name

theorem Entry.bounds_phrase (entry : Entry) :
    entry.phrase.bounds entry.kind = true ∧
      (entry.phrase.trees.all fun made => made.2.bounds made.1) = true := by
  cases entry <;> decide

/-- What a phrase makes is bounded if the phrase has been checked. -/
theorem Phrase.Matches.bounded {p : Phrase} {flow : Flow} {kind : NodeKind} {children : List Child}
    (h : p.Matches (Derives ebnf) flow children) (checked : p.bounds kind = true)
    (start stop : Nat) : (Tree.node kind start stop children).Bounded := by
  rintro _ ⟨⟩ field least mem bound isBound
  have confined := List.all_eq_true.1 checked _ mem
  obtain ⟨child, found, rfl⟩ := List.mem_map.1 isBound
  obtain ⟨isChild, takes⟩ := List.mem_filter.1 found
  obtain ⟨q, flow', accepted, matched⟩ :=
    h.confined _ confined child isChild (by simpa using takes)
  exact Demand.met accepted matched

/-! ### What is derived and what is parsed -/

/-- **Every slice in a derived tree is bounded.** -/
theorem Derives.bounded {flow : Flow} {name : Nonterminal} {tree : Tree}
    (h : Derives ebnf flow name tree) : ∀ node ∈ tree.subtrees, node.Bounded :=
  h.forall_subtrees_of_all (fun kind p => p.bounds kind) Tree.bounded_leaf
    (fun matched checked => matched.bounded checked) Nonterminal.bounds_ebnf

namespace Session

/-- **Every slice in a tree that is parsed is bounded**, whatever the cursor is and however deep the
slice is: its upper bound and its step are tests, its lower bound may give a name. -/
theorem parse_bounded {σ : Type} [Cursor σ] {s : Session σ} {entry : Entry} {tree : Tree}
    (h : (s.parse entry).1 = .ok tree) : ∀ node ∈ tree.subtrees, node.Bounded :=
  forall_subtrees_of_parse (fun kind p => p.bounds kind) Tree.bounded_leaf
    (fun matched checked => matched.bounded checked) Nonterminal.bounds_ebnf Entry.bounds_phrase h

/-- **A lower bound that gives a name is read.**  The tokens are those of `x[a:=1:b]`. -/
theorem exists_namedExpr_lower : ∃ tree,
    ((start (TokenList.ofList [
      .literal 0 1 .name "x", .mark 1 2 (.symbol .leftBracket), .literal 2 3 .name "a",
      .mark 3 5 (.symbol .colonAssign), .literal 5 6 .number "1",
      .mark 6 7 (.symbol .colon), .literal 7 8 .name "b",
      .mark 8 9 (.symbol .rightBracket)])).parse .eval).1 = .ok tree ∧
    ((tree.subtrees.filter fun inner => inner.kind? = some .slice).map
      fun slice => (slice.childrenAt .lower).map Tree.kind?) = [[some .namedExpr]] ∧
    ∀ node ∈ tree.subtrees, node.Bounded := by
  refine (?_ : ∃ tree, _ ∧ _).imp fun tree parsed => ⟨parsed.1, parsed.2, parse_bounded parsed.1⟩
  exact ⟨_, rfl, by decide +kernel⟩

end Session

end PythonSyntax
