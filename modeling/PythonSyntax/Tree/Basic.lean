/-
**Concrete syntax trees.**

A tree keeps every token of the text it stands for.  The children of a node are in the order of the
text; each is labelled with the field that it takes, so that the separators of a list stand between
its elements.

Main definitions:

* `PythonSyntax.Tree` — a token, or a node with a kind, a span and children;
* `PythonSyntax.Tree.start`, `PythonSyntax.Tree.stop` — its span;
* `PythonSyntax.Tree.tokens` — its tokens, in the order of the text;
* `PythonSyntax.Tree.childrenAt` — the children that take a field;
* `PythonSyntax.Tree.assignment` — a chain of assignments put together from its parts.

Main results:

* `PythonSyntax.Tree.tokensOf_append` — the tokens of children in a row;
* an instance of `DecidableEq` for trees.
-/

import PythonSyntax.Tree.NodeKind
import PythonSyntax.Token.Basic

set_option autoImplicit false

namespace PythonSyntax

/-- A concrete syntax tree. -/
inductive Tree where
  | leaf (token : Token)
  | node (kind : NodeKind) (start stop : Nat) (children : List (Field × Tree))
  deriving Repr

/-- A subtree with the field that it takes. -/
abbrev Child := Field × Tree

namespace Tree

/-- The offset at which the tree begins. -/
def start : Tree → Nat
  | .leaf token => token.start
  | .node _ start _ _ => start

/-- The offset just after the tree. -/
def stop : Tree → Nat
  | .leaf token => token.stop
  | .node _ _ stop _ => stop

/-- The kind of a node; a token has none. -/
def kind? : Tree → Option NodeKind
  | .leaf _ => none
  | .node kind _ _ _ => some kind

/-- The children of a node; a token has none. -/
def children : Tree → List Child
  | .leaf _ => []
  | .node _ _ _ children => children

/-- The children that take a field, in the order of the text. -/
def childrenAt (tree : Tree) (field : Field) : List Tree :=
  (tree.children.filter fun child => child.1 = field).map Prod.snd

/-- The first child that takes a field, if there is one. -/
def childAt? (tree : Tree) (field : Field) : Option Tree := (tree.childrenAt field).head?

/-! ### Tokens -/

mutual

/-- The tokens of the tree, in the order of the text. -/
def tokens : Tree → List Token
  | .leaf token => [token]
  | .node _ _ _ children => tokensOf children

/-- The tokens of trees in a row. -/
def tokensOf : List (Field × Tree) → List Token
  | [] => []
  | (_, tree) :: rest => tokens tree ++ tokensOf rest

end

@[simp] theorem tokens_leaf (token : Token) : (leaf token).tokens = [token] := rfl

@[simp] theorem tokens_node (kind : NodeKind) (start stop : Nat) (children : List Child) :
    (node kind start stop children).tokens = tokensOf children := rfl

@[simp] theorem tokensOf_nil : tokensOf [] = [] := rfl

@[simp] theorem tokensOf_cons (child : Child) (rest : List Child) :
    tokensOf (child :: rest) = child.2.tokens ++ tokensOf rest := rfl

/-- The tokens of children in a row are those of the first and then those of the others. -/
theorem tokensOf_append (first second : List Child) :
    tokensOf (first ++ second) = tokensOf first ++ tokensOf second := by
  induction first with
  | nil => simp
  | cons child rest ih => simp [ih]

/-! ### Assignments -/

/-- A target of an assignment with the sign after it. -/
def assignTarget (target : Tree) (op : Token) : Tree :=
  .node .assignTarget target.start op.stop [(.target, target), (.op, .leaf op)]

/-- The assignment of a value to one or more targets, each with the sign after it.  It ends with the
type comment, if there is one, and else with the value. -/
def assignment (first : Tree × Token) (more : List (Tree × Token)) (value : Tree)
    (typeComment : Option Token) : Tree :=
  let targets := (first :: more).map fun target => assignTarget target.1 target.2
  let comment := typeComment.toList.map Tree.leaf
  .node .assignment first.1.start ((typeComment.map Token.stop).getD value.stop)
    (targets.map (Prod.mk .targets) ++ [(.value, value)] ++ comment.map (Prod.mk .typeComment))

/-! ### Equality -/

mutual

/-- Equality of trees is decidable. -/
def decideEq : (s t : Tree) → Decidable (s = t)
  | .leaf a, .leaf b =>
    if h : a = b then isTrue (by rw [h]) else isFalse (by intro e; cases e; exact h rfl)
  | .leaf _, .node .. => isFalse (by intro e; cases e)
  | .node .., .leaf _ => isFalse (by intro e; cases e)
  | .node kind start stop cs, .node kind' start' stop' cs' =>
    if h : kind = kind' ∧ start = start' ∧ stop = stop' then
      match decideEqOf cs cs' with
      | isTrue e => isTrue (by obtain ⟨rfl, rfl, rfl⟩ := h; rw [e])
      | isFalse e => isFalse (by intro x; cases x; exact e rfl)
    else isFalse (by intro x; cases x; exact h ⟨rfl, rfl, rfl⟩)

/-- Equality of lists of children is decidable. -/
def decideEqOf : (cs ds : List (Field × Tree)) → Decidable (cs = ds)
  | [], [] => isTrue rfl
  | [], _ :: _ => isFalse (by intro e; cases e)
  | _ :: _, [] => isFalse (by intro e; cases e)
  | (f, s) :: cs, (g, t) :: ds =>
    if h : f = g then
      match decideEq s t with
      | isTrue e =>
        match decideEqOf cs ds with
        | isTrue e' => isTrue (by rw [h, e, e'])
        | isFalse e' => isFalse (by intro x; cases x; exact e' rfl)
      | isFalse e => isFalse (by intro x; cases x; exact e rfl)
    else isFalse (by intro x; cases x; exact h rfl)

end

/-- Equality of trees is decidable, child by child. -/
instance : DecidableEq Tree := decideEq

end Tree

end PythonSyntax
