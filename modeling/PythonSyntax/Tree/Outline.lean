/-
**Outlines: the nodes of a tree, one a line.**

Main definitions:

* `PythonSyntax.Tree.outline` — the nodes of a tree with their depths and spans, each before those
  below it.
-/

import PythonSyntax.Tree.Basic

set_option autoImplicit false

namespace PythonSyntax

/-- Whether the span of a node of the kind is listed.  A target of an assignment has none of its
own. -/
def NodeKind.showsSpan : NodeKind → Bool
  | .assignTarget => false
  | _ => true

namespace Tree

/-- The line for a node. -/
def outlineLine (depth : Nat) (kind : NodeKind) (start stop : Nat) : String :=
  let name := toString depth ++ " " ++ kind.label
  if kind.showsSpan then name ++ " " ++ toString start ++ " " ++ toString stop else name

mutual

/-- The nodes of a tree that is `depth` nodes below the root. -/
def outlineFrom (depth : Nat) : Tree → List String
  | .leaf _ => []
  | .node kind start stop children =>
    outlineLine depth kind start stop :: outlineOf (depth + 1) children

/-- The nodes of trees in a row. -/
def outlineOf (depth : Nat) : List (Field × Tree) → List String
  | [] => []
  | (_, tree) :: rest => outlineFrom depth tree ++ outlineOf depth rest

end

/-- The nodes of a tree. -/
def outline (tree : Tree) : List String := tree.outlineFrom 0

end Tree

end PythonSyntax
