/-
**The pieces that a rule has collected.**

Main definitions:

* `PythonSyntax.Frame` — the pieces, the latest first;
* `PythonSyntax.Frame.satisfies` — the answers to the questions about them;
* `PythonSyntax.Frame.build` — the node that is made of them.
-/

import PythonSyntax.Grammar.Rule
import PythonSyntax.Tree.Basic

set_option autoImplicit false

namespace PythonSyntax

/-- The pieces that a rule has collected, the latest first. -/
abbrev Frame := List Child

namespace Frame

/-- The latest piece. -/
def latest? (frame : Frame) : Option Tree := frame.head?.map Prod.snd

/-- Whether a tree is a node of one of the kinds. -/
def isOneOf (kinds : List NodeKind) (tree : Tree) : Bool := tree.kind?.any kinds.contains

/-- Whether a tree has a child that takes the field. -/
def hasField (field : Field) (tree : Tree) : Bool :=
  tree.children.any fun child => child.1 = field

/-- The answers to the questions about the pieces. -/
def satisfies (frame : Frame) : Shape → Bool
  | .nothing => frame.isEmpty
  | .several => 1 < frame.length
  | .latestAt field => frame.head?.any fun child => child.1 = field
  | .latestIs kinds => frame.latest?.any (isOneOf kinds)
  | .latestBeginsWith kinds =>
    frame.latest?.any fun tree =>
      isOneOf kinds tree || tree.children.head?.any fun child => isOneOf kinds child.2
  | .latestHolds kind =>
    frame.latest?.any fun tree => tree.children.any fun child => isOneOf [kind] child.2
  | .latestHas field => frame.latest?.any (hasField field)
  | .someIs kind => frame.any fun child => isOneOf [kind] child.2
  | .someHas field => frame.any fun child => hasField field child.2
  | .unanswered kind field closing =>
    (frame.takeWhile fun child => !isOneOf [closing] child.2).any fun child =>
      isOneOf [kind] child.2 && !hasField field child.2

/-- The first piece of a kind. -/
def firstOf? (frame : Frame) (kind : NodeKind) : Option Tree :=
  (frame.reverse.find? fun child => isOneOf [kind] child.2).map Prod.snd

/-- The node that is made of the pieces.  It begins where the first of them does, or at `here` if
there is none, and ends at `stop`. -/
def build (frame : Frame) (kind : NodeKind) (here stop : Nat) : Tree :=
  .node kind ((frame.getLast?.map fun child => child.2.start).getD here) stop frame.reverse

/-- The frame with another field for its latest piece. -/
def relabel (frame : Frame) (field : Field) : Frame :=
  match frame with
  | [] => []
  | (_, tree) :: rest => (field, tree) :: rest

/-- The frame with the children of its latest piece in its place, each with the field. -/
def unwrap (frame : Frame) (field : Field) : Frame :=
  match frame with
  | (_, .node _ _ _ children) :: rest =>
    (children.reverse.map fun child => (field, child.2)) ++ rest
  | frame => frame

end Frame

end PythonSyntax
