/-
**Trees up to spans.**

Two trees that differ only in where their nodes begin and end have the same kinds, fields and
tokens.  What a rule asks about the pieces that it has collected does not depend on their spans, nor
do the conditions of the grammar; and it does not depend on their tokens either, so that trees may
also be told apart up to the places of their tokens.

Main definitions:

* `PythonSyntax.Tree.bare` — a tree without the spans of its nodes;
* `PythonSyntax.Tree.sketch` — the same, with other tokens for its own;
* `PythonSyntax.Token.plain`, `PythonSyntax.Tree.unplaced` — a token and a tree without all offsets and
  what stands between tokens.

Main results:

* `PythonSyntax.Frame.satisfies_sketchOf`, `PythonSyntax.Frame.satisfies_bareOf` — the answers to the
  questions about pieces;
* `PythonSyntax.Ebnf.ordered_sketchOf`, `PythonSyntax.Ebnf.loneComprehension_sketchOf`,
  `PythonSyntax.Ebnf.beginsDictionary_sketchOf` — the conditions on children.
-/

import PythonSyntax.Proofs.Syntax.Ebnf

set_option autoImplicit false

namespace PythonSyntax

/-- The token without its place and what stands before it. -/
def Token.plain (token : Token) : Token := ⟨0, 0, token.kind, token.value, []⟩

theorem Token.plain_eq_iff {one two : Token} :
    one.plain = two.plain ↔ one.kind = two.kind ∧ one.value = two.value := by
  simp [plain]

@[simp] theorem Token.plain_kind (token : Token) : token.plain.kind = token.kind := rfl

@[simp] theorem Token.plain_value (token : Token) : token.plain.value = token.value := rfl

@[simp] theorem Token.plain_plain (token : Token) : token.plain.plain = token.plain := rfl

@[simp] theorem Token.plain_withTrivia (token : Token) (trivia : List Trivia) :
    (token.withTrivia trivia).plain = token.plain := rfl

namespace Tree

mutual

/-- The tree without the spans of its nodes. -/
def bare : Tree → Tree
  | .leaf token => .leaf token
  | .node kind _ _ children => .node kind 0 0 (bareOf children)

/-- Trees in a row without the spans of their nodes. -/
def bareOf : List (Field × Tree) → List (Field × Tree)
  | [] => []
  | (field, tree) :: rest => (field, bare tree) :: bareOf rest

end

@[simp] theorem bare_leaf (token : Token) : (leaf token).bare = leaf token := rfl

@[simp] theorem bare_node (kind : NodeKind) (start stop : Nat) (children : List Child) :
    (node kind start stop children).bare = node kind 0 0 (bareOf children) := rfl

@[simp] theorem bareOf_nil : bareOf [] = [] := rfl

@[simp] theorem bareOf_cons (child : Child) (rest : List Child) :
    bareOf (child :: rest) = (child.1, child.2.bare) :: bareOf rest := rfl

theorem bareOf_eq_map (children : List Child) :
    bareOf children = children.map fun child => (child.1, child.2.bare) := by
  induction children with
  | nil => rfl
  | cons child rest ih => rw [bareOf_cons, ih, List.map_cons]

@[simp] theorem bareOf_append (first second : List Child) :
    bareOf (first ++ second) = bareOf first ++ bareOf second := by
  simp [bareOf_eq_map]

@[simp] theorem bareOf_reverse (children : List Child) :
    bareOf children.reverse = (bareOf children).reverse := by
  simp [bareOf_eq_map]

@[simp] theorem length_bareOf (children : List Child) :
    (bareOf children).length = children.length := by
  simp [bareOf_eq_map]

/-- Children that are alike up to spans come one by one. -/
theorem bareOf_eq_cons {children rest : List Child} {child : Child}
    (h : bareOf children = bareOf (child :: rest)) :
    ∃ tree others, children = (child.1, tree) :: others ∧ tree.bare = child.2.bare ∧
      bareOf others = bareOf rest := by
  cases children with
  | nil => cases h
  | cons other others =>
      obtain ⟨field, tree⟩ := other
      simp only [bareOf_cons, List.cons.injEq, Prod.mk.injEq] at h
      obtain ⟨⟨rfl, bare⟩, more⟩ := h
      exact ⟨tree, others, rfl, bare, more⟩

theorem bareOf_eq_nil {children : List Child} (h : bareOf children = bareOf []) :
    children = [] := by
  cases children with
  | nil => rfl
  | cons _ _ => cases h

@[simp] theorem kind?_bare (tree : Tree) : tree.bare.kind? = tree.kind? := by
  cases tree <;> rfl

@[simp] theorem children_bare (tree : Tree) : tree.bare.children = bareOf tree.children := by
  cases tree <;> rfl

mutual

/-- The tokens of a tree do not depend on its spans. -/
@[simp] theorem tokens_bare : (tree : Tree) → tree.bare.tokens = tree.tokens
  | .leaf _ => rfl
  | .node _ _ _ children => tokensOf_bareOf children

@[simp] theorem tokensOf_bareOf :
    (children : List (Field × Tree)) → tokensOf (bareOf children) = tokensOf children
  | [] => rfl
  | (_, tree) :: rest => by
      rw [bareOf_cons, tokensOf_cons, tokensOf_cons, tokens_bare tree, tokensOf_bareOf rest]

end

/-- A tree that is a token up to spans is that token. -/
theorem eq_leaf_of_bare {tree : Tree} {token : Token} (h : tree.bare = leaf token) :
    tree = leaf token := by
  cases tree with
  | leaf _ => exact h
  | node _ _ _ _ => cases h

/-! ### Other tokens -/

mutual

/-- The tree without the spans of its nodes, and with other tokens for its own. -/
def sketch (f : Token → Token) : Tree → Tree
  | .leaf token => .leaf (f token)
  | .node kind _ _ children => .node kind 0 0 (sketchOf f children)

/-- Trees in a row without the spans of their nodes, and with other tokens. -/
def sketchOf (f : Token → Token) : List (Field × Tree) → List (Field × Tree)
  | [] => []
  | (field, tree) :: rest => (field, sketch f tree) :: sketchOf f rest

end

/-- The tree without all offsets and what stands between its tokens. -/
def unplaced (tree : Tree) : Tree := tree.sketch Token.plain

section

variable {f : Token → Token}

@[simp] theorem sketchOf_nil : sketchOf f [] = [] := rfl

@[simp] theorem sketchOf_cons (child : Child) (rest : List Child) :
    sketchOf f (child :: rest) = (child.1, child.2.sketch f) :: sketchOf f rest := rfl

theorem sketchOf_eq_map (children : List Child) :
    sketchOf f children = children.map fun child => (child.1, child.2.sketch f) := by
  induction children with
  | nil => rfl
  | cons child rest ih => rw [sketchOf_cons, ih, List.map_cons]

@[simp] theorem sketchOf_append (first second : List Child) :
    sketchOf f (first ++ second) = sketchOf f first ++ sketchOf f second := by
  simp [sketchOf_eq_map]

@[simp] theorem sketchOf_reverse (children : List Child) :
    sketchOf f children.reverse = (sketchOf f children).reverse := by
  simp [sketchOf_eq_map]

@[simp] theorem kind?_sketch (tree : Tree) : (tree.sketch f).kind? = tree.kind? := by
  cases tree <;> rfl

@[simp] theorem children_sketch (tree : Tree) :
    (tree.sketch f).children = sketchOf f tree.children := by
  cases tree <;> rfl

mutual

/-- A bare tree has its own tokens. -/
theorem sketch_id : (tree : Tree) → tree.sketch id = tree.bare
  | .leaf _ => rfl
  | .node kind _ _ children => congrArg (Tree.node kind 0 0) (sketchOf_id children)

theorem sketchOf_id : (children : List (Field × Tree)) → sketchOf id children = bareOf children
  | [] => rfl
  | (_, tree) :: rest => by
      rw [sketchOf_cons, bareOf_cons, sketch_id tree, sketchOf_id rest]

end

mutual

/-- Spans are nothing to a sketch. -/
theorem sketch_bare : (tree : Tree) → tree.bare.sketch f = tree.sketch f
  | .leaf _ => rfl
  | .node kind _ _ children => congrArg (Tree.node kind 0 0) (sketchOf_bareOf children)

theorem sketchOf_bareOf :
    (children : List (Field × Tree)) → sketchOf f (bareOf children) = sketchOf f children
  | [] => rfl
  | (_, tree) :: rest => by
      rw [bareOf_cons, sketchOf_cons, sketchOf_cons, sketch_bare tree, sketchOf_bareOf rest]

end

variable {p : Child → Bool}

/-- What is asked of single children, whatever their tokens, can be asked of their sketches. -/
theorem any_sketchOf (respects : ∀ child : Child, p (child.1, child.2.sketch f) = p child)
    (children : List Child) : (sketchOf f children).any p = children.any p := by
  rw [sketchOf_eq_map, List.any_map]
  exact congrArg (children.any ·) (funext respects)

theorem takeWhile_sketchOf (respects : ∀ child : Child, p (child.1, child.2.sketch f) = p child)
    (children : List Child) :
    (sketchOf f children).takeWhile p = sketchOf f (children.takeWhile p) := by
  have same : p ∘ (fun child => (child.1, child.2.sketch f)) = p := funext respects
  rw [sketchOf_eq_map, List.takeWhile_map, same, ← sketchOf_eq_map]

end

end Tree

/-! ### Questions about pieces -/

namespace Frame

open PythonSyntax.Tree

section

variable {f : Token → Token}

@[simp] theorem isOneOf_sketch (kinds : List NodeKind) (tree : Tree) :
    isOneOf kinds (tree.sketch f) = isOneOf kinds tree := by
  simp [isOneOf]

@[simp] theorem hasField_sketch (field : Field) (tree : Tree) :
    hasField field (tree.sketch f) = hasField field tree := by
  simp only [hasField, children_sketch]
  exact any_sketchOf (fun _ => rfl) _

theorem latest?_sketchOf (frame : Frame) :
    latest? (sketchOf f frame) = frame.latest?.map (Tree.sketch f) := by
  cases frame <;> rfl

/-- **The answers to the questions about pieces depend neither on spans nor on tokens.** -/
theorem satisfies_sketchOf (frame : Frame) (shape : Shape) :
    satisfies (sketchOf f frame) shape = frame.satisfies shape := by
  cases shape with
  | nothing => cases frame <;> rfl
  | several => simp [satisfies, sketchOf_eq_map]
  | latestAt field => cases frame <;> rfl
  | latestIs kinds =>
      simp only [satisfies, latest?_sketchOf, Option.any_map]
      exact congrArg (Option.any · _) (funext (isOneOf_sketch kinds))
  | latestBeginsWith kinds =>
      cases frame with
      | nil => rfl
      | cons child rest =>
          obtain ⟨field, tree⟩ := child
          cases tree with
          | leaf token => rfl
          | node kind start stop children =>
              cases children with
              | nil => rfl
              | cons inner more =>
                  change (isOneOf kinds ((node kind start stop (inner :: more)).sketch f) ||
                      isOneOf kinds (inner.2.sketch f)) =
                    (isOneOf kinds (node kind start stop (inner :: more)) || isOneOf kinds inner.2)
                  rw [isOneOf_sketch, isOneOf_sketch]
  | latestHolds kind =>
      simp only [satisfies, latest?_sketchOf, Option.any_map]
      refine congrArg (Option.any · _) (funext fun tree => ?_)
      rw [children_sketch]
      exact any_sketchOf (fun child => isOneOf_sketch _ child.2) _
  | latestHas field =>
      simp only [satisfies, latest?_sketchOf, Option.any_map]
      exact congrArg (Option.any · _) (funext (hasField_sketch field))
  | someIs kind => exact any_sketchOf (fun child => isOneOf_sketch _ child.2) _
  | someHas field => exact any_sketchOf (fun child => hasField_sketch _ child.2) _
  | unanswered kind field closing =>
      simp only [satisfies]
      rw [takeWhile_sketchOf fun child => by simp]
      exact any_sketchOf (fun child => by simp) _

end

@[simp] theorem hasField_bare (field : Field) (tree : Tree) :
    hasField field tree.bare = hasField field tree := by
  rw [← sketch_id, hasField_sketch]

/-- **The answers to the questions about pieces do not depend on their spans.** -/
theorem satisfies_bareOf (frame : Frame) (shape : Shape) :
    satisfies (bareOf frame) shape = frame.satisfies shape := by
  rw [← sketchOf_id]
  exact satisfies_sketchOf frame shape

/-- Pieces that are alike up to spans have the same answers. -/
theorem satisfies_congr {frame frame' : Frame} (h : bareOf frame = bareOf frame') (shape : Shape) :
    frame.satisfies shape = frame'.satisfies shape := by
  rw [← satisfies_bareOf, h, satisfies_bareOf]

end Frame

/-! ### Conditions on children -/

namespace Ebnf

open PythonSyntax.Tree

section

variable {f : Token → Token}

theorem loneComprehension_sketchOf (children : List Child) :
    loneComprehension (sketchOf f children) = loneComprehension children := by
  simp only [loneComprehension, sketchOf_eq_map, List.length_map, List.all_map]
  congr 2
  funext child
  simp

theorem beginsDictionary_sketchOf (children : List Child) :
    beginsDictionary (sketchOf f children) = beginsDictionary children := by
  have same := Frame.satisfies_sketchOf (f := f) children
    (.latestBeginsWith [.dictEntry, .dictUnpack])
  cases children <;> exact same

@[simp] theorem holds_sketchOf (kind : NodeKind) (children : List Child) :
    holds kind (sketchOf f children) = holds kind children :=
  any_sketchOf (fun child => Frame.isOneOf_sketch _ child.2) children

theorem admits_sketchOf (before : List Child) (item : Child) :
    admits (sketchOf f before) (item.1, item.2.sketch f) = admits before item := by
  have defaults : (sketchOf f before).any (fun child => Frame.hasField .defaultValue child.2) =
      before.any fun child => Frame.hasField .defaultValue child.2 :=
    any_sketchOf (fun child => Frame.hasField_sketch _ child.2) before
  have empty : (sketchOf f before).isEmpty = before.isEmpty := by cases before <;> rfl
  unfold admits
  simp only [kind?_sketch, holds_sketchOf, Frame.hasField_sketch, defaults, empty]

theorem allAdmitted_sketchOf (before children : List Child) :
    allAdmitted (sketchOf f before) (sketchOf f children) = allAdmitted before children := by
  induction children generalizing before with
  | nil => rfl
  | cons item rest ih =>
      have appended : sketchOf f (before ++ [item]) =
          sketchOf f before ++ [(item.1, item.2.sketch f)] := by
        simp
      rw [sketchOf_cons, allAdmitted, allAdmitted, admits_sketchOf, ← ih, appended]

theorem starsAnswered_sketchOf (children : List Child) :
    starsAnswered (sketchOf f children) = starsAnswered children := by
  induction children with
  | nil => rfl
  | cons item rest ih => simp [starsAnswered, ih]

/-- **The order of parameters depends neither on spans nor on tokens.** -/
theorem ordered_sketchOf (children : List Child) :
    ordered (sketchOf f children) = ordered children := by
  have admitted := allAdmitted_sketchOf (f := f) [] children
  rw [sketchOf_nil] at admitted
  simp [ordered, admitted, starsAnswered_sketchOf]

end

theorem loneComprehension_bareOf (children : List Child) :
    loneComprehension (bareOf children) = loneComprehension children := by
  rw [← sketchOf_id, loneComprehension_sketchOf]

theorem beginsDictionary_bareOf (children : List Child) :
    beginsDictionary (bareOf children) = beginsDictionary children := by
  rw [← sketchOf_id, beginsDictionary_sketchOf]

theorem admits_bareOf (before : List Child) (item : Child) :
    admits (bareOf before) (item.1, item.2.bare) = admits before item := by
  rw [← sketchOf_id, ← sketch_id, admits_sketchOf]

theorem starsAnswered_bareOf (children : List Child) :
    starsAnswered (bareOf children) = starsAnswered children := by
  rw [← sketchOf_id, starsAnswered_sketchOf]

theorem ordered_bareOf (children : List Child) :
    ordered (bareOf children) = ordered children := by
  rw [← sketchOf_id, ordered_sketchOf]

end Ebnf

end PythonSyntax
