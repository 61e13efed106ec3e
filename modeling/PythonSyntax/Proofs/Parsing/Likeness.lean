/-
**What corresponds to what in two readings.**

Two readings of tokens come to trees of the same kinds and fields, or to errors with the same
complaints.  Which tokens and which offsets correspond to each other is left open: from a
correspondence of these follows one of trees, of the pieces that a rule has collected, and of errors.

Main definitions:

* `PythonSyntax.Likeness` — what corresponds to what;
* `PythonSyntax.Tree.Like`, `PythonSyntax.Frame.Like`, `PythonSyntax.SyntaxError.Like`,
  `PythonSyntax.ResultLike` — trees, pieces, errors and results that correspond to each other.

Main results:

* `PythonSyntax.Tree.Like.sketch_eq`, `PythonSyntax.Tree.Like.tokens` — trees that correspond to each
  other have the same shape, and tokens that correspond to each other;
* `PythonSyntax.Frame.Like.satisfies`, `PythonSyntax.Frame.Like.build` — **pieces that correspond to
  each other give the same answers, and make nodes that do so, too**;
* `PythonSyntax.ResultLike.eq` — what corresponds to itself only.
-/

import Mathlib.Data.List.Forall2
import PythonSyntax.Proofs.Syntax.Bare
import PythonSyntax.Session.Frame

set_option autoImplicit false

namespace PythonSyntax

/-! ### Correspondences -/

/-- The names that some places reserve. -/
def Token.softWords : List String := ["match", "case"]

/-- What corresponds to what in two readings: tokens, the offsets at which something begins, and
those at which something ends. -/
structure Likeness where
  token : Token → Token → Prop
  start : Nat → Nat → Prop
  stop : Nat → Nat → Prop
  kind : ∀ {one two}, token one two → two.kind = one.kind
  spells : ∀ {one two}, token one two → ∀ word ∈ Token.softWords, two.spells word = one.spells word
  start_of : ∀ {one two}, token one two → start one.start two.start
  stop_of : ∀ {one two}, token one two → stop one.stop two.stop
  /-- A parser takes the beginning of its first token for the end of what is before. -/
  begun_of : ∀ {one two}, token one two → stop one.start two.start

/-- Every token and every offset corresponds to itself only. -/
def Likeness.equality : Likeness where
  token one two := two = one
  start one two := two = one
  stop one two := two = one
  kind h := by rw [h]
  spells h _ _ := by rw [h]
  start_of h := by rw [h]
  stop_of h := by rw [h]
  begun_of h := by rw [h]

namespace Tree

mutual

/-- Trees with the same kinds and fields whose tokens and offsets correspond to each other. -/
def Like (like : Likeness) : Tree → Tree → Prop
  | .leaf one, .leaf two => like.token one two
  | .node kind start stop children, .node kind' start' stop' children' =>
    kind' = kind ∧ like.start start start' ∧ like.stop stop stop' ∧ AllLike like children children'
  | _, _ => False

/-- Trees in a row that correspond to each other. -/
def AllLike (like : Likeness) : List (Field × Tree) → List (Field × Tree) → Prop
  | [], [] => True
  | (field, tree) :: rest, (field', tree') :: rest' =>
    field' = field ∧ Like like tree tree' ∧ AllLike like rest rest'
  | _, _ => False

end

end Tree

/-- Children that take the same field and correspond to each other. -/
def Child.Like (like : Likeness) (one two : Child) : Prop := two.1 = one.1 ∧ one.2.Like like two.2

/-- Pieces that correspond to each other one by one. -/
abbrev Frame.Like (like : Likeness) : Frame → Frame → Prop := List.Forall₂ (Child.Like like)

/-- Causes that correspond to each other. -/
inductive Cause.Like (like : Likeness) : Cause → Cause → Prop
  | lexical (fault : LexicalFault) : Cause.Like like (.lexical fault) (.lexical fault)
  | grammatical (complaint : Complaint) {one two : Token} (found : like.token one two) :
      Cause.Like like (.grammatical complaint one) (.grammatical complaint two)
  | exhausted : Cause.Like like .exhausted .exhausted

/-- Errors that correspond to each other. -/
structure SyntaxError.Like (like : Likeness) (one two : SyntaxError) : Prop where
  cause : one.cause.Like like two.cause
  position : like.start one.position two.position

variable {like : Likeness}

namespace Tree

theorem allLike_iff {children children' : List Child} :
    AllLike like children children' ↔ List.Forall₂ (Child.Like like) children children' := by
  induction children generalizing children' with
  | nil => cases children' <;> simp [AllLike]
  | cons child rest ih =>
      cases children' with
      | nil => simp [AllLike]
      | cons child' rest' =>
          rw [List.forall₂_cons, ← ih, Child.Like, and_assoc]
          rfl

variable {tree tree' : Tree}

theorem Like.start (h : tree.Like like tree') : like.start tree.start tree'.start := by
  cases tree <;> cases tree' <;> first | exact h.elim | skip
  · exact like.start_of h
  · exact h.2.1

theorem Like.kind? (h : tree.Like like tree') : tree'.kind? = tree.kind? := by
  cases tree <;> cases tree' <;> first | exact h.elim | skip
  · rfl
  · exact congrArg some h.1

mutual

/-- Trees that correspond to each other have the same sketch, if their tokens have. -/
theorem Like.sketch_eq {f : Token → Token}
    (respects : ∀ {one two}, like.token one two → f two = f one) :
    (tree tree' : Tree) → tree.Like like tree' → tree'.sketch f = tree.sketch f
  | .leaf _, .leaf _, h => congrArg leaf (respects h)
  | .node kind _ _ children, .node kind' _ _ children', h => by
      obtain ⟨rfl, -, -, all⟩ := h
      exact congrArg (node kind' 0 0) (AllLike.sketchOf_eq respects children children' all)
  | .leaf _, .node .., h => h.elim
  | .node .., .leaf _, h => h.elim

theorem AllLike.sketchOf_eq {f : Token → Token}
    (respects : ∀ {one two}, like.token one two → f two = f one) :
    (children children' : List (Field × Tree)) → AllLike like children children' →
      sketchOf f children' = sketchOf f children
  | [], [], _ => rfl
  | (field, tree) :: rest, (field', tree') :: rest', h => by
      obtain ⟨rfl, first, others⟩ := h
      rw [sketchOf_cons, sketchOf_cons, Like.sketch_eq respects tree tree' first,
        AllLike.sketchOf_eq respects rest rest' others]
  | [], _ :: _, h => h.elim
  | _ :: _, [], h => h.elim

end

/-- Trees that correspond to each other have the same shape. -/
theorem Like.sketch (tree tree' : Tree) (h : tree.Like like tree') :
    (tree'.sketch fun _ => Token.eof 0) = tree.sketch fun _ => Token.eof 0 :=
  Like.sketch_eq (fun _ => rfl) tree tree' h

mutual

/-- The tokens of trees that correspond to each other do so, too. -/
theorem Like.tokens : (tree tree' : Tree) → tree.Like like tree' →
    List.Forall₂ like.token tree.tokens tree'.tokens
  | .leaf _, .leaf _, h => .cons h .nil
  | .node _ _ _ children, .node _ _ _ children', h => AllLike.tokensOf children children' h.2.2.2
  | .leaf _, .node .., h => h.elim
  | .node .., .leaf _, h => h.elim

theorem AllLike.tokensOf : (children children' : List (Field × Tree)) →
    AllLike like children children' →
      List.Forall₂ like.token (tokensOf children) (tokensOf children')
  | [], [], _ => .nil
  | (_, tree) :: rest, (_, tree') :: rest', h =>
    List.rel_append (Like.tokens tree tree' h.2.1) (AllLike.tokensOf rest rest' h.2.2)
  | [], _ :: _, h => h.elim
  | _ :: _, [], h => h.elim

end

mutual

/-- A tree to which only itself corresponds. -/
theorem Like.eq : (tree tree' : Tree) → tree.Like .equality tree' → tree' = tree
  | .leaf _, .leaf _, h => congrArg leaf h
  | .node kind start stop children, .node _ _ _ children', h => by
      obtain ⟨rfl, rfl, rfl, all⟩ := h
      rw [AllLike.eq children children' all]
  | .leaf _, .node .., h => h.elim
  | .node .., .leaf _, h => h.elim

theorem AllLike.eq : (children children' : List (Field × Tree)) →
    AllLike .equality children children' → children' = children
  | [], [], _ => rfl
  | (field, tree) :: rest, (_, tree') :: rest', h => by
      obtain ⟨rfl, first, others⟩ := h
      rw [Like.eq tree tree' first, AllLike.eq rest rest' others]
  | [], _ :: _, h => h.elim
  | _ :: _, [], h => h.elim

end

end Tree

theorem SyntaxError.Like.eq {one two : SyntaxError} (h : one.Like .equality two) : two = one := by
  obtain ⟨cause, position⟩ := one
  obtain ⟨cause', position'⟩ := two
  obtain ⟨same, rfl⟩ := h
  cases same with
  | lexical | exhausted => rfl
  | grammatical complaint found => cases found; rfl

theorem SyntaxError.Like.refl (error : SyntaxError) : error.Like .equality error := by
  refine ⟨?_, rfl⟩
  cases error.cause with
  | lexical fault => exact .lexical fault
  | grammatical complaint found => exact .grammatical complaint rfl
  | exhausted => exact .exhausted

/-! ### Pieces -/

namespace Frame

open PythonSyntax.Tree

variable {frame frame' later later' : Frame}

/-- **Questions about pieces that correspond to each other have the same answers.** -/
theorem Like.satisfies (h : frame.Like like frame') (shape : Shape) :
    frame'.satisfies shape = frame.satisfies shape := by
  rw [← satisfies_sketchOf (f := fun _ => Token.eof 0) frame',
    ← satisfies_sketchOf (f := fun _ => Token.eof 0) frame,
    AllLike.sketchOf_eq (fun _ => rfl) frame frame' (allLike_iff.2 h)]

theorem Like.map (h : frame.Like like frame') (field : Field) :
    Frame.Like like (frame.map fun child => (field, child.2))
      (frame'.map fun child => (field, child.2)) := by
  induction h with
  | nil => exact .nil
  | cons first _ ih => exact .cons ⟨rfl, first.2⟩ ih

theorem Like.build (h : frame.Like like frame') (kind : NodeKind) {here here' stop stop' : Nat}
    (starts : like.start here here') (stops : like.stop stop stop') :
    (frame.build kind here stop).Like like (frame'.build kind here' stop') := by
  have reversed := List.rel_reverse h
  refine ⟨rfl, ?_, stops, allLike_iff.2 reversed⟩
  rw [List.getLast?_eq_head?_reverse, List.getLast?_eq_head?_reverse]
  generalize frame.reverse = pieces, frame'.reverse = pieces' at reversed
  cases reversed with
  | nil => exact starts
  | cons first _ => exact first.2.start

theorem Like.relabel (h : frame.Like like frame') (field : Field) :
    Frame.Like like (frame.relabel field) (frame'.relabel field) := by
  cases h with
  | nil => exact .nil
  | cons first rest => exact .cons ⟨rfl, first.2⟩ rest

theorem Like.unwrap (h : frame.Like like frame') (field : Field) :
    Frame.Like like (frame.unwrap field) (frame'.unwrap field) := by
  cases h with
  | nil => exact .nil
  | @cons child child' _ _ first rest =>
      obtain ⟨_, tree⟩ := child
      obtain ⟨_, tree'⟩ := child'
      cases tree <;> cases tree' <;> first | exact first.2.elim | skip
      · exact .cons first rest
      · have inner := allLike_iff.1 first.2.2.2.2
        exact List.rel_append (Like.map (List.rel_reverse inner) field) rest

/-- The first piece of a kind begins at the same place. -/
theorem Like.firstOf? (h : frame.Like like frame') (kind : NodeKind) {here here' : Nat}
    (starts : like.start here here') :
    like.start (((frame.firstOf? kind).map Tree.start).getD here)
      (((frame'.firstOf? kind).map Tree.start).getD here') := by
  unfold Frame.firstOf?
  have reversed := List.rel_reverse h
  generalize frame.reverse = pieces, frame'.reverse = pieces' at reversed
  induction reversed with
  | nil => exact starts
  | @cons child child' _ _ first _ ih =>
      have same : isOneOf [kind] child'.2 = isOneOf [kind] child.2 := by
        rw [isOneOf, isOneOf, first.2.kind?]
      rw [List.find?_cons, List.find?_cons, same]
      cases isOneOf [kind] child.2 with
      | true => exact first.2.start
      | false => exact ih

end Frame

/-- Both results are trees, or both are errors, and they correspond to each other. -/
inductive ResultLike (like : Likeness) : Except SyntaxError Tree → Except SyntaxError Tree → Prop
  | ok {tree tree' : Tree} (trees : tree.Like like tree') :
      ResultLike like (.ok tree) (.ok tree')
  | error {error error' : SyntaxError} (errors : error.Like like error') :
      ResultLike like (.error error) (.error error')

theorem ResultLike.eq {one two : Except SyntaxError Tree} (h : ResultLike .equality one two) :
    two = one := by
  cases h with
  | ok trees => rw [trees.eq]
  | error errors => rw [errors.eq]

end PythonSyntax
