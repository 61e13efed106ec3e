/-
**Trees without their type comments.**

If type comments stand between tokens, a tree has none: what stood before a type comment, and the
comment, stand before the token that comes after it.  An assignment, which can end with its type
comment, ends with its value.  The grammar demands a type comment nowhere, so what it derives is
derived without type comments, too.

Main definitions:

* `PythonSyntax.Tree.uncommented` — a tree without its type comments;
* `PythonSyntax.Phrase.untyped`, `PythonSyntax.Nonterminal.typed` — phrases without type comments,
  and the names whose trees can hold some;
* `PythonSyntax.Phrase.sheds` — type comments stand only where nothing can stand as well;
* `PythonSyntax.Phrase.Respects` — the conditions of a phrase ask for nothing that changes.

Main results:

* `PythonSyntax.Tree.mem_subtrees_uncommented` — what is in a tree without its type comments;
* `PythonSyntax.Derives.unplaced_uncommented` — an expression stays as it is, up to places;
* `PythonSyntax.Derives.tokens_uncommented` — the tokens of a tree without its type comments are
  folded;
* `PythonSyntax.Derives.uncommented` — **what is derived is derived without its type comments**.
-/

import PythonSyntax.Proofs.Lexical.TypeComments
import PythonSyntax.Proofs.Syntax.Bare
import PythonSyntax.Proofs.Syntax.Closers
import PythonSyntax.Proofs.Syntax.Nodes

set_option autoImplicit false

namespace PythonSyntax

/-! ### Leaving out the comments -/

namespace Tree

/-- Where a tree ends without its type comment: an assignment ends with its value. -/
def uncommentedStop (tree : Tree) : Nat :=
  if tree.kind? = some .assignment then ((tree.childAt? .value).map stop).getD tree.stop
  else tree.stop

theorem uncommentedStop_of_assignment {tree value : Tree} (h : tree.kind? = some .assignment)
    (found : tree.childAt? .value = some value) : tree.uncommentedStop = value.stop := by
  rw [uncommentedStop, if_pos h, found]
  rfl

theorem uncommentedStop_of_ne {tree : Tree} (h : tree.kind? ≠ some .assignment) :
    tree.uncommentedStop = tree.stop := if_neg h

mutual

/-- The tree without its type comments; `before` has been left to its first token. -/
def uncommented (before : List Trivia) : Tree → Tree
  | .leaf token => .leaf (token.behind before)
  | .node kind start stop children =>
    .node kind start (uncommentedStop (.node kind start stop children))
      (uncommentedOf before children)

/-- Trees in a row without the type comments among them and in them. -/
def uncommentedOf (before : List Trivia) : List (Field × Tree) → List (Field × Tree)
  | [] => []
  | (field, tree) :: rest =>
    if field = .typeComment then uncommentedOf (leftover before tree.tokens) rest
    else (field, uncommented before tree) :: uncommentedOf (leftover before tree.tokens) rest

end

variable {before : List Trivia} {field : Field}

@[simp] theorem uncommented_leaf (token : Token) :
    (leaf token).uncommented before = leaf (token.behind before) := rfl

@[simp] theorem kind?_uncommented (tree : Tree) : (tree.uncommented before).kind? = tree.kind? := by
  cases tree <;> rfl

@[simp] theorem children_uncommented (tree : Tree) :
    (tree.uncommented before).children = uncommentedOf before tree.children := by
  cases tree <;> rfl

@[simp] theorem uncommentedOf_nil : uncommentedOf before [] = [] := rfl

theorem uncommentedOf_cons_of_ne (other : field ≠ .typeComment) (tree : Tree)
    (rest : List Child) : uncommentedOf before ((field, tree) :: rest) =
      (field, tree.uncommented before) :: uncommentedOf (leftover before tree.tokens) rest :=
  if_neg other

theorem uncommentedOf_single (other : field ≠ .typeComment) (tree : Tree) :
    uncommentedOf before [(field, tree)] = [(field, tree.uncommented before)] :=
  uncommentedOf_cons_of_ne other tree []

theorem tokensOf_single (field : Field) (tree : Tree) : tokensOf [(field, tree)] = tree.tokens :=
  List.append_nil _

theorem uncommentedOf_append (before : List Trivia) (first second : List Child) :
    uncommentedOf before (first ++ second) =
      uncommentedOf before first ++ uncommentedOf (leftover before (tokensOf first)) second := by
  induction first generalizing before with
  | nil => rfl
  | cons child first ih =>
      obtain ⟨field, tree⟩ := child
      rw [List.cons_append, tokensOf_cons, leftover_append, uncommentedOf, uncommentedOf, ih]
      split <;> rfl

/-- What is left of some trees are trees that have been among them. -/
theorem mem_uncommentedOf {child : Child} {children : List Child}
    (mem : child ∈ uncommentedOf before children) :
    ∃ other ∈ children, ∃ before', child = (other.1, other.2.uncommented before') := by
  induction children generalizing before with
  | nil => cases mem
  | cons first rest ih =>
      obtain ⟨field, tree⟩ := first
      by_cases typed : field = .typeComment
      · rw [uncommentedOf, if_pos typed] at mem
        obtain ⟨other, among, found⟩ := ih mem
        exact ⟨other, List.mem_cons_of_mem _ among, found⟩
      · rw [uncommentedOf_cons_of_ne typed] at mem
        rcases List.mem_cons.1 mem with rfl | mem
        · exact ⟨(field, tree), List.mem_cons_self, before, rfl⟩
        · obtain ⟨other, among, found⟩ := ih mem
          exact ⟨other, List.mem_cons_of_mem _ among, found⟩

mutual

/-- What is in a tree without its type comments has been in the tree. -/
theorem mem_subtrees_uncommented {inner : Tree} : (tree : Tree) → (before : List Trivia) →
    inner ∈ (tree.uncommented before).subtrees →
      ∃ other ∈ tree.subtrees, ∃ before', inner = other.uncommented before'
  | .leaf token, before, mem => by
      rw [List.mem_singleton.1 mem]
      exact ⟨leaf token, List.mem_cons_self, before, rfl⟩
  | .node kind start stop children, before, mem => by
      rcases List.mem_cons.1 mem with rfl | mem
      · exact ⟨_, List.mem_cons_self, before, rfl⟩
      · obtain ⟨other, among, found⟩ := mem_subtreesOf_uncommented children before mem
        exact ⟨other, List.mem_cons_of_mem _ among, found⟩

theorem mem_subtreesOf_uncommented {inner : Tree} : (children : List (Field × Tree)) →
    (before : List Trivia) → inner ∈ subtreesOf (uncommentedOf before children) →
      ∃ other ∈ subtreesOf children, ∃ before', inner = other.uncommented before'
  | [], _, mem => by cases mem
  | (field, tree) :: rest, before, mem => by
      by_cases typed : field = .typeComment
      · rw [uncommentedOf, if_pos typed] at mem
        obtain ⟨other, among, found⟩ := mem_subtreesOf_uncommented rest _ mem
        exact ⟨other, List.mem_append_right _ among, found⟩
      · rw [uncommentedOf_cons_of_ne typed] at mem
        rcases List.mem_append.1 mem with mem | mem
        · obtain ⟨other, among, found⟩ := mem_subtrees_uncommented tree before mem
          exact ⟨other, List.mem_append_left _ among, found⟩
        · obtain ⟨other, among, found⟩ := mem_subtreesOf_uncommented rest _ mem
          exact ⟨other, List.mem_append_right _ among, found⟩

end

end Tree

/-! ### Phrases without type comments -/

/-- The trees of the name can hold type comments. -/
def Nonterminal.typed : Nonterminal → Bool
  | statement | simpleStatement | smallStatement | exprStatement | suite | ifStatement
  | elifClause | elseClause | whileStatement | forStatement | tryStatement | exceptClause
  | finallyClause | withStatement | matchStatement | caseBlock | decorated | asyncStatement
  | functionDef | classDef => true
  | _ => false

namespace Phrase

/-- The phrase names no type comment, nor a name whose trees can hold some. -/
def untyped : Phrase → Bool
  | never | nil | needs _ => true
  | leaf field _ | word field _ => field != .typeComment
  | part field name => field != .typeComment && !name.typed
  | tree field _ inner => field != .typeComment && inner.untyped
  | seq first second | alt first second => first.untyped && second.untyped
  | further field _ inner => field != .typeComment && inner.untyped
  | many inner | atLeastOne inner | inside _ inner | such _ inner => inner.untyped

variable {D E : Flow → Nonterminal → Tree → Prop} {flow : Flow} {p : Phrase}
  {children : List Child}

open PythonSyntax.Tree

/-- Children without type comments stay as they are, up to places. -/
theorem Matches.unplaced_uncommented
    (parts : ∀ flow name tree, D flow name tree → name.typed = false → ∀ before,
      (tree.uncommented before).unplaced = tree.unplaced)
    (h : Matches D flow p children) (untyped : p.untyped = true) (before : List Trivia) :
    sketchOf Token.plain (uncommentedOf before children) = sketchOf Token.plain children := by
  induction h generalizing before with
  | nil | stop | noFurther | needs _ => rfl
  | leaf _ | word _ =>
      rw [uncommentedOf_single (by simpa [Phrase.untyped] using untyped)]
      rfl
  | lastSeparator _ =>
      simp only [Phrase.untyped, bne_iff_ne, Bool.and_eq_true] at untyped
      rw [uncommentedOf_single untyped.1]
      rfl
  | @part flow field name tree derived =>
      simp only [Phrase.untyped, bne_iff_ne, Bool.and_eq_true, Bool.not_eq_true'] at untyped
      rw [uncommentedOf_single untyped.1, sketchOf_cons]
      exact congrArg (fun tree => [(field, tree)]) (parts _ _ _ derived untyped.2 before)
  | @tree flow field kind inner children start stop _ ih =>
      simp only [Phrase.untyped, bne_iff_ne, Bool.and_eq_true] at untyped
      rw [uncommentedOf_single untyped.1]
      exact congrArg (fun children => [(field, node kind 0 0 children)]) (ih untyped.2 before)
  | seq _ _ ih ih' =>
      simp only [Phrase.untyped, Bool.and_eq_true] at untyped
      rw [uncommentedOf_append, sketchOf_append, sketchOf_append, ih untyped.1, ih' untyped.2]
  | left _ ih =>
      simp only [Phrase.untyped, Bool.and_eq_true] at untyped
      exact ih untyped.1 before
  | right _ ih =>
      simp only [Phrase.untyped, Bool.and_eq_true] at untyped
      exact ih untyped.2 before
  | more _ _ ih ih' | atLeastOne _ _ ih ih' =>
      rw [uncommentedOf_append, sketchOf_append, sketchOf_append, ih untyped, ih' untyped]
  | further _ _ _ ih ih' =>
      have both := untyped
      simp only [Phrase.untyped, bne_iff_ne, Bool.and_eq_true] at both
      rw [uncommentedOf_cons_of_ne both.1, uncommentedOf_append, sketchOf_cons, sketchOf_cons,
        sketchOf_append, sketchOf_append, ih both.2, ih' untyped]
      rfl
  | inside _ ih | such _ _ ih => exact ih untyped before

/-- Matching without type comments respects what the names stand for whose trees hold none. -/
theorem Matches.mono_untyped
    (le : ∀ flow name tree, D flow name tree → name.typed = false → E flow name tree)
    (h : Matches D flow p children) (untyped : p.untyped = true) : Matches E flow p children := by
  induction h with
  | nil => exact .nil
  | leaf h => exact .leaf h
  | word h => exact .word h
  | part h =>
      simp only [Phrase.untyped, Bool.and_eq_true, Bool.not_eq_true'] at untyped
      exact .part (le _ _ _ h untyped.2)
  | tree start stop _ ih =>
      simp only [Phrase.untyped, Bool.and_eq_true] at untyped
      exact .tree start stop (ih untyped.2)
  | seq _ _ ih ih' =>
      simp only [Phrase.untyped, Bool.and_eq_true] at untyped
      exact .seq (ih untyped.1) (ih' untyped.2)
  | left _ ih =>
      simp only [Phrase.untyped, Bool.and_eq_true] at untyped
      exact .left (ih untyped.1)
  | right _ ih =>
      simp only [Phrase.untyped, Bool.and_eq_true] at untyped
      exact .right (ih untyped.2)
  | stop => exact .stop
  | more _ _ ih ih' => exact .more (ih untyped) (ih' untyped)
  | atLeastOne _ _ ih ih' => exact .atLeastOne (ih untyped) (ih' untyped)
  | noFurther => exact .noFurther
  | lastSeparator h => exact .lastSeparator h
  | further h _ _ ih ih' =>
      have both := untyped
      simp only [Phrase.untyped, Bool.and_eq_true] at both
      exact .further h (ih both.2) (ih' untyped)
  | needs h => exact .needs h
  | inside _ ih => exact .inside (ih untyped)
  | such _ holds ih => exact .such (ih untyped) holds

end Phrase

theorem Nonterminal.untyped_ebnf (name : Nonterminal) :
    (name.typed || (ebnf name).untyped) = true :=
  forall_of_all (fun name => name.typed || (ebnf name).untyped) (by decide) name

theorem Nonterminal.lacks_typeComment (name : Nonterminal) :
    (ebnf name).lacks .typeComment = true :=
  forall_of_all (fun name => (ebnf name).lacks .typeComment) (by decide) name

/-- No tree that is derived takes the field of type comments. -/
theorem Phrase.Matches.ne_typeComment {D : Flow → Nonterminal → Tree → Prop} {flow : Flow}
    {name : Nonterminal} {field : Field} {tree : Tree}
    (h : Matches D flow (ebnf name) [(field, tree)]) : field ≠ .typeComment := by
  rintro rfl
  have none := h.filter_lacks name.lacks_typeComment
  simp at none

/-- **An expression stays as it is without type comments**, up to places. -/
theorem Derives.unplaced_uncommented {flow : Flow} {name : Nonterminal} {tree : Tree}
    (h : Derives ebnf flow name tree) (untyped : name.typed = false) (before : List Trivia) :
    (tree.uncommented before).unplaced = tree.unplaced := by
  refine h.rule_induction (P := fun _ name tree => name.typed = false → ∀ before,
    (tree.uncommented before).unplaced = tree.unplaced) ?_ untyped before
  intro flow name field tree matched untyped before
  have checked := name.untyped_ebnf
  rw [untyped, Bool.false_or] at checked
  have same := matched.unplaced_uncommented (fun _ _ _ part => part.2) checked before
  rw [Tree.uncommentedOf_single matched.ne_typeComment] at same
  exact congrArg Prod.snd (List.cons.inj same).1

/-! ### Phrases that demand no type comment -/

namespace Phrase

/-- A type comment, or nothing: the alternatives of an optional type comment. -/
def optsComment : Phrase → Phrase → Bool
  | leaf .typeComment kinds, nil => kinds = [.typeComment]
  | _, _ => false

theorem eq_of_optsComment {p q : Phrase} (h : optsComment p q = true) :
    p = leaf .typeComment [.typeComment] ∧ q = nil := by
  unfold optsComment at h
  split at h
  · obtain rfl := of_decide_eq_true h
    exact ⟨rfl, rfl⟩
  · cases h

/-- A type comment stands only where nothing can stand as well, and under no condition. -/
def sheds : Phrase → Bool
  | never | nil | needs _ => true
  | leaf field kinds => field != .typeComment && !kinds.contains .typeComment
  | word field _ | part field _ => field != .typeComment
  | tree field _ inner => field != .typeComment && inner.sheds
  | seq first second => first.sheds && second.sheds
  | alt first second => optsComment first second || first.sheds && second.sheds
  | further field kinds inner =>
    field != .typeComment && !kinds.contains .typeComment && inner.sheds
  | many inner | atLeastOne inner | inside _ inner => inner.sheds
  | such _ inner => inner.untyped && inner.sheds

/-- The conditions of the phrase ask neither for places nor for what stands between tokens. -/
def Respects : Phrase → Prop
  | such condition inner =>
    (∀ one two : List Child, Tree.sketchOf Token.plain one = Tree.sketchOf Token.plain two →
      condition one = condition two) ∧ inner.Respects
  | seq first second | alt first second => first.Respects ∧ second.Respects
  | tree _ _ inner | many inner | atLeastOne inner | further _ _ inner | inside _ inner =>
    inner.Respects
  | _ => True

/-- The phrase has no conditions. -/
def unconditional : Phrase → Bool
  | such _ _ => false
  | seq first second | alt first second => first.unconditional && second.unconditional
  | tree _ _ inner | many inner | atLeastOne inner | further _ _ inner | inside _ inner =>
    inner.unconditional
  | _ => true

theorem respects_of_unconditional {p : Phrase} (h : p.unconditional = true) : p.Respects := by
  induction p with
  | seq first second ih ih' | alt first second ih ih' =>
      simp only [unconditional, Bool.and_eq_true] at h
      exact ⟨ih h.1, ih' h.2⟩
  | tree _ _ _ ih | many _ ih | atLeastOne _ ih | further _ _ _ ih | inside _ _ ih => exact ih h
  | such _ _ _ => cases h
  | _ => trivial

variable {D E : Flow → Nonterminal → Tree → Prop} {flow : Flow} {p : Phrase}
  {children : List Child}

open PythonSyntax.Tree

/-- **The tokens of children without their type comments are folded**, if those of the parts are. -/
theorem Matches.tokens_uncommented
    (parts : ∀ flow name tree, D flow name tree → ∀ before,
      (tree.uncommented before).tokens = foldComments before tree.tokens)
    (h : Matches D flow p children) (sheds : p.sheds = true) (before : List Trivia) :
    tokensOf (uncommentedOf before children) = foldComments before (tokensOf children) := by
  induction h generalizing before with
  | nil | stop | noFurther | needs _ => rfl
  | leaf mem =>
      simp only [Phrase.sheds, bne_iff_ne, Bool.and_eq_true] at sheds
      rw [uncommentedOf_single sheds.1]
      exact (foldComments_cons_of_ne (ne_of_contains mem sheds.2) []).symm
  | word spelled =>
      simp only [Phrase.sheds, bne_iff_ne] at sheds
      rw [uncommentedOf_single sheds]
      refine (foldComments_cons_of_ne ?_ []).symm
      simp only [Token.spells, Bool.and_eq_true, decide_eq_true_eq] at spelled
      simp [spelled.1]
  | part derived =>
      simp only [Phrase.sheds, bne_iff_ne] at sheds
      rw [uncommentedOf_single sheds, tokensOf_single, tokensOf_single]
      exact parts _ _ _ derived before
  | tree start stop _ ih =>
      simp only [Phrase.sheds, bne_iff_ne, Bool.and_eq_true] at sheds
      rw [uncommentedOf_single sheds.1, tokensOf_single, tokensOf_single]
      exact ih sheds.2 before
  | seq _ _ ih ih' =>
      simp only [Phrase.sheds, Bool.and_eq_true] at sheds
      rw [uncommentedOf_append, tokensOf_append, tokensOf_append, foldComments_append,
        ih sheds.1, ih' sheds.2]
  | left matched ih =>
      simp only [Phrase.sheds, Bool.or_eq_true, Bool.and_eq_true] at sheds
      rcases sheds with opts | sheds
      · obtain ⟨rfl, rfl⟩ := eq_of_optsComment opts
        obtain ⟨token, mem, rfl⟩ := leaf_iff.1 matched
        exact (foldComments_cons_of_eq (by simpa using mem) []).symm
      · exact ih sheds.1 before
  | right matched ih =>
      simp only [Phrase.sheds, Bool.or_eq_true, Bool.and_eq_true] at sheds
      rcases sheds with opts | sheds
      · obtain ⟨rfl, rfl⟩ := eq_of_optsComment opts
        rw [nil_iff.1 matched]
        rfl
      · exact ih sheds.2 before
  | more _ _ ih ih' | atLeastOne _ _ ih ih' =>
      rw [uncommentedOf_append, tokensOf_append, tokensOf_append, foldComments_append,
        ih sheds, ih' sheds]
  | lastSeparator mem =>
      simp only [Phrase.sheds, bne_iff_ne, Bool.and_eq_true] at sheds
      rw [uncommentedOf_single sheds.1.1]
      exact (foldComments_cons_of_ne (ne_of_contains mem sheds.1.2) []).symm
  | @further flow field kinds p token front back mem _ _ ih ih' =>
      have all := sheds
      simp only [Phrase.sheds, bne_iff_ne, Bool.and_eq_true] at all
      have other := ne_of_contains mem all.1.2
      rw [uncommentedOf_cons_of_ne all.1.1, uncommentedOf_append, tokensOf_cons, tokensOf_cons,
        tokensOf_append, tokensOf_append, ih all.2, ih' sheds, tokens_leaf,
        foldComments_append before, foldComments_append]
      exact congrArg (· ++ _) (foldComments_cons_of_ne other []).symm
  | inside _ ih => exact ih sheds before
  | such _ _ ih =>
      simp only [Phrase.sheds, Bool.and_eq_true] at sheds
      exact ih sheds.2 before

/-- **What is as a phrase says is so without its type comments.** -/
theorem Matches.uncommented
    (parts : ∀ flow name tree, D flow name tree → ∀ before, E flow name (tree.uncommented before))
    (same : ∀ flow name tree, D flow name tree → name.typed = false → ∀ before,
      (tree.uncommented before).unplaced = tree.unplaced)
    (h : Matches D flow p children) (sheds : p.sheds = true) (respects : p.Respects)
    (before : List Trivia) : Matches E flow p (uncommentedOf before children) := by
  induction h generalizing before with
  | nil => exact .nil
  | stop => exact .stop
  | noFurther => exact .noFurther
  | needs met => exact .needs met
  | leaf mem =>
      simp only [Phrase.sheds, bne_iff_ne, Bool.and_eq_true] at sheds
      rw [uncommentedOf_single sheds.1]
      exact .leaf mem
  | word spelled =>
      simp only [Phrase.sheds, bne_iff_ne] at sheds
      rw [uncommentedOf_single sheds]
      exact .word spelled
  | part derived =>
      simp only [Phrase.sheds, bne_iff_ne] at sheds
      rw [uncommentedOf_single sheds]
      exact .part (parts _ _ _ derived before)
  | tree start stop _ ih =>
      simp only [Phrase.sheds, bne_iff_ne, Bool.and_eq_true] at sheds
      rw [uncommentedOf_single sheds.1]
      exact .tree _ _ (ih sheds.2 respects before)
  | seq _ _ ih ih' =>
      simp only [Phrase.sheds, Bool.and_eq_true] at sheds
      rw [uncommentedOf_append]
      exact .seq (ih sheds.1 respects.1 _) (ih' sheds.2 respects.2 _)
  | left matched ih =>
      simp only [Phrase.sheds, Bool.or_eq_true, Bool.and_eq_true] at sheds
      rcases sheds with opts | sheds
      · -- The comment is gone, and nothing may stand in its place.
        obtain ⟨rfl, rfl⟩ := eq_of_optsComment opts
        obtain ⟨token, -, rfl⟩ := leaf_iff.1 matched
        exact .right .nil
      · exact .left (ih sheds.1 respects.1 before)
  | right matched ih =>
      simp only [Phrase.sheds, Bool.or_eq_true, Bool.and_eq_true] at sheds
      rcases sheds with opts | sheds
      · obtain ⟨rfl, rfl⟩ := eq_of_optsComment opts
        rw [nil_iff.1 matched]
        exact .right .nil
      · exact .right (ih sheds.2 respects.2 before)
  | more _ _ ih ih' =>
      rw [uncommentedOf_append]
      exact .more (ih sheds respects _) (ih' sheds respects _)
  | atLeastOne _ _ ih ih' =>
      rw [uncommentedOf_append]
      exact .atLeastOne (ih sheds respects _) (ih' sheds respects _)
  | lastSeparator mem =>
      simp only [Phrase.sheds, bne_iff_ne, Bool.and_eq_true] at sheds
      rw [uncommentedOf_single sheds.1.1]
      exact .lastSeparator mem
  | further mem _ _ ih ih' =>
      have all := sheds
      simp only [Phrase.sheds, bne_iff_ne, Bool.and_eq_true] at all
      rw [uncommentedOf_cons_of_ne all.1.1, uncommentedOf_append]
      exact .further mem (ih all.2 respects _) (ih' sheds respects _)
  | inside _ ih => exact .inside (ih sheds respects before)
  | such matched holds ih =>
      simp only [Phrase.sheds, Bool.and_eq_true] at sheds
      refine .such (ih sheds.2 respects.2 before) ?_
      -- There is no type comment under a condition, so only places and trivia change.
      rw [respects.1 _ _ (matched.unplaced_uncommented same sheds.1 before)]
      exact holds

end Phrase

namespace Nonterminal

theorem sheds_ebnf (name : Nonterminal) : (ebnf name).sheds = true :=
  forall_of_all (fun name => (ebnf name).sheds) (by decide) name

/-- The names whose phrases have conditions. -/
def conditional : Nonterminal → Bool
  | curlyDisplay | argList | parameters _ => true
  | _ => false

theorem unconditional_ebnf (name : Nonterminal) :
    (name.conditional || (ebnf name).unconditional) = true :=
  forall_of_all (fun name => name.conditional || (ebnf name).unconditional) (by decide) name

/-- A condition whose answers do not depend on tokens respects trees that are alike up to places. -/
theorem condition_respects {condition : List Child → Bool}
    (same : ∀ children, condition (Tree.sketchOf Token.plain children) = condition children)
    (one two : List Child) (h : Tree.sketchOf Token.plain one = Tree.sketchOf Token.plain two) :
    condition one = condition two := by
  rw [← same, h, same]

/-- **No condition of the grammar asks for places or for what stands between tokens.** -/
theorem respects_ebnf (name : Nonterminal) : (ebnf name).Respects := by
  cases conditional : name.conditional with
  | false =>
      have checked := name.unconditional_ebnf
      rw [conditional, Bool.false_or] at checked
      exact Phrase.respects_of_unconditional checked
  | true =>
      cases name with
      | curlyDisplay =>
          have same := condition_respects Ebnf.beginsDictionary_sketchOf
          exact ⟨Phrase.respects_of_unconditional rfl,
            ⟨trivial, ⟨same, trivial⟩, trivial, trivial⟩,
            trivial, ⟨fun one two h => congrArg (!·) (same one two h), trivial⟩, trivial, trivial⟩
      | argList =>
          exact ⟨condition_respects Ebnf.loneComprehension_sketchOf,
            Phrase.respects_of_unconditional rfl⟩
      | parameters typed =>
          refine ⟨condition_respects Ebnf.ordered_sketchOf, Phrase.respects_of_unconditional ?_⟩
          cases typed <;> rfl
      | _ => cases conditional

end Nonterminal

namespace Derives

variable {flow : Flow} {name : Nonterminal} {tree : Tree}

/-- **The tokens of a derived tree without its type comments are folded.** -/
theorem tokens_uncommented (h : Derives ebnf flow name tree) (before : List Trivia) :
    (tree.uncommented before).tokens = foldComments before tree.tokens := by
  refine h.rule_induction (P := fun _ _ tree => ∀ before,
    (tree.uncommented before).tokens = foldComments before tree.tokens) ?_ before
  intro flow name field tree matched before
  have folded := matched.tokens_uncommented (fun _ _ _ part => part.2) name.sheds_ebnf before
  rwa [Tree.uncommentedOf_single matched.ne_typeComment, Tree.tokensOf_single,
    Tree.tokensOf_single] at folded

/-- **What is derived is derived without its type comments.** -/
theorem uncommented (h : Derives ebnf flow name tree) (before : List Trivia) :
    Derives ebnf flow name (tree.uncommented before) := by
  refine h.rule_induction (P := fun flow name tree => ∀ before,
    Derives ebnf flow name (tree.uncommented before)) ?_ before
  intro flow name field tree matched before
  have kept := matched.uncommented (fun _ _ _ part => part.2)
    (fun _ _ _ part => part.1.unplaced_uncommented) name.sheds_ebnf name.respects_ebnf before
  rw [Tree.uncommentedOf_single matched.ne_typeComment] at kept
  exact .intro kept

end Derives

end PythonSyntax
