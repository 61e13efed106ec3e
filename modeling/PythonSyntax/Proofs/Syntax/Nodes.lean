/-
**The nodes inside a derived tree.**

Every node of a derived tree, at whatever depth, is made by a phrase of the table.  What its
children are can therefore be read off the phrases, field by field.

Main definitions:

* `PythonSyntax.Tree.subtrees` — a tree and all trees in it;
* `PythonSyntax.Phrase.trees` — the nodes that a phrase makes by itself;
* `PythonSyntax.Phrase.lacks`, `PythonSyntax.Phrase.holds`, `PythonSyntax.Phrase.fills` — no child,
  exactly one, or at least one takes a field;
* `PythonSyntax.Phrase.confines` — what the children that take a field are.

Main results:

* `PythonSyntax.Derives.forall_subtrees` — what holds of all nodes that phrases make holds
  everywhere in a derived tree;
* `PythonSyntax.Phrase.Matches.filter_lacks`, `PythonSyntax.Phrase.Matches.filter_holds`,
  `PythonSyntax.Phrase.Matches.filter_fills`, `PythonSyntax.Phrase.Matches.confined` — the children
  that take a field.
-/

import PythonSyntax.Proofs.Syntax.Ebnf

set_option autoImplicit false

namespace PythonSyntax

/-! ### Subtrees -/

namespace Tree

mutual

/-- The tree and all trees in it. -/
def subtrees : Tree → List Tree
  | .leaf token => [.leaf token]
  | .node kind start stop children => .node kind start stop children :: subtreesOf children

/-- The trees in a row, and all trees in them. -/
def subtreesOf : List (Field × Tree) → List Tree
  | [] => []
  | (_, tree) :: rest => subtrees tree ++ subtreesOf rest

end

@[simp] theorem subtrees_leaf (token : Token) : (leaf token).subtrees = [leaf token] := rfl

@[simp] theorem subtrees_node (kind : NodeKind) (start stop : Nat) (children : List Child) :
    (node kind start stop children).subtrees =
      node kind start stop children :: subtreesOf children := rfl

@[simp] theorem subtreesOf_nil : subtreesOf [] = [] := rfl

@[simp] theorem subtreesOf_cons (child : Child) (rest : List Child) :
    subtreesOf (child :: rest) = child.2.subtrees ++ subtreesOf rest := rfl

@[simp] theorem subtreesOf_append (first second : List Child) :
    subtreesOf (first ++ second) = subtreesOf first ++ subtreesOf second := by
  induction first with
  | nil => rfl
  | cons child rest ih => simp [ih]

end Tree

namespace Phrase

/-- The nodes that the phrase makes by itself: their kinds and what their children are like. -/
def trees : Phrase → List (NodeKind × Phrase)
  | tree _ kind inner => (kind, inner) :: inner.trees
  | seq first second | alt first second => first.trees ++ second.trees
  | many inner | atLeastOne inner | further _ _ inner | inside _ inner | such _ inner =>
    inner.trees
  | _ => []

variable {D : Flow → Nonterminal → Tree → Prop} {flow : Flow} {p : Phrase}
  {children : List Child}

/-- What holds of tokens, in the parts, and of the nodes that a phrase makes by itself holds in
everything that matches it. -/
theorem Matches.forall_subtrees {P : Tree → Prop} (leaf : ∀ token, P (.leaf token))
    (h : Matches (fun flow name tree => D flow name tree ∧ ∀ inner ∈ tree.subtrees, P inner) flow p
      children)
    (node : ∀ kind inner flow start stop children, (kind, inner) ∈ p.trees →
      Matches D flow inner children → P (.node kind start stop children)) :
    ∀ tree ∈ Tree.subtreesOf children, P tree := by
  induction h with
  | nil | stop | noFurther | needs _ => simp
  | leaf _ | word _ | lastSeparator _ => simpa using leaf _
  | part derived => simpa using derived.2
  | @tree flow field kind inner children start stop matched ih =>
      intro tree mem
      simp only [Tree.subtreesOf_cons, Tree.subtrees_node, Tree.subtreesOf_nil, List.append_nil,
        List.mem_cons] at mem
      rcases mem with rfl | mem
      · exact node _ _ _ _ _ _ List.mem_cons_self (matched.mono fun _ _ _ h => h.1)
      · refine ih (fun _ _ _ _ _ _ mem matched => ?_) tree mem
        exact node _ _ _ _ _ _ (List.mem_cons_of_mem _ mem) matched
  | seq _ _ ih ih' =>
      intro tree mem
      rw [Tree.subtreesOf_append, List.mem_append] at mem
      rcases mem with mem | mem
      · refine ih (fun _ _ _ _ _ _ mem matched => ?_) tree mem
        exact node _ _ _ _ _ _ (List.mem_append_left _ mem) matched
      · refine ih' (fun _ _ _ _ _ _ mem matched => ?_) tree mem
        exact node _ _ _ _ _ _ (List.mem_append_right _ mem) matched
  | left _ ih =>
      refine ih fun _ _ _ _ _ _ mem matched => ?_
      exact node _ _ _ _ _ _ (List.mem_append_left _ mem) matched
  | right _ ih =>
      refine ih fun _ _ _ _ _ _ mem matched => ?_
      exact node _ _ _ _ _ _ (List.mem_append_right _ mem) matched
  | more _ _ ih ih' | atLeastOne _ _ ih ih' =>
      intro tree mem
      rw [Tree.subtreesOf_append, List.mem_append] at mem
      rcases mem with mem | mem
      · exact ih node tree mem
      · exact ih' node tree mem
  | further _ _ _ ih ih' =>
      intro tree mem
      simp only [Tree.subtreesOf_cons, Tree.subtrees_leaf, Tree.subtreesOf_append, List.mem_append,
        List.mem_singleton] at mem
      rcases mem with rfl | mem | mem
      · exact leaf _
      · exact ih node tree mem
      · exact ih' node tree mem
  | inside _ ih | such _ _ ih => exact ih node

end Phrase

/-- **What holds of tokens and of all nodes that phrases make holds everywhere in a derived tree.** -/
theorem Derives.forall_subtrees {table : Nonterminal → Phrase} {P : Tree → Prop}
    (leaf : ∀ token, P (.leaf token))
    (node : ∀ name kind inner flow start stop children, (kind, inner) ∈ (table name).trees →
      inner.Matches (Derives table) flow children → P (.node kind start stop children))
    {flow : Flow} {name : Nonterminal} {tree : Tree} (h : Derives table flow name tree) :
    ∀ inner ∈ tree.subtrees, P inner := by
  refine Derives.rule_induction (P := fun _ _ tree => ∀ inner ∈ tree.subtrees, P inner) ?_ h
  intro flow name field tree matched
  have all := matched.forall_subtrees leaf (node name)
  simpa using all

/-- What holds of all nodes that a check of the phrases lets pass holds everywhere in a derived
tree. -/
theorem Derives.forall_subtrees_of_all {table : Nonterminal → Phrase} {P : Tree → Prop}
    (check : NodeKind → Phrase → Bool) (leaf : ∀ token, P (.leaf token))
    (node : ∀ {p kind flow children}, Phrase.Matches (Derives table) flow p children →
      check kind p = true → ∀ start stop, P (.node kind start stop children))
    (names : ∀ name, ((table name).trees.all fun made => check made.1 made.2) = true)
    {flow : Flow} {name : Nonterminal} {tree : Tree} (h : Derives table flow name tree) :
    ∀ inner ∈ tree.subtrees, P inner := by
  refine h.forall_subtrees leaf ?_
  intro name kind inner flow start stop children made matched
  exact node matched (List.all_eq_true.1 (names name) _ made) start stop

/-! ### Fields -/

namespace Phrase

/-- No child takes the field. -/
def lacks (field : Field) : Phrase → Bool
  | never | nil | needs _ => true
  | leaf field' _ | word field' _ | part field' _ | tree field' _ _ => field' != field
  | seq first second | alt first second => first.lacks field && second.lacks field
  | further field' _ inner => field' != field && inner.lacks field
  | many inner | atLeastOne inner | inside _ inner | such _ inner => inner.lacks field

/-- Exactly one child takes the field, and it is as one of the accepted phrases says. -/
def holds (field : Field) (accepts : Phrase → Bool) : Phrase → Bool
  | never => true
  | leaf field' kinds => field' = field && accepts (leaf field' kinds)
  | word field' spelling => field' = field && accepts (word field' spelling)
  | part field' name => field' = field && accepts (part field' name)
  | tree field' kind inner => field' = field && accepts (tree field' kind inner)
  | seq first second =>
    first.holds field accepts && second.lacks field ||
      first.lacks field && second.holds field accepts
  | alt first second => first.holds field accepts && second.holds field accepts
  | inside _ inner | such _ inner => inner.holds field accepts
  | _ => false

/-- At least one child takes the field. -/
def fills (field : Field) : Phrase → Bool
  | never => true
  | leaf field' _ | word field' _ | part field' _ | tree field' _ _ => field' = field
  | seq first second => first.fills field || second.fills field
  | alt first second => first.fills field && second.fills field
  | atLeastOne inner | inside _ inner | such _ inner => inner.fills field
  | _ => false

/-- Every child that takes the field is as one of the accepted phrases says. -/
def confines (field : Field) (accepts : Phrase → Bool) : Phrase → Bool
  | never | nil | needs _ => true
  | leaf field' kinds => field' != field || accepts (leaf field' kinds)
  | word field' spelling => field' != field || accepts (word field' spelling)
  | part field' name => field' != field || accepts (part field' name)
  | tree field' kind inner => field' != field || accepts (tree field' kind inner)
  | seq first second | alt first second =>
    first.confines field accepts && second.confines field accepts
  | further field' kinds inner =>
    (field' != field || accepts (leaf field' kinds)) && inner.confines field accepts
  | many inner | atLeastOne inner | inside _ inner | such _ inner => inner.confines field accepts

variable {D : Flow → Nonterminal → Tree → Prop} {flow : Flow} {p : Phrase}
  {children : List Child} {field : Field}

theorem Matches.filter_lacks (h : Matches D flow p children) (lacks : p.lacks field = true) :
    children.filter (fun child => child.1 = field) = [] := by
  induction h with
  | nil | stop | noFurther | needs _ => rfl
  | leaf _ | word _ | part _ | tree _ _ _ _ =>
      simp only [Phrase.lacks, bne_iff_ne, ne_eq] at lacks
      simp [lacks]
  | lastSeparator _ =>
      simp only [Phrase.lacks, bne_iff_ne, ne_eq, Bool.and_eq_true] at lacks
      simp [lacks.1]
  | seq _ _ ih ih' =>
      simp only [Phrase.lacks, Bool.and_eq_true] at lacks
      rw [List.filter_append, ih lacks.1, ih' lacks.2, List.append_nil]
  | left _ ih =>
      simp only [Phrase.lacks, Bool.and_eq_true] at lacks
      exact ih lacks.1
  | right _ ih =>
      simp only [Phrase.lacks, Bool.and_eq_true] at lacks
      exact ih lacks.2
  | more _ _ ih ih' | atLeastOne _ _ ih ih' =>
      rw [List.filter_append, ih lacks, ih' lacks, List.append_nil]
  | further _ _ _ ih ih' =>
      have both := lacks
      simp only [Phrase.lacks, bne_iff_ne, ne_eq, Bool.and_eq_true] at both
      rw [List.filter_cons_of_neg (by simpa using both.1), List.filter_append, ih both.2, ih' lacks,
        List.append_nil]
  | inside _ ih | such _ _ ih => exact ih lacks

/-- The one child that takes the field. -/
theorem Matches.filter_holds (h : Matches D flow p children) (field : Field)
    (accepts : Phrase → Bool) (holds : p.holds field accepts = true) :
    ∃ tree q flow', accepts q = true ∧ Matches D flow' q [(field, tree)] ∧
      children.filter (fun child => child.1 = field) = [(field, tree)] := by
  induction h with
  | nil | stop | noFurther | needs _ => cases holds
  | more _ _ _ _ | atLeastOne _ _ _ _ | lastSeparator _ | further _ _ _ _ _ => cases holds
  | leaf mem =>
      simp only [Phrase.holds, Bool.and_eq_true, decide_eq_true_eq] at holds
      obtain ⟨rfl, accepted⟩ := holds
      exact ⟨_, _, flow, accepted, .leaf mem, by simp⟩
  | word spelled =>
      simp only [Phrase.holds, Bool.and_eq_true, decide_eq_true_eq] at holds
      obtain ⟨rfl, accepted⟩ := holds
      exact ⟨_, _, flow, accepted, .word spelled, by simp⟩
  | part derived =>
      simp only [Phrase.holds, Bool.and_eq_true, decide_eq_true_eq] at holds
      obtain ⟨rfl, accepted⟩ := holds
      exact ⟨_, _, _, accepted, .part derived, by simp⟩
  | tree start stop matched _ =>
      simp only [Phrase.holds, Bool.and_eq_true, decide_eq_true_eq] at holds
      obtain ⟨rfl, accepted⟩ := holds
      exact ⟨_, _, _, accepted, .tree start stop matched, by simp⟩
  | seq first second ih ih' =>
      simp only [Phrase.holds, Bool.or_eq_true, Bool.and_eq_true] at holds
      rcases holds with ⟨holds, lacks⟩ | ⟨lacks, holds⟩
      · obtain ⟨tree, q, flow', accepted, matched, eq⟩ := ih holds
        refine ⟨tree, q, flow', accepted, matched, ?_⟩
        rw [List.filter_append, eq, second.filter_lacks lacks, List.append_nil]
      · obtain ⟨tree, q, flow', accepted, matched, eq⟩ := ih' holds
        refine ⟨tree, q, flow', accepted, matched, ?_⟩
        rw [List.filter_append, eq, first.filter_lacks lacks, List.nil_append]
  | left _ ih =>
      simp only [Phrase.holds, Bool.and_eq_true] at holds
      exact ih holds.1
  | right _ ih =>
      simp only [Phrase.holds, Bool.and_eq_true] at holds
      exact ih holds.2
  | inside _ ih | such _ _ ih => exact ih holds

theorem Matches.filter_fills (h : Matches D flow p children) (fills : p.fills field = true) :
    children.filter (fun child => child.1 = field) ≠ [] := by
  induction h with
  | nil | stop | noFurther | needs _ => cases fills
  | more _ _ _ _ | lastSeparator _ | further _ _ _ _ _ => cases fills
  | leaf _ | word _ | part _ | tree _ _ _ _ =>
      simp only [Phrase.fills, decide_eq_true_eq] at fills
      simp [fills]
  | seq _ _ ih ih' =>
      simp only [Phrase.fills, Bool.or_eq_true] at fills
      intro none
      rw [List.filter_append, List.append_eq_nil_iff] at none
      rcases fills with fills | fills
      · exact ih fills none.1
      · exact ih' fills none.2
  | left _ ih =>
      simp only [Phrase.fills, Bool.and_eq_true] at fills
      exact ih fills.1
  | right _ ih =>
      simp only [Phrase.fills, Bool.and_eq_true] at fills
      exact ih fills.2
  | atLeastOne _ _ ih _ =>
      intro none
      rw [List.filter_append, List.append_eq_nil_iff] at none
      exact ih fills none.1
  | inside _ ih | such _ _ ih => exact ih fills

/-- Every child that takes the field is as accepted. -/
theorem Matches.confined (h : Matches D flow p children) (accepts : Phrase → Bool)
    (confines : p.confines field accepts = true) :
    ∀ child ∈ children, child.1 = field →
      ∃ q flow', accepts q = true ∧ Matches D flow' q [child] := by
  induction h with
  | nil | stop | noFurther | needs _ => simp
  | @leaf flow field' kinds token mem =>
      intro child isChild takes
      cases List.mem_singleton.1 isChild
      subst takes
      exact ⟨_, flow, by simpa [Phrase.confines] using confines, .leaf mem⟩
  | @word flow field' spelling token spelled =>
      intro child isChild takes
      cases List.mem_singleton.1 isChild
      subst takes
      exact ⟨_, flow, by simpa [Phrase.confines] using confines, .word spelled⟩
  | part derived =>
      intro child isChild takes
      cases List.mem_singleton.1 isChild
      subst takes
      exact ⟨_, _, by simpa [Phrase.confines] using confines, .part derived⟩
  | tree start stop matched _ =>
      intro child isChild takes
      cases List.mem_singleton.1 isChild
      subst takes
      exact ⟨_, _, by simpa [Phrase.confines] using confines, .tree start stop matched⟩
  | @lastSeparator flow field' kinds p token mem =>
      intro child isChild takes
      cases List.mem_singleton.1 isChild
      subst takes
      simp only [Phrase.confines, bne_self_eq_false, Bool.false_or, Bool.and_eq_true] at confines
      exact ⟨_, flow, confines.1, .leaf mem⟩
  | seq _ _ ih ih' =>
      simp only [Phrase.confines, Bool.and_eq_true] at confines
      intro child isChild takes
      rcases List.mem_append.1 isChild with isChild | isChild
      · exact ih confines.1 child isChild takes
      · exact ih' confines.2 child isChild takes
  | left _ ih =>
      simp only [Phrase.confines, Bool.and_eq_true] at confines
      exact ih confines.1
  | right _ ih =>
      simp only [Phrase.confines, Bool.and_eq_true] at confines
      exact ih confines.2
  | more _ _ ih ih' | atLeastOne _ _ ih ih' =>
      intro child isChild takes
      rcases List.mem_append.1 isChild with isChild | isChild
      · exact ih confines child isChild takes
      · exact ih' confines child isChild takes
  | @further flow field' kinds p token front back mem _ _ ih ih' =>
      have both := confines
      simp only [Phrase.confines, Bool.and_eq_true] at both
      intro child isChild takes
      rcases List.mem_cons.1 isChild with rfl | isChild
      · subst takes
        simp only [bne_self_eq_false, Bool.false_or] at both
        exact ⟨_, flow, both.1, .leaf mem⟩
      rcases List.mem_append.1 isChild with isChild | isChild
      · exact ih both.2 child isChild takes
      · exact ih' confines child isChild takes
  | inside _ ih | such _ _ ih => exact ih confines

end Phrase

end PythonSyntax
