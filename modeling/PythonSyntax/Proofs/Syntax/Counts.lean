/-
**How often fields occur among the children of a node.**

Fields carry weights, and what the weights of the children of a phrase can add up to is computed
from the phrase, as long as repetitions add nothing.  So the number of separators is compared with
that of the elements between which they stand, however many there are.

Main definitions:

* `PythonSyntax.Tree.count` — the number of children that take a field;
* `PythonSyntax.Tree.weigh` — the weights of the fields of children, added up;
* `PythonSyntax.Phrase.sums` — what the weights of the children of a phrase can add up to;
* `PythonSyntax.Phrase.without` — the children of a phrase none of which takes a field;
* `PythonSyntax.Phrase.apart` — no children of a phrase take both of two fields.

Main results:

* `PythonSyntax.Phrase.Matches.weigh_mem` — the weights add up to one of the sums;
* `PythonSyntax.Phrase.Matches.without` — children without a field match the phrase without it;
* `PythonSyntax.Phrase.Matches.apart` — fields that do not occur together.
-/

import Mathlib.Algebra.Ring.Int.Defs
import PythonSyntax.Proofs.Syntax.Nodes

set_option autoImplicit false

namespace PythonSyntax

/-! ### Weights -/

namespace Tree

/-- The number of children that take a field. -/
def count (tree : Tree) (field : Field) : Nat := (tree.childrenAt field).length

/-- The weights of the fields of children, added up. -/
def weigh (weight : Field → Int) (children : List Child) : Int :=
  (children.map fun child => weight child.1).sum

@[simp] theorem weigh_nil (weight : Field → Int) : weigh weight [] = 0 := rfl

@[simp] theorem weigh_cons (weight : Field → Int) (child : Child) (rest : List Child) :
    weigh weight (child :: rest) = weight child.1 + weigh weight rest := by
  simp [weigh]

@[simp] theorem weigh_append (weight : Field → Int) (front back : List Child) :
    weigh weight (front ++ back) = weigh weight front + weigh weight back := by
  simp [weigh]

/-- One field counts for one, and all others for nothing. -/
def only (field : Field) (other : Field) : Int := if other = field then 1 else 0

theorem weigh_only (field : Field) (kind : NodeKind) (start stop : Nat) (children : List Child) :
    weigh (only field) children = (node kind start stop children).count field := by
  rw [count, childrenAt, Tree.children, List.length_map]
  induction children with
  | nil => rfl
  | cons child rest ih =>
      rw [weigh_cons, ih, List.filter_cons, only]
      by_cases takes : child.1 = field
      · rw [if_pos takes, if_pos (by simpa using takes), List.length_cons]
        omega
      · rw [if_neg takes, if_neg (by simpa using takes)]
        omega

/-- The first field counts for one and the second against it. -/
def difference (first second : Field) (other : Field) : Int :=
  only first other - only second other

theorem weigh_difference (first second : Field) (children : List Child) :
    weigh (difference first second) children =
      weigh (only first) children - weigh (only second) children := by
  induction children with
  | nil => rfl
  | cons child rest ih =>
      rw [weigh_cons, weigh_cons, weigh_cons, ih, difference]
      omega

/-- A field that occurs is that of a child. -/
theorem count_pos_iff {kind : NodeKind} {start stop : Nat} {children : List Child}
    {field : Field} : 0 < (node kind start stop children).count field ↔
      ∃ child ∈ children, child.1 = field := by
  simp [count, childrenAt, Tree.children, List.length_pos_iff, List.filter_eq_nil_iff]

end Tree

/-! ### What is computed of phrases -/

namespace Phrase

/-- What the weights of the children can add up to; there is nothing to compute if a repetition
adds something. -/
def sums (weight : Field → Int) : Phrase → Option (List Int)
  | never => some []
  | nil | needs _ => some [0]
  | leaf field _ | word field _ | part field _ | tree field _ _ => some [weight field]
  | seq first second =>
    (first.sums weight).bind fun front =>
      (second.sums weight).map fun back => front.flatMap fun one => back.map (one + ·)
  | alt first second =>
    (first.sums weight).bind fun ones => (second.sums weight).map fun others => ones ++ others
  | many inner | atLeastOne inner =>
    (inner.sums weight).bind fun ones => if ones.all (· = 0) then some [0] else none
  | further field _ inner =>
    (inner.sums weight).bind fun ones =>
      if ones.all (weight field + · = 0) then some [0, weight field] else none
  | inside _ inner | such _ inner => inner.sums weight

/-- One phrase and then another; there are no such children if one of them has none. -/
def andThen : Phrase → Phrase → Phrase
  | never, _ | _, never => never
  | first, second => seq first second

/-- The children none of which takes the field. -/
def without (field : Field) : Phrase → Phrase
  | leaf field' kinds => if field' = field then never else leaf field' kinds
  | word field' spelling => if field' = field then never else word field' spelling
  | part field' name => if field' = field then never else part field' name
  | tree field' kind inner => if field' = field then never else tree field' kind inner
  | seq first second => (first.without field).andThen (second.without field)
  | alt first second => alt (first.without field) (second.without field)
  | many inner => many (inner.without field)
  | atLeastOne inner => (inner.without field).andThen (many (inner.without field))
  | further field' kinds inner =>
    if field' = field then nil else further field' kinds (inner.without field)
  | inside scope inner => inside scope (inner.without field)
  | such condition inner => such condition (inner.without field)
  | phrase => phrase

/-- No two children take one of the fields each. -/
def apart (first second : Field) : Phrase → Bool
  | seq front back =>
    front.apart first second && back.apart first second &&
      (front.lacks first || back.lacks second) && (front.lacks second || back.lacks first)
  | alt one other => one.apart first second && other.apart first second
  | inside _ inner | such _ inner => inner.apart first second
  | phrase => phrase.lacks first || phrase.lacks second

/-! ### What it says of the children -/

variable {D : Flow → Nonterminal → Tree → Prop} {flow : Flow} {p : Phrase}
  {children : List Child}

/-- **The weights of the children add up to one of the sums.** -/
theorem Matches.weigh_mem (h : Matches D flow p children) {weight : Field → Int} {all : List Int}
    (computed : p.sums weight = some all) : Tree.weigh weight children ∈ all := by
  induction h generalizing all with
  | nil | needs _ =>
      cases computed
      exact List.mem_singleton_self _
  | leaf _ | word _ | part _ | tree _ _ _ _ =>
      cases computed
      simp
  | seq _ _ ih ih' =>
      obtain ⟨front, one, computed⟩ := Option.bind_eq_some_iff.1 computed
      obtain ⟨back, two, rfl⟩ := Option.map_eq_some_iff.1 computed
      rw [Tree.weigh_append]
      exact List.mem_flatMap.2 ⟨_, ih one, List.mem_map.2 ⟨_, ih' two, rfl⟩⟩
  | left _ ih =>
      obtain ⟨ones, one, computed⟩ := Option.bind_eq_some_iff.1 computed
      obtain ⟨others, -, rfl⟩ := Option.map_eq_some_iff.1 computed
      exact List.mem_append_left _ (ih one)
  | right _ ih =>
      obtain ⟨ones, -, computed⟩ := Option.bind_eq_some_iff.1 computed
      obtain ⟨others, two, rfl⟩ := Option.map_eq_some_iff.1 computed
      exact List.mem_append_right _ (ih two)
  | stop =>
      obtain ⟨ones, -, computed⟩ := Option.bind_eq_some_iff.1 computed
      obtain ⟨-, ⟨⟩⟩ := Option.ite_none_right_eq_some.1 computed
      exact List.mem_singleton_self _
  | more _ _ ih ih' | atLeastOne _ _ ih ih' =>
      obtain ⟨ones, one, repeated⟩ := Option.bind_eq_some_iff.1 computed
      obtain ⟨nothing, ⟨⟩⟩ := Option.ite_none_right_eq_some.1 repeated
      have first := of_decide_eq_true (List.all_eq_true.1 nothing _ (ih one))
      have others := List.mem_singleton.1 (ih' computed)
      rw [Tree.weigh_append, first, others]
      exact List.mem_singleton_self _
  | noFurther =>
      obtain ⟨ones, -, computed⟩ := Option.bind_eq_some_iff.1 computed
      obtain ⟨-, ⟨⟩⟩ := Option.ite_none_right_eq_some.1 computed
      exact List.mem_cons_self
  | lastSeparator _ =>
      obtain ⟨ones, -, computed⟩ := Option.bind_eq_some_iff.1 computed
      obtain ⟨-, ⟨⟩⟩ := Option.ite_none_right_eq_some.1 computed
      simp
  | @further _ field _ _ _ front back _ _ _ ih ih' =>
      obtain ⟨ones, one, repeated⟩ := Option.bind_eq_some_iff.1 computed
      obtain ⟨nothing, ⟨⟩⟩ := Option.ite_none_right_eq_some.1 repeated
      have first : weight field + Tree.weigh weight front = 0 := by
        simpa using List.all_eq_true.1 nothing _ (ih one)
      rw [Tree.weigh_cons, Tree.weigh_append, ← Int.add_assoc, first, Int.zero_add]
      exact ih' computed
  | inside _ ih | such _ _ ih => exact ih computed

theorem Matches.andThen {q : Phrase} {front back : List Child} (h : Matches D flow p front)
    (h' : Matches D flow q back) : Matches D flow (p.andThen q) (front ++ back) := by
  unfold Phrase.andThen
  split
  · exact absurd h never_iff
  · exact absurd h' never_iff
  · exact .seq h h'

/-- **Children none of which takes a field match the phrase without it.** -/
theorem Matches.without (h : Matches D flow p children) {field : Field}
    (none : ∀ child ∈ children, child.1 ≠ field) : Matches D flow (p.without field) children := by
  induction h with
  | nil => exact .nil
  | leaf mem =>
      rw [Phrase.without, if_neg (none _ List.mem_cons_self)]
      exact .leaf mem
  | word spelled =>
      rw [Phrase.without, if_neg (none _ List.mem_cons_self)]
      exact .word spelled
  | part derived =>
      rw [Phrase.without, if_neg (none _ List.mem_cons_self)]
      exact .part derived
  | tree start stop matched _ =>
      rw [Phrase.without, if_neg (none _ List.mem_cons_self)]
      exact .tree start stop matched
  | seq _ _ ih ih' =>
      exact (ih fun child mem => none child (List.mem_append_left _ mem)).andThen
        (ih' fun child mem => none child (List.mem_append_right _ mem))
  | left _ ih => exact .left (ih none)
  | right _ ih => exact .right (ih none)
  | stop => exact .stop
  | more _ _ ih ih' =>
      exact .more (ih fun child mem => none child (List.mem_append_left _ mem))
        (ih' fun child mem => none child (List.mem_append_right _ mem))
  | atLeastOne _ _ ih ih' =>
      exact (ih fun child mem => none child (List.mem_append_left _ mem)).andThen
        (ih' fun child mem => none child (List.mem_append_right _ mem))
  | noFurther =>
      rw [Phrase.without]
      split
      · exact .nil
      · exact .noFurther
  | lastSeparator mem =>
      rw [Phrase.without, if_neg (none _ List.mem_cons_self)]
      exact .lastSeparator mem
  | further mem _ _ ih ih' =>
      have other := none _ List.mem_cons_self
      have later := ih' fun child mem => none child (by simp [mem])
      rw [Phrase.without, if_neg other] at later ⊢
      exact .further mem (ih fun child mem => none child (by simp [mem])) later
  | needs met => exact .needs met
  | inside _ ih => exact .inside (ih none)
  | such _ holds ih => exact .such (ih none) holds

/-- No child takes a field that the phrase lacks. -/
theorem Matches.ne_of_lacks (h : Matches D flow p children) {field : Field}
    (lacks : p.lacks field = true) : ∀ child ∈ children, child.1 ≠ field := by
  intro child mem takes
  have found : child ∈ children.filter fun child => child.1 = field :=
    List.mem_filter.2 ⟨mem, by simpa using takes⟩
  rw [h.filter_lacks lacks] at found
  cases found

/-- No child takes one of two fields if the phrase lacks one of them. -/
theorem Matches.ne_of_either (h : Matches D flow p children) {first second : Field}
    (lacks : (p.lacks first || p.lacks second) = true) :
    (∀ child ∈ children, child.1 ≠ first) ∨ ∀ child ∈ children, child.1 ≠ second :=
  (Bool.or_eq_true_iff.1 lacks).imp h.ne_of_lacks h.ne_of_lacks

/-- **Fields that a phrase keeps apart do not both occur.** -/
theorem Matches.apart (h : Matches D flow p children) {first second : Field}
    (apart : p.apart first second = true) :
    (∀ child ∈ children, child.1 ≠ first) ∨ ∀ child ∈ children, child.1 ≠ second := by
  induction p generalizing flow children with
  | seq p q ih ih' =>
      obtain ⟨front, back, one, two, rfl⟩ := seq_iff.1 h
      simp only [Phrase.apart, Bool.and_eq_true, Bool.or_eq_true] at apart
      obtain ⟨⟨⟨inFront, inBack⟩, cross⟩, cross'⟩ := apart
      simp only [List.forall_mem_append]
      rcases ih one inFront with none | none <;> rcases ih' two inBack with none' | none'
      · exact Or.inl ⟨none, none'⟩
      · rcases cross' with lacks | lacks
        · exact Or.inr ⟨one.ne_of_lacks lacks, none'⟩
        · exact Or.inl ⟨none, two.ne_of_lacks lacks⟩
      · rcases cross with lacks | lacks
        · exact Or.inl ⟨one.ne_of_lacks lacks, none'⟩
        · exact Or.inr ⟨none, two.ne_of_lacks lacks⟩
      · exact Or.inr ⟨none, none'⟩
  | alt p q ih ih' =>
      simp only [Phrase.apart, Bool.and_eq_true] at apart
      rcases alt_iff.1 h with h | h
      · exact ih h apart.1
      · exact ih' h apart.2
  | inside scope p ih => exact ih (inside_iff.1 h) apart
  | such condition p ih => exact ih (such_iff.1 h).1 apart
  | _ => exact h.ne_of_either apart

end Phrase

end PythonSyntax
