/-
**The nodes that a derived tree is made of.**

At its root a derived tree is one of the trees that some phrase of the table has among its
alternatives, and its first child is what leads that phrase.

Main definitions:

* `PythonSyntax.Phrase.cases` — the alternatives of a phrase;
* `PythonSyntax.Phrase.rootsPass` — the trees among them pass a check, and the parts are good;
* `PythonSyntax.Phrase.leaders` — what can be the first child;
* `PythonSyntax.Nonterminal.plain` — the names whose trees are no elements of dictionaries.

Main results:

* `PythonSyntax.Derives.root_among`, `PythonSyntax.Derives.node`, `PythonSyntax.Derives.kind_mem` —
  the root of a derived tree;
* `PythonSyntax.Derives.root_passes` — what the roots of good names pass;
* `PythonSyntax.Derives.leaf_of_name` — a name is made of one token;
* `PythonSyntax.Derives.not_beginsDictionary` — elements of dictionaries are told apart by their
  kind.
-/

import PythonSyntax.Proofs.Syntax.Heads

set_option autoImplicit false

namespace PythonSyntax

namespace Phrase

/-- The alternatives of a phrase. -/
def cases : Phrase → List Phrase
  | alt first second => first.cases ++ second.cases
  | phrase => [phrase]

variable {D : Flow → Nonterminal → Tree → Prop} {flow : Flow} {p q : Phrase}
  {children : List Child}

theorem Matches.of_case (mem : q ∈ p.cases) (h : Matches D flow q children) :
    Matches D flow p children := by
  induction p with
  | alt first second ih ih' =>
      rcases List.mem_append.1 mem with mem | mem
      · exact .left (ih mem)
      · exact .right (ih' mem)
  | _ =>
      cases List.mem_singleton.1 mem
      exact h

theorem Matches.exists_case (h : Matches D flow p children) :
    ∃ q ∈ p.cases, Matches D flow q children := by
  induction p with
  | alt first second ih ih' =>
      rcases Matches.alt_iff.1 h with h | h
      · obtain ⟨q, mem, matched⟩ := ih h
        exact ⟨q, List.mem_append_left _ mem, matched⟩
      · obtain ⟨q, mem, matched⟩ := ih' h
        exact ⟨q, List.mem_append_right _ mem, matched⟩
  | _ => exact ⟨_, List.mem_singleton_self _, h⟩

/-- Every alternative is a tree or a part. -/
def rooted (p : Phrase) : Bool :=
  p.cases.all fun | never | part _ _ | tree _ _ _ => true | _ => false

/-- The trees among the alternatives of a phrase pass the check, and the parts have good names. -/
def rootsPass (good : Nonterminal → Bool) (check : NodeKind → Phrase → Bool) (p : Phrase) : Bool :=
  p.cases.all fun
    | part _ name => good name
    | tree _ kind inner => check kind inner
    | _ => true

theorem rootsPass_mono {good good' : Nonterminal → Bool} {check check' : NodeKind → Phrase → Bool}
    (names : ∀ name, good name = true → good' name = true)
    (roots : ∀ kind inner, check kind inner = true → check' kind inner = true)
    (h : p.rootsPass good check = true) : p.rootsPass good' check' = true := by
  refine List.all_eq_true.2 fun q case => ?_
  have passes := List.all_eq_true.1 h q case
  cases q with
  | part field name => exact names name passes
  | tree field kind inner => exact roots kind inner passes
  | _ => rfl

/-- What can be the first child. -/
def leaders : Phrase → List Phrase
  | never | nil | needs _ => []
  | leaf field kinds | further field kinds _ => [leaf field kinds]
  | seq first second => first.leaders ++ if first.nullable then second.leaders else []
  | alt first second => first.leaders ++ second.leaders
  | many inner | atLeastOne inner | inside _ inner | such _ inner => inner.leaders
  | phrase => [phrase]

/-- The first child is one of the leaders. -/
theorem Matches.leader {table : Nonterminal → KindSet} {child : Child} {rest : List Child}
    (parts : ∀ flow name tree, D flow name tree → Begins (table name) tree.tokens)
    (h : Matches D flow p (child :: rest)) :
    ∃ q ∈ p.leaders, ∃ flow', Matches D flow' q [child] := by
  generalize eq : child :: rest = children at h
  induction h generalizing child rest with
  | nil | stop | noFurther | needs _ => cases eq
  | leaf mem =>
      cases eq
      exact ⟨_, List.mem_singleton_self _, flow, .leaf mem⟩
  | word spelled =>
      cases eq
      exact ⟨_, List.mem_singleton_self _, flow, .word spelled⟩
  | part derived =>
      cases eq
      exact ⟨_, List.mem_singleton_self _, _, .part derived⟩
  | tree start stop matched _ =>
      cases eq
      exact ⟨_, List.mem_singleton_self _, _, .tree start stop matched⟩
  | @seq flow p q front back first second ih ih' =>
      cases front with
      | nil =>
          obtain ⟨q, mem, matched⟩ := ih' eq
          refine ⟨q, List.mem_append_right _ ?_, matched⟩
          rcases first.begins parts with ⟨-, null⟩ | ⟨_, _, none, -⟩
          · rwa [if_pos null]
          · cases none
      | cons _ _ =>
          cases eq
          obtain ⟨q, mem, matched⟩ := ih rfl
          exact ⟨q, List.mem_append_left _ mem, matched⟩
  | left _ ih =>
      obtain ⟨q, mem, matched⟩ := ih eq
      exact ⟨q, List.mem_append_left _ mem, matched⟩
  | right _ ih =>
      obtain ⟨q, mem, matched⟩ := ih eq
      exact ⟨q, List.mem_append_right _ mem, matched⟩
  | @more _ _ front _ _ _ ih ih' | @atLeastOne _ _ front _ _ _ ih ih' =>
      cases front with
      | nil => exact ih' eq
      | cons _ _ =>
          cases eq
          exact ih rfl
  | lastSeparator mem | further mem _ _ _ _ =>
      cases eq
      exact ⟨_, List.mem_singleton_self _, flow, .leaf mem⟩
  | inside _ ih | such _ _ ih => exact ih eq

end Phrase

theorem Nonterminal.rooted_ebnf (name : Nonterminal) : (ebnf name).rooted = true :=
  forall_of_all (fun name => (ebnf name).rooted) (by decide) name

/-- **The root of a derived tree is an alternative of the phrase of some name**, which is as good as
the name that the tree is derived from if good names hand on trees of good names only. -/
theorem Derives.root_among {good : Nonterminal → Prop}
    (closed : ∀ name, good name → ∀ field part, .part field part ∈ (ebnf name).cases → good part)
    {flow : Flow} {name : Nonterminal} {tree : Tree} (h : Derives ebnf flow name tree)
    (isGood : good name) :
    ∃ name' field kind inner start stop children, good name' ∧
      .tree field kind inner ∈ (ebnf name').cases ∧
      inner.Matches (Derives ebnf) flow children ∧ tree = .node kind start stop children := by
  refine Derives.rule_induction (P := fun flow name tree => good name →
    ∃ name' field kind inner start stop children, good name' ∧
      .tree field kind inner ∈ (ebnf name').cases ∧
      inner.Matches (Derives ebnf) flow children ∧ tree = .node kind start stop children) ?_ h isGood
  intro flow name field tree matched isGood
  obtain ⟨q, case, matched⟩ := matched.exists_case
  have rooted := List.all_eq_true.1 (Nonterminal.rooted_ebnf name) q case
  split at rooted
  · exact absurd matched Phrase.Matches.never_iff
  · obtain ⟨_, derived, eq⟩ := Phrase.Matches.part_iff.1 matched
    cases eq
    exact derived.2 (closed name isGood _ _ case)
  · obtain ⟨start, stop, children, inner, eq⟩ := Phrase.Matches.tree_iff.1 matched
    cases eq
    exact ⟨name, field, _, _, start, stop, children, isGood, case,
      inner.mono fun _ _ _ h => h.1, rfl⟩
  · cases rooted

/-- The root of a derived tree is an alternative of some phrase. -/
theorem Derives.root {flow : Flow} {name : Nonterminal} {tree : Tree}
    (h : Derives ebnf flow name tree) :
    ∃ name' field kind inner start stop children, .tree field kind inner ∈ (ebnf name').cases ∧
      inner.Matches (Derives ebnf) flow children ∧ tree = .node kind start stop children := by
  obtain ⟨name', field, kind, inner, start, stop, children, -, root⟩ :=
    h.root_among (fun _ _ _ _ _ => trivial) trivial
  exact ⟨name', field, kind, inner, start, stop, children, root⟩

/-- The root of what is derived from a good name passes what the roots of good names pass. -/
theorem Derives.root_passes {good : Nonterminal → Bool} {check : NodeKind → Phrase → Bool}
    (checked : ∀ name, good name = true → (ebnf name).rootsPass good check = true) {flow : Flow}
    {name : Nonterminal} {tree : Tree} (h : Derives ebnf flow name tree)
    (isGood : good name = true) :
    ∃ kind inner start stop children, check kind inner = true ∧
      inner.Matches (Derives ebnf) flow children ∧ tree = .node kind start stop children := by
  have closed : ∀ name, good name = true → ∀ field part, .part field part ∈ (ebnf name).cases →
      good part = true :=
    fun name isGood _ _ case => List.all_eq_true.1 (checked name isGood) _ case
  obtain ⟨name', _, kind, inner, start, stop, children, isGood, case, root⟩ :=
    h.root_among closed isGood
  have passes := List.all_eq_true.1 (checked name' isGood) _ case
  exact ⟨kind, inner, start, stop, children, passes, root⟩

/-- The good names of the table are checked one by one. -/
theorem Nonterminal.rootsPass_of_all {good : Nonterminal → Bool} {check : NodeKind → Phrase → Bool}
    (checked : (all.all fun name => !good name || (ebnf name).rootsPass good check) = true)
    (name : Nonterminal) (isGood : good name = true) : (ebnf name).rootsPass good check = true := by
  simpa [isGood] using forall_of_all _ checked name

/-- The kinds of the roots of what is derived from a name without parts among its alternatives. -/
theorem Derives.kind_mem {flow : Flow} {name : Nonterminal} {tree : Tree} {kinds : List NodeKind}
    (h : Derives ebnf flow name tree)
    (checked : ((ebnf name).cases.all fun
      | .tree _ kind _ => kinds.contains kind
      | _ => false) = true) : ∃ kind ∈ kinds, tree.kind? = some kind := by
  obtain ⟨_, matched⟩ := iff_matches.1 h
  obtain ⟨q, case, matched⟩ := matched.exists_case
  have checked := List.all_eq_true.1 checked q case
  split at checked
  · rename_i kind _
    obtain ⟨_, _, _, -, eq⟩ := Phrase.Matches.tree_iff.1 matched
    cases eq
    exact ⟨kind, by simpa using checked, rfl⟩
  · cases checked

/-- The root of what is derived from a name with one alternative. -/
theorem Derives.node {flow : Flow} {name : Nonterminal} {tree : Tree} {field : Field}
    {kind : NodeKind} {inner : Phrase} (h : Derives ebnf flow name tree)
    (phrase : ebnf name = .tree field kind inner) :
    ∃ start stop children, inner.Matches (Derives ebnf) flow children ∧
      tree = .node kind start stop children := by
  obtain ⟨_, matched⟩ := iff_matches.1 h
  rw [phrase] at matched
  obtain ⟨start, stop, children, inner, eq⟩ := Phrase.Matches.tree_iff.1 matched
  cases eq
  exact ⟨start, stop, children, inner, rfl⟩

theorem Frame.isOneOf_singleton {kind : NodeKind} {tree : Tree} :
    Frame.isOneOf [kind] tree = true ↔ tree.kind? = some kind := by
  cases tree <;> simp [Frame.isOneOf, Tree.kind?, eq_comm]

/-- The phrase is the token of a name. -/
def Phrase.isNameToken : Phrase → Bool
  | seq (leaf .token [.name]) nil => true
  | _ => false

theorem Nonterminal.isNameToken_ebnf (name : Nonterminal) :
    ((ebnf name).cases.all fun
      | .tree _ .name inner => inner.isNameToken
      | _ => true) = true :=
  forall_of_all (fun name => (ebnf name).cases.all fun
    | .tree _ .name inner => inner.isNameToken
    | _ => true) (by decide) name

/-- A tree of the kind of names is made of one token. -/
theorem Derives.leaf_of_name {flow : Flow} {name : Nonterminal} {tree : Tree}
    (h : Derives ebnf flow name tree) (isName : tree.kind? = some .name) :
    ∃ start stop token, token.kind = .name ∧
      tree = .node .name start stop [(.token, .leaf token)] := by
  obtain ⟨name', field, kind, inner, start, stop, children, case, matched, rfl⟩ := h.root
  simp only [Tree.kind?, Option.some.injEq] at isName
  subst isName
  have shaped := List.all_eq_true.1 (Nonterminal.isNameToken_ebnf name') _ case
  dsimp only at shaped
  unfold Phrase.isNameToken at shaped
  split at shaped
  · obtain ⟨token, mem, rfl⟩ := Phrase.Matches.leaf_iff.1 (Phrase.Matches.last_iff.1 matched)
    exact ⟨start, stop, token, by simpa using mem, rfl⟩
  · cases shaped

/-! ### Elements of dictionaries -/

/-- A node of the kind is an element of a dictionary. -/
def NodeKind.isDictionaryElement (kind : NodeKind) : Bool :=
  [NodeKind.dictEntry, .dictUnpack].contains kind

/-- The trees of the name are no elements of dictionaries, nor do they begin with one. -/
def Nonterminal.plain : Nonterminal → Bool
  | curlyItems | dictItem | dictUnpack => false
  | _ => true

/-- What matches the phrase is no element of a dictionary. -/
def Phrase.plain : Phrase → Bool
  | leaf _ _ | word _ _ => true
  | part _ name => name.plain
  | tree _ kind _ => !kind.isDictionaryElement
  | _ => false

theorem Nonterminal.plain_ebnf (name : Nonterminal) (isPlain : name.plain = true) :
    (ebnf name).rootsPass plain (fun kind inner =>
      !kind.isDictionaryElement && inner.leaders.all Phrase.plain) = true :=
  rootsPass_of_all (by decide) name isPlain

/-- A tree is no element of a dictionary. -/
def Tree.plain (tree : Tree) : Bool := !Frame.isOneOf [.dictEntry, .dictUnpack] tree

/-- What is derived from a plain name is no element of a dictionary. -/
theorem Derives.plain_root {flow : Flow} {name : Nonterminal} {tree : Tree}
    (h : Derives ebnf flow name tree) (plain : name.plain = true) : tree.plain = true := by
  obtain ⟨kind, _, _, _, _, passes, -, rfl⟩ := h.root_passes Nonterminal.plain_ebnf plain
  exact (Bool.and_eq_true_iff.1 passes).1

/-- What matches a plain phrase is no element of a dictionary. -/
theorem Phrase.Matches.plain {flow : Flow} {p : Phrase} {child : Child}
    (h : p.Matches (Derives ebnf) flow [child]) (plain : p.plain = true) :
    child.2.plain = true := by
  unfold Phrase.plain at plain
  split at plain
  · obtain ⟨token, -, eq⟩ := Phrase.Matches.leaf_iff.1 h
    cases eq
    rfl
  · obtain ⟨token, -, eq⟩ := Phrase.Matches.word_iff.1 h
    cases eq
    rfl
  · obtain ⟨_, derived, eq⟩ := Phrase.Matches.part_iff.1 h
    cases eq
    exact derived.plain_root plain
  · obtain ⟨_, _, _, -, eq⟩ := Phrase.Matches.tree_iff.1 h
    cases eq
    exact plain
  · cases plain

/-- Expressions are no elements of dictionaries, nor do they begin with one. -/
theorem Derives.plain {flow : Flow} {name : Nonterminal} {tree : Tree}
    (h : Derives ebnf flow name tree) (plain : name.plain = true) :
    tree.plain = true ∧ tree.children.head?.all (fun child => child.2.plain) = true := by
  refine ⟨h.plain_root plain, ?_⟩
  obtain ⟨kind, inner, start, stop, children, passes, matched, rfl⟩ :=
    h.root_passes Nonterminal.plain_ebnf plain
  cases children with
  | nil => rfl
  | cons child rest =>
      obtain ⟨q, mem, _, led⟩ := matched.leader fun _ _ _ part => part.begins
      exact led.plain (List.all_eq_true.1 (Bool.and_eq_true_iff.1 passes).2 q mem)

/-- An expression is not taken for an element of a dictionary. -/
theorem Derives.not_beginsDictionary {flow : Flow} {name : Nonterminal} {tree : Tree}
    (h : Derives ebnf flow name tree) (plain : name.plain = true) (field : Field) :
    Ebnf.beginsDictionary [(field, tree)] = false := by
  obtain ⟨here, first⟩ := h.plain plain
  simp only [Tree.plain, Bool.not_eq_true'] at here
  simp only [Ebnf.beginsDictionary, List.head?_cons, Option.any_some, here, Bool.false_or]
  cases eq : tree.children.head? with
  | none => rfl
  | some child => simpa [eq, Tree.plain] using first

end PythonSyntax
