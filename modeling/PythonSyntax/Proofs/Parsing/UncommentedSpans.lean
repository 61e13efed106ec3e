/-
**Spans without type comments.**

A node that is parsed spans its tokens, and without its type comments it spans those that are left.
For no node begins with a type comment, and of all nodes only an assignment ends with one; without
it, the assignment ends with its value.  Trees that span their tokens are known from their tokens and
their shapes.

Main definitions:

* `PythonSyntax.EndsPlain` — the last token that does not mark a block is no type comment;
* `PythonSyntax.Phrase.endsPlain`, `PythonSyntax.Nonterminal.endsPlain` — so end all children that
  are as a phrase says, and the trees of a name;
* `PythonSyntax.Tree.Sheds` — what is known of the nodes of derived trees.

Main results:

* `PythonSyntax.Tree.eq_of_bare` — trees that span their tokens are the same if they are so up to
  spans;
* `PythonSyntax.Derives.sheds` — the nodes of derived trees;
* `PythonSyntax.Tree.Sheds.spansTokens` — **without its type comments a node spans the tokens that are
  left**.
-/

import PythonSyntax.Proofs.Parsing.Spans
import PythonSyntax.Proofs.Syntax.Uncommented

set_option autoImplicit false

namespace PythonSyntax

open Phrase (Matches)

/-! ### Trees that span their tokens -/

namespace Tree

variable {one two tree : Tree}

/-- All nodes of the tree span their tokens. -/
def Spanning (tree : Tree) : Prop := ∀ inner ∈ tree.subtrees, inner.kind? ≠ none → inner.SpansTokens

/-- Where a tree begins and ends is known from its tokens. -/
theorem SpansTokens.unique (h : one.SpansTokens) (h' : two.SpansTokens)
    (same : one.tokens = two.tokens) : one.start = two.start ∧ one.stop = two.stop := by
  obtain ⟨first, last, head, ends, start, stop⟩ := h
  obtain ⟨first', last', head', ends', start', stop'⟩ := h'
  rw [same, head'] at head
  rw [same, ends'] at ends
  cases head
  cases ends
  exact ⟨start.trans start'.symm, stop.trans stop'.symm⟩

mutual

/-- **Trees that span their tokens are the same if they are so up to spans.** -/
theorem eq_of_bare : (one two : Tree) → one.Spanning → two.Spanning → one.bare = two.bare →
    one = two
  | .leaf token, two, _, _, bare => (eq_leaf_of_bare bare.symm).symm
  | .node _ _ _ _, .leaf _, _, _, bare => nomatch bare
  | .node kind start stop children, .node kind' start' stop' children', spans, spans', bare => by
      obtain ⟨same, alike⟩ : kind = kind' ∧ bareOf children = bareOf children' := by
        simpa using bare
      obtain rfl := same
      obtain rfl := eq_of_bareOf children children'
        (fun inner mem => spans inner (List.mem_cons_of_mem _ mem))
        (fun inner mem => spans' inner (List.mem_cons_of_mem _ mem)) alike
      -- The tokens are the same now, and they tell the span.
      obtain ⟨rfl, rfl⟩ : start = start' ∧ stop = stop' :=
        (spans _ List.mem_cons_self nofun).unique (spans' _ List.mem_cons_self nofun) rfl
      rfl

theorem eq_of_bareOf : (one two : List (Field × Tree)) →
    (∀ inner ∈ subtreesOf one, inner.kind? ≠ none → inner.SpansTokens) →
    (∀ inner ∈ subtreesOf two, inner.kind? ≠ none → inner.SpansTokens) →
      bareOf one = bareOf two → one = two
  | [], two, _, _, bare => (bareOf_eq_nil bare.symm).symm
  | (field, tree) :: rest, two, spans, spans', bare => by
      obtain ⟨tree', rest', rfl, alike, others⟩ := bareOf_eq_cons bare.symm
      obtain rfl := eq_of_bare tree tree'
        (fun inner mem => spans inner (List.mem_append_left _ mem))
        (fun inner mem => spans' inner (List.mem_append_left _ mem)) alike.symm
      obtain rfl := eq_of_bareOf rest rest'
        (fun inner mem => spans inner (List.mem_append_right _ mem))
        (fun inner mem => spans' inner (List.mem_append_right _ mem)) others.symm
      rfl

end

end Tree

/-! ### The last tokens of derived trees -/

/-- The last token that does not mark a block is no type comment. -/
def EndsPlain (tokens : List Token) : Prop :=
  ∀ last ∈ (withoutMarks tokens).getLast?, last.kind ≠ .typeComment

theorem withoutMarks_append (first second : List Token) :
    withoutMarks (first ++ second) = withoutMarks first ++ withoutMarks second :=
  List.filter_append ..

theorem withoutMarks_cons (token : Token) (rest : List Token) : withoutMarks (token :: rest) =
    if token.kind.isBlockMark then withoutMarks rest else token :: withoutMarks rest := by
  unfold withoutMarks
  cases mark : token.kind.isBlockMark <;> simp [mark]

namespace EndsPlain

variable {first second : List Token}

theorem single {token : Token} (other : token.kind ≠ .typeComment) : EndsPlain [token] := by
  intro last mem
  have among := (List.mem_filter.1 (List.mem_of_getLast? mem)).1
  rwa [List.mem_singleton.1 among]

theorem nil : EndsPlain [] := nofun

/-- The first tokens matter only if the second ones are marks. -/
theorem append (h : EndsPlain second) (h' : withoutMarks second = [] → EndsPlain first) :
    EndsPlain (first ++ second) := by
  intro last mem
  rw [withoutMarks_append, List.getLast?_append] at mem
  cases ends : (withoutMarks second).getLast? with
  | some other =>
      rw [ends] at mem
      exact h last (ends ▸ mem)
  | none =>
      rw [ends] at mem
      exact h' (List.getLast?_eq_none_iff.1 ends) last mem

end EndsPlain

/-- The trees of the name do not end with a type comment. -/
def Nonterminal.endsPlain : Nonterminal → Bool
  | smallStatement | exprStatement => false
  | _ => true

namespace Phrase

/-- There are tokens, and the first does not mark a block. -/
def beginsUnmarked (p : Phrase) : Bool :=
  !p.nullable && (p.heads Nonterminal.heads).disjoint (.ofList [.indent, .dedent])

/-- The last token of the phrase, but for the marks of blocks, is no type comment. -/
def endsPlain : Phrase → Bool
  | never | nil | needs _ | word _ _ => true
  | leaf _ kinds => !kinds.contains .typeComment
  | part _ name => name.endsPlain
  | seq first second => second.endsPlain && (first.endsPlain || second.beginsUnmarked)
  | alt first second => first.endsPlain && second.endsPlain
  | further _ kinds inner => !kinds.contains .typeComment && inner.endsPlain
  | tree _ _ inner | many inner | atLeastOne inner | inside _ inner | such _ inner =>
    inner.endsPlain

variable {D : Flow → Nonterminal → Tree → Prop} {flow : Flow} {p : Phrase} {children : List Child}

open PythonSyntax.Tree

/-- Children that begin unmarked have a token that marks no block. -/
theorem Matches.withoutMarks_ne_nil
    (begins : ∀ flow name tree, D flow name tree → Begins name.heads tree.tokens)
    (h : Matches D flow p children) (unmarked : p.beginsUnmarked = true) :
    withoutMarks (tokensOf children) ≠ [] := by
  simp only [beginsUnmarked, Bool.and_eq_true, Bool.not_eq_true'] at unmarked
  rcases h.begins begins with ⟨-, null⟩ | begins
  · rw [unmarked.1] at null
    cases null
  · obtain ⟨first, rest, eq, other⟩ := begins.unmarked unmarked.2
    exact List.ne_nil_of_mem (List.mem_filter.2 ⟨eq ▸ List.mem_cons_self, by simp [other]⟩)

/-- **Children end plainly where the phrase does**, if the parts do. -/
theorem Matches.endsPlain
    (begins : ∀ flow name tree, D flow name tree → Begins name.heads tree.tokens)
    (parts : ∀ flow name tree, D flow name tree → name.endsPlain = true → EndsPlain tree.tokens)
    (h : Matches D flow p children) (plain : p.endsPlain = true) :
    EndsPlain (tokensOf children) := by
  induction h with
  | nil | stop | noFurther | needs _ => exact .nil
  | leaf mem => exact .single (ne_of_contains mem plain)
  | word spelled =>
      simp only [Token.spells, Bool.and_eq_true, decide_eq_true_eq] at spelled
      exact .single (by simp [spelled.1])
  | part derived =>
      rw [tokensOf_single]
      exact parts _ _ _ derived plain
  | tree start stop _ ih =>
      rw [tokensOf_single]
      exact ih plain
  | seq _ matched ih ih' =>
      simp only [Phrase.endsPlain, Bool.and_eq_true, Bool.or_eq_true] at plain
      rw [tokensOf_append]
      refine (ih' plain.1).append fun none => ih (plain.2.resolve_right fun unmarked => ?_)
      exact matched.withoutMarks_ne_nil begins unmarked none
  | left _ ih =>
      simp only [Phrase.endsPlain, Bool.and_eq_true] at plain
      exact ih plain.1
  | right _ ih =>
      simp only [Phrase.endsPlain, Bool.and_eq_true] at plain
      exact ih plain.2
  | more _ _ ih ih' | atLeastOne _ _ ih ih' =>
      rw [tokensOf_append]
      exact (ih' plain).append fun _ => ih plain
  | lastSeparator mem =>
      simp only [Phrase.endsPlain, Bool.and_eq_true] at plain
      exact .single (ne_of_contains mem plain.1)
  | further mem _ _ ih ih' =>
      have both := plain
      simp only [Phrase.endsPlain, Bool.and_eq_true] at both
      rw [tokensOf_cons, tokensOf_append]
      exact ((ih' plain).append fun _ => ih both.2).append fun _ =>
        .single (ne_of_contains mem both.1)
  | inside _ ih | such _ _ ih => exact ih plain

end Phrase

theorem Nonterminal.endsPlain_ebnf (name : Nonterminal) :
    (!name.endsPlain || (ebnf name).endsPlain) = true :=
  forall_of_all (fun name => !name.endsPlain || (ebnf name).endsPlain) (by decide) name

/-- **No derived tree ends with a type comment**, but for small statements. -/
theorem Derives.endsPlain {flow : Flow} {name : Nonterminal} {tree : Tree}
    (h : Derives ebnf flow name tree) (plain : name.endsPlain = true) : EndsPlain tree.tokens := by
  refine h.rule_induction (P := fun _ name tree => name.endsPlain = true → EndsPlain tree.tokens) ?_
    plain
  intro flow name field tree matched plain
  have checked := name.endsPlain_ebnf
  rw [plain, Bool.not_true, Bool.false_or] at checked
  have ends := matched.endsPlain (fun _ _ _ part => part.1.begins) (fun _ _ _ part => part.2) checked
  rwa [Tree.tokensOf_single] at ends

/-! ### Nodes of derived trees -/

/-- The tokens but for type comments. -/
def withoutComments (tokens : List Token) : List Token :=
  tokens.filter fun token => token.kind != .typeComment

theorem withoutComments_append (first second : List Token) :
    withoutComments (first ++ second) = withoutComments first ++ withoutComments second :=
  List.filter_append ..

/-- Tokens are folded where they stand. -/
theorem map_stop_foldComments (before : List Trivia) (tokens : List Token) :
    (withoutMarks (foldComments before tokens)).map Token.stop =
      (withoutMarks (withoutComments tokens)).map Token.stop := by
  induction tokens generalizing before with
  | nil => rfl
  | cons token rest ih =>
      by_cases typed : token.kind = .typeComment
      · have shed : withoutComments (token :: rest) = withoutComments rest :=
          List.filter_cons_of_neg (by simp [typed])
        rw [foldComments_cons_of_eq typed, shed, ih]
      · have kept : withoutComments (token :: rest) = token :: withoutComments rest :=
          List.filter_cons_of_pos (by simpa using typed)
        rw [foldComments_cons_of_ne typed, kept, withoutMarks_cons, withoutMarks_cons,
          Token.kind_behind]
        split
        · exact ih []
        · exact congrArg (token.stop :: ·) (ih [])

/-- The last token is the last one besides type comments, if it is none. -/
theorem EndsPlain.getLast? {tokens : List Token} {last : Token} (h : EndsPlain tokens)
    (ends : (withoutMarks tokens).getLast? = some last) :
    (withoutMarks (withoutComments tokens)).getLast? = some last := by
  have plain := h last ends
  have swapped : withoutMarks (withoutComments tokens) = withoutComments (withoutMarks tokens) := by
    simp only [withoutMarks, withoutComments, List.filter_filter, Bool.and_comm]
  obtain ⟨front, eq⟩ := List.getLast?_eq_some_iff.1 ends
  rw [swapped, eq, withoutComments_append, withoutComments,
    withoutComments, List.filter_cons_of_pos (by simpa using plain), List.filter_nil,
    List.getLast?_concat]

namespace Tree

/-- What is known of the nodes of derived trees: without its type comments, a node has the tokens
that are left, behind what has been left to them; the first of its tokens is no type comment; and if
it spans its tokens, its end without a type comment is that of the tokens that are left. -/
structure Sheds (tree : Tree) : Prop where
  tokens : ∀ before, (tree.uncommented before).tokens = foldComments before tree.tokens
  first : ∃ first rest, tree.tokens = first :: rest ∧ first.kind ≠ .typeComment
  stop : tree.Spanning → ∃ last, (withoutMarks (withoutComments tree.tokens)).getLast? = some last ∧
    tree.uncommentedStop = last.stop

/-- **Without its type comments a node spans the tokens that are left.** -/
theorem Sheds.spansTokens {tree : Tree} (h : tree.Sheds) (spanning : tree.Spanning)
    (node : tree.kind? ≠ none) (before : List Trivia) : (tree.uncommented before).SpansTokens := by
  obtain ⟨first, rest, eq, other⟩ := h.first
  obtain ⟨last, ends, stop⟩ := h.stop spanning
  have stops := congrArg List.getLast? (map_stop_foldComments before tree.tokens)
  rw [List.getLast?_map, List.getLast?_map, ends, ← h.tokens] at stops
  obtain ⟨last', ends', same⟩ := Option.map_eq_some_iff.1 stops
  refine ⟨first.behind before, last', ?_, ends', ?_, ?_⟩
  · rw [h.tokens, eq, foldComments_cons_of_ne other]
    rfl
  · obtain ⟨first', _, head, -, start, -⟩ := spanning tree tree.mem_subtrees_self node
    rw [eq] at head
    cases head
    cases tree with
    | leaf token => exact absurd rfl node
    | node kind start' stop children => exact start
  · cases tree with
    | leaf token => exact absurd rfl node
    | node kind start stop' children => exact stop.trans same.symm

/-- All nodes of a tree span what is left of their tokens, if they span their tokens. -/
theorem Spanning.uncommented {tree : Tree} (h : tree.Spanning)
    (sheds : ∀ inner ∈ tree.subtrees, inner.kind? ≠ none → inner.Sheds) (before : List Trivia) :
    (tree.uncommented before).Spanning := by
  intro inner mem node
  obtain ⟨other, among, before', rfl⟩ := mem_subtrees_uncommented tree before mem
  rw [kind?_uncommented] at node
  exact (sheds other among node).spansTokens
    (fun deep inside => h deep ((subtrees_of_mem tree among).1 deep inside)) node before'

/-- A node that is no assignment ends with a token that is left, if it ends plainly. -/
theorem Spanning.stop_of_endsPlain {kind : NodeKind} {start stop : Nat} {children : List Child}
    (spanning : (node kind start stop children).Spanning) (other : kind ≠ .assignment)
    (plain : EndsPlain (tokensOf children)) :
    ∃ last, (withoutMarks (withoutComments (tokensOf children))).getLast? = some last ∧
      (node kind start stop children).uncommentedStop = last.stop := by
  obtain ⟨-, last, -, unmarked, -, stops⟩ := spanning _ List.mem_cons_self nofun
  have unlike : (node kind start stop children).kind? ≠ some .assignment :=
    fun same => other (Option.some.inj same)
  exact ⟨last, plain.getLast? unmarked, (uncommentedStop_of_ne unlike).trans stops⟩

end Tree

/-! ### Assignments -/

namespace Phrase

/-- The phrase ends with a value and perhaps a type comment. -/
def assigns : Phrase → Bool
  | seq first (seq second (seq (part .value name) (seq (alt comment nil) nil))) =>
    first.lacks .value && second.lacks .value && name.endsPlain && optsComment comment nil
  | _ => false

/-- A node of the kind that is made of the phrase sheds its type comments. -/
def shedsAs (kind : NodeKind) (p : Phrase) : Bool :=
  p.sheds && !p.nullable && (p.heads Nonterminal.heads).disjoint (.ofList [.typeComment]) &&
    if kind = .assignment then p.assigns else p.endsPlain

variable {D : Flow → Nonterminal → Tree → Prop} {flow : Flow} {p : Phrase} {children : List Child}

open PythonSyntax.Tree

/-- The value of an assignment, with what is before it and the type comment after it. -/
theorem Matches.of_assigns (h : Matches D flow p children) (assigns : p.assigns = true) :
    ∃ front value after name, children = front ++ (.value, value) :: after ∧
      front.filter (fun child => child.1 = .value) = [] ∧ D flow name value ∧
      name.endsPlain = true ∧ withoutComments (tokensOf after) = [] := by
  unfold Phrase.assigns at assigns
  split at assigns
  · rename_i one two name comment
    simp only [Bool.and_eq_true] at assigns
    obtain ⟨⟨⟨lacks, lacks'⟩, plain⟩, opts⟩ := assigns
    obtain ⟨rfl, -⟩ := eq_of_optsComment opts
    obtain ⟨first, _, matched, others, rfl⟩ := seq_iff.1 h
    obtain ⟨second, _, matched', rest, rfl⟩ := seq_iff.1 others
    obtain ⟨_, after, isPart, last, rfl⟩ := seq_iff.1 rest
    obtain ⟨value, derived, rfl⟩ := part_iff.1 isPart
    refine ⟨first ++ second, value, after, name, by simp, ?_, derived, plain, ?_⟩
    · rw [List.filter_append, matched.filter_lacks lacks, matched'.filter_lacks lacks']
      rfl
    · rcases alt_iff.1 (last_iff.1 last) with typed | none
      · obtain ⟨token, mem, rfl⟩ := leaf_iff.1 typed
        have typed : token.kind = .typeComment := by simpa using mem
        simp [withoutComments, typed]
      · rw [nil_iff.1 none]
        rfl
  · cases assigns

/-- Without its type comment an assignment ends with its value, where the tokens that are left end. -/
theorem Matches.stop_of_assigns {start stop : Nat} (h : Matches (Derives ebnf) flow p children)
    (assigns : p.assigns = true) (spanning : (Tree.node .assignment start stop children).Spanning) :
    ∃ last, (withoutMarks (withoutComments (tokensOf children))).getLast? = some last ∧
      (Tree.node .assignment start stop children).uncommentedStop = last.stop := by
  obtain ⟨front, value, after, name, rfl, none, derived, plain, comments⟩ := h.of_assigns assigns
  have among : value ∈ subtreesOf (front ++ (.value, value) :: after) :=
    mem_subtreesOf.2 ⟨_, List.mem_append_right _ List.mem_cons_self, value.mem_subtrees_self⟩
  have found : (Tree.node .assignment start stop (front ++ (.value, value) :: after)).childAt? .value
      = some value := by
    rw [childAt?, childrenAt, children, List.filter_append, none]
    rfl
  -- The value is a node, and so it spans its tokens.
  obtain ⟨_, _, _, _, _, _, _, _, _, rfl⟩ := derived.root
  obtain ⟨-, last, -, unmarked, -, stops⟩ := spanning _ (List.mem_cons_of_mem _ among) nofun
  refine ⟨last, ?_, (uncommentedStop_of_assignment rfl found).trans stops⟩
  -- Behind the value there is nothing but its type comment.
  rw [tokensOf_append, tokensOf_cons, withoutComments_append, withoutComments_append, comments,
    List.append_nil, withoutMarks_append, List.getLast?_append,
    (derived.endsPlain plain).getLast? unmarked]
  rfl

/-- **A node that is made of a phrase sheds its type comments.** -/
theorem Matches.node_sheds {kind : NodeKind} (h : Matches (Derives ebnf) flow p children)
    (checked : p.shedsAs kind = true) (start stop : Nat) :
    (Tree.node kind start stop children).Sheds := by
  simp only [shedsAs, Bool.and_eq_true, Bool.not_eq_true'] at checked
  obtain ⟨⟨⟨sheds, filled⟩, heads⟩, ends⟩ := checked
  have begins : ∀ flow name tree, Derives ebnf flow name tree → Begins name.heads tree.tokens :=
    fun _ _ _ part => part.begins
  refine ⟨?_, ?_, fun spanning => ?_⟩
  · exact h.tokens_uncommented (fun _ _ _ part => part.tokens_uncommented) sheds
  · rcases h.begins begins with ⟨-, null⟩ | ⟨first, rest, eq, mem⟩
    · rw [filled] at null
      cases null
    · refine ⟨first, rest, eq, fun typed => ?_⟩
      have other := KindSet.not_mem_of_disjoint heads mem
      simp [typed] at other
  · split at ends
    · rename_i isAssignment
      subst isAssignment
      exact h.stop_of_assigns ends spanning
    · rename_i other
      exact spanning.stop_of_endsPlain other
        (h.endsPlain begins (fun _ _ _ part => part.endsPlain) ends)

end Phrase

theorem Nonterminal.shedsAs_ebnf (name : Nonterminal) :
    ((ebnf name).trees.all fun made => made.2.shedsAs made.1) = true :=
  forall_of_all (fun name => (ebnf name).trees.all fun made => made.2.shedsAs made.1)
    (by decide) name

/-- **The nodes of a derived tree shed their type comments.** -/
theorem Derives.sheds {flow : Flow} {name : Nonterminal} {tree : Tree}
    (h : Derives ebnf flow name tree) : ∀ inner ∈ tree.subtrees, inner.kind? ≠ none → inner.Sheds := by
  refine h.forall_subtrees (P := fun inner => inner.kind? ≠ none → inner.Sheds)
    (fun token node => absurd rfl node) ?_
  intro name kind inner flow start stop children made matched _
  exact matched.node_sheds (List.all_eq_true.1 name.shedsAs_ebnf _ made) start stop

end PythonSyntax
