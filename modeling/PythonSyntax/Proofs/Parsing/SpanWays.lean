/-
**The ways to the span of a node.**

A session makes all nodes in one way: a node begins where its first piece does, and ends at the end
that is remembered.  A parser may as well note where it stands before it begins with a node, or take
the end of the last piece, or put an assignment together when its value has been found.  All these
ways lead to the same spans.

Main definitions:

* `PythonSyntax.Tree.WaysAgree` — the span of a node is that of its tokens and that of its pieces;
* `PythonSyntax.Phrase.lacksMarks` — no child is the mark of a block;
* `PythonSyntax.Phrase.chains` — the phrase is that of an assignment to one or more targets.

Main results:

* `PythonSyntax.Session.reads_span` — what a call reads begins where the session stood, and ends at
  the end that is remembered;
* `PythonSyntax.Session.parse_waysAgree` — **the tokens and the pieces of a node agree on its
  span**, and only blocks end with a mark;
* `PythonSyntax.Session.parse_assignment` — **assignments are put together from their parts**.
-/

import PythonSyntax.Proofs.Parsing.Spans

set_option autoImplicit false

namespace PythonSyntax

open Phrase (Matches)

/-! ### Tokens and pieces -/

namespace Tree

/-- The tree is the mark of a block. -/
def marksBlock : Tree → Bool
  | .leaf token => token.kind.isBlockMark
  | .node .. => false

@[simp] theorem marksBlock_leaf (token : Token) :
    (leaf token).marksBlock = token.kind.isBlockMark := rfl

@[simp] theorem marksBlock_node (kind : NodeKind) (start stop : Nat) (children : List Child) :
    (node kind start stop children).marksBlock = false := rfl

/-- The span of a node is that of its tokens, it begins where its first piece does, and it ends
where its last one does, but for the mark of a block. -/
structure WaysAgree (node : Tree) : Prop where
  tokens : node.SpansTokens
  first : ∀ child ∈ node.children.head?, node.start = child.2.start
  last : ∀ child ∈ node.children.getLast?, child.2.marksBlock = false → node.stop = child.2.stop

namespace Accounted

variable {tree : Tree}

/-- The end that is remembered after a tree is the end of the tree. -/
theorem stopAfter_eq (h : tree.Accounted) (plain : tree.marksBlock = false) (before : Nat) :
    stopAfter before tree.tokens = tree.stop := by
  cases tree with
  | leaf token =>
      rw [marksBlock_leaf] at plain
      simp [stopAfter, plain, stop]
  | node kind start stop children =>
      obtain ⟨-, last, -, ends, -, stops⟩ := h.spansTokens nofun
      exact (PythonSyntax.stopAfter_eq before ends).trans stops.symm

/-- **The ways to the span of a node agree.** -/
theorem waysAgree (h : tree.Accounted) (node : tree.kind? ≠ none) : tree.WaysAgree := by
  cases tree with
  | leaf token => exact absurd rfl node
  | node kind start stop children =>
      obtain ⟨begins, before, ends⟩ := h.spanned _ List.mem_cons_self
      refine ⟨h.spansTokens node, begins, fun child last plain => ?_⟩
      obtain ⟨front, rfl⟩ := List.getLast?_eq_some_iff.1 last
      have inside : child.2.Accounted :=
        h.child (List.mem_append_right _ (List.mem_singleton_self child))
      calc stop
          = stopAfter before (tokensOf (front ++ [child])) := ends
        _ = stopAfter (stopAfter before (tokensOf front)) child.2.tokens := by
            rw [tokensOf_append, stopAfter_append, tokensOf_cons, tokensOf_nil, List.append_nil]
        _ = child.2.stop := inside.stopAfter_eq plain _

end Accounted

end Tree

/-- What is derived from a name does not mark a block. -/
theorem Derives.marksBlock {flow : Flow} {name : Nonterminal} {tree : Tree}
    (h : Derives ebnf flow name tree) : tree.marksBlock = false := by
  obtain ⟨_, _, _, _, _, _, _, _, _, rfl⟩ := h.root
  rfl

namespace Session

variable {σ : Type} [Cursor σ]

/-- **What a call reads begins where the session stood, and ends where it then remembers to have
been.** -/
theorem reads_span {name : Nonterminal} {s t : Session σ} {pieces : Frame}
    (h : Reads Grammar.python name s pieces t) (enters : name.enters s.current = true) :
    ∃ field tree, pieces = [(field, tree)] ∧ tree.start = s.position ∧ tree.stop = t.lastStop := by
  obtain ⟨field, tree, rfl, derived⟩ := reads_derived h enters
  obtain ⟨-, tokens, path, passed⟩ := reads_path h
  have spans := reads_spans h
  have tokens_eq : Frame.tokens [(field, tree)] = tree.tokens := by simp
  have accounted : tree.Accounted :=
    ⟨spans.nodes _ (List.mem_singleton_self _), derived.unmarked⟩
  have node : tree.kind? ≠ none := by
    obtain ⟨_, _, _, _, _, _, _, _, _, rfl⟩ := derived.root
    exact nofun
  refine ⟨field, tree, rfl, ?_, ?_⟩
  · obtain ⟨first, -, head, -, begins, -⟩ := accounted.spansTokens node
    rw [tokens_eq, Frame.tokens_nil, List.nil_append] at passed
    obtain ⟨rest, eq⟩ := List.head?_eq_some_iff.1 (passed ▸ head)
    rw [eq] at path
    have here : s.current = first := (Path.cons_iff.1 path).1
    rw [begins, position, here]
  · rw [spans.stop, tokens_eq, accounted.stopAfter_eq derived.marksBlock]

end Session

/-! ### Marks among the pieces -/

namespace Phrase

/-- No child is the mark of a block. -/
def lacksMarks : Phrase → Bool
  | never | nil | needs _ | word _ _ | part _ _ | tree _ _ _ => true
  | leaf _ kinds => kinds.all fun kind => !kind.isBlockMark
  | seq first second | alt first second => first.lacksMarks && second.lacksMarks
  | further _ kinds inner => (kinds.all fun kind => !kind.isBlockMark) && inner.lacksMarks
  | many inner | atLeastOne inner | inside _ inner | such _ inner => inner.lacksMarks

/-- The phrase of a node of the kind names marks of blocks only if the node is a block, or a `match`
statement, which is one with its header. -/
def marksAs (kind : NodeKind) (p : Phrase) : Bool :=
  kind = .block || kind = .matchStatement || p.lacksMarks

theorem marksBlock_of_all {kinds : List TokenKind} {token : Token}
    (mem : kinds.contains token.kind = true)
    (plain : (kinds.all fun kind => !kind.isBlockMark) = true) :
    (Tree.leaf token).marksBlock = false := by
  have other := List.all_eq_true.1 plain _ (List.contains_iff_mem.1 mem)
  simpa using other

theorem Matches.marksBlock {flow : Flow} {p : Phrase} {children : List Child}
    (h : Matches (Derives ebnf) flow p children) (lacks : p.lacksMarks = true) :
    ∀ child ∈ children, child.2.marksBlock = false := by
  induction h with
  | nil | stop | noFurther | needs _ => simp
  | leaf mem => simpa using marksBlock_of_all mem lacks
  | @word _ _ _ token spelled =>
      simp only [Token.spells, Bool.and_eq_true, decide_eq_true_eq] at spelled
      have other : token.kind.isBlockMark = false := congrArg TokenKind.isBlockMark spelled.1
      simpa using other
  | part derived => simpa using derived.marksBlock
  | tree _ _ _ _ => simp
  | seq _ _ ih ih' =>
      simp only [lacksMarks, Bool.and_eq_true] at lacks
      exact List.forall_mem_append.2 ⟨ih lacks.1, ih' lacks.2⟩
  | left _ ih =>
      simp only [lacksMarks, Bool.and_eq_true] at lacks
      exact ih lacks.1
  | right _ ih =>
      simp only [lacksMarks, Bool.and_eq_true] at lacks
      exact ih lacks.2
  | more _ _ ih ih' | atLeastOne _ _ ih ih' =>
      exact List.forall_mem_append.2 ⟨ih lacks, ih' lacks⟩
  | lastSeparator mem =>
      simp only [lacksMarks, Bool.and_eq_true] at lacks
      simpa using marksBlock_of_all mem lacks.1
  | further mem _ _ ih ih' =>
      have both := lacks
      simp only [lacksMarks, Bool.and_eq_true] at both
      refine List.forall_mem_cons.2 ⟨marksBlock_of_all mem both.1, ?_⟩
      exact List.forall_mem_append.2 ⟨ih both.2, ih' lacks⟩
  | inside _ ih | such _ _ ih => exact ih lacks

end Phrase

theorem Nonterminal.marksAs_ebnf (name : Nonterminal) :
    ((ebnf name).trees.all fun made => made.2.marksAs made.1) = true :=
  forall_of_all (fun name => (ebnf name).trees.all fun made => made.2.marksAs made.1)
    (by decide) name

/-- **The tokens and the pieces of every node agree on its span.**  Only a block, or a `match`
statement, may end behind its last piece, which then is a mark. -/
theorem Session.parse_waysAgree {σ : Type} [Cursor σ] {entry : Entry} {s t : Session σ}
    {tree : Tree} (h : s.parse entry = (.ok tree, t)) :
    ∀ node ∈ tree.subtrees, node.kind? ≠ none → node.tokens ≠ [] → node.WaysAgree ∧
      (node.kind? ≠ some .block → node.kind? ≠ some .matchStatement →
        ∀ child ∈ node.children.getLast?, node.stop = child.2.stop) := by
  have plain := Session.forall_subtrees_of_parse
    (P := fun node => node.kind? ≠ some .block → node.kind? ≠ some .matchStatement →
      ∀ child ∈ node.children, child.2.marksBlock = false)
    (fun kind p => p.marksAs kind) (fun _ _ _ _ mem => nomatch mem)
    (fun matched checked _ _ notBlock notMatch => by
      simp only [Tree.kind?, ne_eq, Option.some.injEq] at notBlock notMatch
      exact matched.marksBlock (by simpa [Phrase.marksAs, notBlock, notMatch] using checked))
    Nonterminal.marksAs_ebnf (fun entry => by cases entry <;> exact ⟨rfl, rfl⟩)
    (congrArg Prod.fst h)
  intro node mem isNode filled
  have ways := (Session.parse_accounted h mem filled).waysAgree isNode
  exact ⟨ways, fun notBlock notMatch child last =>
    ways.last child last (plain node mem notBlock notMatch child (List.mem_of_getLast? last))⟩

/-! ### Assignments -/

namespace Phrase

/-- The phrase is that of a target with the sign after it. -/
def aims : Phrase → Bool
  | tree .targets .assignTarget
      (seq (part .target _) (seq (leaf .op [.symbol .assign]) nil)) => true
  | _ => false

/-- The phrase is that of one or more targets, a value, and perhaps a type comment. -/
def chains : Phrase → Bool
  | seq first (seq (many more) (seq (part .value _)
      (seq (alt (leaf .typeComment [.typeComment]) nil) nil))) => first.aims && more.aims
  | _ => false

open PythonSyntax.Tree

variable {D : Flow → Nonterminal → Tree → Prop} {flow : Flow} {p : Phrase} {children : List Child}

/-- A target is put together from what is assigned to and the sign after it. -/
theorem Matches.of_aims (h : Matches D flow p children) (aims : p.aims = true)
    (accounted : ∀ child ∈ children, child.2.Accounted) :
    ∃ target op, children = [(.targets, assignTarget target op)] := by
  unfold Phrase.aims at aims
  split at aims
  · obtain ⟨start, stop, inner, matched, rfl⟩ := tree_iff.1 h
    obtain ⟨_, _, one, two, rfl⟩ := seq_iff.1 matched
    obtain ⟨target, -, rfl⟩ := part_iff.1 one
    obtain ⟨op, sign, rfl⟩ := leaf_iff.1 (last_iff.1 two)
    have sign : op.kind = .symbol .assign := by simpa using sign
    have ways := (accounted _ (List.mem_singleton_self _)).waysAgree nofun
    obtain rfl : start = target.start := ways.first _ rfl
    obtain rfl : stop = op.stop := ways.last _ rfl (congrArg TokenKind.isBlockMark sign)
    exact ⟨target, op, rfl⟩
  · cases aims

theorem Matches.of_many_aims (h : Matches D flow (.many p) children) (aims : p.aims = true)
    (accounted : ∀ child ∈ children, child.2.Accounted) :
    ∃ more : List (Tree × Token), children =
      more.map fun target => (.targets, assignTarget target.1 target.2) := by
  generalize eq : Phrase.many p = phrase at h
  induction h with
  | stop => exact ⟨[], rfl⟩
  | more first _ _ ih =>
      cases eq
      obtain ⟨target, op, rfl⟩ := first.of_aims aims fun child mem =>
        accounted child (List.mem_append_left _ mem)
      obtain ⟨more, rfl⟩ := ih (fun child mem => accounted child (List.mem_append_right _ mem)) rfl
      exact ⟨(target, op) :: more, rfl⟩
  | _ => cases eq

/-- **An assignment is put together from its targets, its value and its type comment.** -/
theorem Matches.eq_assignment {start stop : Nat} (h : Matches (Derives ebnf) flow p children)
    (chains : p.chains = true) (accounted : (Tree.node .assignment start stop children).Accounted) :
    ∃ first more value typeComment,
      Tree.node .assignment start stop children = assignment first more value typeComment := by
  have inside : ∀ child ∈ children, child.2.Accounted := fun _ => accounted.child
  have ways := accounted.waysAgree nofun
  unfold Phrase.chains at chains
  split at chains
  · rw [Bool.and_eq_true] at chains
    obtain ⟨_, _, one, others, rfl⟩ := seq_iff.1 h
    obtain ⟨_, _, several, rest, rfl⟩ := seq_iff.1 others
    obtain ⟨_, comment, isValue, last, rfl⟩ := seq_iff.1 rest
    obtain ⟨target, op, rfl⟩ := one.of_aims chains.1 fun child mem =>
      inside child (List.mem_append_left _ mem)
    obtain ⟨more, rfl⟩ := several.of_many_aims chains.2 fun child mem =>
      inside child (List.mem_append_right _ (List.mem_append_left _ mem))
    obtain ⟨value, derived, rfl⟩ := part_iff.1 isValue
    have begins : start = target.start := ways.first _ rfl
    rcases alt_iff.1 (last_iff.1 last) with typed | nothing
    · obtain ⟨token, kind, rfl⟩ := leaf_iff.1 typed
      have kind : token.kind = .typeComment := by simpa using kind
      have ends : stop = token.stop := by
        refine ways.last (.typeComment, .leaf token) ?_ (congrArg TokenKind.isBlockMark kind)
        rw [Tree.children, List.getLast?_append, List.getLast?_append, List.getLast?_append]
        rfl
      refine ⟨(target, op), more, value, some token, ?_⟩
      simp [assignment, begins, ends]
    · obtain rfl := nil_iff.1 nothing
      have ends : stop = value.stop := by
        refine ways.last (.value, value) ?_ derived.marksBlock
        rw [Tree.children, List.append_nil, List.getLast?_append, List.getLast?_append]
        rfl
      refine ⟨(target, op), more, value, none, ?_⟩
      simp [assignment, begins, ends]
  · cases chains

end Phrase

theorem Nonterminal.chains_ebnf (name : Nonterminal) :
    ((ebnf name).trees.all fun made => made.1 ≠ .assignment || made.2.chains) = true :=
  forall_of_all
    (fun name => (ebnf name).trees.all fun made => made.1 ≠ .assignment || made.2.chains)
    (by decide) name

/-- **Every assignment that is parsed is put together from its parts.** -/
theorem Session.parse_assignment {σ : Type} [Cursor σ] {entry : Entry} {s t : Session σ}
    {tree : Tree} (h : s.parse entry = (.ok tree, t)) :
    ∀ node ∈ tree.subtrees, node.kind? = some .assignment →
      ∃ first more value typeComment, node = Tree.assignment first more value typeComment := by
  have made := Session.forall_subtrees_of_parse
    (P := fun node => node.Accounted → node.kind? = some .assignment →
      ∃ first more value typeComment, node = Tree.assignment first more value typeComment)
    (fun kind p => kind ≠ .assignment || p.chains) (fun _ _ kind => nomatch kind)
    (fun matched checked start stop accounted kind => by
      cases kind
      exact matched.eq_assignment (by simpa using checked) accounted)
    Nonterminal.chains_ebnf (fun entry => by cases entry <;> exact ⟨rfl, rfl⟩)
    (congrArg Prod.fst h)
  intro node mem kind
  have filled : node.tokens ≠ [] := by
    obtain ⟨start, stop, children, -, rfl⟩ := Session.parse_matches h
    rcases List.mem_cons.1 mem with rfl | among
    · cases entry <;> cases kind
    · obtain ⟨first, rest, eq, -⟩ := Session.parse_children_unmarked h node among (by simp [kind])
      exact eq ▸ List.cons_ne_nil _ _
  exact made node mem (Session.parse_accounted h mem filled) kind

end PythonSyntax
