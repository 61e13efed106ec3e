/-
**Lines that are told by their first token.**

Whether a line that begins with the word `match` opens a block is a question about the whole line.  A
cursor may know the answer from the token on which it stands: in a text, the token tells the place
where the line is.  Then each statement that is read is the one that its first token tells, and a
module of such statements is read wherever its tokens stand.

Main definitions:

* `PythonSyntax.TellsLines` — the current token tells whether its line opens a block;
* `PythonSyntax.Tree.Foretold` — the first token of a statement tells whether it is a `match`
  statement;
* `PythonSyntax.Tree.HoldsForetold` — all statements among the children are foretold;
* `PythonSyntax.Rule.states`, `PythonSyntax.Phrase.states` — what takes the field of statements is
  one.

Main results:

* `PythonSyntax.Session.follows_foretold` — following a rule adds foretold statements;
* `PythonSyntax.Session.parse_foretold` — **what is read is foretold**;
* `PythonSyntax.Session.exists_parse_of_foretold` — **a module of foretold statements is read**.
-/

import PythonSyntax.Proofs.Parsing.Completeness
import PythonSyntax.Proofs.Parsing.Spans

set_option autoImplicit false

namespace PythonSyntax

open Phrase (Matches)

/-- The current token tells whether its line opens a block. -/
def TellsLines (σ : Type) [Cursor σ] (sees : Token → Bool) : Prop :=
  ∀ c : σ, Cursor.opensBlock c = sees (Cursor.current c)

namespace Tree

/-- The first token of a statement tells whether it is a `match` statement, if it is one or could
be taken for one. -/
def Foretold (sees : Token → Bool) (tree : Tree) : Prop :=
  ∀ first ∈ tree.tokens.head?,
    (tree.kind? = some .matchStatement → sees first = true) ∧
      (tree.kind? = some .simpleStatement → first.spells "match" = true → sees first = false)

/-- The statements among the children are foretold. -/
def HoldsForetold (sees : Token → Bool) (tree : Tree) : Prop :=
  ∀ child ∈ tree.children, child.1 = .statements → child.2.Foretold sees

end Tree

/-! ### Names and fields of statements -/

namespace Nonterminal

/-- The trees of the name can be lines or `match` statements. -/
def lined : Nonterminal → Bool
  | statement | suite | simpleStatement | matchStatement => true
  | _ => false

theorem unlined_ebnf (name : Nonterminal) (other : (!name.lined) = true) :
    (ebnf name).rootsPass (fun part => !part.lined) (fun kind _ =>
      kind != .simpleStatement && kind != .matchStatement) = true :=
  rootsPass_of_all (by decide) name other

/-- The names whose trees take the field of statements. -/
def stated : Nonterminal → Bool
  | statement | smallStatement => true
  | _ => false

theorem lacks_statements (name : Nonterminal) : (ebnf name).lacks .statements = true :=
  forall_of_all (fun name => (ebnf name).lacks .statements) (by decide) name

end Nonterminal

/-- What is derived from other names is neither a line nor a `match` statement. -/
theorem Derives.unlined {flow : Flow} {name : Nonterminal} {tree : Tree}
    (h : Derives ebnf flow name tree) (other : name.lined = false) :
    tree.kind? ≠ some .simpleStatement ∧ tree.kind? ≠ some .matchStatement := by
  obtain ⟨kind, _, _, _, _, others, -, rfl⟩ :=
    h.root_passes Nonterminal.unlined_ebnf (by rw [other]; rfl)
  simpa [Tree.kind?] using others

/-- A `match` statement begins with a name. -/
theorem Derives.begins_of_match {flow : Flow} {name : Nonterminal} {tree : Tree}
    (h : Derives ebnf flow name tree) (isMatch : tree.kind? = some .matchStatement) :
    Begins (.ofList [.name]) tree.tokens :=
  Session.begins_of_begun (by decide) h isMatch

/-- Statements of other kinds are foretold. -/
theorem Tree.Foretold.of_other {sees : Token → Bool} {tree : Tree}
    (line : tree.kind? ≠ some .simpleStatement) (block : tree.kind? ≠ some .matchStatement) :
    tree.Foretold sees :=
  fun _ _ => ⟨fun kind => absurd kind block, fun kind => absurd kind line⟩

namespace Rule

/-- Only statements are given the field of statements. -/
def states : Rule → Bool
  | shift field | reducePair _ field | relabel field | unwrap field => field != .statements
  | call name field => field != .statements || name.stated
  | seq first second => first.states && second.states
  | branch _ yes no => yes.states && no.states
  | loop _ body | within _ body => body.states
  | _ => true

theorem states_python (name : Nonterminal) : (Grammar.python name).states = true :=
  Nonterminal.forall_of_all (fun name => (Grammar.python name).states) (by decide) name

theorem states_entry (entry : Entry) : entry.rule.states = true := by
  cases entry <;> decide

end Rule

/-! ### What is read -/

/-- Whatever in a frame takes the field of statements is foretold, at any depth. -/
structure Frame.Foretold (sees : Token → Bool) (frame : Frame) : Prop where
  pieces : ∀ child ∈ frame, child.1 = .statements → child.2.Foretold sees
  within : frame.Everywhere (Tree.HoldsForetold sees)

namespace Frame

variable {sees : Token → Bool} {frame more : Frame} {field : Field}

theorem Foretold.nil : Foretold sees [] := ⟨nofun, .nil⟩

theorem foretold_append_iff :
    Foretold sees (frame ++ more) ↔ frame.Foretold sees ∧ more.Foretold sees := by
  constructor
  · intro h
    exact ⟨⟨fun child mem => h.pieces child (List.mem_append_left _ mem),
        fun child mem => h.within child (List.mem_append_left _ mem)⟩,
      ⟨fun child mem => h.pieces child (List.mem_append_right _ mem),
        fun child mem => h.within child (List.mem_append_right _ mem)⟩⟩
  · rintro ⟨h, h'⟩
    exact ⟨fun child mem => (List.mem_append.1 mem).elim (h.pieces child) (h'.pieces child),
      h.within.append h'.within⟩

theorem Foretold.cons (h : frame.Foretold sees) (other : field ≠ .statements) {tree : Tree}
    (inside : ∀ inner ∈ tree.subtrees, inner.HoldsForetold sees) :
    Foretold sees ((field, tree) :: frame) := by
  refine ⟨fun child mem => ?_, h.within.cons field inside⟩
  rcases List.mem_cons.1 mem with rfl | mem
  · exact fun same => absurd same other
  · exact h.pieces child mem

theorem Foretold.map (h : frame.Foretold sees)
    (told : field = .statements → ∀ child ∈ frame, child.2.Foretold sees) :
    Foretold sees (frame.map fun child => (field, child.2)) := by
  refine ⟨fun child mem same => ?_, h.within.map field⟩
  obtain ⟨unnamed, found, rfl⟩ := List.mem_map.1 mem
  exact told same unnamed found

theorem Foretold.take (h : frame.Foretold sees) (count : Nat) :
    Foretold sees (frame.take count) :=
  ⟨fun child mem => h.pieces child (List.mem_of_mem_take mem), h.within.take count⟩

theorem Foretold.drop (h : frame.Foretold sees) (count : Nat) :
    Foretold sees (frame.drop count) :=
  ⟨fun child mem => h.pieces child (List.mem_of_mem_drop mem), h.within.drop count⟩

/-- The node that is made of the pieces. -/
theorem Foretold.build (h : frame.Foretold sees) (kind : NodeKind) (here stop : Nat) :
    ∀ inner ∈ (frame.build kind here stop).subtrees, inner.HoldsForetold sees :=
  h.within.build fun child mem => h.pieces child (List.mem_reverse.1 mem)

theorem Foretold.relabel (h : frame.Foretold sees) (other : field ≠ .statements) :
    Foretold sees (frame.relabel field) := by
  cases frame with
  | nil => exact h
  | cons child rest => exact (h.drop 1).cons other (h.within child List.mem_cons_self)

theorem Foretold.unwrap (h : frame.Foretold sees) (other : field ≠ .statements) :
    Foretold sees (frame.unwrap field) := by
  refine ⟨?_, h.within.unwrap field⟩
  match frame with
  | [] => exact h.pieces
  | (_, .leaf token) :: rest => exact h.pieces
  | (label, .node kind start stop children) :: rest =>
      intro child mem same
      rcases List.mem_append.1 mem with mem | mem
      · obtain ⟨unnamed, -, rfl⟩ := List.mem_map.1 mem
        exact absurd same other
      · exact h.pieces child (List.mem_cons_of_mem _ mem) same

end Frame

namespace Session

open Phrase Rule

variable {σ : Type} [Cursor σ] {sees : Token → Bool} {s t : Session σ} {frame frame' : Frame}
  {C : Nonterminal → Session σ → Frame → Session σ → Prop}

/-- **Following a rule adds foretold statements**, if its calls do. -/
theorem follows_foretold
    (calls : ∀ name s pieces t, C name s pieces t → pieces.Foretold sees ∧
      (name.stated = true → ∀ child ∈ pieces, child.2.Foretold sees))
    {rule : Rule} (states : rule.states = true) (h : Follows C rule frame s frame' t)
    (foretold : frame.Foretold sees) : frame'.Foretold sees := by
  induction rule generalizing frame s frame' t with
  | done =>
      obtain ⟨rfl, rfl⟩ := h
      exact foretold
  | seq first second ih ih' =>
      obtain ⟨middle, u, one, two⟩ := h
      simp only [Rule.states, Bool.and_eq_true] at states
      exact ih' states.2 two (ih states.1 one foretold)
  | shift field =>
      obtain ⟨token, taken, rfl⟩ := h
      refine foretold.cons (by simpa [Rule.states] using states) fun inner mem => ?_
      obtain rfl := List.mem_singleton.1 mem
      intro child none
      cases none
  | call name field =>
      obtain ⟨pieces, called, rfl⟩ := h
      obtain ⟨inner, told⟩ := calls _ _ _ _ called
      simp only [Rule.states, Bool.or_eq_true, bne_iff_ne] at states
      have named := inner.map fun same => told (states.resolve_left (not_not_intro same))
      exact Frame.foretold_append_iff.2 ⟨named, foretold⟩
  | reduce kind =>
      obtain ⟨rfl, rfl⟩ := h
      exact Frame.Foretold.nil.cons (by decide) (foretold.build kind _ _)
  | reducePair kind field =>
      obtain ⟨rfl, rfl⟩ := h
      exact (foretold.drop 2).cons (by simpa [Rule.states] using states)
        ((foretold.take 2).build kind _ _)
  | relabel field =>
      obtain ⟨rfl, rfl⟩ := h
      exact foretold.relabel (by simpa [Rule.states] using states)
  | unwrap field =>
      obtain ⟨rfl, rfl⟩ := h
      exact foretold.unwrap (by simpa [Rule.states] using states)
  | branch test yes no ih ih' =>
      simp only [Rule.states, Bool.and_eq_true] at states
      rcases h with ⟨-, one⟩ | ⟨-, two⟩
      · exact ih states.1 one foretold
      · exact ih' states.2 two foretold
  | loop test body ih =>
      change Loops (fun frame s => s.answers frame test) (Follows C body) frame s frame' t at h
      induction h with
      | stop _ => exact foretold
      | round _ once _ again => exact again (ih states once foretold)
  | within scope body ih =>
      obtain ⟨u, one, rfl⟩ := h
      exact ih states one foretold
  | refuse complaint place => exact h.elim

/-- **A statement that is read is foretold**: at the word `match` the line has been looked at. -/
theorem foretold_of_statement (tells : TellsLines σ sees) (calls : CallsSound C) {field : Field}
    {tree : Tree} (h : Follows C Grammar.statement [] s [(field, tree)] t) :
    tree.Foretold sees := by
  intro first head
  -- The first token of the statement is the one at which the rule begins.
  have here : s.current = first := by
    obtain ⟨-, tokens, path, eq⟩ := follows_path calls.passed h
    obtain rfl : tree.tokens = tokens := by simpa using eq
    obtain ⟨rest, eq⟩ := List.head?_eq_some_iff.1 head
    rw [eq] at path
    exact (Path.cons_iff.1 path).1
  subst here
  by_cases isName : s.current.kind = .name
  · rw [statement_rule] at h
    rcases follows_choose_append h with ⟨way, mem, holds, -⟩ | h
    · -- No compound statement begins with a name.
      have name : (KindSet.ofList [.name]).mem s.current.kind = true := by rw [isName]; decide
      have fails := answers_uncompound [] name (by decide) way mem
      exact absurd (fails.symm.trans holds) Bool.false_ne_true
    rcases h with ⟨holds, pieces, called, eq⟩ | ⟨fails, ⟨-, stops⟩ | ⟨-, ⟨-, stops⟩ | ⟨-, pieces,
      called, eq⟩⟩⟩
    · -- The word is `match`, and the line opens a block.
      simp only [Grammar.startsMatch, answers, Bool.and_eq_true] at holds
      have enters : Nonterminal.enters .matchStatement s.current = true := by
        rw [Nonterminal.enters, isName, holds.1]
        decide
      obtain ⟨_, _, rfl, derived⟩ := calls.derived _ _ _ _ called enters
      cases eq
      obtain ⟨start, stop, children, -, rfl⟩ := derived.node rfl
      exact ⟨fun _ => (tells s.cursor).symm.trans holds.2,
        fun kind => absurd (Option.some.inj kind) (by decide)⟩
    · exact stops.elim
    · exact stops.elim
    · obtain ⟨_, _, rfl, derived⟩ := calls.derived _ _ _ _ called (Nonterminal.enters_of_looks rfl _)
      cases eq
      obtain ⟨start, stop, children, -, rfl⟩ := derived.node rfl
      refine ⟨fun kind => absurd (Option.some.inj kind) (by decide),
        fun _ spelled => (tells s.cursor).symm.trans ?_⟩
      simpa [Grammar.startsMatch, answers, spelled] using fails
  · refine ⟨fun kind => ?_, fun _ spelled => ?_⟩
    · have followed : Follows C (Grammar.python .statement) [] s [(field, tree)] t := h
      obtain ⟨_, _, eq, derived⟩ := derived_of_follows calls followed
        (Nonterminal.enters_of_looks rfl _)
      cases eq
      obtain ⟨first, rest, eq, begins⟩ := derived.begins_of_match kind
      rw [eq] at head
      cases head
      exact absurd (by simpa using begins) isName
    · simp only [Token.spells, Bool.and_eq_true, decide_eq_true_eq] at spelled
      exact absurd spelled.1 isName

/-- What a call reads is foretold. -/
theorem reads_foretold (tells : TellsLines σ sees) {name : Nonterminal} {pieces : Frame}
    (h : Reads Grammar.python name s pieces t) : pieces.Foretold sees ∧
      (name.stated = true → ∀ child ∈ pieces, child.2.Foretold sees) := by
  refine Reads.rule_induction (P := fun name _ pieces _ => pieces.Foretold sees ∧
    (name.stated = true → ∀ child ∈ pieces, child.2.Foretold sees)) ?_ h
  intro name s pieces t followed
  refine ⟨follows_foretold (fun _ _ _ _ called => called.2) (states_python name) followed .nil, ?_⟩
  intro stated child mem
  have called := reads_iff.2 (followed.mono fun _ _ _ _ called => called.1)
  have looks : name.startsBlindly = false := by cases name <;> first | rfl | cases stated
  obtain ⟨field, tree, rfl, derived⟩ := reads_derived called (Nonterminal.enters_of_looks looks _)
  cases List.mem_singleton.1 mem
  cases name with
  | statement => exact foretold_of_statement tells callsSound_reads (reads_iff.1 called)
  | smallStatement => exact .of_other (derived.unlined rfl).1 (derived.unlined rfl).2
  | _ => cases stated

/-- **What is read is foretold**, if the current token tells whether its line opens a block. -/
theorem parse_foretold (tells : TellsLines σ sees) {entry : Entry} {tree : Tree}
    (h : s.parse entry = (.ok tree, t)) : ∀ inner ∈ tree.subtrees, inner.HoldsForetold sees := by
  unfold parse parseBy at h
  split at h
  · rename_i frame u ran
    cases h
    have read : frame.Foretold sees := follows_foretold (fun _ _ _ _ => reads_foretold tells)
      (states_entry entry) (follows_reads_of_run ran) .nil
    exact read.build _ _ _
  · cases h

end Session

/-! ### Reading again -/

namespace Phrase

/-- Every part that is a statement takes the field of statements. -/
def states : Phrase → Bool
  | part field name => name != .statement || field = .statements
  | tree _ _ inner | many inner | atLeastOne inner | further _ _ inner | inside _ inner
  | such _ inner => inner.states
  | seq first second | alt first second => first.states && second.states
  | _ => true

variable {sees : Token → Bool} {D : Flow → Nonterminal → Tree → Prop} {flow : Flow} {p : Phrase}
  {children : List Child}

/-- The parts of what is foretold are foretold, and so is what is in them. -/
theorem Matches.foretold (h : Matches D flow p children) (states : p.states = true)
    (foretold : Frame.Foretold sees children) :
    Matches (fun flow name tree => D flow name tree ∧ (name = .statement → tree.Foretold sees) ∧
      ∀ inner ∈ tree.subtrees, inner.HoldsForetold sees) flow p children := by
  induction h with
  | nil => exact .nil
  | stop => exact .stop
  | noFurther => exact .noFurther
  | needs met => exact .needs met
  | leaf mem => exact .leaf mem
  | word spelled => exact .word spelled
  | lastSeparator mem => exact .lastSeparator mem
  | part derived =>
      have child := List.mem_singleton_self (α := Child)
      refine .part ⟨derived, fun statement => ?_, foretold.within _ (child _)⟩
      subst statement
      exact foretold.pieces _ (child _) (by simpa [Phrase.states] using states)
  | @tree flow field kind inner children start stop _ ih =>
      have within := foretold.within _ (List.mem_singleton_self _)
      refine .tree start stop (ih states ⟨within _ List.mem_cons_self, fun child mem tree inside =>
        within tree (List.mem_cons_of_mem _ (Tree.mem_subtreesOf.2 ⟨child, mem, inside⟩))⟩)
  | seq _ _ ih ih' =>
      simp only [Phrase.states, Bool.and_eq_true] at states
      obtain ⟨front, back⟩ := Frame.foretold_append_iff.1 foretold
      exact .seq (ih states.1 front) (ih' states.2 back)
  | left _ ih =>
      simp only [Phrase.states, Bool.and_eq_true] at states
      exact .left (ih states.1 foretold)
  | right _ ih =>
      simp only [Phrase.states, Bool.and_eq_true] at states
      exact .right (ih states.2 foretold)
  | more _ _ ih ih' =>
      obtain ⟨front, back⟩ := Frame.foretold_append_iff.1 foretold
      exact .more (ih states front) (ih' states back)
  | atLeastOne _ _ ih ih' =>
      obtain ⟨front, back⟩ := Frame.foretold_append_iff.1 foretold
      exact .atLeastOne (ih states front) (ih' states back)
  | further mem _ _ ih ih' =>
      have later := Frame.foretold_append_iff.1 (show Frame.Foretold sees ([_] ++ _) from foretold)
      obtain ⟨front, back⟩ := Frame.foretold_append_iff.1 later.2
      exact .further mem (ih states front) (ih' states back)
  | inside _ ih => exact .inside (ih states foretold)
  | such _ holds ih => exact .such (ih states foretold) holds

end Phrase

theorem Nonterminal.states_ebnf (name : Nonterminal) : (ebnf name).states = true :=
  forall_of_all (fun name => (ebnf name).states) (by decide) name

namespace Session

variable {σ : Type} [Cursor σ] {sees : Token → Bool}
  {C : Nonterminal → Session σ → Frame → Session σ → Prop}

/-- A foretold statement is told apart wherever its tokens stand. -/
theorem foreseen_of_foretold (tells : TellsLines σ sees) {flow : Flow} {tree : Tree}
    (derived : Derives ebnf flow .statement tree) (foretold : tree.Foretold sees) :
    Foreseen σ tree := by
  intro c c' path
  obtain ⟨first, rest, eq, -⟩ := derived.begins
  rw [eq] at path
  have here : Cursor.current c = first := (Path.cons_iff.1 path).1
  have told := foretold first (by rw [eq]; rfl)
  rw [tells, here]
  exact told

/-- **What is derived is readable if its statements are foretold.** -/
theorem readable_of_foretold (tells : TellsLines σ sees) (closed : Closed C) {flow : Flow}
    {name : Nonterminal} {tree : Tree} (h : Derives ebnf flow name tree)
    (statement : name = .statement → tree.Foretold sees)
    (within : ∀ inner ∈ tree.subtrees, inner.HoldsForetold sees) : Readable C flow name tree := by
  refine h.rule_induction (P := fun flow name tree => (name = .statement → tree.Foretold sees) →
    (∀ inner ∈ tree.subtrees, inner.HoldsForetold sees) → Readable C flow name tree) ?_ statement
      within
  intro flow name field tree matched statement within
  -- No phrase of the table takes the field of statements itself; its parts do.
  have other : field ≠ .statements := by
    rintro rfl
    have none := matched.filter_lacks name.lacks_statements
    simp at none
  have parts := matched.foretold name.states_ebnf (Frame.Foretold.nil.cons other within)
  refine readable_of_matches closed ?_ (parts.mono fun _ _ _ part => part.1.2 part.2.1 part.2.2)
  rintro rfl
  exact foreseen_of_foretold tells (.intro (matched.mono fun _ _ _ part => part.1)) (statement rfl)

/-- **A module of foretold statements is read wherever its tokens stand**, if the current token tells
whether its line opens a block. -/
theorem exists_parse_of_foretold (tells : TellsLines σ sees) {s : Session σ} {c : σ}
    {children : List Child} (matched : Ebnf.module.Matches (Derives ebnf) s.flow children)
    (foretold : Frame.Foretold sees children) (path : Path s.cursor (Tree.tokensOf children) c)
    (enough : (Tree.tokensOf children).length ≤ Cursor.budget s.cursor + 1) :
    ∃ read t, s.parse .file = (.ok read, t) ∧
      read.bare = .node .fileInput 0 0 (Tree.bareOf children) := by
  refine exists_parse_of_readable ?_ path enough
  refine (matched.foretold (by decide) foretold).mono fun _ _ _ part => ?_
  exact readable_of_foretold tells closed_bounded part.1 part.2.1 part.2.2

end Session

end PythonSyntax
