/-
**What the guards of the parser refuse.**

Four rules begin with a guard: `break` and `continue` are refused outside of a loop, `return` and
`yield` outside of a function.  A parser without these guards reads every tree that the parser
reads, and more; of what it reads, the parser refuses the trees with a word in the wrong place, and
it names the first such word.

The two parsers are run side by side.  The words that have been met are kept with the pieces of the
frame, so it must be known into which nodes a piece may go: at a field of a `while` statement a
suite is a body, at the same field of an `if` statement it is not.  That is computed for the rules.

Main definitions:

* `PythonSyntax.Rule.unguarded`, `PythonSyntax.Grammar.unguarded` — the rules without guards;
* `PythonSyntax.Rule.into` — the nodes into which the pieces before a rule may go;
* `PythonSyntax.Rule.suits` — every piece is read in the bodies in which its node puts it;
* `PythonSyntax.Held` — the words of the pieces of a frame;
* `PythonSyntax.Session.Judged` — an outcome as the words that have been met demand it.

Main results:

* `PythonSyntax.Session.run_flow` — reading leaves the counters as they were, whatever it comes to;
* `PythonSyntax.Session.run_unguarded_of_done` — what the parser reads is read without guards;
* `PythonSyntax.Session.run_judged` — the two parsers side by side;
* `PythonSyntax.Grammar.founded_unguarded`, `PythonSyntax.Session.unguarded_ne_exhausted` — the
  parser without guards is never cut short;
* `PythonSyntax.Session.parse_guards` — **the guards refuse exactly the words that stand in no
  suitable body, and the first of them is named**.
-/

import PythonSyntax.Cursor.TokenList
import PythonSyntax.Proofs.Parsing.Follows
import PythonSyntax.Proofs.Parsing.Progress
import PythonSyntax.Proofs.Syntax.FlowWords
import PythonSyntax.Proofs.Syntax.Heads

set_option autoImplicit false

namespace PythonSyntax

/-! ### Rules without guards -/

namespace Rule

/-- What a guard demands of the bodies around the current token, and what it says. -/
def guard? : Rule → Option (Need × Complaint)
  | .branch .inLoop .done (.refuse complaint .here) => some (.loop, complaint)
  | .branch .inFunction .done (.refuse complaint .here) => some (.function, complaint)
  | _ => none

/-- The rule without its guards. -/
def unguarded : Rule → Rule
  | .branch test yes no =>
    if (guard? (.branch test yes no)).isSome then .done else .branch test yes.unguarded no.unguarded
  | .seq first second => .seq first.unguarded second.unguarded
  | .loop test body => .loop test body.unguarded
  | .within scope body => .within scope body.unguarded
  | rule => rule

end Rule

/-- The rules without their guards. -/
def Grammar.unguarded : Grammar := fun name => (Grammar.python name).unguarded

theorem Grammar.founded_unguarded : Grammar.unguarded.Founded := by
  intro name
  have checked := Nonterminal.forall_of_all
    (fun name => decide (0 < name.rank ∧
      (Grammar.unguarded name).stalls name.entry (name.rank - 1) = some .empty))
    (by decide) name
  exact of_decide_eq_true checked

/-! ### Nodes into which a piece may go -/

/-- A node into which a piece may go, or none if the piece is handed to the caller. -/
abbrev Holder := Option NodeKind

namespace Holder

/-- The sort of body that hangs at a field. -/
def bodyAt (holder : Holder) (field : Field) : Option Scope := holder.bind (·.bodyAt field)

/-- What the word at a field needs. -/
def demandAt (holder : Holder) (field : Field) : Option (Need × Complaint) :=
  holder.bind (·.demandAt field)

/-- At the field there is neither a body nor a word. -/
def neutral (holders : List Holder) (field : Field) : Bool :=
  holders.all fun holder => bodyAt holder field = none && demandAt holder field = none

/-- The words of a piece that goes into the node. -/
def flowWords (holder : Holder) (around : List Scope) : Child → List FlowWord
  | (field, .leaf token) =>
    ((demandAt holder field).map fun demand => ⟨demand.1, demand.2, token, around⟩).toList
  | (field, .node kind _ _ children) =>
    Tree.flowWordsOf kind ((bodyAt holder field).toList ++ around) children

/-- The nodes of two lists, each once. -/
def merge (first second : List Holder) : List Holder :=
  first ++ second.filter fun holder => !first.contains holder

theorem mem_merge {first second : List Holder} {holder : Holder} :
    holder ∈ merge first second ↔ holder ∈ first ∨ holder ∈ second := by
  simp only [merge, List.mem_append, List.mem_filter, Bool.not_eq_true', List.contains_eq_mem,
    decide_eq_false_iff_not]
  exact ⟨Or.imp_right And.left, fun h =>
    if mem : holder ∈ first then Or.inl mem else Or.inr ⟨h.resolve_left mem, mem⟩⟩

variable {holder : Holder} {field : Field} {tree : Tree} {around : List Scope}

/-- The words of a piece that is no word itself. -/
theorem flowWords_of_none (none : demandAt holder field = none) :
    flowWords holder around (field, tree) =
      tree.flowWords ((bodyAt holder field).toList ++ around) := by
  cases tree with
  | leaf token => simp [flowWords, none, Tree.flowWords]
  | node kind start stop children => rfl

@[simp] theorem flowWords_none (child : Child) :
    flowWords none around child = child.2.flowWords around := by
  obtain ⟨field, tree⟩ := child
  exact flowWords_of_none rfl

theorem flowWords_neutral {holders : List Holder} (neutral : neutral holders field = true)
    (mem : holder ∈ holders) : flowWords holder around (field, tree) = tree.flowWords around := by
  have checked := List.all_eq_true.1 neutral holder mem
  simp only [Bool.and_eq_true, decide_eq_true_eq] at checked
  rw [flowWords_of_none checked.2, checked.1]
  rfl

/-- At the first operand of an expression there is never a body or a word. -/
theorem neutral_left (holders : List Holder) : neutral holders .left = true := by
  refine List.all_eq_true.2 fun holder _ => ?_
  cases holder with
  | none => rfl
  | some kind => cases kind <;> rfl

/-- The words of a node are those of its children. -/
theorem flowWordsOf_eq (kind : NodeKind) (children : List Child) :
    Tree.flowWordsOf kind around children = children.flatMap (flowWords (some kind) around) := by
  induction children with
  | nil => simp [Tree.flowWordsOf]
  | cons child rest ih =>
      obtain ⟨field, tree⟩ := child
      cases tree <;>
        simp [Tree.flowWordsOf, Tree.flowWords, Tree.wordAt, flowWords, demandAt, bodyAt, ih]

/-- A name is no word itself, and nothing hangs at it. -/
theorem flowWordsOf_name (children : List Child) :
    Tree.flowWordsOf .name around children =
      children.flatMap fun child => child.2.flowWords around := by
  induction children with
  | nil => simp [Tree.flowWordsOf]
  | cons child rest ih =>
      obtain ⟨field, tree⟩ := child
      cases tree <;> simp [Tree.flowWordsOf, Tree.flowWords, Tree.wordAt, NodeKind.demandAt,
        NodeKind.bodyAt, ih]

end Holder

/-! ### Rules that read every piece in the right bodies -/

/-- What has been made sure of just before. -/
inductive Hint where
  | nothing
  /-- The current token is a word that needs a body; the guard for it stands before. -/
  | owed (demand : Need × Complaint)
  /-- The latest piece is a name. -/
  | named
  deriving DecidableEq

/-- What the word needs that is owed. -/
def Hint.demand? : Hint → Option (Need × Complaint)
  | owed demand => some demand
  | _ => none

namespace Rule

/-- What the rule makes sure of. -/
def hint : Rule → Hint
  | .branch (.collected (.latestIs [.name])) .done (.refuse _ _) => .named
  | rule => match rule.guard? with
    | some demand => .owed demand
    | none => .nothing

/-- The nodes into which the pieces before the rule may go, if those after it go into `after`. -/
def into : Rule → List Holder → List Holder
  | .seq first second, after => first.into (second.into after)
  | .reduce kind, _ => [some kind]
  | .reducePair kind _, after => Holder.merge [some kind] after
  | .relabel _, after | .unwrap _, after => Holder.merge [none] after
  | .branch _ yes no, after => Holder.merge (yes.into after) (no.into after)
  | .loop _ body, after => Holder.merge after (body.into after)
  | .within _ body, after => body.into after
  | .refuse _ _, _ => []
  | _, after => after

/-- The pieces before a guard go where those after it go. -/
theorem into_guard {rule : Rule} {guard : Need × Complaint} (h : rule.guard? = some guard)
    (after : List Holder) : rule.into after = after := by
  unfold guard? at h
  split at h <;> simp_all [into, Holder.merge]

/-- Every piece is read in the bodies in which its node puts it: a call in the body that hangs at
its field, and a word after its guard.  `scope` is the body that has been entered in the rule. -/
def suits : Rule → Option Scope → Hint → List Holder → Bool
  | .done, _, hint, _ => hint.demand? = none
  | .seq first second, scope, hint, after =>
    second.suits scope first.hint after &&
      if first.guard?.isSome then hint.demand? = none && scope = none
      else first.suits scope hint (second.into after)
  | .shift field, _, hint, after =>
    after.all fun holder => Holder.demandAt holder field = hint.demand?
  | .call _ field, scope, hint, after =>
    hint.demand? = none && after.all fun holder =>
      Holder.demandAt holder field = none && Holder.bodyAt holder field = scope
  | .reduce _, _, hint, _ => hint.demand? = none
  | .reducePair _ field, _, hint, after | .relabel field, _, hint, after =>
    hint.demand? = none && Holder.neutral after field
  | .unwrap field, _, hint, after => hint = .named && Holder.neutral after field
  | .branch test yes no, scope, hint, after =>
    hint.demand? = none && (guard? (.branch test yes no)).isNone &&
      yes.suits scope .nothing after && no.suits scope .nothing after
  | .loop _ body, scope, hint, after =>
    let again := Holder.merge after (body.into after)
    hint.demand? = none && body.suits scope .nothing again &&
      (body.into again).all fun holder => again.contains holder
  | .within scope' body, scope, hint, after =>
    hint.demand? = none && scope = none && body.suits (some scope') .nothing after
  | .refuse _ _, _, _, _ => true

end Rule

theorem Nonterminal.suits_python (name : Nonterminal) :
    (Grammar.python name).suits none .nothing [none] = true :=
  forall_of_all (fun name => (Grammar.python name).suits none .nothing [none]) (by decide)
    name

theorem Entry.suits_rule (entry : Entry) :
    entry.rule.suits none .nothing [some entry.kind] = true := by
  cases entry <;> decide

/-- The rule of an entry has no guard itself. -/
theorem Entry.unguarded_rule (entry : Entry) : entry.rule.unguarded = entry.rule := by
  cases entry <;> decide

/-! ### The words of a frame -/

/-- The words of the pieces of a frame, whichever of the nodes the pieces go into. -/
inductive Held (holders : List Holder) (around : List Scope) : Frame → List FlowWord → Prop
  | nil : Held holders around [] []
  | cons {frame : Frame} {child : Child} {words more : List FlowWord}
      (rest : Held holders around frame words)
      (same : ∀ holder ∈ holders, Holder.flowWords holder around child = more) :
      Held holders around (child :: frame) (words ++ more)

namespace Held

variable {holders others : List Holder} {around inner : List Scope} {frame pieces : Frame}
  {words more : List FlowWord} {field : Field}

theorem mono (h : Held holders around frame words) (le : ∀ holder ∈ others, holder ∈ holders) :
    Held others around frame words := by
  induction h with
  | nil => exact .nil
  | cons _ same ih => exact .cons ih fun holder mem => same holder (le holder mem)

/-- The words of a frame in which all pieces go into one node. -/
theorem flatMap_eq (h : Held holders around frame words) {holder : Holder}
    (mem : holder ∈ holders) : frame.reverse.flatMap (Holder.flowWords holder around) = words := by
  induction h with
  | nil => rfl
  | cons _ same ih => simp [ih, same holder mem]

/-- The words of the node that is made of the pieces. -/
theorem flowWords_build (h : Held holders around frame words) {kind : NodeKind}
    (mem : some kind ∈ holders) (here stop : Nat) :
    (frame.build kind here stop).flowWords around = words :=
  (Holder.flowWordsOf_eq kind frame.reverse).trans (h.flatMap_eq mem)

/-- One more piece at a field where there is neither a body nor a word. -/
theorem cons_neutral (h : Held holders around frame words)
    (neutral : Holder.neutral holders field = true) (tree : Tree) :
    Held holders around ((field, tree) :: frame) (words ++ tree.flowWords around) :=
  .cons h fun _ mem => Holder.flowWords_neutral neutral mem

/-- The pieces of a call have been read in the body that hangs at their new field. -/
theorem map_append (h : Held [none] inner pieces more) (held : Held holders around frame words)
    (suits : ∀ holder ∈ holders, Holder.demandAt holder field = none ∧
      (Holder.bodyAt holder field).toList ++ around = inner) :
    Held holders around (pieces.map (fun child => (field, child.2)) ++ frame) (words ++ more) := by
  induction h with
  | nil => simpa using held
  | @cons pieces child more last _ same ih =>
      rw [← List.append_assoc]
      refine .cons ih fun holder mem => ?_
      obtain ⟨none, body⟩ := suits holder mem
      rw [Holder.flowWords_of_none none, body, ← same _ (List.mem_singleton_self _),
        Holder.flowWords_none]

/-- The words of pieces that are handed to the caller. -/
theorem of_frame (around : List Scope) (frame : Frame) :
    Held [none] around frame (frame.reverse.flatMap fun child => child.2.flowWords around) := by
  induction frame with
  | nil => exact .nil
  | cons child rest ih =>
      rw [List.reverse_cons, List.flatMap_append, List.flatMap_singleton]
      exact .cons ih fun holder mem => by rw [List.mem_singleton.1 mem, Holder.flowWords_none]

/-- Two pieces become one. -/
theorem reducePair {kind : NodeKind}
    (h : Held (Holder.merge [some kind] holders) around frame words)
    (neutral : Holder.neutral holders field = true) (here stop : Nat) :
    Held holders around ((field, Frame.build (frame.take 2) kind here stop) :: frame.drop 2)
      words := by
  have into : some kind ∈ Holder.merge [some kind] holders :=
    Holder.mem_merge.2 (Or.inl (List.mem_singleton_self _))
  have rest : ∀ holder ∈ holders, holder ∈ Holder.merge [some kind] holders :=
    fun holder mem => Holder.mem_merge.2 (Or.inr mem)
  suffices ∃ before two, words = before ++ two ∧ Held holders around (frame.drop 2) before ∧
      Held (Holder.merge [some kind] holders) around (frame.take 2) two by
    obtain ⟨before, two, rfl, kept, made⟩ := this
    have whole := kept.cons_neutral neutral (Frame.build (frame.take 2) kind here stop)
    rwa [made.flowWords_build into] at whole
  cases h with
  | nil => exact ⟨[], [], rfl, .nil, .nil⟩
  | @cons _ child _ last others same =>
      cases others with
      | nil => exact ⟨[], _, rfl, .nil, .cons .nil same⟩
      | @cons _ child' _ more others same' =>
          exact ⟨_, _, List.append_assoc _ _ _, others.mono rest, .cons (.cons .nil same') same⟩

/-- The latest piece takes another field. -/
theorem relabel (h : Held (Holder.merge [none] holders) around frame words)
    (neutral : Holder.neutral holders field = true) :
    Held holders around (frame.relabel field) words := by
  have kept : Held holders around frame words :=
    h.mono fun holder mem => Holder.mem_merge.2 (Or.inr mem)
  cases h with
  | nil => exact .nil
  | @cons frame child before last rest same =>
      have latest := same none (Holder.mem_merge.2 (Or.inl (List.mem_singleton_self _)))
      rw [Holder.flowWords_none] at latest
      rw [← latest]
      have kept := rest.mono fun holder mem => Holder.mem_merge.2 (Or.inr mem)
      exact kept.cons_neutral neutral child.2

/-- A name is replaced by its children. -/
theorem unwrap (h : Held (Holder.merge [none] holders) around frame words)
    (neutral : Holder.neutral holders field = true)
    (named : frame.satisfies (.latestIs [.name]) = true) :
    Held holders around (frame.unwrap field) words := by
  cases h with
  | nil => cases named
  | @cons frame child before last rest same =>
      obtain ⟨field', tree⟩ := child
      have latest := same none (Holder.mem_merge.2 (Or.inl (List.mem_singleton_self _)))
      rw [Holder.flowWords_none] at latest
      have kept := rest.mono fun holder mem => Holder.mem_merge.2 (Or.inr mem)
      cases tree with
      | leaf token => cases named
      | node kind start stop children =>
          obtain rfl : kind = .name := by simpa [Frame.satisfies, Frame.latest?, Frame.isOneOf,
            Tree.kind?] using named
          have inside := of_frame around children.reverse
          rw [List.reverse_reverse, ← Holder.flowWordsOf_name, ← Tree.flowWords, latest] at inside
          refine inside.map_append kept fun holder mem => ?_
          have checked := List.all_eq_true.1 neutral holder mem
          simp only [Bool.and_eq_true, decide_eq_true_eq] at checked
          exact ⟨checked.2, by rw [checked.1]; rfl⟩

end Held

namespace Outcome

variable {σ : Type}

/-- The session in which reading ends. -/
def session : Outcome σ → Session σ
  | done _ s => s
  | failed _ s => s

variable {outcome : Outcome σ}

/-- What holds of the session behind what has been read, and stays so, holds behind what goes on. -/
theorem session_andThen {P : Session σ → Prop} {next : Frame → Session σ → Outcome σ}
    (h : P outcome.session) (goes : ∀ frame t, P t → P (next frame t).session) :
    P (outcome.andThen next).session := by
  cases outcome with
  | done frame t => exact goes frame t h
  | failed error t => exact h

theorem session_withFlow (outcome : Outcome σ) (flow : Flow) :
    (outcome.withFlow flow).session = outcome.session.withFlow flow := by
  cases outcome <;> rfl

end Outcome

namespace Session

variable {σ : Type} [Cursor σ]

/-! ### The counters -/

/-- Following a rule leaves the counters as they were, if calls and repetitions do. -/
theorem follow_flow {recur : Rule → Frame → Session σ → Outcome σ} (grammar : Grammar)
    (calls : ∀ rule frame s, (recur rule frame s).session.flow = s.flow) (rule : Rule)
    (frame : Frame) (s : Session σ) :
    (follow grammar recur rule frame s).session.flow = s.flow := by
  induction rule generalizing frame s with
  | done | reduce _ | reducePair _ _ | relabel _ | unwrap _ | refuse _ _ => rfl
  | shift field =>
      unfold follow shift
      dsimp only
      split <;> rfl
  | seq first second ih ih' =>
      rw [follow_seq]
      exact Outcome.session_andThen (P := fun t => t.flow = s.flow) (ih frame s)
        fun middle t same => (ih' middle t).trans same
  | call name field =>
      rw [follow_call]
      exact Outcome.session_andThen (P := fun t => t.flow = s.flow) (calls (grammar name) [] s)
        fun _ _ same => same
  | branch test yes no ih ih' =>
      rw [follow_branch]
      split
      · exact ih frame s
      · exact ih' frame s
  | loop test body ih =>
      rw [follow_loop]
      split
      · exact Outcome.session_andThen (P := fun t => t.flow = s.flow) (ih frame s)
          fun middle t same => (calls _ middle t).trans same
      · rfl
  | within scope body ih =>
      rw [follow_within, Outcome.session_withFlow]
      rfl

/-- **Reading leaves the counters as they were**, whatever it comes to. -/
theorem run_flow (grammar : Grammar) (fuel : Nat) (rule : Rule) (frame : Frame) (s : Session σ) :
    (run grammar fuel rule frame s).session.flow = s.flow := by
  induction fuel generalizing rule frame s with
  | zero => rfl
  | succ fuel ih => exact follow_flow _ ih rule frame s

theorem parseBy_flow (grammar : Grammar) (entry : Entry) (s : Session σ) :
    (s.parseBy grammar entry).2.flow = s.flow := by
  have ran := run_flow grammar s.depth entry.rule [] s
  unfold parseBy
  split <;> (rename_i eq; rw [eq] at ran; exact ran)

/-! ### Reading without guards -/

/-- **A guard asks whether the counters are as the word needs them**; without guards nothing is left
of it. -/
theorem follow_guard {rule : Rule} {guard : Need × Complaint} (h : rule.guard? = some guard) :
    rule.unguarded = .done ∧
      ∀ (grammar : Grammar) (recur : Rule → Frame → Session σ → Outcome σ) frame s,
        follow grammar recur rule frame s = if s.flow.meets guard.1 then .done frame s
          else .failed ⟨.grammatical guard.2 s.current, s.position⟩ s := by
  unfold Rule.guard? at h
  split at h <;> cases h
  · exact ⟨rfl, fun _ _ _ _ => rfl⟩
  · exact ⟨rfl, fun _ _ _ _ => rfl⟩

/-- What is followed is followed without guards, if that holds of calls and repetitions. -/
theorem follow_unguarded_of_done {recur recur' : Rule → Frame → Session σ → Outcome σ}
    (calls : ∀ rule frame s frame' s', recur rule frame s = .done frame' s' →
      recur' rule.unguarded frame s = .done frame' s')
    {rule : Rule} {frame frame' : Frame} {s s' : Session σ}
    (h : follow Grammar.python recur rule frame s = .done frame' s') :
    follow Grammar.unguarded recur' rule.unguarded frame s = .done frame' s' := by
  induction rule generalizing frame s frame' s' with
  | done | reduce _ | reducePair _ _ | relabel _ | unwrap _ | refuse _ _ | shift _ => exact h
  | seq first second ih ih' =>
      obtain ⟨middle, t, one, two⟩ := Outcome.andThen_eq_done h
      rw [Rule.unguarded, follow_seq, ih one]
      exact ih' two
  | call name field =>
      obtain ⟨pieces, t, called, eq⟩ := Outcome.andThen_eq_done h
      unfold Rule.unguarded
      rw [follow_call, Grammar.unguarded, calls _ _ _ _ _ called]
      exact eq
  | branch test yes no ih ih' =>
      cases eq : (Rule.branch test yes no).guard? with
      | some guard =>
          obtain ⟨nothing, asks⟩ := follow_guard (σ := σ) eq
          rw [asks] at h
          rw [nothing]
          split at h
          · exact h
          · cases h
      | none =>
          rw [Rule.unguarded, if_neg (by simp [eq]), follow_branch]
          rw [follow_branch] at h
          split at h
          · rename_i holds
            rw [if_pos holds]
            exact ih h
          · rename_i fails
            rw [if_neg fails]
            exact ih' h
  | loop test body ih =>
      rw [follow_loop] at h
      rw [Rule.unguarded, follow_loop]
      split at h
      · rename_i holds
        obtain ⟨middle, t, one, rest⟩ := Outcome.andThen_eq_done h
        rw [if_pos holds, ih one]
        exact calls _ _ _ _ _ rest
      · rename_i fails
        rw [if_neg fails]
        exact h
  | within scope body ih =>
      obtain ⟨t, one, rfl⟩ := Outcome.withFlow_eq_done h
      rw [Rule.unguarded, follow_within, ih one]
      rfl

/-- **What the parser reads is read without guards.** -/
theorem run_unguarded_of_done {fuel : Nat} {rule : Rule} {frame frame' : Frame} {s s' : Session σ}
    (h : run Grammar.python fuel rule frame s = .done frame' s') :
    run Grammar.unguarded fuel rule.unguarded frame s = .done frame' s' := by
  induction fuel generalizing rule frame frame' s s' with
  | zero => cases h
  | succ fuel ih => exact follow_unguarded_of_done (fun _ _ _ _ _ => ih) h

/-! ### The two parsers side by side -/

/-- The outcome of the parser where words have been met: if all of them stand in suitable bodies, it
is that of the parser without guards; else the first of the others is refused. -/
def Judged (words : List FlowWord) (outcome : Outcome σ) (frame : Frame) (s : Session σ) : Prop :=
  match words.find? fun word => !word.legal with
  | none => outcome = .done frame s
  | some word =>
    ∃ t, outcome = .failed ⟨.grammatical word.complaint word.token, word.token.start⟩ t

omit [Cursor σ] in
/-- One part and then another. -/
theorem Judged.append {words more : List FlowWord} {outcome : Outcome σ}
    {next : Frame → Session σ → Outcome σ} {frame frame' : Frame} {s s' : Session σ}
    (one : Judged words outcome frame s) (two : Judged more (next frame s) frame' s') :
    Judged (words ++ more) (outcome.andThen next) frame' s' := by
  unfold Judged at one ⊢
  rw [List.find?_append]
  cases eq : words.find? fun word => !word.legal with
  | none =>
      rw [eq] at one
      rw [one]
      exact two
  | some word =>
      rw [eq] at one
      obtain ⟨t, rfl⟩ := one
      exact ⟨t, rfl⟩

omit [Cursor σ] in
/-- Reading with other counters. -/
theorem Judged.withFlow {words : List FlowWord} {outcome : Outcome σ} {frame : Frame}
    {s : Session σ} (h : Judged words outcome frame s) (flow : Flow) :
    Judged words (outcome.withFlow flow) frame (s.withFlow flow) := by
  unfold Judged at h ⊢
  split at h
  · rw [h]
    rfl
  · obtain ⟨t, rfl⟩ := h
    exact ⟨_, rfl⟩

/-- A guard judges one word. -/
theorem judged_word {frame : Frame} {s : Session σ} (word : FlowWord)
    (token : word.token = s.current) :
    Judged [word] (if (Flow.of word.around).meets word.need then .done frame s
      else .failed ⟨.grammatical word.complaint s.current, s.position⟩ s) frame s := by
  rw [Flow.meets_of, position, ← token]
  cases legal : word.legal <;> simp [Judged, legal]

/-- The word that is owed, if the current token is it. -/
def owedWords (hint : Hint) (token : Token) (around : List Scope) : List FlowWord :=
  (hint.demand?.map fun demand => ⟨demand.1, demand.2, token, around⟩).toList

theorem owedWords_eq_nil {hint : Hint} {token : Token} {around : List Scope}
    (none : hint.demand? = none) : owedWords hint token around = [] := by
  simp [owedWords, none]

/-- What the hint says of the pieces. -/
def Hinted (hint : Hint) (frame : Frame) : Prop :=
  hint = .named → frame.satisfies (.latestIs [.name]) = true

/-- Where a rule makes sure that the latest piece is a name, it is one. -/
theorem hinted_of_done {grammar : Grammar} {recur : Rule → Frame → Session σ → Outcome σ}
    {rule : Rule} {frame frame' : Frame} {s s' : Session σ}
    (h : follow grammar recur rule.unguarded frame s = .done frame' s') :
    Hinted rule.hint frame' := by
  intro named
  unfold Rule.hint at named
  split at named
  · rename_i complaint place
    unfold Rule.unguarded at h
    rw [if_neg (by simp [Rule.guard?])] at h
    unfold follow at h
    split at h
    · rename_i holds
      cases h
      exact holds
    · cases h
  · split at named <;> cases named

/-- A rule that is a guard hints at its word. -/
theorem hint_of_guard {rule : Rule} {guard : Need × Complaint} (h : rule.guard? = some guard) :
    rule.hint = .owed guard := by
  unfold Rule.hint
  split
  · cases h
  · rw [h]

/-- A rule that is no guard hints at no word. -/
theorem hint_of_no_guard {rule : Rule} (h : rule.guard? = none) : rule.hint.demand? = none := by
  unfold Rule.hint
  split
  · rfl
  · rw [h]
    rfl

/-- The two parsers agree on calls and repetitions, up to the words that are met. -/
def CallsJudged (recur recur' : Rule → Frame → Session σ → Outcome σ) : Prop :=
  ∀ rule scope after around frame words s frame' s', rule.suits scope .nothing after = true →
    Held (rule.into after) around frame words → s.flow = Flow.of (scope.toList ++ around) →
      recur' rule.unguarded frame s = .done frame' s' →
        ∃ more, Held after around frame' (words ++ more) ∧
          Judged more (recur rule frame s) frame' s'

section

variable {recur recur' : Rule → Frame → Session σ → Outcome σ} {rule : Rule} {scope : Option Scope}
  {hint : Hint} {after : List Holder} {around : List Scope} {frame frame' : Frame}
  {words : List FlowWord} {s s' : Session σ}

/-- **The two parsers side by side**: what is followed without guards meets some words, and the
parser refuses the first of them that stands in no suitable body. -/
theorem follow_judged (flows : ∀ rule frame s, (recur' rule frame s).session.flow = s.flow)
    (calls : CallsJudged recur recur') (suits : rule.suits scope hint after = true)
    (held : Held (rule.into after) around frame words)
    (flow : s.flow = Flow.of (scope.toList ++ around)) (hinted : Hinted hint frame)
    (h : follow Grammar.unguarded recur' rule.unguarded frame s = .done frame' s') :
    ∃ more, Held after around frame' (words ++ owedWords hint s.current around ++ more) ∧
      Judged more (follow Grammar.python recur rule frame s) frame' s' := by
  induction rule generalizing scope hint after frame words s frame' s' with
  | done =>
      cases h
      refine ⟨[], ?_, rfl⟩
      rw [owedWords_eq_nil (by simpa [Rule.suits] using suits), List.append_nil, List.append_nil]
      exact held
  | refuse complaint place => cases h
  | reduce kind =>
      cases h
      refine ⟨[], ?_, rfl⟩
      rw [owedWords_eq_nil (by simpa [Rule.suits] using suits), List.append_nil, List.append_nil]
      have whole := (Held.nil : Held after around [] []).cons_neutral (Holder.neutral_left after)
        (frame.build kind s.position s.lastStop)
      rwa [held.flowWords_build (List.mem_singleton_self (some kind))] at whole
  | reducePair kind field =>
      cases h
      simp only [Rule.suits, Bool.and_eq_true, decide_eq_true_eq] at suits
      refine ⟨[], ?_, rfl⟩
      rw [owedWords_eq_nil suits.1, List.append_nil, List.append_nil]
      exact held.reducePair suits.2 _ _
  | relabel field =>
      cases h
      simp only [Rule.suits, Bool.and_eq_true, decide_eq_true_eq] at suits
      refine ⟨[], ?_, rfl⟩
      rw [owedWords_eq_nil suits.1, List.append_nil, List.append_nil]
      exact held.relabel suits.2
  | unwrap field =>
      cases h
      simp only [Rule.suits, Bool.and_eq_true, decide_eq_true_eq] at suits
      obtain ⟨rfl, neutral⟩ := suits
      refine ⟨[], ?_, rfl⟩
      rw [owedWords_eq_nil rfl, List.append_nil, List.append_nil]
      exact held.unwrap neutral (hinted rfl)
  | shift field =>
      obtain ⟨token, takes, rfl⟩ := shift_eq_done_iff.1 h
      simp only [Rule.suits, List.all_eq_true, decide_eq_true_eq] at suits
      refine ⟨[], ?_, h⟩
      rw [List.append_nil]
      refine .cons held fun holder mem => ?_
      rw [Holder.flowWords, suits holder mem, ← takes.1]
      rfl
  | call name field =>
      simp only [Rule.suits, Bool.and_eq_true, decide_eq_true_eq, List.all_eq_true] at suits
      obtain ⟨none, fits⟩ := suits
      unfold Rule.unguarded at h
      obtain ⟨pieces, t, called, eq⟩ := Outcome.andThen_eq_done h
      cases eq
      obtain ⟨more, met, judged⟩ := calls _ Option.none _ _ _ _ _ _ _
        (Nonterminal.suits_python name) .nil flow called
      refine ⟨more, ?_, ?_⟩
      · rw [owedWords_eq_nil none, List.append_nil]
        refine met.map_append held fun holder mem => ?_
        obtain ⟨word, body⟩ := fits holder mem
        exact ⟨word, by rw [body]; rfl⟩
      · rw [← List.append_nil more]
        exact judged.append rfl
  | seq first second ih ih' =>
      cases guarded : first.guard? with
      | some guard =>
          -- The word that comes next is judged here, before it is taken.
          obtain ⟨nothing, asks⟩ := follow_guard (σ := σ) guarded
          simp only [Rule.suits, guarded, Option.isSome_some, if_true, Bool.and_eq_true,
            decide_eq_true_eq] at suits
          obtain ⟨rest, none, rfl⟩ := suits
          rw [hint_of_guard guarded] at rest
          rw [Rule.into, Rule.into_guard guarded] at held
          rw [Rule.unguarded, nothing] at h
          obtain ⟨more, met, judged⟩ := ih' rest held flow (fun named => by cases named) h
          let word : FlowWord := ⟨guard.1, guard.2, s.current, around⟩
          have met' : Held after around frame' (words ++ ([word] ++ more)) := by
            rw [← List.append_assoc]
            exact met
          have judged' : Judged [word] (follow Grammar.python recur first frame s) frame s := by
            rw [asks, flow]
            exact judged_word word rfl
          refine ⟨[word] ++ more, ?_, judged'.append judged⟩
          rw [owedWords_eq_nil none, List.append_nil]
          exact met'
      | none =>
          simp only [Rule.suits, guarded, Option.isSome_none, Bool.false_eq_true, if_false,
            Bool.and_eq_true] at suits
          rw [Rule.unguarded, follow_seq] at h
          obtain ⟨middle, t, one, two⟩ := Outcome.andThen_eq_done h
          obtain ⟨more, met, judged⟩ := ih suits.2 held flow hinted one
          have same : t.flow = s.flow := by
            have ended := follow_flow Grammar.unguarded flows first.unguarded frame s
            rwa [one] at ended
          obtain ⟨more', met', judged'⟩ :=
            ih' suits.1 met (same.trans flow) (hinted_of_done one) two
          refine ⟨more ++ more', ?_, judged.append judged'⟩
          rw [owedWords_eq_nil (hint_of_no_guard guarded), List.append_nil] at met'
          rwa [← List.append_assoc]
  | branch test yes no ih ih' =>
      simp only [Rule.suits, Bool.and_eq_true, decide_eq_true_eq,
        Option.isNone_iff_eq_none] at suits
      obtain ⟨⟨⟨none, guarded⟩, one⟩, other⟩ := suits
      rw [Rule.unguarded, if_neg (by simp [guarded])] at h
      rw [owedWords_eq_nil none]
      rw [follow_branch] at h ⊢
      split at h
      · rename_i holds
        rw [if_pos holds]
        exact ih one (held.mono fun _ mem => Holder.mem_merge.2 (Or.inl mem)) flow
          (fun named => by cases named) h
      · rename_i fails
        rw [if_neg fails]
        exact ih' other (held.mono fun _ mem => Holder.mem_merge.2 (Or.inr mem)) flow
          (fun named => by cases named) h
  | loop test body ih =>
      have again : (Rule.loop test body).suits scope .nothing after = true := by
        simp only [Rule.suits, Bool.and_eq_true] at suits ⊢
        exact ⟨⟨rfl, suits.1.2⟩, suits.2⟩
      simp only [Rule.suits, Bool.and_eq_true, decide_eq_true_eq, List.all_eq_true,
        List.contains_iff_mem] at suits
      obtain ⟨⟨none, once⟩, closed⟩ := suits
      rw [owedWords_eq_nil none]
      rw [Rule.unguarded, follow_loop] at h
      rw [follow_loop]
      split at h
      · rename_i holds
        rw [if_pos holds]
        obtain ⟨middle, t, one, rest⟩ := Outcome.andThen_eq_done h
        obtain ⟨more, met, judged⟩ :=
          ih once (held.mono closed) flow (fun named => by cases named) one
        have same : t.flow = s.flow := by
          have ended := follow_flow Grammar.unguarded flows body.unguarded frame s
          rwa [one] at ended
        obtain ⟨more', met', judged'⟩ := calls _ _ _ _ _ _ _ _ _ again met (same.trans flow) rest
        refine ⟨more ++ more', ?_, judged.append judged'⟩
        rwa [← List.append_assoc]
      · rename_i fails
        rw [if_neg fails]
        cases h
        refine ⟨[], ?_, rfl⟩
        rw [List.append_nil, List.append_nil]
        exact held.mono fun _ mem => Holder.mem_merge.2 (Or.inl mem)
  | within scope' body ih =>
      simp only [Rule.suits, Bool.and_eq_true, decide_eq_true_eq] at suits
      obtain ⟨⟨none, rfl⟩, inner⟩ := suits
      rw [owedWords_eq_nil none]
      rw [Rule.unguarded, follow_within] at h
      obtain ⟨t, one, rfl⟩ := Outcome.withFlow_eq_done h
      have entered : (s.withFlow (s.flow.enter scope')).flow = Flow.of (scope' :: around) := by
        rw [Flow.of_cons]
        exact congrArg (Flow.enter · scope') flow
      obtain ⟨more, met, judged⟩ := ih inner held entered (fun named => by cases named) one
      exact ⟨more, met, judged.withFlow s.flow⟩

end

/-- **The two parsers side by side**, with any bound on the depth of calls. -/
theorem run_judged (fuel : Nat) :
    CallsJudged (run (σ := σ) Grammar.python fuel) (run Grammar.unguarded fuel) := by
  induction fuel with
  | zero =>
      intro rule scope after around frame words s frame' s' _ _ _ h
      cases h
  | succ fuel ih =>
      intro rule scope after around frame words s frame' s' suits held flow h
      obtain ⟨more, met, judged⟩ := follow_judged (run_flow Grammar.unguarded fuel) ih suits held
        flow (fun named => by cases named) h
      rw [owedWords_eq_nil rfl, List.append_nil] at met
      exact ⟨more, met, judged⟩

/-! ### Calls of a parser -/

/-- The session after some calls, those included that fail. -/
def afterCalls (s : Session σ) (calls : List Entry) : Session σ :=
  calls.foldl (fun s entry => (s.parse entry).2) s

theorem afterCalls_flow (s : Session σ) (calls : List Entry) :
    (s.afterCalls calls).flow = s.flow := by
  induction calls generalizing s with
  | nil => rfl
  | cons entry rest ih => exact (ih _).trans (parseBy_flow _ _ _)

/-- What an entry reads without guards, and what the parser makes of it. -/
theorem parse_judged {s t : Session σ} (flow : s.flow = .outside) {entry : Entry} {tree : Tree}
    (h : s.parseBy Grammar.unguarded entry = (.ok tree, t)) :
    match (tree.flowWords []).find? fun word => !word.legal with
    | none => s.parse entry = (.ok tree, t)
    | some word =>
      (s.parse entry).1 = .error ⟨.grammatical word.complaint word.token, word.token.start⟩ := by
  unfold parseBy at h
  split at h
  · rename_i frame t' ran
    cases h
    rw [← entry.unguarded_rule] at ran
    obtain ⟨more, met, judged⟩ := run_judged s.depth _ none _ [] [] [] s _ _ entry.suits_rule .nil
      flow ran
    rw [met.flowWords_build (List.mem_singleton_self _)]
    unfold Judged at judged
    unfold parse parseBy
    simp only [List.nil_append]
    split at judged
    · rw [judged]
    · obtain ⟨u, failed⟩ := judged
      rw [failed]
  · cases h

/-- What the parser reads is read without guards. -/
theorem parseBy_unguarded_of_parse {s t : Session σ} {entry : Entry} {tree : Tree}
    (h : s.parse entry = (.ok tree, t)) : s.parseBy Grammar.unguarded entry = (.ok tree, t) := by
  unfold parse parseBy at h
  unfold parseBy
  split at h
  · rename_i frame t' ran
    cases h
    have free := run_unguarded_of_done ran
    rw [entry.unguarded_rule] at free
    rw [free]
  · cases h

/-- **The parser without guards is never cut short**, either: where it fails, the text is to
blame. -/
theorem unguarded_ne_exhausted {down : Countdown σ} {s : Session σ} (good : down.good s.cursor)
    (entry : Entry) (error : SyntaxError)
    (failed : (s.parseBy Grammar.unguarded entry).1 = .error error) : error.cause ≠ .exhausted :=
  (Countdown.parseBy_ne_exhausted Grammar.founded_unguarded good entry).2 error failed

/-- **The guards refuse exactly the words that stand in no suitable body.**  However a session has
been used, its counters are those outside of all bodies, and a tree that it returns has no such
word.  What a parser without guards reads is read, if it has no such word; else the first one is
refused. -/
theorem parse_guards (cursor : σ) (calls : List Entry) (entry : Entry) :
    let s := (start cursor).afterCalls calls
    (s.parse entry).2.flow = .outside ∧
      (∀ tree, (s.parse entry).1 = .ok tree → ∀ word ∈ tree.flowWords [], word.legal = true) ∧
      ∀ tree t, s.parseBy Grammar.unguarded entry = (.ok tree, t) →
        ((tree.flowWords []).map FlowWord.token).Sublist tree.tokens ∧
          match (tree.flowWords []).find? fun word => !word.legal with
          | none => s.parse entry = (.ok tree, t)
          | some word => (s.parse entry).1 =
            .error ⟨.grammatical word.complaint word.token, word.token.start⟩ := by
  intro s
  have outside : s.flow = .outside := afterCalls_flow _ _
  refine ⟨(parseBy_flow _ _ _).trans outside, fun tree ok word mem => ?_, fun tree t free =>
    ⟨tree.flowWords_sublist [], parse_judged outside free⟩⟩
  have whole : s.parse entry = (.ok tree, (s.parse entry).2) := Prod.ext ok rfl
  have judged := parse_judged outside (parseBy_unguarded_of_parse whole)
  cases found : (tree.flowWords []).find? fun word => !word.legal with
  | none => simpa using List.find?_eq_none.1 found word mem
  | some other =>
      rw [found, ok] at judged
      cases judged

/-- The tokens of `while a: break` and `else: break` on two lines, after a call that failed: of the
two words the second is refused, for an `else` clause is no body. -/
theorem parse_guards_else :
    let words : List Token := [
      .mark 0 5 (.keyword .whileKw), .literal 6 7 .name "a", .mark 7 8 (.symbol .colon),
      .mark 9 14 (.keyword .breakKw), .mark 14 15 .newline, .mark 15 19 (.keyword .elseKw),
      .mark 19 20 (.symbol .colon), .mark 21 26 (.keyword .breakKw), .mark 26 27 .newline]
    let s := (start (TokenList.ofList words)).afterCalls [.eval]
    ∃ tree t, s.parseBy Grammar.unguarded .file = (.ok tree, t) ∧
      (tree.flowWords []).map FlowWord.legal = [true, false] ∧
      (s.parse .file).1 =
        .error ⟨.grammatical .breakOutsideLoop (.mark 21 26 (.keyword .breakKw)), 21⟩ := by
  intro words s
  have met : (s.parseBy Grammar.unguarded .file).1.toOption.map (Tree.flowWords []) = some [
      ⟨.loop, .breakOutsideLoop, .mark 9 14 (.keyword .breakKw), [.loopBody]⟩,
      ⟨.loop, .breakOutsideLoop, .mark 21 26 (.keyword .breakKw), []⟩] := by decide +kernel
  match free : s.parseBy Grammar.unguarded .file with
  | (.error error, t) =>
    rw [free] at met
    cases met
  | (.ok tree, t) =>
    rw [free] at met
    have found : tree.flowWords [] = _ := Option.some.inj met
    have refused := ((parse_guards (TokenList.ofList words) [.eval] .file).2.2 tree t free).2
    rw [found] at refused
    exact ⟨tree, t, rfl, by rw [found]; decide, refused⟩

end Session

end PythonSyntax
