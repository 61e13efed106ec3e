/-
**What is parsed is derived.**

Most rules are found sound by computation, the others have been gone through by hand.  So every tree
that a call reads is derived from its name.

Main definitions:

* `PythonSyntax.Nonterminal.byHand` — the names whose rules have been gone through by hand.

Main results:

* `PythonSyntax.Session.derived_of_follows` — a rule reads what is derived from its name, if its
  calls do;
* `PythonSyntax.Session.reads_derived` — what a call reads is derived;
* `PythonSyntax.Session.parse_matches` — what is parsed is as the phrase of the entry says;
* `PythonSyntax.Session.forall_subtrees_of_parse` — what a check of the phrases says of nodes holds
  everywhere in a tree that is parsed.
-/

import PythonSyntax.Proofs.Parsing.SoundArguments
import PythonSyntax.Proofs.Parsing.SoundStatements
import PythonSyntax.Proofs.Syntax.Nodes

set_option autoImplicit false

namespace PythonSyntax

/-- The names whose rules ask about the pieces that they have collected, or about more than the
kind of the current token. -/
def Nonterminal.byHand : Nonterminal → Bool
  | namedExprTest | comparison | atomExpr | curlyDisplay | curlyItems | dictItem | displayItems
  | subscriptList | namedExprList | exprList | testList | testListStarExpr | patterns | argList
  | argument | parameters _ | statement | exprStatement | importName | importFrom | tryStatement
  | withStatement | matchStatement | asPattern | decorated => true
  | _ => false

theorem Nonterminal.sounds_python (name : Nonterminal) :
    (name.byHand || (Grammar.python name).soundsWhole name.entry (ebnf name) ||
      (Grammar.python name).soundsChain name name.entry) = true :=
  forall_of_all (fun name => name.byHand ||
    (Grammar.python name).soundsWhole name.entry (ebnf name) ||
      (Grammar.python name).soundsChain name name.entry) (by decide) name

namespace Session

open Phrase Rule

variable {σ : Type} [Cursor σ] {C : Nonterminal → Session σ → Frame → Session σ → Prop}

/-- A rule that is sound as a whole reads what is derived from its name. -/
theorem SoundWhole.derived {name : Nonterminal} {rule : Rule} {kinds : KindSet}
    {s t : Session σ} {pieces : Frame} (sound : SoundWhole C rule kinds (ebnf name))
    (entry : name.entry = kinds) (h : Follows C rule [] s pieces t) : Derived name s pieces := by
  intro enters
  rw [Nonterminal.enters, entry, Bool.and_eq_true] at enters
  obtain ⟨⟨field, tree⟩, matched, rfl⟩ := sound _ _ _ enters.1 h
  exact ⟨field, tree, rfl, .intro matched⟩

/-- A rule for a list of elements reads such a list. -/
theorem derived_of_list (calls : CallsSound C) {name element : Nonterminal} {continues : Test}
    {s t : Session σ} {pieces : Frame} (rule : Grammar.python name = Grammar.listOf element continues)
    (phrase : ebnf name = Ebnf.list element)
    (checked : (separated element .elements continues).sounds name.entry
      (elements .elements element) = true)
    (h : Follows C (Grammar.python name) [] s pieces t) : Derived name s pieces := by
  have sound := soundWhole_listOf calls checked
  rw [← rule, ← phrase] at sound
  exact sound.derived rfl h

/-- **A rule reads what is derived from its name**, if its calls do. -/
theorem derived_of_follows (calls : CallsSound C) {name : Nonterminal} {s t : Session σ}
    {pieces : Frame} (h : Follows C (Grammar.python name) [] s pieces t) :
    Derived name s pieces := by
  cases byHand : name.byHand with
  | false =>
      have checked := name.sounds_python
      rw [byHand, Bool.false_or, Bool.or_eq_true] at checked
      rcases checked with whole | chain
      · exact (soundWhole_of_soundsWhole calls whole).derived rfl h
      · exact (soundWhole_of_soundsChain calls chain).derived rfl h
  | true =>
      cases name with
      | namedExprTest => exact (soundWhole_namedExprTest calls).derived rfl h
      | comparison => exact (soundWhole_comparison calls).derived rfl h
      | atomExpr => exact (soundWhole_atomExpr calls).derived rfl h
      | curlyDisplay => exact (soundWhole_curlyDisplay calls).derived rfl h
      | curlyItems => exact (soundWhole_curlyItems calls).derived rfl h
      | dictItem => exact (soundWhole_dictItem calls).derived rfl h
      | displayItems => exact (soundWhole_displayItems calls).derived rfl h
      | subscriptList | namedExprList | exprList | testList | testListStarExpr | patterns =>
          exact derived_of_list calls rfl rfl (by decide) h
      | argList => exact (soundWhole_argList calls).derived rfl h
      | argument => exact (soundWhole_argument calls).derived rfl h
      | parameters typed => exact (soundWhole_parameters calls typed).derived rfl h
      | statement => exact (soundWhole_statement calls).derived rfl h
      | exprStatement => exact (soundWhole_exprStatement calls).derived rfl h
      | importName => exact (soundWhole_importName calls).derived rfl h
      | importFrom => exact (soundWhole_importFrom calls).derived rfl h
      | tryStatement => exact (soundWhole_tryStatement calls).derived rfl h
      | withStatement => exact (soundWhole_withStatement calls).derived rfl h
      | matchStatement => exact derived_matchStatement calls h
      | asPattern => exact (soundWhole_asPattern calls).derived rfl h
      | decorated => exact (soundWhole_decorated calls).derived rfl h
      | _ => cases byHand

/-- **What a call reads is derived from its name.** -/
theorem reads_derived {name : Nonterminal} {s t : Session σ} {pieces : Frame}
    (h : Reads Grammar.python name s pieces t) : Derived name s pieces := by
  refine Reads.rule_induction (P := fun name s pieces _ => Derived name s pieces) ?_ h
  intro name s pieces t followed
  refine derived_of_follows ⟨?_, ?_⟩ followed
  · exact fun _ _ _ _ called => reads_path called.1
  · exact fun _ _ _ _ called => called.2

theorem callsSound_reads : CallsSound (σ := σ) (Reads Grammar.python) :=
  ⟨fun _ _ _ _ => reads_path, fun _ _ _ _ => reads_derived⟩

/-- What an entry reads is as its phrase says. -/
theorem matches_of_follows {entry : Entry} {s t : Session σ} {frame : Frame}
    (h : Follows (Reads Grammar.python) entry.rule [] s frame t) :
    ∃ children, entry.phrase.Matches (Derives ebnf) s.flow children ∧
      frame = children.reverse := by
  have full := KindSet.mem_full s.current.kind
  have calls := callsSound_reads (σ := σ)
  cases entry with
  | file =>
      obtain ⟨children, matched, eq⟩ :=
        sound_of_sounds (p := Entry.file.phrase) calls (by decide) _ _ _ _ full h
      exact ⟨children, matched, by simpa using eq⟩
  | eval =>
      obtain ⟨children, matched, eq⟩ :=
        sound_of_sounds (p := Entry.eval.phrase) calls (by decide) _ _ _ _ full h
      exact ⟨children, matched, by simpa using eq⟩
  | single =>
      rcases h with ⟨holds, one⟩ | ⟨-, ⟨-, rfl, -⟩ | ⟨-, ⟨-, two⟩ | ⟨-, three⟩⟩⟩
      · have ends : (KindSet.ofList [.newline]).mem s.current.kind = true := by
          simpa [answers] using holds
        obtain ⟨children, matched, eq⟩ := sound_of_sounds (p := .leaf .newline [.newline]) calls
          (by decide) _ _ _ _ ends one
        exact ⟨children, .left matched, by simpa using eq⟩
      · exact ⟨[], .right (.left .nil), rfl⟩
      · obtain ⟨children, matched, eq⟩ := sound_of_sounds
          (p := row [.part .statement .statement, opt (.leaf .newline [.newline])]) calls
          (by decide) _ _ _ _ full two
        exact ⟨children, .right (.right (.left matched)), by simpa using eq⟩
      · obtain ⟨tree, -, matched, rfl⟩ := calls.call (p := .part .statement .simpleStatement)
          (by decide) full three
        exact ⟨_, .right (.right (.right matched)), rfl⟩

/-- **A tree that is parsed is as the phrase of the entry says.** -/
theorem parse_matches {entry : Entry} {s t : Session σ} {tree : Tree}
    (h : s.parse entry = (.ok tree, t)) :
    ∃ start stop children, entry.phrase.Matches (Derives ebnf) s.flow children ∧
      tree = .node entry.kind start stop children := by
  unfold parse parseBy at h
  split at h
  · rename_i frame u ran
    cases h
    obtain ⟨children, matched, rfl⟩ := matches_of_follows (follows_reads_of_run ran)
    exact ⟨_, _, children, matched, by rw [Frame.build, List.reverse_reverse]⟩
  · cases h

/-- What holds of all nodes that a check of the phrases lets pass holds everywhere in a tree that is
parsed. -/
theorem forall_subtrees_of_parse {P : Tree → Prop} (check : NodeKind → Phrase → Bool)
    (leaf : ∀ token, P (.leaf token))
    (node : ∀ {p kind flow children}, Phrase.Matches (Derives ebnf) flow p children →
      check kind p = true → ∀ start stop, P (.node kind start stop children))
    (names : ∀ name, ((ebnf name).trees.all fun made => check made.1 made.2) = true)
    (entries : ∀ entry : Entry, check entry.kind entry.phrase = true ∧
      (entry.phrase.trees.all fun made => check made.1 made.2) = true)
    {entry : Entry} {s : Session σ} {tree : Tree} (h : (s.parse entry).1 = .ok tree) :
    ∀ inner ∈ tree.subtrees, P inner := by
  obtain ⟨start, stop, children, matched, rfl⟩ := parse_matches (Prod.ext h rfl)
  obtain ⟨root, made⟩ := entries entry
  have parts := (matched.mono fun _ _ _ derived =>
    ⟨derived, derived.forall_subtrees_of_all check leaf node names⟩).forall_subtrees leaf
      fun kind inner flow start stop children mem matched =>
        node matched (List.all_eq_true.1 made _ mem) start stop
  intro inner mem
  rcases List.mem_cons.1 mem with rfl | mem
  · exact node matched root start stop
  · exact parts inner mem

end Session

end PythonSyntax
