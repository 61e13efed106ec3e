/-
**What is derived is parsed as it stands.**

Children of a module or of an expression by the grammar are parsed from their tokens, wherever these
stand.  What is parsed has the same shape, and all nodes of both span their tokens; so it is the
same, with its spans.  The depth of calls does not matter, since reading is never cut short.

Main results:

* `PythonSyntax.Session.exists_parse_of_matches` — what is derived is parsed, up to spans;
* `PythonSyntax.Session.parse_children_spanning` — all nodes in what is parsed span their tokens;
* `PythonSyntax.Session.parse_of_matches` — **what is derived is parsed as it stands**, if its nodes
  span their tokens.
-/

import PythonSyntax.Proofs.Parsing.Parameters
import PythonSyntax.Proofs.Parsing.Stepwise
import PythonSyntax.Proofs.Parsing.UncommentedSpans

set_option autoImplicit false

namespace PythonSyntax

/-- The tokens decide which way the rule of a module or of an expression goes. -/
theorem Entry.completes_rule {entry : Entry} (whole : entry ≠ .single) :
    entry.rule.completes .full entry.phrase = true := by
  cases entry with
  | single => exact absurd rfl whole
  | file | eval => decide

namespace Session

variable {σ : Type} [Cursor σ] {s t : Session σ} {c : σ} {entry : Entry} {children : List Child}
  {tree : Tree}

/-- **Children by the grammar are parsed wherever their tokens stand**, up to spans. -/
theorem exists_parse_of_matches (entry : Entry) (whole : entry ≠ .single) (down : Countdown σ)
    (foresight : Foresight σ) (good : down.good s.cursor)
    (matched : entry.phrase.Matches (Derives ebnf) s.flow children)
    (path : Path s.cursor (Tree.tokensOf children) c) :
    ∃ read t, s.parse entry = (.ok read, t) ∧
      read.bare = .node entry.kind 0 0 (Tree.bareOf children) := by
  have readable := matched.mono fun _ _ _ => readable_of_derives closed_reads foresight
  obtain ⟨added, t, bare, followed, -⟩ :=
    completes_of_completes _ _ (Entry.completes_rule whole) children [] s c readable path
      (KindSet.mem_full _)
  obtain ⟨fuel, ran⟩ := exists_run_of_follows followed
  have comes : Comes entry.rule [] s (.done (added.reverse ++ []) t) := .of_run ran nofun
  refine ⟨_, t, parse_of_comes down good comes, ?_⟩
  simp [Frame.build, bare]

/-- All nodes in what is parsed span their tokens. -/
theorem parse_children_spanning (h : s.parse entry = (.ok tree, t)) :
    ∀ inner ∈ Tree.subtreesOf tree.children, inner.kind? ≠ none → inner.SpansTokens := by
  intro inner mem node
  have inside : ∀ deep ∈ inner.subtrees, deep ∈ Tree.subtreesOf tree.children :=
    (Tree.subtreesOf_of_mem tree.children mem).1
  have accounted : inner.Accounted := by
    refine ⟨fun deep among => ?_, fun deep among =>
      parse_children_unmarked h deep (inside deep among)⟩
    refine parseBy_spanned h deep ?_
    cases tree with
    | leaf token => cases mem
    | node kind start stop children => exact List.mem_cons_of_mem _ (inside deep among)
  exact accounted.spansTokens node

/-- **Children by the grammar are parsed as they stand**, if all nodes in them span their tokens. -/
theorem parse_of_matches (entry : Entry) (whole : entry ≠ .single) (down : Countdown σ)
    (foresight : Foresight σ) (good : down.good s.cursor)
    (matched : entry.phrase.Matches (Derives ebnf) s.flow children)
    (path : Path s.cursor (Tree.tokensOf children) c)
    (spans : ∀ inner ∈ Tree.subtreesOf children, inner.kind? ≠ none → inner.SpansTokens) :
    ∃ start stop t, s.parse entry = (.ok (.node entry.kind start stop children), t) := by
  obtain ⟨read, t, parsed, bare⟩ :=
    exists_parse_of_matches entry whole down foresight good matched path
  obtain ⟨start, stop, children', -, rfl⟩ := parse_matches parsed
  have same : Tree.bareOf children' = Tree.bareOf children := by simpa using bare
  -- What is read and what is derived differ in spans at most, and their tokens determine these.
  obtain rfl := Tree.eq_of_bareOf children' children (parse_children_spanning parsed) spans same
  exact ⟨start, stop, t, parsed⟩

end Session

end PythonSyntax
