/-
**The tokens that a session passes.**

Whatever the rules are, the pieces that a session has collected hold the tokens that it has passed,
each once and in the order of the text.

Main definitions:

* `PythonSyntax.Path` — moving from one cursor to another over some tokens;
* `PythonSyntax.Frame.tokens` — the tokens of the pieces.

Main results:

* `PythonSyntax.Session.follows_path` — following a rule adds the tokens that are passed;
* `PythonSyntax.Session.reads_path` — so does a call;
* `PythonSyntax.Session.parseBy_path` — a tree holds the tokens that were passed for it.
-/

import PythonSyntax.Proofs.Parsing.Follows

set_option autoImplicit false

namespace PythonSyntax

/-! ### Paths -/

/-- Moving from one cursor to another, over tokens each of which is the current one when it is
passed. -/
inductive Path {σ : Type} [Cursor σ] : σ → List Token → σ → Prop
  | nil (c : σ) : Path c [] c
  | cons {c c' c'' : σ} {token : Token} {tokens : List Token} (here : Cursor.current c = token)
      (moved : Cursor.advance c = (none, c')) (rest : Path c' tokens c'') :
      Path c (token :: tokens) c''

namespace Path

variable {σ : Type} [Cursor σ] {c c' : σ} {first second tokens : List Token} {token : Token}

@[simp] theorem nil_iff : Path c [] c' ↔ c' = c := by
  constructor
  · intro h
    cases h
    rfl
  · rintro rfl
    exact .nil c'

theorem cons_iff : Path c (token :: tokens) c' ↔
    Cursor.current c = token ∧ ∃ next, Cursor.advance c = (none, next) ∧ Path next tokens c' := by
  constructor
  · intro h
    cases h with
    | cons here moved rest => exact ⟨here, _, moved, rest⟩
  · rintro ⟨here, next, moved, rest⟩
    exact .cons here moved rest

theorem append_iff : Path c (first ++ second) c' ↔
    ∃ middle, Path c first middle ∧ Path middle second c' := by
  induction first generalizing c with
  | nil => simp
  | cons token first ih =>
      simp only [List.cons_append, cons_iff, ih]
      constructor
      · rintro ⟨here, next, moved, middle, front, back⟩
        exact ⟨middle, ⟨here, next, moved, front⟩, back⟩
      · rintro ⟨middle, ⟨here, next, moved, front⟩, back⟩
        exact ⟨here, next, moved, middle, front, back⟩

/-- There is one place to which some tokens lead. -/
theorem unique {c'' : σ} (h : Path c tokens c') (h' : Path c tokens c'') : c' = c'' := by
  induction h with
  | nil c => exact (nil_iff.1 h').symm
  | cons here moved rest ih =>
      obtain ⟨-, next, moved', rest'⟩ := cons_iff.1 h'
      rw [moved] at moved'
      cases moved'
      exact ih rest'

end Path

/-- Taking a token is a path of one token. -/
theorem Session.Takes.path {σ : Type} [Cursor σ] {s t : Session σ} {token : Token}
    (h : s.Takes token t) : Path s.cursor [token] t.cursor :=
  .cons h.1 h.2.1 (.nil _)

/-! ### The tokens of a frame -/

namespace Frame

/-- The tokens of the pieces, in the order of the text. -/
def tokens (frame : Frame) : List Token := Tree.tokensOf frame.reverse

@[simp] theorem tokens_nil : tokens [] = [] := rfl

@[simp] theorem tokens_cons (child : Child) (frame : Frame) :
    tokens (child :: frame) = tokens frame ++ child.2.tokens := by
  simp [tokens, Tree.tokensOf_append]

@[simp] theorem tokens_append (later frame : Frame) :
    tokens (later ++ frame) = tokens frame ++ tokens later := by
  simp [tokens, Tree.tokensOf_append]

/-- The fields that pieces take do not change their tokens. -/
theorem tokens_map (field : Field) (frame : Frame) :
    tokens (frame.map fun child => (field, child.2)) = tokens frame := by
  induction frame with
  | nil => rfl
  | cons child rest ih => simp [ih]

theorem tokens_reverse (children : List Child) :
    tokens children.reverse = Tree.tokensOf children := by
  simp [tokens]

theorem tokens_build (frame : Frame) (kind : NodeKind) (here stop : Nat) :
    (frame.build kind here stop).tokens = tokens frame := rfl

theorem tokens_relabel (frame : Frame) (field : Field) : tokens (frame.relabel field) =
    tokens frame := by
  cases frame with
  | nil => rfl
  | cons child rest => simp [relabel]

theorem tokens_unwrap (frame : Frame) (field : Field) : tokens (frame.unwrap field) =
    tokens frame := by
  match frame with
  | [] => rfl
  | (_, .leaf token) :: rest => rfl
  | (_, .node kind start stop children) :: rest =>
      simp only [unwrap, tokens_append, tokens_cons, Tree.tokens_node, tokens_map,
        tokens_reverse]

end Frame

/-! ### Following and calling -/

namespace Session

variable {σ : Type} [Cursor σ]

/-- What reading has done: it has passed the tokens that the frame has gained, and stands in the
same bodies as before. -/
structure Passed (frame : Frame) (s : Session σ) (frame' : Frame) (s' : Session σ) : Prop where
  flow : s'.flow = s.flow
  path : ∃ tokens, Path s.cursor tokens s'.cursor ∧ frame'.tokens = frame.tokens ++ tokens

theorem Passed.refl (frame : Frame) (s : Session σ) : Passed frame s frame s :=
  ⟨rfl, [], .nil _, by simp⟩

theorem Passed.trans {f g h : Frame} {s t u : Session σ} (one : Passed f s g t)
    (two : Passed g t h u) : Passed f s h u := by
  obtain ⟨front, path, gained⟩ := one.path
  obtain ⟨back, path', gained'⟩ := two.path
  refine ⟨two.flow.trans one.flow, front ++ back, Path.append_iff.2 ⟨_, path, path'⟩, ?_⟩
  rw [gained', gained, List.append_assoc]

/-- Changing the pieces without changing their tokens. -/
theorem Passed.of_tokens {frame frame' : Frame} (s : Session σ)
    (same : frame'.tokens = frame.tokens) : Passed frame s frame' s :=
  ⟨rfl, [], .nil _, by simp [same]⟩

/-- Following a rule adds the tokens that are passed, if its calls do. -/
theorem follows_path {C : Nonterminal → Session σ → Frame → Session σ → Prop}
    (calls : ∀ name s pieces t, C name s pieces t → Passed [] s pieces t) {rule : Rule}
    {frame frame' : Frame} {s s' : Session σ} (h : Follows C rule frame s frame' s') :
    Passed frame s frame' s' := by
  induction rule generalizing frame s frame' s' with
  | done =>
      obtain ⟨rfl, rfl⟩ := h
      exact .refl _ _
  | seq first second ih ih' =>
      obtain ⟨middle, t, one, two⟩ := h
      exact (ih one).trans (ih' two)
  | shift field =>
      obtain ⟨token, taken, rfl⟩ := h
      exact ⟨taken.2.2.2, [token], taken.path, by simp⟩
  | call name field =>
      obtain ⟨pieces, called, rfl⟩ := h
      obtain ⟨flow, tokens, path, gained⟩ := calls _ _ _ _ called
      refine ⟨flow, tokens, path, ?_⟩
      rw [Frame.tokens_append, Frame.tokens_map, gained]
      rfl
  | reduce kind =>
      obtain ⟨rfl, rfl⟩ := h
      exact .of_tokens _ (by simp [Frame.tokens_build])
  | reducePair kind field =>
      obtain ⟨rfl, rfl⟩ := h
      refine .of_tokens _ ?_
      rw [Frame.tokens_cons, Frame.tokens_build, ← Frame.tokens_append, List.take_append_drop]
  | relabel field =>
      obtain ⟨rfl, rfl⟩ := h
      exact .of_tokens _ (Frame.tokens_relabel _ _)
  | unwrap field =>
      obtain ⟨rfl, rfl⟩ := h
      exact .of_tokens _ (Frame.tokens_unwrap _ _)
  | branch test yes no ih ih' =>
      rcases h with ⟨-, one⟩ | ⟨-, two⟩
      · exact ih one
      · exact ih' two
  | loop test body ih =>
      change Loops (fun frame s => s.answers frame test) (Follows C body) frame s frame' s' at h
      induction h with
      | stop _ => exact .refl _ _
      | round _ once _ again => exact (ih once).trans again
  | within scope body ih =>
      obtain ⟨t, one, rfl⟩ := h
      exact ⟨rfl, (ih one).path⟩
  | refuse complaint place => exact h.elim

/-- A call passes the tokens of its pieces. -/
theorem reads_path {grammar : Grammar} {name : Nonterminal} {s t : Session σ} {pieces : Frame}
    (h : Reads grammar name s pieces t) : Passed [] s pieces t := by
  refine Reads.rule_induction (P := fun _ s pieces t => Passed [] s pieces t) ?_ h
  intro name s pieces t followed
  exact follows_path (fun _ _ _ _ h => h.2) followed

/-- The tree that is read, by any grammar, holds the tokens that were passed for it, and the
session is left in the bodies in which it was. -/
theorem parseBy_path {grammar : Grammar} {entry : Entry} {s t : Session σ} {tree : Tree}
    (h : s.parseBy grammar entry = (.ok tree, t)) :
    Path s.cursor tree.tokens t.cursor ∧ t.flow = s.flow := by
  unfold parseBy at h
  split at h
  · rename_i frame u ran
    cases h
    obtain ⟨flow, tokens, path, gained⟩ :=
      follows_path (fun _ _ _ _ => reads_path) (follows_reads_of_run ran)
    rw [Frame.tokens_build, gained]
    exact ⟨path, flow⟩
  · cases h

end Session

end PythonSyntax
