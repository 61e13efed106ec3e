/-
**Following a rule, as a relation.**

A session follows a rule with a bound on the depth of calls.  Here the bound is left out: a rule
relates the state before to the states after, and what a called rule does is a parameter.  With the
runs of a grammar for that parameter the relation is that of the runs.

Main definitions:

* `PythonSyntax.Outcome.andThen` — going on behind what has been read;
* `PythonSyntax.Session.Takes` — taking the current token;
* `PythonSyntax.Session.Loops` — repeating as long as a test holds;
* `PythonSyntax.Session.Follows` — following a rule to its end;
* `PythonSyntax.Session.Reads` — what a call comes to, with any bound.

Main results:

* `PythonSyntax.Session.follow_seq` and its like — what following a rule with parts comes to;
* `PythonSyntax.Session.run_mono` — a larger bound changes nothing but exhaustion;
* `PythonSyntax.Session.reads_iff` — a call is read as its rule is followed;
* `PythonSyntax.Session.exists_run_of_follows` — what can be followed is a run;
* `PythonSyntax.Session.Reads.rule_induction` — induction on the calls of a run.
-/

import PythonSyntax.Session.Basic

set_option autoImplicit false

namespace PythonSyntax

/-- Following a rule ends for want of depth. -/
def Outcome.Exhausted {σ : Type} (outcome : Outcome σ) : Prop :=
  ∃ position t, outcome = .failed ⟨.exhausted, position⟩ t

theorem Outcome.not_exhausted_done {σ : Type} {frame : Frame} {s : Session σ} :
    ¬ (Outcome.done frame s).Exhausted := by
  rintro ⟨position, t, eq⟩
  cases eq

/-- Going on behind the pieces, if there are any. -/
def Outcome.andThen {σ : Type} (outcome : Outcome σ) (next : Frame → Session σ → Outcome σ) :
    Outcome σ :=
  match outcome with
  | .done frame s => next frame s
  | .failed error s => .failed error s

theorem Outcome.andThen_eq_done {σ : Type} {outcome : Outcome σ}
    {next : Frame → Session σ → Outcome σ} {frame : Frame} {s : Session σ}
    (h : outcome.andThen next = .done frame s) :
    ∃ middle t, outcome = .done middle t ∧ next middle t = .done frame s := by
  cases outcome with
  | done middle t => exact ⟨middle, t, rfl, h⟩
  | failed error t => cases h

/-- The outcome, in another surrounding. -/
def Outcome.withFlow {σ : Type} (outcome : Outcome σ) (flow : Flow) : Outcome σ :=
  match outcome with
  | .done frame s => .done frame (s.withFlow flow)
  | .failed error s => .failed error (s.withFlow flow)

theorem Outcome.withFlow_eq_done {σ : Type} {outcome : Outcome σ} {flow : Flow} {frame : Frame}
    {s : Session σ} (h : outcome.withFlow flow = .done frame s) :
    ∃ t, outcome = .done frame t ∧ s = t.withFlow flow := by
  cases outcome with
  | done middle t =>
      cases h
      exact ⟨t, rfl, rfl⟩
  | failed error t => cases h

namespace Session

variable {σ : Type} [Cursor σ]

/-! ### Rules with parts -/

section

variable {grammar : Grammar} {recur : Rule → Frame → Session σ → Outcome σ} {frame : Frame}
  {s : Session σ}

theorem follow_seq (first second : Rule) : follow grammar recur (.seq first second) frame s =
    (follow grammar recur first frame s).andThen (follow grammar recur second) := rfl

theorem follow_call (name : Nonterminal) (field : Field) :
    follow grammar recur (.call name field) frame s = (recur (grammar name) [] s).andThen
      fun pieces s => .done (pieces.map (fun child => (field, child.2)) ++ frame) s := rfl

theorem follow_branch (test : Test) (yes no : Rule) :
    follow grammar recur (.branch test yes no) frame s =
      if s.answers frame test then follow grammar recur yes frame s
      else follow grammar recur no frame s := rfl

theorem follow_loop (test : Test) (body : Rule) : follow grammar recur (.loop test body) frame s =
    if s.answers frame test then
      (follow grammar recur body frame s).andThen (recur (.loop test body))
    else .done frame s := rfl

theorem follow_within (scope : Scope) (body : Rule) :
    follow grammar recur (.within scope body) frame s =
      (follow grammar recur body frame (s.withFlow (s.flow.enter scope))).withFlow s.flow := rfl

end

/-! ### Taking a token -/

/-- The current token is `token`, and taking it leads from `s` to `t`. -/
def Takes (s : Session σ) (token : Token) (t : Session σ) : Prop :=
  s.current = token ∧ Cursor.advance s.cursor = (none, t.cursor) ∧
    t.lastStop = (if token.kind.isBlockMark then s.lastStop else token.stop) ∧ t.flow = s.flow

theorem shift_eq_done_iff {s t : Session σ} {frame frame' : Frame} {field : Field} :
    s.shift frame field = .done frame' t ↔
      ∃ token, s.Takes token t ∧ frame' = (field, .leaf token) :: frame := by
  obtain ⟨cursor, lastStop, flow⟩ := t
  unfold shift
  dsimp only
  constructor
  · intro h
    split at h
    · rename_i next eq
      cases h
      exact ⟨s.current, ⟨rfl, eq, rfl, rfl⟩, rfl⟩
    · cases h
  · rintro ⟨token, ⟨rfl, moved, stop, same⟩, rfl⟩
    dsimp only at moved stop same
    rw [moved, ← stop, ← same]

/-! ### Repeating -/

/-- Repeating `body` as long as the test holds before it. -/
inductive Loops (test : Frame → Session σ → Bool)
    (body : Frame → Session σ → Frame → Session σ → Prop) :
    Frame → Session σ → Frame → Session σ → Prop
  | stop {frame : Frame} {s : Session σ} (h : test frame s = false) :
      Loops test body frame s frame s
  | round {frame frame' frame'' : Frame} {s s' s'' : Session σ} (h : test frame s = true)
      (once : body frame s frame' s') (rest : Loops test body frame' s' frame'' s'') :
      Loops test body frame s frame'' s''

omit [Cursor σ] in
theorem Loops.mono {test : Frame → Session σ → Bool}
    {body body' : Frame → Session σ → Frame → Session σ → Prop} {frame frame' : Frame}
    {s s' : Session σ} (le : ∀ f s f' s', body f s f' s' → body' f s f' s')
    (h : Loops test body frame s frame' s') : Loops test body' frame s frame' s' := by
  induction h with
  | stop h => exact .stop h
  | round h once _ ih => exact .round h (le _ _ _ _ once) ih

/-! ### Following -/

/-- Following a rule to its end: the frame and the session before, and those after.  `C` tells what
a call may come to. -/
def Follows (C : Nonterminal → Session σ → Frame → Session σ → Prop) :
    Rule → Frame → Session σ → Frame → Session σ → Prop
  | .done, frame, s, frame', s' => frame' = frame ∧ s' = s
  | .seq first second, frame, s, frame', s' =>
    ∃ middle t, Follows C first frame s middle t ∧ Follows C second middle t frame' s'
  | .shift field, frame, s, frame', s' =>
    ∃ token, s.Takes token s' ∧ frame' = (field, .leaf token) :: frame
  | .call name field, frame, s, frame', s' =>
    ∃ pieces, C name s pieces s' ∧
      frame' = pieces.map (fun child => (field, child.2)) ++ frame
  | .reduce kind, frame, s, frame', s' =>
    frame' = [(.left, frame.build kind s.position s.lastStop)] ∧ s' = s
  | .reducePair kind field, frame, s, frame', s' =>
    frame' = (field, Frame.build (frame.take 2) kind s.position s.lastStop) :: frame.drop 2 ∧
      s' = s
  | .relabel field, frame, s, frame', s' => frame' = frame.relabel field ∧ s' = s
  | .unwrap field, frame, s, frame', s' => frame' = frame.unwrap field ∧ s' = s
  | .branch test yes no, frame, s, frame', s' =>
    (s.answers frame test = true ∧ Follows C yes frame s frame' s') ∨
      (s.answers frame test = false ∧ Follows C no frame s frame' s')
  | .loop test body, frame, s, frame', s' =>
    Loops (fun frame s => s.answers frame test) (Follows C body) frame s frame' s'
  | .within scope body, frame, s, frame', s' =>
    ∃ t, Follows C body frame (s.withFlow (s.flow.enter scope)) frame' t ∧
      s' = t.withFlow s.flow
  | .refuse _ _, _, _, _, _ => False

theorem Follows.mono {C C' : Nonterminal → Session σ → Frame → Session σ → Prop} {rule : Rule}
    {frame frame' : Frame} {s s' : Session σ}
    (le : ∀ name s pieces t, C name s pieces t → C' name s pieces t)
    (h : Follows C rule frame s frame' s') : Follows C' rule frame s frame' s' := by
  induction rule generalizing frame s frame' s' with
  | seq first second ih ih' =>
      obtain ⟨middle, t, one, two⟩ := h
      exact ⟨middle, t, ih one, ih' two⟩
  | call name field =>
      obtain ⟨pieces, called, rfl⟩ := h
      exact ⟨pieces, le _ _ _ _ called, rfl⟩
  | branch test yes no ih ih' =>
      rcases h with ⟨holds, one⟩ | ⟨fails, two⟩
      · exact Or.inl ⟨holds, ih one⟩
      · exact Or.inr ⟨fails, ih' two⟩
  | loop test body ih => exact Loops.mono (fun _ _ _ _ once => ih once) h
  | within scope body ih =>
      obtain ⟨t, one, rfl⟩ := h
      exact ⟨t, ih one, rfl⟩
  | _ => exact h

/-! ### Runs -/

/-- The first of two ways to read a rule settles what the second does, but for exhaustion. -/
def Settles (recur recur' : Rule → Frame → Session σ → Outcome σ) : Prop :=
  ∀ rule frame s, ¬ (recur rule frame s).Exhausted → recur' rule frame s = recur rule frame s

omit [Cursor σ] in
/-- Where both ways agree on a part and on what goes on behind it, they agree on the whole. -/
theorem andThen_of_settles {one one' : Outcome σ} {next next' : Frame → Session σ → Outcome σ}
    (same : ¬ one.Exhausted → one' = one)
    (goes : ∀ frame s, ¬ (next frame s).Exhausted → next' frame s = next frame s)
    (alive : ¬ (one.andThen next).Exhausted) : one'.andThen next' = one.andThen next := by
  cases one with
  | done middle t =>
      rw [same Outcome.not_exhausted_done]
      exact goes middle t alive
  | failed error t =>
      rw [same alive]
      rfl

omit [Cursor σ] in
theorem withFlow_of_settles {one one' : Outcome σ} {flow : Flow}
    (same : ¬ one.Exhausted → one' = one) (alive : ¬ (one.withFlow flow).Exhausted) :
    one'.withFlow flow = one.withFlow flow := by
  have within : ¬ one.Exhausted := by
    rintro ⟨position, t, rfl⟩
    exact alive ⟨position, _, rfl⟩
  rw [same within]

theorem follow_settles {grammar : Grammar} {recur recur' : Rule → Frame → Session σ → Outcome σ}
    (settles : Settles recur recur') : Settles (follow grammar recur) (follow grammar recur') := by
  intro rule
  induction rule with
  | seq first second ih ih' =>
      intro frame s alive
      exact andThen_of_settles (ih frame s) ih' alive
  | call name field =>
      intro frame s alive
      exact andThen_of_settles (settles _ _ _) (fun _ _ _ => rfl) alive
  | branch test yes no ih ih' =>
      intro frame s alive
      rw [follow_branch] at alive ⊢
      split at alive
      · rename_i holds
        rw [follow_branch, if_pos holds, if_pos holds]
        exact ih frame s alive
      · rename_i fails
        rw [follow_branch, if_neg fails, if_neg fails]
        exact ih' frame s alive
  | loop test body ih =>
      intro frame s alive
      rw [follow_loop] at alive ⊢
      rw [follow_loop]
      split
      · rename_i holds
        rw [if_pos holds] at alive
        exact andThen_of_settles (ih frame s) (settles _) alive
      · rfl
  | within scope body ih =>
      intro frame s alive
      exact withFlow_of_settles (ih frame _) alive
  | _ =>
      intro frame s _
      rfl

/-- **A larger bound changes nothing but exhaustion.** -/
theorem run_mono {grammar : Grammar} {fuel more : Nat} (le : fuel ≤ more) :
    Settles (run (σ := σ) grammar fuel) (run grammar more) := by
  induction fuel generalizing more with
  | zero =>
      intro rule frame s alive
      exact absurd ⟨s.position, s, rfl⟩ alive
  | succ fuel ih =>
      obtain ⟨more, rfl⟩ : ∃ n, more = n + 1 := ⟨more - 1, by omega⟩
      exact follow_settles (ih (by omega))

theorem run_done_mono {grammar : Grammar} {fuel more : Nat} {rule : Rule} {frame frame' : Frame}
    {s t : Session σ} (le : fuel ≤ more) (h : run grammar fuel rule frame s = .done frame' t) :
    run grammar more rule frame s = .done frame' t := by
  rw [← h]
  refine run_mono le rule frame s ?_
  rw [h]
  exact Outcome.not_exhausted_done

/-! ### Calls -/

/-- A call comes to these pieces, with some bound. -/
def Reads (grammar : Grammar) (name : Nonterminal) (s : Session σ) (pieces : Frame)
    (t : Session σ) : Prop :=
  ∃ fuel, run grammar fuel (grammar name) [] s = .done pieces t

/-- What is followed with a given way to read rules is followed as a relation. -/
theorem follows_of_follow {grammar : Grammar} {recur : Rule → Frame → Session σ → Outcome σ}
    {C : Nonterminal → Session σ → Frame → Session σ → Prop}
    (calls : ∀ name s pieces t, recur (grammar name) [] s = .done pieces t → C name s pieces t)
    (loops : ∀ test body frame s frame' t, recur (.loop test body) frame s = .done frame' t →
      Follows C (.loop test body) frame s frame' t)
    {rule : Rule} {frame frame' : Frame} {s t : Session σ}
    (h : follow grammar recur rule frame s = .done frame' t) :
    Follows C rule frame s frame' t := by
  induction rule generalizing frame s frame' t with
  | done =>
      cases h
      exact ⟨rfl, rfl⟩
  | seq first second ih ih' =>
      obtain ⟨middle, u, one, two⟩ := Outcome.andThen_eq_done h
      exact ⟨middle, u, ih one, ih' two⟩
  | shift field => exact shift_eq_done_iff.1 h
  | call name field =>
      obtain ⟨pieces, u, one, eq⟩ := Outcome.andThen_eq_done h
      cases eq
      exact ⟨pieces, calls _ _ _ _ one, rfl⟩
  | reduce kind =>
      cases h
      exact ⟨rfl, rfl⟩
  | reducePair kind field =>
      cases h
      exact ⟨rfl, rfl⟩
  | relabel field =>
      cases h
      exact ⟨rfl, rfl⟩
  | unwrap field =>
      cases h
      exact ⟨rfl, rfl⟩
  | branch test yes no ih ih' =>
      rw [follow_branch] at h
      split at h
      · rename_i holds
        exact Or.inl ⟨holds, ih h⟩
      · rename_i fails
        exact Or.inr ⟨by simpa using fails, ih' h⟩
  | loop test body ih =>
      rw [follow_loop] at h
      split at h
      · rename_i holds
        obtain ⟨middle, u, one, rest⟩ := Outcome.andThen_eq_done h
        exact .round holds (ih one) (loops _ _ _ _ _ _ rest)
      · rename_i fails
        cases h
        exact .stop (by simpa using fails)
  | within scope body ih =>
      obtain ⟨u, one, rfl⟩ := Outcome.withFlow_eq_done h
      exact ⟨u, ih one, rfl⟩
  | refuse complaint place => cases h

/-- A run follows its rule, and its calls are runs with a smaller bound. -/
theorem follows_of_run {grammar : Grammar} {fuel : Nat} {rule : Rule} {frame frame' : Frame}
    {s t : Session σ} (h : run grammar fuel rule frame s = .done frame' t) :
    Follows (fun name s pieces t => ∃ less < fuel, run grammar less (grammar name) [] s =
      .done pieces t) rule frame s frame' t := by
  induction fuel generalizing rule frame s frame' t with
  | zero => cases h
  | succ fuel ih =>
      have h : follow grammar (run grammar fuel) rule frame s = .done frame' t := h
      refine follows_of_follow ?_ ?_ h
      · exact fun name s pieces t called => ⟨fuel, Nat.lt_succ_self fuel, called⟩
      · intro test body frame s frame' t looped
        refine (ih looped).mono ?_
        rintro name s pieces t ⟨less, lt, called⟩
        exact ⟨less, Nat.lt_succ_of_lt lt, called⟩

theorem follows_reads_of_run {grammar : Grammar} {fuel : Nat} {rule : Rule}
    {frame frame' : Frame} {s t : Session σ}
    (h : run grammar fuel rule frame s = .done frame' t) :
    Follows (Reads grammar) rule frame s frame' t := by
  refine (follows_of_run h).mono ?_
  rintro name s pieces t ⟨less, -, called⟩
  exact ⟨less, called⟩

/-- What can be followed, with calls that are runs, is a run. -/
theorem exists_run_of_follows {grammar : Grammar} {rule : Rule} {frame frame' : Frame}
    {s t : Session σ} (h : Follows (Reads grammar) rule frame s frame' t) :
    ∃ fuel, run grammar fuel rule frame s = .done frame' t := by
  -- Bounds of the parts are brought together, so each has to serve with all larger ones as well.
  suffices ∃ fuel, ∀ more, fuel ≤ more →
      follow grammar (run grammar more) rule frame s = .done frame' t by
    obtain ⟨fuel, runs⟩ := this
    exact ⟨fuel + 1, runs fuel (Nat.le_refl _)⟩
  induction rule generalizing frame s frame' t with
  | done =>
      obtain ⟨rfl, rfl⟩ := h
      exact ⟨0, fun _ _ => rfl⟩
  | seq first second ih ih' =>
      obtain ⟨middle, u, one, two⟩ := h
      obtain ⟨m, one⟩ := ih one
      obtain ⟨n, two⟩ := ih' two
      refine ⟨max m n, fun more le => ?_⟩
      rw [follow_seq, one more (by omega)]
      exact two more (by omega)
  | shift field => exact ⟨0, fun _ _ => shift_eq_done_iff.2 h⟩
  | call name field =>
      obtain ⟨pieces, ⟨fuel, called⟩, rfl⟩ := h
      refine ⟨fuel, fun more le => ?_⟩
      rw [follow_call, run_done_mono le called]
      rfl
  | reduce kind =>
      obtain ⟨rfl, rfl⟩ := h
      exact ⟨0, fun _ _ => rfl⟩
  | reducePair kind field =>
      obtain ⟨rfl, rfl⟩ := h
      exact ⟨0, fun _ _ => rfl⟩
  | relabel field =>
      obtain ⟨rfl, rfl⟩ := h
      exact ⟨0, fun _ _ => rfl⟩
  | unwrap field =>
      obtain ⟨rfl, rfl⟩ := h
      exact ⟨0, fun _ _ => rfl⟩
  | branch test yes no ih ih' =>
      rcases h with ⟨holds, one⟩ | ⟨fails, two⟩
      · obtain ⟨fuel, one⟩ := ih one
        refine ⟨fuel, fun more le => ?_⟩
        rw [follow_branch, if_pos holds]
        exact one more le
      · obtain ⟨fuel, two⟩ := ih' two
        refine ⟨fuel, fun more le => ?_⟩
        rw [follow_branch, if_neg (by simp [fails])]
        exact two more le
  | loop test body ih =>
      change Loops (fun frame s => s.answers frame test) (Follows (Reads grammar) body) frame s
        frame' t at h
      induction h with
      | stop fails =>
          refine ⟨0, fun more _ => ?_⟩
          rw [follow_loop, if_neg (by simp [fails])]
      | round holds once _ again =>
          obtain ⟨m, once⟩ := ih once
          obtain ⟨n, again⟩ := again
          refine ⟨max m (n + 1), fun more le => ?_⟩
          obtain ⟨more, rfl⟩ : ∃ k, more = k + 1 := ⟨more - 1, by omega⟩
          rw [follow_loop, if_pos holds, once (more + 1) (by omega)]
          exact again more (by omega)
  | within scope body ih =>
      obtain ⟨u, one, rfl⟩ := h
      obtain ⟨fuel, one⟩ := ih one
      refine ⟨fuel, fun more le => ?_⟩
      rw [follow_within, one more le]
      rfl
  | refuse complaint place => exact h.elim

/-- **A call is read as its rule is followed.** -/
theorem reads_iff {grammar : Grammar} {name : Nonterminal} {s t : Session σ} {pieces : Frame} :
    Reads grammar name s pieces t ↔ Follows (Reads grammar) (grammar name) [] s pieces t := by
  constructor
  · rintro ⟨fuel, called⟩
    exact follows_reads_of_run called
  · exact exists_run_of_follows

/-- Induction on the calls of a run: a property holds of every call if it holds of a call whenever
it holds of the calls that its rule makes. -/
theorem Reads.rule_induction {grammar : Grammar}
    {P : Nonterminal → Session σ → Frame → Session σ → Prop}
    (step : ∀ name s pieces t,
      Follows (fun name s pieces t => Reads grammar name s pieces t ∧ P name s pieces t)
        (grammar name) [] s pieces t → P name s pieces t)
    {name : Nonterminal} {s t : Session σ} {pieces : Frame}
    (h : Reads grammar name s pieces t) : P name s pieces t := by
  obtain ⟨fuel, called⟩ := h
  induction fuel using Nat.strongRecOn generalizing name s pieces t with
  | ind fuel ih =>
      refine step _ _ _ _ ((follows_of_run called).mono ?_)
      rintro name s pieces t ⟨less, lt, called⟩
      exact ⟨⟨less, called⟩, ih less lt called⟩

end Session

end PythonSyntax
