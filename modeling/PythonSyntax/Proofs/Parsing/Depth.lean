/-
**How deep reading goes.**

The depth of calls and repetitions is bounded by the number of tokens.  Before a rule takes its
first token it calls only rules of smaller rank, and no rank is as large as 64; and a loop takes a
token in every round.

Main definitions:

* `PythonSyntax.Nonterminal.rank` — the ranks of the names;
* `PythonSyntax.Rule.shallow` — whether a rule, before its first token, calls only names up to a
  rank;
* `PythonSyntax.Session.Bounded` — a call that takes tokens, with a depth bounded by their number.

Main results:

* `PythonSyntax.Session.follow_of_follows` — what is followed with bounded calls is a run of
  bounded depth;
* `PythonSyntax.Session.closed_bounded` — a rule that makes bounded calls is itself a bounded call.
-/

import PythonSyntax.Proofs.Parsing.Complete

set_option autoImplicit false

namespace PythonSyntax

namespace Nonterminal

/-- How long calls may go on from the rule of the name before a token is taken. -/
def rank : Nonterminal → Nat
  | atom | dottedAsName | parameters _ | decorators => 2
  | atomExpr | decorated => 3
  | power => 4
  | factor => 5
  | term => 6
  | arithExpr => 7
  | shiftExpr => 8
  | andExpr => 9
  | xorExpr => 10
  | expr => 11
  | comparison | starOrExpr | asPattern => 12
  | notTest | exprList | patterns => 13
  | andTest => 14
  | orTest => 15
  | test | testNoCondition => 16
  | namedExprTest | starOrTest | testList | argument | dictItem | curlyItems | withItem => 17
  | starOrNamedExpr | testListStarExpr | subscript | argList => 18
  | namedExprList | displayItems | subscriptList | exprStatement | assignmentValue => 19
  | smallStatement => 20
  | simpleStatement => 21
  | suite | statement => 22
  | _ => 1

end Nonterminal

namespace Rule

/-- The rule does not end before it takes a token, if it begins at one of the kinds. -/
def advances (rule : Rule) (kinds : KindSet) : Bool :=
  (rule.passive (fun _ => false) kinds).subset .empty

/-- Before it takes a token, the rule calls only names of rank at most `limit`; its loops take a
token in every round. -/
def shallow : Rule → Nat → Bool
  | .call name _, limit => name.rank ≤ limit
  | .seq first second, limit =>
    first.shallow limit && second.shallow (if first.advances .full then 63 else limit)
  | .branch _ yes no, limit => yes.shallow limit && no.shallow limit
  | .loop test body, limit =>
    body.shallow limit && match test.kinds? with
      | some set => body.advances set
      | none => false
  | .within _ body, limit => body.shallow limit
  | _, _ => true

end Rule

theorem Nonterminal.shallow_python (name : Nonterminal) :
    ((Grammar.python name).shallow (name.rank - 1) && decide (0 < name.rank)) = true :=
  forall_of_all
    (fun name => (Grammar.python name).shallow (name.rank - 1) && decide (0 < name.rank))
    (by decide) name

namespace Session

variable {σ : Type} [Cursor σ]

/-- A call takes tokens, and its depth is bounded by their number. -/
structure Bounded (name : Nonterminal) (s : Session σ) (pieces : Frame) (t : Session σ) :
    Prop where
  takes : pieces.tokens ≠ []
  runs : run Grammar.python (name.rank + 64 * pieces.tokens.length) (Grammar.python name) [] s =
    .done pieces t

theorem Bounded.passed {name : Nonterminal} {s t : Session σ} {pieces : Frame}
    (h : Bounded name s pieces t) : Passed [] s pieces t :=
  reads_path ⟨_, h.runs⟩

/-- A rule that advances takes a token. -/
theorem gained_ne_nil {rule : Rule} {kinds : KindSet} {frame frame' : Frame} {s s' : Session σ}
    {gained : List Token} (advances : rule.advances kinds = true)
    (mem : kinds.mem s.current.kind = true) (h : Follows Bounded rule frame s frame' s')
    (eq : frame'.tokens = frame.tokens ++ gained) : gained ≠ [] := by
  rintro rfl
  rw [List.append_nil] at eq
  obtain ⟨-, passive⟩ := follows_passive (fun _ _ _ _ called => called.passed)
    (fun _ _ _ _ called _ => called.takes) mem h eq
  have none := KindSet.mem_of_subset advances passive
  rw [KindSet.mem_empty] at none
  cases none

/-- The tokens that a frame gains while a rule is followed. -/
theorem exists_gained {rule : Rule} {frame frame' : Frame} {s s' : Session σ}
    (h : Follows Bounded rule frame s frame' s') :
    ∃ gained, frame'.tokens = frame.tokens ++ gained := by
  obtain ⟨-, gained, -, eq⟩ := follows_path (fun _ _ _ _ called => called.passed) h
  exact ⟨gained, eq⟩

/-- **What is followed with bounded calls is a run of bounded depth.** -/
theorem follow_of_follows {rule : Rule} {limit more : Nat} {frame frame' : Frame}
    {s s' : Session σ} {gained : List Token} (shallow : rule.shallow limit = true)
    (h : Follows Bounded rule frame s frame' s') (eq : frame'.tokens = frame.tokens ++ gained)
    (enough : limit + 64 * gained.length ≤ more) :
    follow Grammar.python (run Grammar.python more) rule frame s = .done frame' s' := by
  induction rule generalizing limit more frame s frame' s' gained with
  | done | reduce _ | reducePair _ _ | relabel _ | unwrap _ =>
      obtain ⟨rfl, rfl⟩ := h
      rfl
  | shift field => exact shift_eq_done_iff.2 h
  | refuse complaint place => exact h.elim
  | call name field =>
      obtain ⟨pieces, called, rfl⟩ := h
      rw [Frame.tokens_append, Frame.tokens_map, List.append_cancel_left_eq] at eq
      simp only [Rule.shallow, decide_eq_true_eq] at shallow
      subst eq
      rw [follow_call, run_done_mono (by omega) called.runs]
      rfl
  | seq first second ih ih' =>
      obtain ⟨middle, t, one, two⟩ := h
      obtain ⟨front, eqFront⟩ := exists_gained one
      obtain ⟨back, eqBack⟩ := exists_gained two
      simp only [Rule.shallow, Bool.and_eq_true] at shallow
      have whole : gained = front ++ back := by
        rw [eqBack, eqFront, List.append_assoc, List.append_cancel_left_eq] at eq
        exact eq.symm
      rw [whole, List.length_append] at enough
      rw [follow_seq, ih shallow.1 one eqFront (by omega)]
      refine ih' shallow.2 two eqBack ?_
      split
      · rename_i advances
        -- After a token has been taken, any rank is small enough.
        have taken : 0 < front.length :=
          List.length_pos_iff.2 (gained_ne_nil advances (KindSet.mem_full _) one eqFront)
        omega
      · omega
  | branch test yes no ih ih' =>
      simp only [Rule.shallow, Bool.and_eq_true] at shallow
      rw [follow_branch]
      rcases h with ⟨holds, one⟩ | ⟨fails, two⟩
      · rw [if_pos holds]
        exact ih shallow.1 one eq enough
      · rw [if_neg (by simp [fails])]
        exact ih' shallow.2 two eq enough
  | loop test body ih =>
      simp only [Rule.shallow, Bool.and_eq_true] at shallow
      obtain ⟨shallow, progress⟩ := shallow
      split at progress
      · rename_i set kinds
        change Loops (fun frame s => s.answers frame test) (Follows Bounded body) frame s frame'
          s' at h
        induction h generalizing gained more with
        | stop fails =>
            rw [follow_loop, if_neg (by simp [fails])]
        | @round frame middle frame' s t s' holds once rest again =>
            obtain ⟨front, eqFront⟩ := exists_gained once
            have rounds : Follows Bounded (.loop test body) middle t frame' s' := rest
            obtain ⟨back, eqBack⟩ := exists_gained rounds
            have whole : gained = front ++ back := by
              rw [eqBack, eqFront, List.append_assoc, List.append_cancel_left_eq] at eq
              exact eq.symm
            have going : set.mem s.current.kind = true := by
              rw [← answers_of_kinds? kinds]
              exact holds
            have taken : 0 < front.length :=
              List.length_pos_iff.2 (gained_ne_nil progress going once eqFront)
            rw [whole, List.length_append] at enough
            obtain ⟨less, rfl⟩ : ∃ n, more = n + 1 := ⟨more - 1, by omega⟩
            rw [follow_loop, if_pos holds, ih shallow once eqFront (by omega)]
            exact again eqBack (by omega)
      · cases progress
  | within scope body ih =>
      obtain ⟨t, one, rfl⟩ := h
      rw [follow_within, ih shallow one eq enough]
      rfl

/-- **A rule that makes bounded calls is itself a bounded call.** -/
theorem closed_bounded : Closed (Bounded (σ := σ)) := by
  intro name s pieces t followed taken
  have checked := name.shallow_python
  simp only [Bool.and_eq_true, decide_eq_true_eq] at checked
  refine ⟨taken, ?_⟩
  obtain ⟨less, eq⟩ : ∃ n, name.rank + 64 * pieces.tokens.length = n + 1 :=
    ⟨name.rank + 64 * pieces.tokens.length - 1, by omega⟩
  have gained : pieces.tokens = Frame.tokens [] ++ pieces.tokens := rfl
  rw [eq]
  exact follow_of_follows checked.1 followed gained (by omega)

end Session

end PythonSyntax
