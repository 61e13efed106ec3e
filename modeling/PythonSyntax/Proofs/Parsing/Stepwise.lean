/-
**Statement by statement.**

A text can be read as a module, or in an interactive session: one statement after another, until the
end of the text.  Both ways tell the statements apart by tests of their own, and they treat the ends
of lines in different ways; but they read the same statements and fail at the same place.

Main definitions:

* `PythonSyntax.Session.Comes` — what following a rule comes to, with any large enough depth;
* `PythonSyntax.Rule.idles` — the kinds of tokens before which a rule takes none;
* `PythonSyntax.Session.Exchange` — one interactive statement beside the loop over a module;
* `PythonSyntax.Session.Dialogue` — reading interactive statements up to the end of the text;
* `PythonSyntax.Session.ReadsStepwise` — the interactive statements are those of the module.

Main results:

* `PythonSyntax.Session.run_call_idle` — a rule that looks at its first token does not take the mark
  of a block; it fails there;
* `PythonSyntax.Session.exchange` — one interactive statement keeps step with the loop over a module;
* `PythonSyntax.Session.exists_dialogue` — so does a dialogue, which comes to an end;
* `PythonSyntax.reads_stepwise` — over any text, and over any tokens, the interactive statements are
  those of the module.
-/

import PythonSyntax.Proofs.Parsing.Progress

set_option autoImplicit false

namespace PythonSyntax

/-! ### What a rule comes to -/

namespace Session

variable {σ : Type} [Cursor σ] {s t : Session σ} {rule first second body : Rule}
  {frame frame' : Frame} {outcome : Outcome σ} {error : SyntaxError}

/-- With any large enough depth, following the rule has the outcome. -/
def Comes (rule : Rule) (frame : Frame) (s : Session σ) (outcome : Outcome σ) : Prop :=
  ∃ fuel, ∀ more, fuel ≤ more →
    follow Grammar.python (run Grammar.python more) rule frame s = outcome

namespace Comes

theorem unique {outcome' : Outcome σ} (h : Comes rule frame s outcome)
    (h' : Comes rule frame s outcome') : outcome = outcome' := by
  obtain ⟨m, eq⟩ := h
  obtain ⟨n, eq'⟩ := h'
  rw [← eq (max m n) (by omega), ← eq' (max m n) (by omega)]

theorem of_run {fuel : Nat} (h : run Grammar.python fuel rule frame s = outcome)
    (alive : ¬ outcome.Exhausted) : Comes rule frame s outcome := by
  refine ⟨fuel, fun more le => ?_⟩
  rw [← h]
  exact run_mono (Nat.le_succ_of_le le) rule frame s (by rw [h]; exact alive)

theorem done : Comes .done frame s (.done frame s) := ⟨0, fun _ _ => rfl⟩

theorem shift {field : Field} : Comes (.shift field) frame s (s.shift frame field) :=
  ⟨0, fun _ _ => rfl⟩

theorem refuse {complaint : Complaint} : Comes (.refuse complaint .here) frame s
    (.failed ⟨.grammatical complaint s.current, s.position⟩ s) := ⟨0, fun _ _ => rfl⟩

theorem seq (one : Comes first frame s (.done frame' t)) (two : Comes second frame' t outcome) :
    Comes (.seq first second) frame s outcome := by
  obtain ⟨m, one⟩ := one
  obtain ⟨n, two⟩ := two
  refine ⟨max m n, fun more le => ?_⟩
  rw [follow_seq, one more (by omega)]
  exact two more (by omega)

theorem seq_failed (one : Comes first frame s (.failed error t)) :
    Comes (.seq first second) frame s (.failed error t) := by
  obtain ⟨fuel, one⟩ := one
  refine ⟨fuel, fun more le => ?_⟩
  rw [follow_seq, one more le]
  rfl

theorem call {name : Nonterminal} {field : Field} {pieces : Frame}
    (called : Comes (Grammar.python name) [] s (.done pieces t)) :
    Comes (.call name field) frame s
      (.done (pieces.map (fun child => (field, child.2)) ++ frame) t) := by
  obtain ⟨fuel, called⟩ := called
  refine ⟨fuel + 1, fun more le => ?_⟩
  obtain ⟨more, rfl⟩ : ∃ n, more = n + 1 := ⟨more - 1, by omega⟩
  unfold follow run
  rw [called more (by omega)]

theorem call_failed {name : Nonterminal} {field : Field}
    (called : Comes (Grammar.python name) [] s (.failed error t)) :
    Comes (.call name field) frame s (.failed error t) := by
  obtain ⟨fuel, called⟩ := called
  refine ⟨fuel + 1, fun more le => ?_⟩
  obtain ⟨more, rfl⟩ : ∃ n, more = n + 1 := ⟨more - 1, by omega⟩
  unfold follow run
  rw [called more (by omega)]

theorem yes {test : Test} (holds : s.answers frame test = true)
    (h : Comes first frame s outcome) : Comes (.branch test first second) frame s outcome := by
  obtain ⟨fuel, eq⟩ := h
  refine ⟨fuel, fun more le => ?_⟩
  rw [follow_branch, if_pos holds, eq more le]

theorem no {test : Test} (fails : s.answers frame test = false)
    (h : Comes second frame s outcome) : Comes (.branch test first second) frame s outcome := by
  obtain ⟨fuel, eq⟩ := h
  refine ⟨fuel, fun more le => ?_⟩
  rw [follow_branch, if_neg (by simp [fails]), eq more le]

theorem stop {test : Test} (fails : s.answers frame test = false) :
    Comes (.loop test body) frame s (.done frame s) := by
  refine ⟨0, fun more _ => ?_⟩
  rw [follow_loop, if_neg (by simp [fails])]

theorem round {test : Test} (holds : s.answers frame test = true)
    (once : Comes body frame s (.done frame' t)) (rest : Comes (.loop test body) frame' t outcome) :
    Comes (.loop test body) frame s outcome := by
  obtain ⟨m, once⟩ := once
  obtain ⟨n, rest⟩ := rest
  refine ⟨max m (n + 1), fun more le => ?_⟩
  obtain ⟨more, rfl⟩ : ∃ k, more = k + 1 := ⟨more - 1, by omega⟩
  rw [follow_loop, if_pos holds, once (more + 1) (by omega)]
  exact rest more (by omega)

theorem round_failed {test : Test} (holds : s.answers frame test = true)
    (once : Comes body frame s (.failed error t)) :
    Comes (.loop test body) frame s (.failed error t) := by
  obtain ⟨fuel, once⟩ := once
  refine ⟨fuel, fun more le => ?_⟩
  rw [follow_loop, if_pos holds, once more le]
  rfl

end Comes

end Session

/-! ### Tokens that mark blocks -/

/-- The kinds of the marks at which blocks begin and end. -/
def KindSet.marks : KindSet := .ofList [.indent, .dedent]

/-- The kinds of the current token, which is of one of `kinds`, with which the rule may end; from
there it takes no token, and gives up only where it stands.  There are none if it may take one.  The
rules of names that look at their first token are known to give up at the mark of a block. -/
def Rule.idles : Rule → KindSet → Option KindSet
  | .shift _, kinds => if kinds = .empty then some .empty else none
  | .refuse _ place, kinds => if kinds = .empty ∨ place = .here then some .empty else none
  | .call name _, kinds =>
    if kinds = .empty ∨ name.startsBlindly = false ∧ kinds.subset .marks = true then some .empty
    else none
  | .seq first second, kinds => (first.idles kinds).bind second.idles
  | .branch test yes no, kinds =>
    (yes.idles (kinds.inter test.mayHold)).bind fun still =>
      (no.idles (kinds.inter test.mayFail)).map still.union
  | .loop test _, kinds =>
    if kinds.inter test.mayHold = .empty then some (kinds.inter test.mayFail) else none
  | .within _ body, kinds => body.idles kinds
  | _, kinds => some kinds

/-- A rule that looks at its first token gives up at the mark of a block. -/
theorem Nonterminal.idles_python {name : Nonterminal} (looks : name.startsBlindly = false) :
    (Grammar.python name).idles .marks = some .empty := by
  have checked := forall_of_all
    (fun name => decide (name.startsBlindly = false →
      (Grammar.python name).idles .marks = some .empty))
    (by decide) name
  exact of_decide_eq_true checked looks

namespace Session

variable {σ : Type} [Cursor σ] {s t : Session σ}

/-- An outcome of a rule that takes no token: it gives up at the current one, or it ends there, with
a token of one of the kinds. -/
inductive Idle (s : Session σ) (still : KindSet) : Outcome σ → Prop
  | done {frame : Frame} {t : Session σ} (same : t.cursor = s.cursor)
      (mem : still.mem s.current.kind = true) : Idle s still (.done frame t)
  | failed {error : SyntaxError} {t : Session σ} (here : error.position = s.position) :
      Idle s still (.failed error t)

theorem Idle.mono {still still' : KindSet} {outcome : Outcome σ} (h : Idle s still outcome)
    (le : still.mem s.current.kind = true → still'.mem s.current.kind = true) :
    Idle s still' outcome := by
  cases h with
  | done same mem => exact .done same (le mem)
  | failed here => exact .failed here

/-- Going on where no token has been taken. -/
theorem Idle.andThen {still still' : KindSet} {outcome : Outcome σ}
    {next : Frame → Session σ → Outcome σ} (h : Idle s still outcome)
    (goes : ∀ frame t, t.current = s.current → still.mem t.current.kind = true →
      Idle t still' (next frame t)) : Idle s still' (outcome.andThen next) := by
  cases h with
  | @done frame t same mem =>
      have kind : t.current = s.current := congrArg Cursor.current same
      have goes := goes frame t kind (by rw [kind]; exact mem)
      change Idle s still' (next frame t)
      generalize next frame t = outcome at goes
      cases goes with
      | done same' mem' => exact .done (same'.trans same) (by rw [← kind]; exact mem')
      | failed here => exact .failed (by rw [here, position, kind]; rfl)
  | failed here => exact .failed here

theorem Idle.withFlow {still : KindSet} {outcome : Outcome σ} {entered : Flow}
    (h : Idle (s.withFlow entered) still outcome) (flow : Flow) :
    Idle s still (outcome.withFlow flow) := by
  cases h with
  | done same mem => exact .done same mem
  | failed here => exact .failed here

/-- A rule that takes no token, given that calls at the mark of a block give up. -/
theorem follow_idle {recur : Rule → Frame → Session σ → Outcome σ}
    (calls : ∀ (name : Nonterminal) (s : Session σ), name.startsBlindly = false →
      KindSet.marks.mem s.current.kind = true → Idle s .empty (recur (Grammar.python name) [] s))
    {rule : Rule} {kinds still : KindSet} (frame : Frame) (s : Session σ)
    (mem : kinds.mem s.current.kind = true) (idles : rule.idles kinds = some still) :
    Idle s still (follow Grammar.python recur rule frame s) := by
  induction rule generalizing kinds still frame s with
  | done | reduce _ | reducePair _ _ | relabel _ | unwrap _ =>
      cases idles
      exact .done rfl mem
  | shift field =>
      simp only [Rule.idles, Option.ite_none_right_eq_some] at idles
      simp [idles.1] at mem
  | refuse complaint place =>
      simp only [Rule.idles, Option.ite_none_right_eq_some] at idles
      rcases idles.1 with rfl | rfl
      · simp at mem
      · exact .failed rfl
  | call name field =>
      simp only [Rule.idles, Option.ite_none_right_eq_some, Option.some.injEq] at idles
      obtain ⟨callable, rfl⟩ := idles
      rcases callable with rfl | ⟨looks, sub⟩
      · simp at mem
      · rw [follow_call]
        have called := calls name s looks (KindSet.mem_of_subset sub mem)
        refine called.andThen fun pieces t _ none => ?_
        simp at none
  | seq first second ih ih' =>
      obtain ⟨middle, idles, idles'⟩ := Option.bind_eq_some_iff.1 idles
      rw [follow_seq]
      exact (ih frame s mem idles).andThen fun frame' t _ mem => ih' frame' t mem idles'
  | branch test yes no ih ih' =>
      simp only [Rule.idles, Option.bind_eq_some_iff, Option.map_eq_some_iff] at idles
      obtain ⟨one, idles, two, idles', rfl⟩ := idles
      rw [follow_branch]
      split
      · rename_i holds
        have both : (kinds.inter test.mayHold).mem s.current.kind = true := by
          simp [mem, mayHold_of_holds holds]
        exact (ih frame s both idles).mono (by simp +contextual)
      · rename_i fails
        have both : (kinds.inter test.mayFail).mem s.current.kind = true := by
          simp [mem, mayFail_of_fails (Bool.eq_false_iff.2 fails)]
        exact (ih' frame s both idles').mono (by simp +contextual)
  | loop test body _ =>
      simp only [Rule.idles, Option.ite_none_right_eq_some, Option.some.injEq] at idles
      -- The test fails at all these kinds, so there is no round.
      obtain ⟨never, rfl⟩ := idles
      rw [follow_loop]
      split
      · rename_i holds
        have both : (kinds.inter test.mayHold).mem s.current.kind = true := by
          simp [mem, mayHold_of_holds holds]
        simp [never] at both
      · rename_i fails
        refine .done rfl ?_
        simp [mem, mayFail_of_fails (Bool.eq_false_iff.2 fails)]
  | within scope body ih =>
      rw [follow_within]
      exact (ih frame (s.withFlow (s.flow.enter scope)) mem idles).withFlow s.flow

/-- **A call at the mark of a block gives up there**, if its rule looks at its first token. -/
theorem run_call_idle (fuel : Nat) {name : Nonterminal} (looks : name.startsBlindly = false)
    (s : Session σ) (mem : KindSet.marks.mem s.current.kind = true) :
    Idle s .empty (run Grammar.python fuel (Grammar.python name) [] s) := by
  induction fuel generalizing name s with
  | zero => exact .failed rfl
  | succ fuel ih =>
      exact follow_idle (fun name s looks mem => ih looks s mem) [] s mem
        (Nonterminal.idles_python looks)

theorem Comes.failed_of_mark {name : Nonterminal} {outcome : Outcome σ}
    (h : Comes (Grammar.python name) [] s outcome) (looks : name.startsBlindly = false)
    (mem : KindSet.marks.mem s.current.kind = true) :
    ∃ error t, outcome = .failed error t ∧ error.position = s.position := by
  obtain ⟨fuel, eq⟩ := h
  have idle := run_call_idle (fuel + 1) looks s mem
  rw [run, eq fuel (Nat.le_refl _)] at idle
  cases idle with
  | done _ none => simp at none
  | @failed error t here => exact ⟨error, t, rfl, here⟩

/-! ### Ways to a statement -/

/-- If no test holds, the last way is taken. -/
theorem Comes.otherwise {cases : List (Test × Rule)} {last : Rule} {frame : Frame}
    {outcome : Outcome σ} (none : ∀ way ∈ cases, s.answers frame way.1 = false)
    (h : Comes last frame s outcome) : Comes (Rule.choose cases last) frame s outcome := by
  induction cases with
  | nil => exact h
  | cons way rest ih =>
      refine .no (none way List.mem_cons_self) (ih fun other mem => ?_)
      exact none other (List.mem_cons_of_mem _ mem)

/-- Away from the marks of blocks, a statement that does not begin a compound one is simple. -/
theorem comes_statement {outcome : Outcome σ}
    (simple : s.answers [] Grammar.startsCompound = false)
    (unmarked : KindSet.marks.mem s.current.kind = false)
    (h : Comes (.call .simpleStatement .left) [] s outcome) :
    Comes (Grammar.python .statement) [] s outcome := by
  simp only [Grammar.startsCompound, answers, Bool.or_eq_false_iff, List.contains_cons,
    List.contains_nil, beq_eq_false_iff_ne] at simple
  simp only [KindSet.marks, KindSet.mem_ofList, List.contains_cons, List.contains_nil,
    Bool.or_eq_false_iff, beq_eq_false_iff_ne] at unmarked
  refine .otherwise ?_ h
  simp [Test.onKeyword, Test.onSymbol, answers, simple, unmarked]

/-! ### What a session reads as a whole -/

variable (down : Countdown σ)

theorem parse_of_comes (good : down.good s.cursor) {entry : Entry} {frame : Frame}
    (h : Comes entry.rule [] s (.done frame t)) :
    s.parse entry = (.ok (frame.build entry.kind t.position t.lastStop), t) := by
  obtain ⟨still, lively⟩ := Countdown.run_entry_lively Grammar.founded_python good entry
  unfold parse parseBy
  rw [(Comes.of_run rfl lively.not_exhausted).unique h]

theorem parse_of_comes_failed (good : down.good s.cursor) {entry : Entry} {error : SyntaxError}
    (h : Comes entry.rule [] s (.failed error t)) : s.parse entry = (.error error, t) := by
  obtain ⟨still, lively⟩ := Countdown.run_entry_lively Grammar.founded_python good entry
  unfold parse parseBy
  rw [(Comes.of_run rfl lively.not_exhausted).unique h]

end Session

/-! ### Children by their field -/

namespace Frame

/-- The pieces that take a field, in the order of the text. -/
def childrenAt (frame : Frame) (field : Field) : List Tree :=
  (frame.reverse.filter fun child => child.1 = field).map Prod.snd

variable {frame later pieces : Frame} {field : Field}

theorem childrenAt_build (frame : Frame) (kind : NodeKind) (here stop : Nat) (field : Field) :
    (frame.build kind here stop).childrenAt field = frame.childrenAt field := rfl

@[simp] theorem childrenAt_nil : childrenAt [] field = [] := rfl

@[simp] theorem childrenAt_append :
    childrenAt (later ++ frame) field = frame.childrenAt field ++ later.childrenAt field := by
  simp [childrenAt]

@[simp] theorem childrenAt_cons {child : Child} : childrenAt (child :: frame) field =
    frame.childrenAt field ++ if child.1 = field then [child.2] else [] := by
  by_cases same : child.1 = field <;> simp [childrenAt, same]

@[simp] theorem childrenAt_map {other : Field} :
    childrenAt (pieces.map fun child => (other, child.2)) field =
      if other = field then pieces.reverse.map Prod.snd else [] := by
  rw [childrenAt, ← List.map_reverse, List.filter_map, List.map_map]
  by_cases same : other = field
  · rw [List.filter_eq_self.2 (by simp [same]), if_pos same]
    simp [Function.comp_def]
  · rw [List.filter_eq_nil_iff.2 (by simp [same]), if_neg same, List.map_nil]

end Frame

/-! ### One exchange of a dialogue -/

namespace Entry

open Rule

/-- The loop over the statements of a module. -/
def fileLoop : Rule :=
  .loop (.not (.on [.eof]))
    (.branch (.on [.newline]) (.shift .newlines) (.call .statement .statements))

end Entry

namespace Session

open Entry

variable {σ : Type} [Cursor σ] {down : Countdown σ} {s t : Session σ}

/-- One interactive statement, and the loop over a module at the same place.  Either both read it,
and the loop goes on behind it, or both fail at the same position. -/
inductive Exchange (down : Countdown σ) (s : Session σ) : Prop
  | read {tree : Tree} {t : Session σ} (pieces : Frame) (read : s.parse .single = (.ok tree, t))
      (good : down.good t.cursor) (less : down.left t.cursor < down.left s.cursor)
      (goesOn : ∀ frame outcome, Comes fileLoop (pieces ++ frame) t outcome →
        Comes fileLoop frame s outcome)
      (statements : pieces.childrenAt .statements = tree.childrenAt .statement)
      (newlines : pieces.childrenAt .newlines = tree.childrenAt .newline)
  | failed {error error' : SyntaxError} {t : Session σ}
      (failed : s.parse .single = (.error error, t))
      (stops : ∃ t', ∀ frame, Comes fileLoop frame s (.failed error' t'))
      (same : error.position = error'.position)

/-- Taking a token leads to a session, or fails, whatever has been collected. -/
theorem shift_cases (good : down.good s.cursor) :
    (∃ t, (∀ frame field, s.shift frame field = .done ((field, .leaf s.current) :: frame) t) ∧
      down.good t.cursor ∧
        (down.left t.cursor < down.left s.cursor ∨ s.current.kind = .eof)) ∨
    ∃ error t, ∀ frame field, s.shift frame field = .failed error t := by
  unfold shift
  cases moved : Cursor.advance s.cursor with
  | mk failure next =>
      cases failure with
      | none =>
          obtain ⟨good', less⟩ := down.moved good moved
          exact Or.inl ⟨_, fun _ _ => rfl, good', less.imp id And.right⟩
      | some error => exact Or.inr ⟨error, _, fun _ _ => rfl⟩

section

variable {frame : Frame} {outcome : Outcome σ} {error : SyntaxError}

/-- The loop over a module takes a line end. -/
theorem comes_fileLoop_newline (newline : s.current.kind = .newline)
    (h : s.shift frame .newlines = .done ((.newlines, .leaf s.current) :: frame) t)
    (rest : Comes fileLoop ((.newlines, .leaf s.current) :: frame) t outcome) :
    Comes fileLoop frame s outcome := by
  refine .round (by simp [answers, newline]) (.yes (by simp [answers, newline]) ?_) rest
  exact h ▸ Comes.shift

theorem comes_fileLoop_newline_failed (newline : s.current.kind = .newline)
    (h : s.shift frame .newlines = .failed error t) :
    Comes fileLoop frame s (.failed error t) := by
  refine .round_failed (by simp [answers, newline]) (.yes (by simp [answers, newline]) ?_)
  exact h ▸ Comes.shift

/-- The loop over a module reads a statement. -/
theorem comes_fileLoop_statement (running : s.current.kind ≠ .eof)
    (other : s.current.kind ≠ .newline) {pieces : Frame}
    (h : Comes (Grammar.python .statement) [] s (.done pieces t))
    (rest : Comes fileLoop (pieces.map (fun child => (.statements, child.2)) ++ frame) t outcome) :
    Comes fileLoop frame s outcome :=
  .round (by simp [answers, running]) (.no (by simp [answers, other]) (.call h)) rest

theorem comes_fileLoop_statement_failed (running : s.current.kind ≠ .eof)
    (other : s.current.kind ≠ .newline)
    (h : Comes (Grammar.python .statement) [] s (.failed error t)) :
    Comes fileLoop frame s (.failed error t) :=
  .round_failed (by simp [answers, running]) (.no (by simp [answers, other]) (.call_failed h))

end

theorem exchange_newline (good : down.good s.cursor) (newline : s.current.kind = .newline) :
    Exchange down s := by
  have first : s.answers [] (.on [.newline]) = true := by simp [answers, newline]
  rcases shift_cases good with ⟨t, taken, good', less⟩ | ⟨error, t, failed⟩
  · have single : Comes Entry.single.rule [] s (.done [(.newline, .leaf s.current)] t) :=
      .yes first (taken [] .newline ▸ Comes.shift)
    refine .read [(.newlines, .leaf s.current)] (parse_of_comes down good single) good'
      (less.resolve_right (by simp [newline])) ?_ ?_ ?_
    · exact fun frame outcome rest => comes_fileLoop_newline newline (taken _ _) rest
    · rfl
    · rfl
  · have single : Comes Entry.single.rule [] s (.failed error t) :=
      .yes first (failed [] .newline ▸ Comes.shift)
    refine .failed (parse_of_comes_failed down good single) ⟨t, fun frame => ?_⟩ rfl
    exact comes_fileLoop_newline_failed newline (failed _ _)

/-- A call of a name that looks at its first token comes to something. -/
theorem exists_comes (good : down.good s.cursor) (name : Nonterminal)
    (looks : name.startsBlindly = false) :
    ∃ outcome, Comes (Grammar.python name) [] s outcome ∧ down.Lively s true .empty outcome := by
  have enters : name.entry.mem s.current.kind = true := by simp [Nonterminal.entry, looks]
  have lively := Countdown.run_call_lively Grammar.founded_python good enters (Nat.le_refl _)
  exact ⟨_, .of_run rfl lively.not_exhausted, lively⟩

/-- After a compound statement a dialogue takes a line end, and the loop over a module does so in its
next round. -/
theorem exchange_compound (good : down.good s.cursor) (running : s.current.kind ≠ .eof)
    (other : s.current.kind ≠ .newline)
    (compound : s.answers [] Grammar.startsCompound = true) : Exchange down s := by
  have way {outcome : Outcome σ} (h : Comes (Rule.steps [.call .statement .statement,
      Rule.accept .newline .newline]) [] s outcome) : Comes Entry.single.rule [] s outcome :=
    .no (by simp [answers, other]) (.no (by simp [answers, running]) (.yes compound h))
  obtain ⟨outcome, comes, lively⟩ := exists_comes good .statement rfl
  cases lively with
  | @failed error t _ _ =>
      refine .failed (parse_of_comes_failed down good (way (.seq_failed (.call_failed comes))))
        ⟨t, fun frame => comes_fileLoop_statement_failed running other comes⟩ rfl
  | @done pieces t good' less =>
      have less : down.left t.cursor < down.left s.cursor := by simpa using less
      by_cases newline : t.current.kind = .newline
      · have test (frame : Frame) : t.answers frame (.on [.newline]) = true := by
          simp [answers, newline]
        rcases shift_cases good' with ⟨u, taken, good'', less'⟩ | ⟨error, u, failed⟩
        · have single := way (.seq (.call comes)
            (.seq (.yes (test _) (taken _ .newline ▸ Comes.shift)) .done))
          refine .read ((.newlines, .leaf t.current) ::
              pieces.map fun child => (.statements, child.2))
            (parse_of_comes down good single) good''
            (Nat.lt_trans (less'.resolve_right (by simp [newline])) less) ?_ ?_ ?_
          · intro frame outcome rest
            exact comes_fileLoop_statement running other comes
              (comes_fileLoop_newline newline (taken _ _) rest)
          · simp [Frame.childrenAt_build]
          · simp [Frame.childrenAt_build]
        · have single := way (.seq (.call comes)
            (.seq_failed (.yes (test _) (failed _ .newline ▸ Comes.shift))))
          refine .failed (parse_of_comes_failed down good single) ⟨u, fun frame => ?_⟩ rfl
          exact comes_fileLoop_statement running other comes
            (comes_fileLoop_newline_failed newline (failed _ _))
      · have single := way (.seq (.call comes)
          (.seq (.no (by simp [answers, newline]) .done) .done))
        refine .read (pieces.map fun child => (.statements, child.2))
          (parse_of_comes down good single) good' less ?_ ?_ ?_
        · exact fun frame outcome rest => comes_fileLoop_statement running other comes rest
        · simp [Frame.childrenAt_build]
        · simp [Frame.childrenAt_build]

theorem exchange_simple (good : down.good s.cursor) (running : s.current.kind ≠ .eof)
    (other : s.current.kind ≠ .newline)
    (simple : s.answers [] Grammar.startsCompound = false) : Exchange down s := by
  have way {outcome : Outcome σ} (h : Comes (.call .simpleStatement .statement) [] s outcome) :
      Comes Entry.single.rule [] s outcome :=
    .no (by simp [answers, other]) (.no (by simp [answers, running]) (.no simple h))
  obtain ⟨outcome, comes, lively⟩ := exists_comes good .simpleStatement rfl
  by_cases marked : KindSet.marks.mem s.current.kind = true
  · -- Neither way takes the mark of a block, but the two complain in different words.
    obtain ⟨error, t, rfl, here⟩ := comes.failed_of_mark rfl marked
    obtain ⟨outcome, comes', -⟩ := exists_comes good .statement rfl
    obtain ⟨error', t', rfl, here'⟩ := comes'.failed_of_mark rfl marked
    exact .failed (parse_of_comes_failed down good (way (.call_failed comes)))
      ⟨t', fun frame => comes_fileLoop_statement_failed running other comes'⟩ (here.trans here'.symm)
  · have unmarked : KindSet.marks.mem s.current.kind = false := by simpa using marked
    cases lively with
    | @failed error t _ _ =>
        have comes' := comes_statement simple unmarked (.call_failed comes)
        exact .failed (parse_of_comes_failed down good (way (.call_failed comes)))
          ⟨t, fun frame => comes_fileLoop_statement_failed running other comes'⟩ rfl
    | @done pieces t good' less =>
        have comes' := comes_statement simple unmarked (.call comes)
        refine .read (pieces.map fun child => (.statements, child.2))
          (parse_of_comes down good (way (.call comes))) good' (by simpa using less) ?_ ?_ ?_
        · intro frame outcome rest
          refine comes_fileLoop_statement running other comes' ?_
          simpa [Function.comp_def] using rest
        · simp [Frame.childrenAt_build]
        · simp [Frame.childrenAt_build]

/-- **Before the end of the text, one exchange keeps step with the loop over a module.** -/
theorem exchange (good : down.good s.cursor) (running : s.current.kind ≠ .eof) :
    Exchange down s := by
  by_cases newline : s.current.kind = .newline
  · exact exchange_newline good newline
  · cases compound : s.answers [] Grammar.startsCompound with
    | true => exact exchange_compound good running newline compound
    | false => exact exchange_simple good running newline compound

/-! ### Whole dialogues -/

/-- Reading interactive statements up to the end of the text: the trees, and the error that ends the
dialogue before, if there is one. -/
inductive Dialogue : Session σ → List Tree → Option SyntaxError → Prop
  | ended {s : Session σ} (ended : s.current.kind = .eof) : Dialogue s [] none
  | failed {s t : Session σ} {error : SyntaxError} (running : s.current.kind ≠ .eof)
      (failed : s.parse .single = (.error error, t)) : Dialogue s [] (some error)
  | read {s t : Session σ} {tree : Tree} {trees : List Tree} {failure : Option SyntaxError}
      (running : s.current.kind ≠ .eof) (read : s.parse .single = (.ok tree, t))
      (rest : Dialogue t trees failure) : Dialogue s (tree :: trees) failure

/-- There is one dialogue at most. -/
theorem Dialogue.unique {trees trees' : List Tree} {failure failure' : Option SyntaxError}
    (h : s.Dialogue trees failure) (h' : s.Dialogue trees' failure') :
    trees' = trees ∧ failure' = failure := by
  induction h generalizing trees' failure' with
  | ended ended =>
      cases h' with
      | ended _ => exact ⟨rfl, rfl⟩
      | failed running _ => exact absurd ended running
      | read running _ _ => exact absurd ended running
  | failed running failed =>
      cases h' with
      | ended ended => exact absurd ended running
      | failed _ failed' =>
          rw [failed] at failed'
          cases failed'
          exact ⟨rfl, rfl⟩
      | read _ read _ =>
          rw [failed] at read
          cases read
  | read running read _ ih =>
      cases h' with
      | ended ended => exact absurd ended running
      | failed _ failed =>
          rw [read] at failed
          cases failed
      | read _ read' rest =>
          rw [read] at read'
          cases read'
          obtain ⟨rfl, rfl⟩ := ih rest
          exact ⟨rfl, rfl⟩

/-- What the loop over a module comes to where a dialogue comes to these trees and this failure. -/
def KeepsStep (s : Session σ) (trees : List Tree) : Option SyntaxError → Prop
  | none => ∃ pieces t next, (∀ frame, Comes fileLoop frame s (.done (pieces ++ frame) t)) ∧
      t.current.kind = .eof ∧ Cursor.advance t.cursor = (none, next) ∧
      Frame.childrenAt pieces .statements = trees.flatMap (Tree.childrenAt · .statement) ∧
      Frame.childrenAt pieces .newlines = trees.flatMap (Tree.childrenAt · .newline)
  | some error => ∃ error' t, (∀ frame, Comes fileLoop frame s (.failed error' t)) ∧
      error.position = error'.position

/-- **A dialogue comes to an end, and it keeps step with the loop over a module.** -/
theorem exists_dialogue (good : down.good s.cursor) :
    ∃ trees failure, s.Dialogue trees failure ∧ s.KeepsStep trees failure := by
  -- The count of the cursor goes down with every exchange.
  generalize size : down.left s.cursor = count
  induction count using Nat.strongRecOn generalizing s with
  | ind count ih =>
      by_cases ended : s.current.kind = .eof
      · obtain ⟨next, moved⟩ := down.ended good ended
        refine ⟨[], none, .ended ended, [], s, next, fun frame => ?_, ended, moved, rfl, rfl⟩
        exact .stop (by simp [answers, ended])
      · cases exchange good ended with
        | failed failed stops same =>
            obtain ⟨t, stops⟩ := stops
            exact ⟨[], _, .failed ended failed, _, t, stops, same⟩
        | @read tree t pieces read good' less goesOn statements newlines =>
            obtain ⟨trees, failure, dialogue, keeps⟩ := ih _ (size ▸ less) good' rfl
            refine ⟨tree :: trees, failure, .read ended read dialogue, ?_⟩
            cases failure with
            | some error =>
                obtain ⟨error', u, stops, same⟩ := keeps
                exact ⟨error', u, fun frame => goesOn frame _ (stops _), same⟩
            | none =>
                obtain ⟨more, u, next, reads, ended', moved, statements', newlines'⟩ := keeps
                refine ⟨more ++ pieces, u, next, fun frame => ?_, ended', moved, ?_, ?_⟩
                · rw [List.append_assoc]
                  exact goesOn frame _ (reads _)
                · simp [statements, statements']
                · simp [newlines, newlines']

/-- **The interactive statements are those of the module.**  There is one dialogue from here.  It
ends without an error if and only if the module can be read; then its statements and its line ends
are those of the module.  An error is reported at the same position either way. -/
def ReadsStepwise (s : Session σ) : Prop :=
  ∃ trees failure, s.Dialogue trees failure ∧
    (∀ trees' failure', s.Dialogue trees' failure' → trees' = trees ∧ failure' = failure) ∧
    match failure, (s.parse .file).1 with
    | none, .ok module =>
      trees.flatMap (Tree.childrenAt · .statement) = module.childrenAt .statements ∧
        trees.flatMap (Tree.childrenAt · .newline) = module.childrenAt .newlines
    | some error, .error error' => error.position = error'.position
    | _, _ => False

theorem reads_stepwise_of_good (down : Countdown σ) (good : down.good s.cursor) :
    s.ReadsStepwise := by
  obtain ⟨trees, failure, dialogue, keeps⟩ := exists_dialogue good
  refine ⟨trees, failure, dialogue, fun _ _ other => dialogue.unique other, ?_⟩
  cases failure with
  | some error =>
      obtain ⟨error', t, stops, same⟩ := keeps
      have whole : Comes Entry.file.rule [] s (.failed error' t) := .seq_failed (stops [])
      rw [parse_of_comes_failed down good whole]
      exact same
  | none =>
      obtain ⟨pieces, t, next, reads, ended, moved, statements, newlines⟩ := keeps
      obtain ⟨u, last⟩ : ∃ u, t.shift (pieces ++ []) .eof =
          .done ((.eof, .leaf t.current) :: (pieces ++ [])) u := by
        simp [shift, moved]
      have whole : Comes Entry.file.rule [] s
          (.done ((.eof, .leaf t.current) :: (pieces ++ [])) u) :=
        .seq (reads []) (.seq (.yes (by simp [answers, ended]) (last ▸ Comes.shift)) .done)
      rw [parse_of_comes down good whole]
      simp [Frame.childrenAt_build, statements, newlines]

end Session

/-- **Statement by statement, or as a module.**  Over the tokens of any text, and over any given
tokens, the interactive statements are those of the module. -/
theorem reads_stepwise :
    (∀ scanner : Scanner, (Session.start scanner).ReadsStepwise) ∧
      ∀ tokens : List Token, (Session.start (TokenList.ofList tokens)).ReadsStepwise :=
  ⟨fun _ => Session.reads_stepwise_of_good Scanner.countdown trivial,
    fun tokens => Session.reads_stepwise_of_good TokenList.countdown
      (TokenList.countdown_good_ofList tokens)⟩

end PythonSyntax
