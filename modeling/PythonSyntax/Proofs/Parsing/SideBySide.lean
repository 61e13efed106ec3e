/-
**Two readings side by side.**

A parser asks of a token only what kind it is of and whether it is one of two words, and it never
compares offsets.  So two cursors that agree on this are read in the same way: to the tokens and
offsets of one reading correspond those of the other, whatever the correspondence is, and where one
fails the other fails, too.  The first cursor may leave the part of its tokens on which both agree;
then nothing is said.

Main definitions:

* `PythonSyntax.Rule.spellings` — the words that a rule asks for;
* `PythonSyntax.Standpoint.Holds` — the cursor stands at a spot;
* `PythonSyntax.Alongside`, `PythonSyntax.Abreast` — cursors that are related move together;
* `PythonSyntax.Session.Sides`, `PythonSyntax.Outcome.Like` — sessions and outcomes side by side.

Main results:

* `PythonSyntax.Session.answers_alike` — sessions side by side give the same answers;
* `PythonSyntax.Session.follow_alike`, `PythonSyntax.Session.run_alike` — **following a rule comes to
  the same on both sides**, unless the first cursor leaves the part on which both agree;
* `PythonSyntax.Session.parse_alike`, `PythonSyntax.Session.afterCalls_alike` — so do whole parses,
  one after another.
-/

import PythonSyntax.Proofs.Parsing.Likeness
import PythonSyntax.Proofs.Parsing.Progress
import PythonSyntax.Proofs.Parsing.Sessions
import PythonSyntax.Proofs.Syntax.LineStarts

set_option autoImplicit false

namespace PythonSyntax

variable {like : Likeness}

/-! ### Words -/

namespace Test

/-- The words that a test asks for. -/
def spellings : Test → List String
  | .onName word => [word]
  | .not test => test.spellings
  | .both first second | .either first second => first.spellings ++ second.spellings
  | _ => []

end Test

namespace Rule

/-- The words that a rule asks for. -/
def spellings : Rule → List String
  | .seq first second => first.spellings ++ second.spellings
  | .branch test yes no => test.spellings ++ (yes.spellings ++ no.spellings)
  | .loop test body => test.spellings ++ body.spellings
  | .within _ body => body.spellings
  | _ => []

/-- The rule asks for no word but those that some places reserve. -/
def OnlySoft (rule : Rule) : Prop := ∀ word ∈ rule.spellings, word ∈ Token.softWords

end Rule

theorem Nonterminal.onlySoft_python (name : Nonterminal) : (Grammar.python name).OnlySoft := by
  have checked := forall_of_all
    (fun name => (Grammar.python name).spellings.all Token.softWords.contains)
    (by decide) name
  simpa [Rule.OnlySoft] using checked

theorem Entry.onlySoft_rule (entry : Entry) : entry.rule.OnlySoft := by
  have checked : entry.rule.spellings.all Token.softWords.contains = true := by
    cases entry <;> decide
  simpa [Rule.OnlySoft] using checked

/-! ### Sessions side by side -/

section

variable {σ τ : Type} {R : σ → τ → Prop} {lost calm stands : σ → Prop}

/-- The sessions stand on related cursors, in the same bodies. -/
structure Session.Sides (like : Likeness) (R : σ → τ → Prop) (s : Session σ) (t : Session τ) :
    Prop where
  cursor : R s.cursor t.cursor
  lastStop : like.stop s.lastStop t.lastStop
  flow : t.flow = s.flow

/-- Both outcomes are pieces, or both are errors, and they correspond to each other.  Behind the
pieces the first cursor stands as given. -/
inductive Outcome.Like (like : Likeness) (R : σ → τ → Prop) (stands : σ → Prop) :
    Outcome σ → Outcome τ → Prop
  | done {frame frame' : Frame} {s : Session σ} {t : Session τ} (frames : frame.Like like frame')
      (sides : Session.Sides like R s t) (there : stands s.cursor) :
      Outcome.Like like R stands (.done frame s) (.done frame' t)
  | failed {error error' : SyntaxError} {s : Session σ} {t : Session τ}
      (errors : error.Like like error') (sides : Session.Sides like R s t) :
      Outcome.Like like R stands (.failed error s) (.failed error' t)

/-- The first cursor has left the part on which both agree, or the outcomes correspond to each
other. -/
def Outcome.Keeps (like : Likeness) (lost : σ → Prop) (R : σ → τ → Prop) (stands : σ → Prop)
    (one : Outcome σ) (two : Outcome τ) : Prop :=
  lost one.session.cursor ∨ one.Like like R stands two

theorem Outcome.Keeps.mono {stands' : σ → Prop} {one : Outcome σ} {two : Outcome τ}
    (h : one.Keeps like lost R stands two) (weaker : ∀ c, stands c → stands' c) :
    one.Keeps like lost R stands' two := by
  rcases h with left | both
  · exact Or.inl left
  · cases both with
    | done frames sides there => exact Or.inr (.done frames sides (weaker _ there))
    | failed errors sides => exact Or.inr (.failed errors sides)

/-- What goes on behind outcomes that correspond to each other.  Once the cursor is lost it stays
lost, whatever is read after that. -/
theorem Outcome.Keeps.andThen {stands' : σ → Prop} {one : Outcome σ} {two : Outcome τ}
    {next : Frame → Session σ → Outcome σ} {next' : Frame → Session τ → Outcome τ}
    (h : one.Keeps like lost R stands two)
    (gone : ∀ frame s, lost s.cursor → lost (next frame s).session.cursor)
    (goes : ∀ {frame frame' s t}, frame.Like like frame' → Session.Sides like R s t →
      stands s.cursor → (next frame s).Keeps like lost R stands' (next' frame' t)) :
    (one.andThen next).Keeps like lost R stands' (two.andThen next') := by
  rcases h with left | both
  · cases one with
    | done frame s => exact Or.inl (gone frame s left)
    | failed error s => exact Or.inl left
  · cases both with
    | done frames sides there => exact goes frames sides there
    | failed errors sides => exact Or.inr (.failed errors sides)

variable [Cursor σ] [Cursor τ]

/-- The cursor stands at the spot.  Where a line begins with a name, the cursor is calm. -/
def Standpoint.Holds (calm : σ → Prop) : Standpoint → σ → Prop
  | .anywhere, _ => True
  | .lineStart, c => (Cursor.current c).kind = .name → calm c
  | .mark, c => (Cursor.current c).kind.isLineMark = true

omit [Cursor τ] in
/-- What is known of a spot is known of those that lie within it. -/
theorem Standpoint.Holds.mono {spot other : Standpoint} {c : σ} (h : spot.Holds calm c)
    (within : spot.within other = true) : other.Holds calm c := by
  cases other with
  | anywhere => trivial
  | lineStart =>
      intro name
      cases spot with
      | anywhere => cases within
      | lineStart => exact h name
      | mark =>
          rw [Standpoint.Holds, name] at h
          cases h
  | mark =>
      cases spot with
      | mark => exact h
      | _ => cases within

/-- Cursors that are related stand on tokens that correspond to each other.  Where the first one is
calm, on a name, they agree on whether the line opens a block; behind the mark of a line or a block
it is calm.  They move together, unless the first one is lost; then it stays so. -/
structure Alongside (like : Likeness) (lost calm : σ → Prop) (R : σ → τ → Prop) : Prop where
  current : ∀ {c d}, R c d → like.token (Cursor.current c) (Cursor.current d)
  opensBlock : ∀ {c d}, R c d → (Cursor.current c).kind = .name → calm c →
    Cursor.opensBlock d = Cursor.opensBlock c
  advance : ∀ {c d}, R c d → lost (Cursor.advance c).2 ∨
    Option.Rel (SyntaxError.Like like) (Cursor.advance c).1 (Cursor.advance d).1 ∧
      R (Cursor.advance c).2 (Cursor.advance d).2
  calms : ∀ {c d c'}, R c d → (Cursor.current c).kind.isLineMark = true →
    Cursor.advance c = (none, c') → (Cursor.current c').kind = .name → calm c'
  stays : ∀ {c}, lost c → lost (Cursor.advance c).2

/-- Cursors that are related agree on lines that open a block wherever they stand. -/
structure Abreast (like : Likeness) (lost : σ → Prop) (R : σ → τ → Prop) : Prop where
  current : ∀ {c d}, R c d → like.token (Cursor.current c) (Cursor.current d)
  opensBlock : ∀ {c d}, R c d → Cursor.opensBlock d = Cursor.opensBlock c
  advance : ∀ {c d}, R c d → lost (Cursor.advance c).2 ∨
    Option.Rel (SyntaxError.Like like) (Cursor.advance c).1 (Cursor.advance d).1 ∧
      R (Cursor.advance c).2 (Cursor.advance d).2
  stays : ∀ {c}, lost c → lost (Cursor.advance c).2

theorem Abreast.alongside (h : Abreast like lost R) : Alongside like lost (fun _ => True) R :=
  ⟨h.current, fun related _ _ => h.opensBlock related, h.advance, fun _ _ _ _ => trivial, h.stays⟩

namespace Session

variable {s : Session σ} {t : Session τ} {frame frame' : Frame} {rule : Rule} {spot : Standpoint}

omit [Cursor σ] [Cursor τ] in
theorem Sides.withFlow (h : Sides like R s t) (flow : Flow) :
    Sides like R (s.withFlow flow) (t.withFlow flow) := ⟨h.cursor, h.lastStop, rfl⟩

omit [Cursor σ] [Cursor τ] in
theorem keeps_withFlow {one : Outcome σ} {two : Outcome τ}
    (h : one.Keeps like lost R stands two) (flow : Flow) :
    (one.withFlow flow).Keeps like lost R stands (two.withFlow flow) := by
  rcases h with left | both
  · exact Or.inl (by rw [Outcome.session_withFlow]; exact left)
  · cases both with
    | done frames sides there => exact Or.inr (.done frames (sides.withFlow flow) there)
    | failed errors sides => exact Or.inr (.failed errors (sides.withFlow flow))

omit [Cursor τ] in
/-- A test that has held may tell more of the spot. -/
theorem holds_upon {test : Test} (there : spot.Holds calm s.cursor)
    (holds : s.answers frame test = true) : (spot.upon test).Holds calm s.cursor := by
  cases test with
  | on kinds =>
      rw [Standpoint.upon]
      split
      · rename_i marks
        exact List.all_eq_true.1 marks _ (List.contains_iff_mem.1 holds)
      · exact there
  | _ => exact there

/-- One way to read rules does what another one does, unless the first cursor is lost. -/
def CallsAlike (like : Likeness) (lost calm : σ → Prop) (R : σ → τ → Prop)
    (recur : Rule → Frame → Session σ → Outcome σ)
    (recur' : Rule → Frame → Session τ → Outcome τ) : Prop :=
  ∀ {rule frame frame' s t spot after}, rule.OnlySoft → rule.leads spot = some after →
    spot.Holds calm s.cursor → Sides like R s t → frame.Like like frame' →
      (recur rule frame s).Keeps like lost R (after.Holds calm) (recur' rule frame' t)

section

variable (alongside : Alongside like lost calm R)

include alongside

/-- **Sessions side by side give the same answers**, to a test that looks along a line only from its
beginning. -/
theorem answers_alike (sides : Sides like R s t) (frames : frame.Like like frame') {test : Test}
    (soft : ∀ word ∈ test.spellings, word ∈ Token.softWords) (looks : test.looksAt spot = true)
    (there : spot.Holds calm s.cursor) : t.answers frame' test = s.answers frame test := by
  have same := alongside.current sides.cursor
  fun_induction Test.looksAt spot test with
  | case1 => cases looks
  | case2 word =>
      have word_alike : t.current.spells word = s.current.spells word :=
        like.spells same word (soft word (List.mem_singleton_self _))
      unfold answers
      change (t.current.spells word && _) = (s.current.spells word && _)
      rw [word_alike]
      cases spelled : s.current.spells word with
      | false => rfl
      | true =>
          have name : s.current.kind = .name :=
            of_decide_eq_true (Bool.and_eq_true_iff.1 spelled).1
          exact alongside.opensBlock sides.cursor name (there.mono looks name)
  | case3 test ih =>
      unfold answers
      rw [ih soft looks]
  | case4 first second _ ih ih' | case5 first second ih ih' =>
      obtain ⟨looks, looks'⟩ := Bool.and_eq_true_iff.1 looks
      unfold answers
      rw [ih (fun word mem => soft word (List.mem_append_left _ mem)) looks,
        ih' (fun word mem => soft word (List.mem_append_right _ mem)) looks']
  | case6 test =>
      cases test with
      | on kinds => exact congrArg kinds.contains (like.kind same)
      | onName word => exact like.spells same word (soft word (List.mem_singleton_self _))
      | inLoop | inFunction =>
          unfold answers
          rw [sides.flow]
      | collected shape => exact frames.satisfies shape
      | _ => simp_all

/-- Taking the current token. -/
theorem shift_alike (sides : Sides like R s t) (frames : frame.Like like frame') (field : Field)
    (behind : ∀ c, Cursor.advance s.cursor = (none, c) → stands c) :
    (s.shift frame field).Keeps like lost R stands (t.shift frame' field) := by
  have same : like.token s.current t.current := alongside.current sides.cursor
  have stops : like.stop (if s.current.kind.isBlockMark then s.lastStop else s.current.stop)
      (if t.current.kind.isBlockMark then t.lastStop else t.current.stop) := by
    rw [like.kind same]
    split
    · exact sides.lastStop
    · exact like.stop_of same
  have moved := alongside.advance sides.cursor
  unfold shift
  dsimp only
  cases one : Cursor.advance s.cursor with
  | mk error c =>
    cases two : Cursor.advance t.cursor with
    | mk error' d =>
      rw [one, two] at moved
      rcases moved with gone | ⟨errors, related⟩
      · cases error <;> exact Or.inl gone
      · cases errors with
        | none =>
            exact Or.inr (.done (.cons ⟨rfl, same⟩ frames) ⟨related, stops, sides.flow⟩
              (behind c one))
        | some both => exact Or.inr (.failed both ⟨related, stops, sides.flow⟩)

/-- An objection is reported at the same place. -/
theorem locate_alike (sides : Sides like R s t) (frames : frame.Like like frame') (place : Place) :
    like.start (s.locate frame place) (t.locate frame' place) := by
  have here : like.start s.position t.position := like.start_of (alongside.current sides.cursor)
  cases place with
  | here => exact here
  | latest =>
      cases frames with
      | nil => exact here
      | cons first _ => exact first.2.start
  | firstOf kind => exact frames.firstOf? kind here

/-- **Following a rule comes to the same on both sides**, if the calls that it makes do. -/
theorem follow_alike {recur : Rule → Frame → Session σ → Outcome σ}
    {recur' : Rule → Frame → Session τ → Outcome τ}
    (stays : ∀ rule frame s, lost s.cursor → lost (recur rule frame s).session.cursor)
    (calls : CallsAlike like lost calm R recur recur') :
    CallsAlike like lost calm R (follow Grammar.python recur) (follow Grammar.python recur') := by
  have gone : ∀ rule frame s, lost s.cursor →
      lost (follow Grammar.python recur rule frame s).session.cursor :=
    follow_cursor (R := fun c c' => lost c → lost c') (fun _ => id) (fun one two => two ∘ one)
      (fun _ => alongside.stays) stays
  intro rule
  induction rule with
  | done =>
      intro frame frame' s t spot after _ leads there sides frames
      cases leads
      exact Or.inr (.done frames sides there)
  | seq first second ih ih' =>
      intro frame frame' s t spot after asks leads there sides frames
      obtain ⟨middle, leads, leads'⟩ := Option.bind_eq_some_iff.1 leads
      rw [follow_seq, follow_seq]
      refine (ih (fun word mem => asks word (List.mem_append_left _ mem)) leads there sides
        frames).andThen (gone second) fun frames sides there => ?_
      exact ih' (fun word mem => asks word (List.mem_append_right _ mem)) leads' there sides frames
  | shift field =>
      intro frame frame' s t spot after _ leads there sides frames
      cases leads
      refine shift_alike alongside sides frames field fun c moved => ?_
      split
      · rename_i mark
        subst mark
        exact alongside.calms sides.cursor there moved
      · trivial
  | call name field =>
      intro frame frame' s t spot after _ leads there sides frames
      obtain ⟨found, same⟩ := Option.ite_none_right_eq_some.1 leads
      cases same
      obtain ⟨after, ends, within⟩ := name.leads_python
      rw [follow_call, follow_call]
      refine (calls name.onlySoft_python ends (there.mono found) sides .nil).andThen
        (fun _ _ left => left) fun pieces sides there => ?_
      exact Or.inr (.done (List.rel_append (pieces.map field) frames) sides (there.mono within))
  | reduce kind =>
      intro frame frame' s t spot after _ leads there sides frames
      cases leads
      have here : like.start s.position t.position := like.start_of (alongside.current sides.cursor)
      exact Or.inr (.done (.cons ⟨rfl, frames.build kind here sides.lastStop⟩ .nil) sides there)
  | reducePair kind field =>
      intro frame frame' s t spot after _ leads there sides frames
      cases leads
      have here : like.start s.position t.position := like.start_of (alongside.current sides.cursor)
      have pair : Frame.Like like (frame.take 2) (frame'.take 2) := List.forall₂_take 2 frames
      exact Or.inr (.done (.cons ⟨rfl, pair.build kind here sides.lastStop⟩
        (List.forall₂_drop 2 frames)) sides there)
  | relabel field =>
      intro frame frame' s t spot after _ leads there sides frames
      cases leads
      exact Or.inr (.done (frames.relabel field) sides there)
  | unwrap field =>
      intro frame frame' s t spot after _ leads there sides frames
      cases leads
      exact Or.inr (.done (frames.unwrap field) sides there)
  | branch test yes no ih ih' =>
      intro frame frame' s t spot after asks leads there sides frames
      obtain ⟨looks, both⟩ := Option.ite_none_right_eq_some.1 leads
      obtain ⟨one, first, rest⟩ := Option.bind_eq_some_iff.1 both
      obtain ⟨two, second, rfl⟩ := Option.map_eq_some_iff.1 rest
      have asks' : ∀ word ∈ yes.spellings ++ no.spellings, word ∈ Token.softWords :=
        fun word mem => asks word (List.mem_append_right _ mem)
      rw [follow_branch, follow_branch, answers_alike alongside sides frames
        (fun word mem => asks word (List.mem_append_left _ mem)) looks there]
      split
      · rename_i holds
        exact (ih (fun word mem => asks' word (List.mem_append_left _ mem)) first
          (holds_upon there holds) sides frames).mono fun _ stands =>
            stands.mono (one.within_join_left two)
      · exact (ih' (fun word mem => asks' word (List.mem_append_right _ mem)) second there sides
          frames).mono fun _ stands => stands.mono (one.within_join_right two)
  | loop test body ih =>
      intro frame frame' s t spot after asks leads there sides frames
      obtain ⟨checked, same⟩ := Option.ite_none_right_eq_some.1 leads
      cases same
      obtain ⟨looks, round⟩ := Bool.and_eq_true_iff.1 checked
      obtain ⟨back, once, within⟩ := (Option.any_eq_true _ _).1 round
      rw [follow_loop, follow_loop, answers_alike alongside sides frames
        (fun word mem => asks word (List.mem_append_left _ mem)) looks there]
      split
      · rename_i holds
        refine (ih (fun word mem => asks word (List.mem_append_right _ mem)) once
          (holds_upon there holds) sides frames).andThen (stays _) fun frames sides there => ?_
        exact calls asks leads (there.mono within) sides frames
      · exact Or.inr (.done frames sides there)
  | within scope body ih =>
      intro frame frame' s t spot after asks leads there sides frames
      have within : spot.Holds calm (s.withFlow (s.flow.enter scope)).cursor := there
      have inside := ih asks leads within (sides.withFlow (s.flow.enter scope)) frames
      rw [follow_within, follow_within, sides.flow]
      exact keeps_withFlow inside s.flow
  | refuse complaint place =>
      intro frame frame' s t spot after _ _ _ sides frames
      exact Or.inr (.failed ⟨.grammatical complaint (alongside.current sides.cursor),
        locate_alike alongside sides frames place⟩ sides)

/-- **What is read on both sides corresponds to each other**, with the same bound on the depth. -/
theorem run_alike (fuel : Nat) :
    CallsAlike like lost calm R (run Grammar.python fuel) (run Grammar.python fuel) := by
  induction fuel with
  | zero =>
      intro rule frame frame' s t spot after _ _ _ sides _
      exact Or.inr (.failed ⟨.exhausted, like.start_of (alongside.current sides.cursor)⟩ sides)
  | succ fuel ih =>
      refine follow_alike alongside ?_ ih
      exact run_cursor (R := fun c c' => lost c → lost c') (fun _ => id) (fun one two => two ∘ one)
        (fun _ => alongside.stays) Grammar.python fuel

/-- A parse does what a run of its rule does whose bound suffices on both sides. -/
theorem parse_alike_of_run {entry : Entry} {fuel : Nat}
    (same : run Grammar.python s.depth entry.rule [] s = run Grammar.python fuel entry.rule [] s)
    (same' : run Grammar.python t.depth entry.rule [] t = run Grammar.python fuel entry.rule [] t)
    (there : Standpoint.lineStart.Holds calm s.cursor) (sides : Sides like R s t) :
    lost (s.parse entry).2.cursor ∨ ResultLike like (s.parse entry).1 (t.parse entry).1 ∧
      Sides like R (s.parse entry).2 (t.parse entry).2 := by
  obtain ⟨after, leads⟩ := entry.leads_rule
  have ran := run_alike alongside fuel entry.onlySoft_rule leads there sides
    (.nil : Frame.Like like [] [])
  unfold parse parseBy
  rw [same, same']
  generalize run Grammar.python fuel entry.rule [] s = one,
    run Grammar.python fuel entry.rule [] t = other at ran
  rcases ran with left | both
  · cases one <;> exact Or.inl left
  · cases both with
    | done frames sides _ =>
        exact Or.inr ⟨.ok (frames.build entry.kind (like.start_of (alongside.current sides.cursor))
          sides.lastStop), sides⟩
    | failed errors sides => exact Or.inr ⟨.error errors, sides⟩

/-- **Whole parses come to the same**, whatever the bounds on their depths are, if they begin where a
line does. -/
theorem parse_alike_at (down : Countdown σ) (down' : Countdown τ) (good : down.good s.cursor)
    (good' : down'.good t.cursor) (there : Standpoint.lineStart.Holds calm s.cursor)
    (sides : Sides like R s t) (entry : Entry) :
    lost (s.parse entry).2.cursor ∨ ResultLike like (s.parse entry).1 (t.parse entry).1 ∧
      Sides like R (s.parse entry).2 (t.parse entry).2 := by
  obtain ⟨_, lively⟩ := Countdown.run_entry_lively Grammar.founded_python good entry
  obtain ⟨_, lively'⟩ := Countdown.run_entry_lively Grammar.founded_python good' entry
  -- No bound is reached, so both runs are those with the larger one.
  exact parse_alike_of_run alongside
    (run_mono (Nat.le_max_left s.depth t.depth) entry.rule [] s lively.not_exhausted).symm
    (run_mono (Nat.le_max_right s.depth t.depth) entry.rule [] t lively'.not_exhausted).symm there
    sides

end

section

variable (abreast : Abreast like lost R)

include abreast

/-- Cursors that agree on all lines come to the same wherever they begin. -/
theorem parse_alike (down : Countdown σ) (down' : Countdown τ) (good : down.good s.cursor)
    (good' : down'.good t.cursor) (sides : Sides like R s t) (entry : Entry) :
    lost (s.parse entry).2.cursor ∨ ResultLike like (s.parse entry).1 (t.parse entry).1 ∧
      Sides like R (s.parse entry).2 (t.parse entry).2 :=
  parse_alike_at abreast.alongside down down' good good' (fun _ => trivial) sides entry

/-- Cursors that give the same bound need not count down. -/
theorem parse_alike_of_budget (budget : Cursor.budget t.cursor = Cursor.budget s.cursor)
    (sides : Sides like R s t) (entry : Entry) :
    lost (s.parse entry).2.cursor ∨ ResultLike like (s.parse entry).1 (t.parse entry).1 ∧
      Sides like R (s.parse entry).2 (t.parse entry).2 := by
  have depth : t.depth = s.depth := congrArg (fun budget => 64 * (budget + 1)) budget
  exact parse_alike_of_run abreast.alongside rfl (by rw [depth]) (fun _ => trivial) sides

/-- **Sessions stay side by side**, whatever is read and wherever it fails, if the first cursor is
never lost. -/
theorem afterCalls_alike (never : ∀ c, ¬ lost c) (down : Countdown σ) (down' : Countdown τ)
    (good : down.good s.cursor) (good' : down'.good t.cursor) (sides : Sides like R s t)
    (calls : List Entry) :
    Sides like R (s.afterCalls calls) (t.afterCalls calls) ∧
      down.good (s.afterCalls calls).cursor ∧ down'.good (t.afterCalls calls).cursor := by
  induction calls generalizing s t with
  | nil => exact ⟨sides, good, good'⟩
  | cons entry rest ih =>
      rcases parse_alike abreast down down' good good' sides entry with gone | ⟨-, sides'⟩
      · exact absurd gone (never _)
      · exact ih (Countdown.parse_ne_exhausted good entry).1
          (Countdown.parse_ne_exhausted good' entry).1 sides'

end

end Session

end

end PythonSyntax
