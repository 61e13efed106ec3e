/-
**Sessions in which nothing is out of range.**

Here a session reads a cursor whose operations may lack a result.  It decides by the token of an
operator which node to make, and it takes the only element of a list without commas; so there are
places where it may have no result, too.  Nor has it one if it is not given enough depth.  It has
one in any case, and it is that of a session that cannot fail in this way.

Main definitions:

* `PythonSyntax.Session.follow?`, `PythonSyntax.Session.parse?` — reading, if everything that is
  taken is there;
* `PythonSyntax.Operation`, `PythonSyntax.Session.performAll?` — what can be done with a parser, in
  any order;
* `PythonSyntax.Session.Same`, `PythonSyntax.Outcome.Same` — sessions at related cursors, and what
  they come to.

Main results:

* `PythonSyntax.Session.follow_same`, `PythonSyntax.Session.run_same` — following a rule has the
  result that it should have, unless it is cut short;
* `PythonSyntax.Session.parse_same` — reading is not cut short, and it has that result;
* `PythonSyntax.operations_in_range` — **so has everything that is done with a parser**.
-/

import PythonSyntax.Proofs.Ranges.Cursors
import PythonSyntax.Proofs.Ranges.Sketches

set_option autoImplicit false

namespace PythonSyntax

/-! ### Reading -/

namespace Session

section

variable {σ : Type} [CheckedCursor σ]

/-- A session at a cursor. -/
def start? (cursor : σ) : Option (Session σ) := do
  let here ← CheckedCursor.position? cursor
  some ⟨cursor, here, .outside⟩

/-- The current token. -/
def current? (s : Session σ) : Option Token := CheckedCursor.current? s.cursor

/-- The offset of the current token. -/
def position? (s : Session σ) : Option Nat := CheckedCursor.position? s.cursor

/-- The answers to the questions that decide which way a rule goes.  The second of two questions is
asked only if the first one leaves the answer open. -/
def answers? (s : Session σ) (frame : Frame) : Test → Option Bool
  | .on kinds => do
    let token ← s.current?
    some (kinds.contains token.kind)
  | .onName word => do
    let token ← s.current?
    some (token.spells word)
  | .lineOpensBlock => CheckedCursor.opensBlock? s.cursor
  | .inLoop => some (0 < s.flow.loops)
  | .inFunction => some (0 < s.flow.functions)
  | .collected shape => some (frame.satisfies shape)
  | .not test => do
    let answer ← s.answers? frame test
    some !answer
  | .both first second => do
    let answer ← s.answers? frame first
    if answer then s.answers? frame second else some false
  | .either first second => do
    let answer ← s.answers? frame first
    if answer then some true else s.answers? frame second

/-- Taking the current token. -/
def shift? (s : Session σ) (frame : Frame) (field : Field) : Option (Outcome σ) := do
  let token ← s.current?
  let lastStop := if token.kind.isBlockMark then s.lastStop else token.stop
  let moved ← CheckedCursor.advance? s.cursor
  match moved with
  | (none, cursor) => some (.done ((field, .leaf token) :: frame) ⟨cursor, lastStop, s.flow⟩)
  | (some error, cursor) => some (.failed error ⟨cursor, lastStop, s.flow⟩)

/-- The offset of a place. -/
def locate? (s : Session σ) (frame : Frame) (place : Place) : Option Nat := do
  let here ← s.position?
  match place with
  | .here => some here
  | .latest => some ((frame.latest?.map Tree.start).getD here)
  | .firstOf kind => some (((frame.firstOf? kind).map Tree.start).getD here)

/-- Following a rule.  `recur` tells how the rules it calls are read. -/
def follow? (grammar : Grammar) (recur : Rule → Frame → Session σ → Option (Outcome σ)) :
    Rule → Frame → Session σ → Option (Outcome σ)
  | .done, frame, s => some (.done frame s)
  | .seq first second, frame, s => do
    let outcome ← follow? grammar recur first frame s
    match outcome with
    | .done frame s => follow? grammar recur second frame s
    | .failed error s => some (.failed error s)
  | .shift field, frame, s => s.shift? frame field
  | .call name field, frame, s => do
    let outcome ← recur (grammar name) [] s
    match outcome with
    | .done pieces s => some (.done (pieces.map (fun child => (field, child.2)) ++ frame) s)
    | .failed error s => some (.failed error s)
  | .reduce kind, frame, s => do
    let here ← s.position?
    let kind ← frame.dispatch? kind
    some (.done [(.left, frame.build kind here s.lastStop)] s)
  | .reducePair kind field, frame, s => do
    let here ← s.position?
    some (.done ((field, Frame.build (frame.take 2) kind here s.lastStop) :: frame.drop 2) s)
  | .relabel field, frame, s => some (.done (frame.relabel field) s)
  | .unwrap field, frame, s => some (.done (frame.unwrap field) s)
  | .branch test yes no, frame, s =>
    if Rule.branch test yes no = Grammar.finishList then do
      let here ← s.position?
      let frame ← frame.finishList? here s.lastStop
      some (.done frame s)
    else do
      let answer ← s.answers? frame test
      if answer then follow? grammar recur yes frame s else follow? grammar recur no frame s
  | .loop test body, frame, s => do
    let answer ← s.answers? frame test
    if answer then do
      let outcome ← follow? grammar recur body frame s
      match outcome with
      | .done frame s => recur (.loop test body) frame s
      | .failed error s => some (.failed error s)
    else some (.done frame s)
  | .within scope body, frame, s => do
    let outcome ← follow? grammar recur body frame { s with flow := s.flow.enter scope }
    match outcome with
    | .done frame t => some (.done frame { t with flow := s.flow })
    | .failed error t => some (.failed error { t with flow := s.flow })
  | .refuse complaint place, frame, s => do
    let found ← s.current?
    let position ← s.locate? frame place
    some (.failed ⟨.grammatical complaint found, position⟩ s)

/-- Following a rule, with calls and repetitions at most `fuel` deep; if that is not deep enough
there is no result. -/
def run? (grammar : Grammar) : Nat → Rule → Frame → Session σ → Option (Outcome σ)
  | 0, _, _, _ => none
  | fuel + 1, rule, frame, s => follow? grammar (run? grammar fuel) rule frame s

/-- Reading a module, an interactive statement or an expression. -/
def parse? (s : Session σ) (entry : Entry) : Option (Except SyntaxError Tree × Session σ) := do
  let depth := 64 * (CheckedCursor.budget s.cursor + 1)
  let outcome ← run? Grammar.python depth entry.rule [] s
  match outcome with
  | .done frame t =>
    let here ← t.position?
    some (.ok (frame.build entry.kind here t.lastStop), t)
  | .failed error t => some (.error error, t)

end

end Session

/-! ### Operations -/

/-- What can be done with a parser: its cursor is asked or moved, or something is read. -/
inductive Operation where
  | current
  | position
  | opensBlock
  | advance
  | call (entry : Entry)
  deriving DecidableEq, Repr

/-- What comes of it. -/
inductive Answer where
  | token (token : Token)
  | offset (offset : Nat)
  | flag (holds : Bool)
  | moved (error : Option SyntaxError)
  | result (result : Except SyntaxError Tree)

namespace Session

section

variable {σ : Type} [CheckedCursor σ]

/-- Doing one thing. -/
def perform? (s : Session σ) : Operation → Option (Answer × Session σ)
  | .current => do
    let token ← CheckedCursor.current? s.cursor
    some (.token token, s)
  | .position => do
    let offset ← CheckedCursor.position? s.cursor
    some (.offset offset, s)
  | .opensBlock => do
    let holds ← CheckedCursor.opensBlock? s.cursor
    some (.flag holds, s)
  | .advance => do
    let (error, cursor) ← CheckedCursor.advance? s.cursor
    some (.moved error, { s with cursor := cursor })
  | .call entry => do
    let (result, t) ← s.parse? entry
    some (.result result, t)

/-- Doing one thing after the other. -/
def performAll? (s : Session σ) : List Operation → Option (List Answer × Session σ)
  | [] => some ([], s)
  | operation :: rest => do
    let (answer, t) ← s.perform? operation
    let (answers, u) ← t.performAll? rest
    some (answer :: answers, u)

/-- What comes of operations on a parser at a cursor. -/
def use? (cursor : σ) (operations : List Operation) : Option (List Answer) := do
  let s ← start? cursor
  let (answers, _) ← s.performAll? operations
  some answers

end

section

variable {τ : Type} [Cursor τ]

/-- Doing one thing. -/
def perform (s : Session τ) : Operation → Answer × Session τ
  | .current => (.token (Cursor.current s.cursor), s)
  | .position => (.offset (Cursor.position s.cursor), s)
  | .opensBlock => (.flag (Cursor.opensBlock s.cursor), s)
  | .advance =>
    (.moved (Cursor.advance s.cursor).1, { s with cursor := (Cursor.advance s.cursor).2 })
  | .call entry => (.result (s.parse entry).1, (s.parse entry).2)

/-- Doing one thing after the other. -/
def performAll (s : Session τ) : List Operation → List Answer × Session τ
  | [] => ([], s)
  | operation :: rest =>
    let (answer, t) := s.perform operation
    let (answers, u) := t.performAll rest
    (answer :: answers, u)

/-- No operation leaves the good positions. -/
theorem perform_good {t : Session τ} (down : Countdown τ) (good : down.good t.cursor)
    (operation : Operation) : down.good (t.perform operation).2.cursor := by
  cases operation with
  | current | position | opensBlock => exact good
  | advance =>
      unfold perform
      cases moved : Cursor.advance t.cursor with
      | mk error next =>
          cases error with
          | none => exact (down.moved good moved).1
          | some error => exact (down.failed good moved).1
  | call entry => exact (Countdown.parse_ne_exhausted good entry).1

end

end Session

/-- What comes of operations on a parser for a text, unless its first token is malformed. -/
def Tape.answers? (options : Options) (text : List Char) (operations : List Operation) :
    Option (Except SyntaxError (List Answer)) := do
  let opened ← Tape.ofText? options text
  match opened with
  | .error error => some (.error error)
  | .ok t =>
    let answers ← Session.use? t operations
    some (.ok answers)

/-- What comes of operations on a parser for given tokens. -/
def Row.answers? (tokens : List Token) (operations : List Operation) : Option (List Answer) :=
  Session.use? (Row.ofList tokens) operations

/-! ### Sessions at related cursors -/

section

variable {σ τ : Type} {R : σ → τ → Prop}

/-- Two sessions that differ only in their cursors, which are related. -/
structure Session.Same (R : σ → τ → Prop) (s : Session σ) (t : Session τ) : Prop where
  cursor : R s.cursor t.cursor
  lastStop : s.lastStop = t.lastStop
  flow : s.flow = t.flow

/-- An outcome that is there and is the same, unless reading has been cut short.  What is known
behind the rule is true of the pieces. -/
inductive Outcome.Same (R : σ → τ → Prop) (known : Option Sketch) :
    Option (Outcome σ) → Outcome τ → Prop
  | done {frame : Frame} {s : Session σ} {t : Session τ} {k : Sketch} (eq : known = some k)
      (depicts : k.Depicts frame) (same : s.Same R t) :
      Outcome.Same R known (some (.done frame s)) (.done frame t)
  | failed {error : SyntaxError} {s : Session σ} {t : Session τ} (same : s.Same R t) :
      Outcome.Same R known (some (.failed error s)) (.failed error t)
  | cut {found : Option (Outcome σ)} {position : Nat} {t : Session τ} :
      Outcome.Same R known found (.failed ⟨.exhausted, position⟩ t)

/-- Less may be known. -/
theorem Outcome.Same.mono {known known' : Option Sketch} {found : Option (Outcome σ)}
    {outcome : Outcome τ} (h : Outcome.Same R known found outcome)
    (weaker : ∀ k frame, known = some k → k.Depicts frame →
      ∃ l, known' = some l ∧ l.Depicts frame) : Outcome.Same R known' found outcome := by
  cases h with
  | done eq depicts same =>
      obtain ⟨l, eq', depicts'⟩ := weaker _ _ eq depicts
      exact .done eq' depicts' same
  | failed same => exact .failed same
  | cut => exact .cut

namespace Session

variable [Cursor τ] {s : Session σ} {t : Session τ} {frame : Frame} {k : Sketch} {kinds : KindSet}

/-- Reading by a rule in which enough is known has the result that it should have. -/
def Agree (R : σ → τ → Prop) (rule : Rule) (read? : Frame → Session σ → Option (Outcome σ))
    (read : Frame → Session τ → Outcome τ) : Prop :=
  ∀ (frame : Frame) (s : Session σ) (t : Session τ) (kinds : KindSet) (k : Sketch),
    s.Same R t → kinds.mem t.current.kind = true → k.Depicts frame → rule.safe kinds k = true →
      Outcome.Same R (rule.sketch kinds k) (read? frame s) (read frame t)

variable [CheckedCursor σ]
  {grammar : Grammar} {recur? : Rule → Frame → Session σ → Option (Outcome σ)}
  {recur : Rule → Frame → Session τ → Outcome τ} {test : Test} {first second body : Rule}

/-! ### Rules that are made of others -/

/-- One rule behind the other. -/
theorem seq_same (front : Agree R first (follow? grammar recur? first) (follow grammar recur first))
    (back : Agree R second (follow? grammar recur? second) (follow grammar recur second)) :
    Agree R (.seq first second) (follow? grammar recur? (.seq first second))
      (follow grammar recur (.seq first second)) := by
  intro frame s t kinds k same mem depicts safe
  simp only [Rule.safe, Bool.and_eq_true] at safe
  have one := front frame s t kinds k same mem depicts safe.1
  unfold follow? follow
  generalize follow? grammar recur? first frame s = found at one
  generalize follow grammar recur first frame t = outcome at one
  cases one with
  | cut => exact .cut
  | failed same => exact .failed same
  | done eq depicts same =>
      rename_i frame s t l
      have safe' : second.safe .full l = true := by
        have later := safe.2
        rw [eq] at later
        exact later
      have known : (Rule.seq first second).sketch kinds k = second.sketch .full l := by
        rw [Rule.sketch, eq, Option.bind_some]
      rw [known]
      exact back frame s t .full l same (KindSet.mem_full _) depicts safe'

/-- A call, which leaves one piece. -/
theorem call_same (agree : ∀ rule, Agree R rule (recur? rule) (recur rule)) (name : Nonterminal)
    (field : Field) :
    Agree R (.call name field) (follow? Grammar.python recur? (.call name field))
      (follow Grammar.python recur (.call name field)) := by
  intro frame s t kinds k same mem depicts _
  obtain ⟨safe, one⟩ := Nonterminal.safe_python name
  have called := agree (Grammar.python name) [] s t .full .start same (KindSet.mem_full _)
    Sketch.depicts_start safe
  unfold follow? follow
  generalize recur? (Grammar.python name) [] s = found at called
  generalize recur (Grammar.python name) [] t = outcome at called
  cases called with
  | cut => exact .cut
  | failed same => exact .failed same
  | done eq piece same =>
      rename_i pieces s t l
      obtain ⟨filled, single⟩ := one l eq
      have some := List.length_pos_iff.2 (piece.filled filled)
      obtain ⟨child, rfl⟩ := List.length_eq_one_iff.1 (Nat.le_antisymm (piece.single single) some)
      exact .done rfl (depicts.push field child.2) same

/-- A rule within a body. -/
theorem within_same (inside : Agree R body (follow? grammar recur? body)
    (follow grammar recur body)) (scope : Scope) :
    Agree R (.within scope body) (follow? grammar recur? (.within scope body))
      (follow grammar recur (.within scope body)) := by
  intro frame s t kinds k same mem depicts safe
  have entered : Same R { s with flow := s.flow.enter scope }
      (t.withFlow (t.flow.enter scope)) :=
    ⟨same.cursor, same.lastStop, congrArg (Flow.enter · scope) same.flow⟩
  have inner := inside frame _ _ kinds k entered mem depicts safe
  unfold follow? follow
  generalize follow? grammar recur? body frame _ = found at inner
  generalize follow grammar recur body frame _ = outcome at inner
  cases inner with
  | done eq depicts left => exact .done eq depicts ⟨left.cursor, left.lastStop, same.flow⟩
  | failed left => exact .failed ⟨left.cursor, left.lastStop, same.flow⟩
  | cut => exact .cut

/-! ### Following a rule -/

variable (shadows : Shadows R)

include shadows

namespace Same

theorem current? (h : s.Same R t) : s.current? = some t.current := shadows.current h.cursor

theorem position? (h : s.Same R t) : s.position? = some t.position := shadows.position h.cursor

/-- Questions have answers. -/
theorem answers? (h : s.Same R t) (frame : Frame) (test : Test) :
    s.answers? frame test = some (t.answers frame test) := by
  induction test with
  | on kinds => simp [Session.answers?, Session.answers, h.current? shadows]
  | onName word => simp [Session.answers?, Session.answers, h.current? shadows]
  | lineOpensBlock => exact shadows.opensBlock h.cursor
  | inLoop => simp [Session.answers?, Session.answers, h.flow]
  | inFunction => simp [Session.answers?, Session.answers, h.flow]
  | collected shape => rfl
  | not test ih => simp [Session.answers?, Session.answers, ih]
  | both first second ih ih' =>
      cases eq : t.answers frame first <;>
        simp [Session.answers?, Session.answers, ih, ih', eq]
  | either first second ih ih' =>
      cases eq : t.answers frame first <;>
        simp [Session.answers?, Session.answers, ih, ih', eq]

/-- A place has an offset. -/
theorem locate? (h : s.Same R t) (frame : Frame) (place : Place) :
    s.locate? frame place = some (t.locate frame place) := by
  cases place <;> simp [Session.locate?, Session.locate, h.position? shadows]

/-- The current token can be taken. -/
theorem shift? (h : s.Same R t) (mem : kinds.mem t.current.kind = true) (depicts : k.Depicts frame)
    (field : Field) :
    Outcome.Same R ((Rule.shift field).sketch kinds k) (s.shift? frame field)
      (t.shift frame field) := by
  obtain ⟨cursor, moved, related⟩ := shadows.advance h.cursor
  have known : ∃ l, (Rule.shift field).sketch kinds k = some l ∧
      l.Depicts ((field, .leaf t.current) :: frame) := by
    refine ⟨_, rfl, ?_⟩
    split
    · rename_i op
      exact op ▸ depicts.pushOperator mem
    · exact depicts.push field _
  unfold Session.shift? Session.shift
  rw [h.current? shadows, Option.bind_eq_bind, Option.bind_some, moved, h.lastStop, h.flow]
  generalize Cursor.advance t.cursor = result at related
  obtain ⟨l, eq, depicts'⟩ := known
  cases result with
  | mk error next =>
      cases error with
      | none => exact .done eq depicts' ⟨related, rfl, rfl⟩
      | some error => exact .failed ⟨related, rfl, rfl⟩

end Same

/-- A list can be ended. -/
theorem finishList_same (same : s.Same R t) (depicts : k.Depicts frame)
    (safe : Grammar.finishList.safe kinds k = true) :
    Outcome.Same R (Grammar.finishList.sketch kinds k)
      (follow? Grammar.python recur? Grammar.finishList frame s)
      (follow Grammar.python recur Grammar.finishList frame t) := by
  have enough : (k.filled && k.listed) = true := safe
  obtain ⟨filled, listed⟩ := Bool.and_eq_true_iff.1 enough
  have ended := depicts.finishList? filled listed t.position t.lastStop
  have found : follow? Grammar.python recur? Grammar.finishList frame s =
      some (.done (if 1 < frame.length then
        [(.left, frame.build .testList t.position t.lastStop)] else frame) s) := by
    change (s.position?.bind fun here =>
      (frame.finishList? here s.lastStop).bind fun frame => some (Outcome.done frame s)) = _
    rw [same.position? shadows, same.lastStop, Option.bind_some, ended, Option.bind_some]
  have outcome : follow Grammar.python recur Grammar.finishList frame t =
      .done (if 1 < frame.length then
        [(.left, frame.build .testList t.position t.lastStop)] else frame) t := by
    change (if decide (1 < frame.length) = true then _ else _) = _
    split <;> rename_i more <;> simp only [decide_eq_true_eq] at more
    · rw [if_pos more]
      rfl
    · rw [if_neg more]
      rfl
  rw [found, outcome]
  refine .done rfl ?_ same
  split
  · exact Sketch.depicts_one (by decide)
  · rename_i few
    obtain ⟨field, tree, rfl, other⟩ := depicts.alone filled listed few
    exact Sketch.depicts_one other

/-- One of two rules, but for the end of a list. -/
theorem branch_same (other : Rule.branch test first second ≠ Grammar.finishList)
    (holding : Agree R first (follow? grammar recur? first) (follow grammar recur first))
    (failing : Agree R second (follow? grammar recur? second) (follow grammar recur second)) :
    Agree R (.branch test first second) (follow? grammar recur? (.branch test first second))
      (follow grammar recur (.branch test first second)) := by
  intro frame s t kinds k same mem depicts safe
  rw [Rule.safe, if_neg other, Bool.and_eq_true] at safe
  rw [Rule.sketch, if_neg other, follow?, if_neg other, same.answers? shadows,
    Option.bind_eq_bind, Option.bind_some, follow]
  by_cases holds : t.answers frame test = true
  · have both : (kinds.inter test.mayHold).mem t.current.kind = true := by
      simp [mem, mayHold_of_holds holds]
    rw [if_pos holds, if_pos holds]
    refine (holding frame s t _ k same both depicts safe.1).mono fun l after eq known => ?_
    exact eq ▸ known.join_left _
  · have both : (kinds.inter test.mayFail).mem t.current.kind = true := by
      simp [mem, mayFail_of_fails (Bool.eq_false_iff.2 holds)]
    have few : (if test = .collected .several then k.few else k).Depicts frame := by
      split
      · rename_i several
        subst several
        exact depicts.few (by simpa [answers, Frame.satisfies] using holds)
      · exact depicts
    rw [if_neg holds, if_neg holds]
    refine (failing frame s t _ _ same both few safe.2).mono fun l after eq known => ?_
    exact eq ▸ known.join_right _

/-- Rounds of a rule. -/
theorem loop_same (round : Agree R body (follow? grammar recur? body) (follow grammar recur body))
    (again : Agree R (.loop test body) (recur? (.loop test body)) (recur (.loop test body))) :
    Agree R (.loop test body) (follow? grammar recur? (.loop test body))
      (follow grammar recur (.loop test body)) := by
  intro frame s t kinds k same mem depicts safe
  simp only [Rule.safe, Bool.and_eq_true, decide_eq_true_eq] at safe
  obtain ⟨safe, still⟩ := safe
  -- what is known before every round is known after it, so a round may begin again
  generalize start : k.head (body.sketch test.mayHold) = head at safe still
  have stable := Sketch.head_of_still still
  have before : head.Depicts frame := start ▸ depicts.head _
  have whole : (Rule.loop test body).sketch kinds k = some head := congrArg some start
  rw [whole, follow?, follow, same.answers? shadows, Option.bind_eq_bind, Option.bind_some]
  split
  · rename_i holds
    have once := round frame s t _ head same (mayHold_of_holds holds) before safe
    generalize follow? grammar recur? body frame s = found at once
    generalize follow grammar recur body frame t = outcome at once
    cases once with
    | cut => exact .cut
    | failed same => exact .failed same
    | done eq depicts same =>
        rename_i frame s t l
        have after : head.Depicts frame := by
          rw [← still, eq]
          exact depicts.meet_right head
        have safe' : (Rule.loop test body).safe .full head = true := by
          simp only [Rule.safe, stable, safe, still, Bool.and_self, decide_true]
        have rest := again frame s t .full head same (KindSet.mem_full _) after safe'
        rwa [show (Rule.loop test body).sketch .full head = some head from
          congrArg some stable] at rest
  · exact .done rfl before same

/-- **Following a rule has the result that it should have**, if calls and repetitions do. -/
theorem follow_same (agree : ∀ rule, Agree R rule (recur? rule) (recur rule)) (rule : Rule) :
    Agree R rule (follow? Grammar.python recur? rule) (follow Grammar.python recur rule) := by
  induction rule with
  | done => exact fun frame s t kinds k same _ depicts _ => .done rfl depicts same
  | shift field =>
      exact fun frame s t kinds k same mem depicts _ => same.shift? shadows mem depicts field
  | relabel field =>
      exact fun frame s t kinds k same _ depicts _ => .done rfl (depicts.relabel field) same
  | unwrap field =>
      exact fun frame s t kinds k same _ _ _ => .done rfl (Sketch.depicts_unknown _) same
  | reduce kind =>
      intro frame s t kinds k same _ depicts safe
      unfold follow? follow
      rw [same.position? shadows, depicts.dispatch? safe, same.lastStop]
      exact .done rfl (Sketch.depicts_one (by decide)) same
  | reducePair kind field =>
      intro frame s t kinds k same _ _ _
      unfold follow? follow
      rw [same.position? shadows, same.lastStop]
      exact .done rfl (Sketch.depicts_unknown _) same
  | refuse complaint place =>
      intro frame s t kinds k same _ _ _
      unfold follow? follow
      rw [same.current? shadows, same.locate? shadows]
      exact .failed same
  | seq first second ih ih' => exact seq_same ih ih'
  | call name field => exact call_same agree name field
  | branch test yes no ih ih' =>
      -- the end of a list is the only rule that is not followed as it is written
      by_cases list : Rule.branch test yes no = Grammar.finishList
      · intro frame s t kinds k same _ depicts safe
        exact list ▸ finishList_same shadows same depicts (list ▸ safe)
      · exact branch_same shadows list ih ih'
  | loop test body ih => exact loop_same shadows ih (agree _)
  | within scope body ih => exact within_same ih scope

/-- **So do calls and repetitions**, however deep they may go. -/
theorem run_same (fuel : Nat) (rule : Rule) :
    Agree R rule (run? Grammar.python fuel rule) (run Grammar.python fuel rule) := by
  induction fuel generalizing rule with
  | zero => exact fun frame s t kinds k _ _ _ _ => .cut
  | succ fuel ih => exact follow_same shadows ih rule

variable (down : Countdown τ)

/-- **So does reading**, also if it fails; for it is never cut short. -/
theorem parse_same (good : down.good t.cursor) (same : s.Same R t) (entry : Entry) :
    ∃ s', s.parse? entry = some ((t.parse entry).1, s') ∧ s'.Same R (t.parse entry).2 := by
  have depth : 64 * (CheckedCursor.budget s.cursor + 1) = t.depth := by
    rw [shadows.budget same.cursor]
    rfl
  obtain ⟨still, lively⟩ := Countdown.run_entry_lively Grammar.founded_python good entry
  have whole := lively.not_exhausted
  have ran := run_same shadows t.depth entry.rule [] s t .full .start same (KindSet.mem_full _)
    Sketch.depicts_start entry.safe_rule
  unfold parse? parse parseBy
  dsimp only
  rw [depth]
  generalize run? Grammar.python t.depth entry.rule [] s = found at ran
  generalize run Grammar.python t.depth entry.rule [] t = outcome at ran whole
  cases ran with
  | cut => exact absurd ⟨_, _, rfl⟩ whole
  | failed same => exact ⟨_, rfl, same⟩
  | done _ _ same => exact ⟨_, by simp [same.position? shadows, same.lastStop], same⟩

/-- **So has every operation.** -/
theorem perform_same (good : down.good t.cursor) (same : s.Same R t) (operation : Operation) :
    ∃ s', s.perform? operation = some ((t.perform operation).1, s') ∧
      s'.Same R (t.perform operation).2 := by
  cases operation with
  | current => exact ⟨s, by simp [perform?, perform, shadows.current same.cursor], same⟩
  | position => exact ⟨s, by simp [perform?, perform, shadows.position same.cursor], same⟩
  | opensBlock => exact ⟨s, by simp [perform?, perform, shadows.opensBlock same.cursor], same⟩
  | advance =>
      obtain ⟨cursor, moved, related⟩ := shadows.advance same.cursor
      exact ⟨{ s with cursor := cursor }, by simp [perform?, perform, moved],
        related, same.lastStop, same.flow⟩
  | call entry =>
      obtain ⟨s', parsed, same'⟩ := parse_same shadows down good same entry
      exact ⟨s', by simp [perform?, perform, parsed], same'⟩

/-- So have many of them. -/
theorem performAll_same (good : down.good t.cursor) (same : s.Same R t)
    (operations : List Operation) :
    ∃ s', s.performAll? operations = some ((t.performAll operations).1, s') ∧
      s'.Same R (t.performAll operations).2 := by
  induction operations generalizing s t with
  | nil => exact ⟨s, rfl, same⟩
  | cons operation rest ih =>
      obtain ⟨s', performed, same'⟩ := perform_same shadows down good same operation
      obtain ⟨s'', later, same''⟩ := ih (perform_good down good operation) same'
      exact ⟨s'', by simp [performAll?, performAll, performed, later], same''⟩

/-- A parser can be made, and then used in any way. -/
theorem use_same {c : σ} {d : τ} (good : down.good d) (related : R c d)
    (operations : List Operation) :
    use? c operations = some ((start d).performAll operations).1 := by
  have same : Same R ⟨c, Cursor.position d, .outside⟩ (start d) := ⟨related, rfl, rfl⟩
  obtain ⟨s, performed, -⟩ := performAll_same shadows down good same operations
  simp [use?, start?, shadows.position related, performed]

end Session

end

/-- **Nothing that is done with a parser is out of range.**  The operations come in any order, and
calls may follow calls that failed.  The parser is one for a text, with any options, or one for
given tokens; and what comes of the operations is what the parser that cannot fail in this way makes
of them. -/
theorem operations_in_range :
    (∀ (options : Options) (text : List Char) (operations : List Operation),
      Tape.answers? options text operations =
        some ((Scanner.ofText options text).map fun scanner =>
          ((Session.start scanner).performAll operations).1)) ∧
    ∀ (tokens : List Token) (operations : List Operation),
      Row.answers? tokens operations =
        some ((Session.start (TokenList.ofList tokens)).performAll operations).1 := by
  constructor
  · intro options text operations
    unfold Tape.answers?
    rw [Tape.ofText?_eq, Option.bind_eq_bind, Option.bind_some]
    cases opened : Scanner.ofText options text with
    | error error => rfl
    | ok scanner =>
        have standing := (Scanner.ofText_sited opened).standing
        have used := Session.use_same (Tape.shadows text) Scanner.countdown trivial
          ⟨standing, rfl⟩ operations
        change (Session.use? (scanner.onTape text) operations).bind _ = _
        rw [used]
        rfl
  · intro tokens operations
    exact Session.use_same Row.shadows TokenList.countdown
      (TokenList.countdown_good_ofList tokens) (Row.ofList_shows tokens) operations

end PythonSyntax
