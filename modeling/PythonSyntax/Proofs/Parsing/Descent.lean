/-
**Every production makes progress.**

A call that succeeds takes a token, and so does every round of a loop, over any tokens and wherever
the session stands among them; marks of the end of the text may also be in the middle.  So what is
called while a call is read has fewer tokens before it, or as many and a smaller rank.  The calls
thus cannot go on for ever, reading always comes to a result, and the cursor is moved on from each
token at most once, but for the last one.

Main definitions:

* `PythonSyntax.Rule.rounds`, `PythonSyntax.Rule.element?` — what the loops of a rule read, and the
  elements of lists among that;
* `PythonSyntax.Session.Calls`, `PythonSyntax.Session.MadeBy` — the calls that are made while a rule
  is followed, and while another call is read;
* `PythonSyntax.TokenList.Of` — a cursor that stands at one of some tokens;
* `PythonSyntax.Session.Progresses` — what is said of a session.

Main results:

* `PythonSyntax.Countdown.lively_of_follows` — what is followed to its end has taken tokens, or the
  current token is of a kind that allows to stay;
* `PythonSyntax.Session.Calls.lowers` — calls have fewer tokens before them, or a smaller rank;
* `PythonSyntax.Session.acc_madeBy` — so calls do not go on for ever;
* `PythonSyntax.Session.productions_progress` — **all of it for every session over some tokens**.
-/

import PythonSyntax.Proofs.Parsing.Locality

set_option autoImplicit false

namespace PythonSyntax

/-! ### Rounds and elements -/

namespace Rule

/-- What the loops of a rule read again and again, with the test before each round. -/
def rounds : Rule → List (Test × Rule)
  | .seq first second => first.rounds ++ second.rounds
  | .branch _ yes no => yes.rounds ++ no.rounds
  | .loop test body => (test, body) :: body.rounds
  | .within _ body => body.rounds
  | _ => []

/-- The element of a list, in a round that takes a comma, refuses another one, and reads the next
element if there is one. -/
def element? : Rule → Option Nonterminal
  | .seq (.shift _) (.seq (.branch _ (.refuse _ _) (.branch _ (.call name _) .done)) .done) =>
    some name
  | _ => none

/-- In a rule that does not loop for ever no round ends where it begins. -/
theorem stalls_of_mem_rounds {rule : Rule} {kinds : KindSet} {limit : Nat} {still : KindSet}
    (stalls : rule.stalls kinds limit = some still) :
    ∀ round ∈ rule.rounds,
      round.2.stalls (KindSet.full.inter round.1.mayHold) 63 = some .empty := by
  induction rule generalizing kinds limit still with
  | seq first second ih ih' =>
      simp only [Rule.stalls, Option.ite_none_right_eq_some, Option.bind_eq_some_iff] at stalls
      obtain ⟨-, _, one, two⟩ := stalls
      exact List.forall_mem_append.2 ⟨ih one, ih' two⟩
  | branch test yes no ih ih' =>
      simp only [Rule.stalls, Option.bind_eq_some_iff, Option.map_eq_some_iff] at stalls
      obtain ⟨_, one, _, two, -⟩ := stalls
      exact List.forall_mem_append.2 ⟨ih one, ih' two⟩
  | loop test body ih =>
      simp only [Rule.stalls, Option.ite_none_right_eq_some] at stalls
      obtain ⟨⟨-, again⟩, -⟩ := stalls
      exact List.forall_mem_cons.2 ⟨again, ih again⟩
  | within scope body ih => exact ih stalls
  | _ => simp [rounds]

end Rule

/-- The name is read as an element, between commas, by some rule of the grammar. -/
def Nonterminal.IsElement (name : Nonterminal) : Prop :=
  ∃ other, ∃ round ∈ (Grammar.python other).rounds, round.2.element? = some name

/-- Elements are read by rules that look at their first token. -/
theorem Nonterminal.IsElement.looks {name : Nonterminal} (h : name.IsElement) :
    name.startsBlindly = false := by
  obtain ⟨other, round, mem, element⟩ := h
  have checked := forall_of_all
    (fun other => (Grammar.python other).rounds.all fun round =>
      round.2.element?.all fun name => !name.startsBlindly)
    (by decide) other
  have looks := List.all_eq_true.1 checked round mem
  rw [element] at looks
  simpa using looks

theorem Nonterminal.entry_of_looks {name : Nonterminal} (looks : name.startsBlindly = false) :
    name.entry = .full := by
  unfold entry
  rw [if_neg (by simp [looks])]

/-! ### Calls -/

namespace Session

/-- The calls that are made while a rule is followed, each with the session in which it is made. -/
inductive Calls {σ : Type} [Cursor σ] (grammar : Grammar) :
    Rule → Frame → Session σ → Nonterminal → Session σ → Prop
  | call {name : Nonterminal} {field : Field} {frame : Frame} {s : Session σ} :
      Calls grammar (.call name field) frame s name s
  | first {first second : Rule} {frame : Frame} {s t : Session σ} {name : Nonterminal}
      (inside : Calls grammar first frame s name t) :
      Calls grammar (.seq first second) frame s name t
  | second {first second : Rule} {frame middle : Frame} {s u t : Session σ} {name : Nonterminal}
      (before : Follows (Reads grammar) first frame s middle u)
      (inside : Calls grammar second middle u name t) :
      Calls grammar (.seq first second) frame s name t
  | yes {test : Test} {yes no : Rule} {frame : Frame} {s t : Session σ} {name : Nonterminal}
      (holds : s.answers frame test = true) (inside : Calls grammar yes frame s name t) :
      Calls grammar (.branch test yes no) frame s name t
  | no {test : Test} {yes no : Rule} {frame : Frame} {s t : Session σ} {name : Nonterminal}
      (fails : s.answers frame test = false) (inside : Calls grammar no frame s name t) :
      Calls grammar (.branch test yes no) frame s name t
  | round {test : Test} {body : Rule} {frame : Frame} {s t : Session σ} {name : Nonterminal}
      (holds : s.answers frame test = true) (inside : Calls grammar body frame s name t) :
      Calls grammar (.loop test body) frame s name t
  | later {test : Test} {body : Rule} {frame middle : Frame} {s u t : Session σ}
      {name : Nonterminal} (holds : s.answers frame test = true)
      (once : Follows (Reads grammar) body frame s middle u)
      (inside : Calls grammar (.loop test body) middle u name t) :
      Calls grammar (.loop test body) frame s name t
  | within {scope : Scope} {body : Rule} {frame : Frame} {s t : Session σ} {name : Nonterminal}
      (inside : Calls grammar body frame (s.withFlow (s.flow.enter scope)) name t) :
      Calls grammar (.within scope body) frame s name t

/-- The first call is made while the second one is read. -/
def MadeBy {σ : Type} [Cursor σ] (called calling : Nonterminal × Session σ) : Prop :=
  Calls Grammar.python (Grammar.python calling.1) [] calling.2 called.1 called.2

end Session

/-! ### Counting down along the calls -/

open Session

section

variable {σ : Type} [Cursor σ] {down : Countdown σ} {rule : Rule} {frame frame' : Frame}
  {s t : Session σ} {kinds still : KindSet} {limit fuel : Nat} {name : Nonterminal}

/-- **What is followed to its end has taken tokens**, or it stays at a token whose kind allows
that. -/
theorem Countdown.lively_of_follows (good : down.good s.cursor)
    (mem : kinds.mem s.current.kind = true) (stalls : rule.stalls kinds limit = some still)
    (followed : Follows (Reads Grammar.python) rule frame s frame' t) :
    down.Lively s rule.mayMove still (.done frame' t) := by
  obtain ⟨fuel, ran⟩ := exists_run_of_follows followed
  have deeper := run_done_mono
    (show fuel ≤ max fuel (limit + 64 * down.left s.cursor) + 1 by omega) ran
  rw [← deeper]
  exact down.follow_lively Grammar.founded_python _ rule frame s kinds limit still good mem stalls
    (by omega)

/-- What can end only where it has taken tokens takes some. -/
theorem Countdown.left_lt_of_follows (good : down.good s.cursor)
    (mem : kinds.mem s.current.kind = true) (stalls : rule.stalls kinds limit = some .empty)
    (followed : Follows (Reads Grammar.python) rule frame s frame' t) :
    down.left t.cursor < down.left s.cursor :=
  (Countdown.lively_of_follows good mem stalls followed).less_of_empty

/-- A round of a loop takes tokens. -/
theorem Countdown.left_lt_of_round (good : down.good s.cursor) {test : Test}
    (stalls : rule.stalls (KindSet.full.inter test.mayHold) 63 = some .empty)
    (holds : s.answers frame test = true)
    (followed : Follows (Reads Grammar.python) rule frame s frame' t) :
    down.left t.cursor < down.left s.cursor :=
  Countdown.left_lt_of_follows good (by simp [mayHold_of_holds holds]) stalls followed

/-- So does a call that succeeds, with whatever bound on the depth. -/
theorem Countdown.left_lt_of_run {pieces : Frame} (good : down.good s.cursor)
    (enters : name.entry.mem s.current.kind = true)
    (ran : run Grammar.python fuel (Grammar.python name) [] s = .done pieces t) :
    down.left t.cursor < down.left s.cursor :=
  Countdown.left_lt_of_follows good enters (Grammar.founded_python name).2
    (follows_reads_of_run ran)

/-- What is known of a call: it is made at a token that its rule allows, with fewer tokens left, or
where the cursor still stands and with a rank within the limit. -/
structure Countdown.Lowers (down : Countdown σ) (s : Session σ) (limit : Nat) (name : Nonterminal)
    (t : Session σ) : Prop where
  good : down.good t.cursor
  enters : name.entry.mem t.current.kind = true
  less : down.left t.cursor < down.left s.cursor ∨ t.cursor = s.cursor ∧ name.rank ≤ limit

/-- A call that is made after tokens have been taken. -/
theorem Countdown.Lowers.of_less {u : Session σ} {limit' : Nat} (h : down.Lowers u limit' name t)
    (less : down.left u.cursor < down.left s.cursor) : down.Lowers s limit name t := by
  refine ⟨h.good, h.enters, Or.inl ?_⟩
  rcases h.less with fewer | ⟨same, -⟩
  · exact Nat.lt_trans fewer less
  · rwa [same]

/-- **The calls that are made while a rule is followed** have fewer tokens left, or a rank within
the limit. -/
theorem Session.Calls.lowers (h : Calls Grammar.python rule frame s name t)
    (good : down.good s.cursor) (mem : kinds.mem s.current.kind = true)
    (stalls : rule.stalls kinds limit = some still) : down.Lowers s limit name t := by
  induction h generalizing kinds limit still with
  | call =>
      simp only [Rule.stalls, Option.ite_none_right_eq_some] at stalls
      rcases stalls.1 with rfl | ⟨enters, ranked⟩
      · simp at mem
      · exact ⟨good, KindSet.mem_of_subset enters mem, Or.inr ⟨rfl, ranked⟩⟩
  | first _ ih =>
      simp only [Rule.stalls, Option.ite_none_right_eq_some, Option.bind_eq_some_iff] at stalls
      obtain ⟨-, _, one, -⟩ := stalls
      exact ih good mem one
  | second before _ ih =>
      simp only [Rule.stalls, Option.ite_none_right_eq_some, Option.bind_eq_some_iff] at stalls
      obtain ⟨later, middle, one, two⟩ := stalls
      cases Countdown.lively_of_follows good mem one before with
      | done good' less =>
          rcases less with ⟨moves, less⟩ | ⟨same, mem'⟩
          · -- After a token has been taken, the call may be of any rank.
            obtain ⟨_, any⟩ := Option.isSome_iff_exists.1 (later moves)
            exact (ih good' (KindSet.mem_full _) any).of_less less
          · have kind := congrArg (fun c => (Cursor.current c).kind) same
            have lowers := ih good' (kind ▸ mem') two
            refine ⟨lowers.good, lowers.enters, ?_⟩
            rw [← same]
            exact lowers.less
  | yes holds _ ih =>
      simp only [Rule.stalls, Option.bind_eq_some_iff, Option.map_eq_some_iff] at stalls
      obtain ⟨_, one, -⟩ := stalls
      exact ih good (by simp [mem, mayHold_of_holds holds]) one
  | no fails _ ih =>
      simp only [Rule.stalls, Option.bind_eq_some_iff, Option.map_eq_some_iff] at stalls
      obtain ⟨_, -, _, two, -⟩ := stalls
      exact ih good (by simp [mem, mayFail_of_fails fails]) two
  | round holds _ ih =>
      simp only [Rule.stalls, Option.ite_none_right_eq_some] at stalls
      exact ih good (by simp [mem, mayHold_of_holds holds]) stalls.1.1
  | @later test body _ _ _ _ _ _ holds once _ ih =>
      simp only [Rule.stalls, Option.ite_none_right_eq_some] at stalls
      obtain ⟨⟨-, again⟩, -⟩ := stalls
      have less := Countdown.left_lt_of_round good again holds once
      have rounds : (Rule.loop test body).stalls .full 63 =
          some (KindSet.full.inter test.mayFail) := by
        simp [Rule.stalls, again]
      cases Countdown.lively_of_follows good (by simp [mayHold_of_holds holds]) again once with
      | done good' _ => exact (ih good' (KindSet.mem_full _) rounds).of_less less
  | within _ ih =>
      obtain ⟨good', enters, less⟩ := ih good mem stalls
      exact ⟨good', enters, less⟩


/-- **The calls that are made while another call is read** have fewer tokens left, or as many and a
smaller rank. -/
theorem Session.MadeBy.lowers {called calling : Nonterminal × Session σ} (h : MadeBy called calling)
    (good : down.good calling.2.cursor)
    (enters : calling.1.entry.mem calling.2.current.kind = true) :
    down.good called.2.cursor ∧ called.1.entry.mem called.2.current.kind = true ∧
      Prod.Lex (· < ·) (· < ·) (down.left called.2.cursor, called.1.rank)
        (down.left calling.2.cursor, calling.1.rank) := by
  obtain ⟨pos, stalls⟩ := Grammar.founded_python calling.1
  have lowers := Session.Calls.lowers h good enters stalls
  refine ⟨lowers.good, lowers.enters, Prod.lex_def.2 ?_⟩
  rcases lowers.less with less | ⟨same, ranked⟩
  · exact Or.inl less
  · exact Or.inr ⟨congrArg down.left same, by omega⟩

/-- **Calls do not go on for ever.** -/
theorem Session.acc_madeBy (calling : Nonterminal × Session σ) (good : down.good calling.2.cursor)
    (enters : calling.1.entry.mem calling.2.current.kind = true) : Acc MadeBy calling := by
  have wellFounded : WellFounded (InvImage (Prod.Lex (· < ·) (· < ·))
      fun call : Nonterminal × Session σ => (down.left call.2.cursor, call.1.rank)) :=
    InvImage.wf _ (Prod.lex Nat.lt_wfRel Nat.lt_wfRel).wf
  induction calling using wellFounded.induction with
  | _ calling ih =>
      refine Acc.intro calling fun called made => ?_
      obtain ⟨good', enters', less⟩ := made.lowers good enters
      exact ih called less good' enters'

/-- Greater depth than a session allows changes nothing in what it reads as a whole. -/
theorem Session.run_entry_of_le (good : down.good s.cursor) (entry : Entry) {more : Nat}
    (le : s.depth ≤ more) :
    run Grammar.python more entry.rule [] s = run Grammar.python s.depth entry.rule [] s := by
  obtain ⟨_, lively⟩ := Countdown.run_entry_lively Grammar.founded_python good entry
  exact run_mono le _ _ _ lively.not_exhausted

end

/-! ### Standing among some tokens -/

namespace TokenList

variable {tokens : List Token} {list list' : TokenList}

/-- The cursor stands at one of the tokens, or at the mark of the end that closes them. -/
def Of (tokens : List Token) (list : TokenList) : Prop := list.toList <:+ (ofList tokens).toList

theorem of_ofList (tokens : List Token) : (ofList tokens).Of tokens := List.suffix_refl _

/-- It ends where the tokens do. -/
theorem Of.good (h : list.Of tokens) : countdown.good list := by
  obtain ⟨last, found, ended⟩ := countdown_good_ofList tokens
  obtain ⟨front, eq⟩ := h
  rw [← eq, toList, List.getLast?_append_cons] at found
  exact ⟨last, found, ended⟩

theorem Of.advance (h : list.Of tokens) : list.advance.Of tokens := by
  obtain ⟨current, upcoming⟩ := list
  cases upcoming with
  | nil => exact h
  | cons next rest => exact (List.suffix_cons current _).trans h

/-- With fewer tokens left the cursor stands at a later place. -/
theorem Of.indexIn_lt (h : list.Of tokens) (less : list'.upcoming.length < list.upcoming.length) :
    list.indexIn tokens < list'.indexIn tokens := by
  have le := h.length_le
  simp only [indexIn, toList, List.length_cons] at le ⊢
  omega

/-- Moved on before the last token, it stands at a later place. -/
theorem Of.indexIn_lt_advance (h : list.Of tokens) (more : list.upcoming ≠ []) :
    list.indexIn tokens < list.advance.indexIn tokens := by
  refine h.indexIn_lt ?_
  obtain ⟨current, upcoming⟩ := list
  cases upcoming with
  | nil => exact absurd rfl more
  | cons next rest => exact Nat.lt_succ_self _

/-- Counting down among the tokens. -/
def countdownIn (tokens : List Token) : Countdown TokenList where
  good := Of tokens
  left list := list.upcoming.length
  le_budget _ := Nat.le_refl _
  moved {list list'} here moved := by
    obtain ⟨-, less⟩ := countdown.moved here.good moved
    cases moved
    exact ⟨here.advance, less⟩
  failed _ failed := by cases failed
  ended {list} _ _ := ⟨list.advance, rfl⟩

theorem Of.counted (h : list.Of tokens) : (countdownIn tokens).good list := h

end TokenList

/-! ### Leaving each token once -/

namespace Recorded

variable {tokens : List Token}

/-- All places of the cursor are among the tokens, and it was moved on at most once from each of
them, but for the last one. -/
structure LeavesOnce (tokens : List Token) (c : Recorded TokenList) : Prop where
  here : c.cursor.Of tokens
  trail : ∀ place ∈ c.trail, place.Of tokens
  once : c.visited.Pairwise fun earlier later =>
    earlier.indexIn tokens < later.indexIn tokens ∨ earlier.upcoming = []

theorem LeavesOnce.advance {c : Recorded TokenList} (h : c.LeavesOnce tokens) :
    (Cursor.advance c).2.LeavesOnce tokens := by
  refine ⟨h.here.advance, List.forall_mem_cons.2 ⟨h.here, h.trail⟩, ?_⟩
  change ((c.cursor.advance :: c.cursor :: c.trail).reverse).Pairwise _
  have once := h.once
  rw [visited, List.reverse_cons, List.pairwise_append] at once
  rw [List.reverse_cons, List.pairwise_append]
  refine ⟨h.once, List.pairwise_singleton _ _, fun earlier mem later last => ?_⟩
  rw [List.mem_singleton.1 last]
  rw [List.reverse_cons, List.mem_append] at mem
  rcases mem with before | now
  · have le := TokenList.indexIn_le_advance tokens c.cursor
    exact (once.2.2 earlier before c.cursor (List.mem_singleton_self _)).imp_left
      fun less => Nat.lt_of_lt_of_le less le
  · rw [List.mem_singleton.1 now]
    by_cases last : c.cursor.upcoming = []
    · exact Or.inr last
    · exact Or.inl (h.here.indexIn_lt_advance last)

end Recorded

namespace Session

variable {σ : Type} [Cursor σ] {tokens : List Token}

/-- A session that begins to keep the places of its cursor. -/
def recorded (s : Session σ) : Session (Recorded σ) := ⟨⟨s.cursor, []⟩, s.lastStop, s.flow⟩

/-- A session without the places that its cursor has kept. -/
def unrecorded (s : Session (Recorded σ)) : Session σ := ⟨s.cursor.cursor, s.lastStop, s.flow⟩

/-- Keeping the places changes nothing, also over several calls. -/
theorem unrecorded_afterCalls (s : Session (Recorded σ)) (calls : List Entry) :
    (s.afterCalls calls).unrecorded = s.unrecorded.afterCalls calls := by
  induction calls generalizing s with
  | nil => rfl
  | cons entry rest ih =>
      have sides : Sides .equality (fun (c : σ) (d : Recorded σ) => d.cursor = c) s.unrecorded s :=
        ⟨rfl, rfl, rfl⟩
      rcases parse_alike_of_budget Recorded.abreast rfl sides entry with never | ⟨-, sides'⟩
      · exact never.elim
      · have same : (s.parse entry).2.unrecorded = (s.unrecorded.parse entry).2 := by
          rw [unrecorded, sides'.cursor, sides'.flow, show (s.parse entry).2.lastStop = _ from
            sides'.lastStop]
        exact (ih _).trans (congrArg (·.afterCalls rest) same)

/-- **Over several calls the cursor is moved on from each token at most once**, but for the last. -/
theorem leavesOnce_afterCalls {s : Session TokenList} (here : s.cursor.Of tokens)
    (calls : List Entry) : (s.recorded.afterCalls calls).cursor.LeavesOnce tokens := by
  refine afterCalls_cursor (R := fun c c' : Recorded TokenList =>
    c.LeavesOnce tokens → c'.LeavesOnce tokens) (fun _ => id) (fun one two => two ∘ one)
    (fun _ => Recorded.LeavesOnce.advance) s.recorded calls ?_
  exact ⟨here, by simp [recorded], List.pairwise_singleton _ _⟩

end Session

/-! ### Every production -/

/-- Statements, expressions, subscripts, arguments and parameters, and what is read between commas
as the element of a list. -/
def Nonterminal.IsProduction : Nonterminal → Prop
  | statement | smallStatement | test | expr | subscript | argument | parameter _ _ => True
  | name => name.IsElement

/-- They may be called at any token. -/
theorem Nonterminal.IsProduction.enters {name : Nonterminal} (h : name.IsProduction)
    (kind : TokenKind) : name.entry.mem kind = true := by
  have looks : name.startsBlindly = false := by
    unfold IsProduction at h
    split at h
    all_goals first | rfl | exact h.looks
  rw [entry_of_looks looks]
  exact KindSet.mem_full kind

namespace Session

/-- What is said of a session over some tokens: calls and rounds take tokens, calls do not go on for
ever, reading as a whole has a result, and the cursor leaves each token at most once. -/
structure Progresses (tokens : List Token) (s : Session TokenList) : Prop where
  /-- A production that is read moves the cursor to a later place. -/
  productions : ∀ (name : Nonterminal) (fuel : Nat) (pieces : Frame) (t : Session TokenList),
    name.IsProduction → run Grammar.python fuel (Grammar.python name) [] s = .done pieces t →
      s.cursor.indexIn tokens < t.cursor.indexIn tokens
  /-- So does every round of every loop. -/
  rounds : ∀ (rule : Rule),
    (∃ name, rule = Grammar.python name) ∨ (∃ entry, rule = Entry.rule entry) →
      ∀ (test : Test) (body : Rule), (test, body) ∈ rule.rounds →
        ∀ (fuel : Nat) (frame frame' : Frame) (t : Session TokenList),
          s.answers frame test = true → run Grammar.python fuel body frame s = .done frame' t →
            s.cursor.indexIn tokens < t.cursor.indexIn tokens
  /-- So does what the loops over parameters and over targets read before their first round. -/
  before : ∀ (part : Rule),
    (∃ typed, part = Grammar.nextParameter typed) ∨ part = Grammar.assignLatest →
      ∀ (fuel : Nat) (frame frame' : Frame) (t : Session TokenList),
        run Grammar.python fuel part frame s = .done frame' t →
          s.cursor.indexIn tokens < t.cursor.indexIn tokens
  /-- What is called while a name is read has fewer tokens left, or as many and a smaller rank. -/
  descends : ∀ (name called : Nonterminal) (t : Session TokenList),
    name.entry.mem s.current.kind = true → MadeBy (called, t) (name, s) →
      t.cursor.Of tokens ∧ called.entry.mem t.current.kind = true ∧
        Prod.Lex (· < ·) (· < ·) (t.cursor.upcoming.length, called.rank)
          (s.cursor.upcoming.length, name.rank)
  /-- So calls do not go on for ever. -/
  founded : ∀ (name : Nonterminal), name.entry.mem s.current.kind = true → Acc MadeBy (name, s)
  /-- Nor do those that are made when something is read as a whole. -/
  entries : ∀ (entry : Entry) (called : Nonterminal) (t : Session TokenList),
    Calls Grammar.python entry.rule [] s called t →
      t.cursor.Of tokens ∧ called.entry.mem t.current.kind = true ∧ Acc MadeBy (called, t)
  /-- Reading as a whole has a result, which does not change with the depth that is allowed. -/
  returns : ∀ (entry : Entry),
    (∀ error, (s.parse entry).1 = .error error → error.cause ≠ .exhausted) ∧
      ∀ more, s.depth ≤ more →
        run Grammar.python more entry.rule [] s = run Grammar.python s.depth entry.rule [] s
  /-- Whatever is read as a whole, one after the other, leaves each token at most once, but for the
  last one; keeping the places of the cursor changes nothing. -/
  once : ∀ (calls : List Entry),
    (s.recorded.afterCalls calls).unrecorded = s.afterCalls calls ∧
      (s.recorded.afterCalls calls).cursor.LeavesOnce tokens

/-- **Every production makes progress**, whatever the tokens are and wherever the session stands. -/
theorem productions_progress {tokens : List Token} {s : Session TokenList}
    (here : s.cursor.Of tokens) : s.Progresses tokens where
  productions name fuel pieces t production ran :=
    here.indexIn_lt (Countdown.left_lt_of_run here.counted (production.enters _) ran)
  rounds := by
    intro rule grammatical test body mem fuel frame frame' t holds ran
    have stalls : body.stalls (KindSet.full.inter test.mayHold) 63 = some .empty := by
      rcases grammatical with ⟨name, rfl⟩ | ⟨entry, rfl⟩
      · exact Rule.stalls_of_mem_rounds (Grammar.founded_python name).2 _ mem
      · obtain ⟨_, stalls⟩ := entry.stalls_rule
        exact Rule.stalls_of_mem_rounds stalls _ mem
    exact here.indexIn_lt
      (Countdown.left_lt_of_round here.counted stalls holds (follows_reads_of_run ran))
  before := by
    intro part opening fuel frame frame' t ran
    have stalls : part.stalls .full 63 = some .empty := by
      rcases opening with ⟨typed, rfl⟩ | rfl
      · cases typed <;> decide +kernel
      · decide +kernel
    exact here.indexIn_lt (Countdown.left_lt_of_follows here.counted (KindSet.mem_full _) stalls
      (follows_reads_of_run ran))
  descends name called t enters made := made.lowers here.counted enters
  founded name enters := acc_madeBy (name, s) here.counted enters
  entries := by
    intro entry called t made
    obtain ⟨_, stalls⟩ := entry.stalls_rule
    have lowers := made.lowers here.counted (KindSet.mem_full _) stalls
    exact ⟨lowers.good, lowers.enters, acc_madeBy (called, t) lowers.good lowers.enters⟩
  returns entry :=
    ⟨(Countdown.parse_ne_exhausted here.counted entry).2,
      fun _ le => run_entry_of_le here.counted entry le⟩
  once calls := ⟨unrecorded_afterCalls s.recorded calls, leavesOnce_afterCalls here calls⟩

/-- A sum, in front of a mark of the end that stands in the middle of the tokens; reading it moves
the cursor to that mark. -/
theorem productions_progress_sum :
    let tokens : List Token := [.literal 0 1 .name "a", .mark 1 2 (.symbol .plus),
      .literal 2 3 .name "b", .eof 3, .literal 3 4 .name "c", .literal 4 5 .newline "\n"]
    let s := start (TokenList.ofList tokens)
    s.Progresses tokens ∧
      ∃ pieces t, run Grammar.python 64 (Grammar.python .test) [] s = .done pieces t ∧
        t.cursor.indexIn tokens = 3 ∧ s.cursor.indexIn tokens < t.cursor.indexIn tokens := by
  intro tokens s
  have progresses : s.Progresses tokens := productions_progress (TokenList.of_ofList tokens)
  refine ⟨progresses, ?_⟩
  have read : (match run Grammar.python 64 (Grammar.python .test) [] s with
      | .done _ t => t.cursor.indexIn tokens
      | .failed _ _ => 0) = 3 := by decide +kernel
  cases ran : run Grammar.python 64 (Grammar.python .test) [] s with
  | failed error t =>
      rw [ran] at read
      cases read
  | done pieces t =>
      rw [ran] at read
      exact ⟨pieces, t, rfl, read, progresses.productions .test 64 pieces t trivial ran⟩

end Session

end PythonSyntax
