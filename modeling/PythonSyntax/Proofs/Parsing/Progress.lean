/-
**Reading always comes to an end.**

A cursor counts down: with every token that is passed, fewer are left.  Between two tokens only so
many rules call one another, and a loop passes a token in every round; for each rule this is
computed.  So the bound on the depth of calls is never reached, whatever the text is: reading ends
with a tree or with an error that the text is to blame for.

Main definitions:

* `PythonSyntax.Countdown` — a count that goes down as a cursor moves;
* `PythonSyntax.Scanner.countdown`, `PythonSyntax.TokenList.countdown` — the counts of the scanner
  and of given tokens;
* `PythonSyntax.Rule.stalls` — the kinds of the current token with which a rule may end where it
  began;
* `PythonSyntax.Grammar.Founded` — no rule of a grammar ends where it began, or goes on for ever
  before it takes a token;
* `PythonSyntax.Countdown.Lively` — an outcome that is not for want of depth.

Main results:

* `PythonSyntax.Countdown.follow_lively` — following a rule is never cut short, given depth for the
  tokens that are left;
* `PythonSyntax.Countdown.run_call_lively` — a call that succeeds passes a token;
* `PythonSyntax.Countdown.parseBy_ne_exhausted` — reading by a founded grammar is never cut short;
* `PythonSyntax.Countdown.parse_ne_exhausted` — reading a module, a statement or an expression is
  never cut short.
-/

import PythonSyntax.Cursor.TokenList
import PythonSyntax.Proofs.Lexical.Budget
import PythonSyntax.Proofs.Parsing.Depth

set_option autoImplicit false

namespace PythonSyntax

/-! ### Counting down -/

/-- A count of what is left, for the good positions of a cursor.  Each move lowers it, but for one
at the end of the text, where the cursor may stay. -/
structure Countdown (σ : Type) [Cursor σ] where
  good : σ → Prop
  left : σ → Nat
  le_budget : ∀ {c}, good c → left c ≤ Cursor.budget c
  moved : ∀ {c c'}, good c → Cursor.advance c = (none, c') →
    good c' ∧ (left c' < left c ∨ c' = c ∧ (Cursor.current c).kind = .eof)
  failed : ∀ {c c' error}, good c → Cursor.advance c = (some error, c') →
    good c' ∧ error.cause ≠ .exhausted
  ended : ∀ {c}, good c → (Cursor.current c).kind = .eof → ∃ c', Cursor.advance c = (none, c')

/-- The scanner counts its budget, and at the end of the text nothing. -/
def Scanner.countdown : Countdown Scanner where
  good _ := True
  left s := if s.current.kind = .eof then 0 else s.budget
  le_budget {s} _ := by
    change _ ≤ s.budget
    split <;> omega
  moved {s t} _ moved := by
    refine ⟨trivial, ?_⟩
    change s.advance = (none, t) at moved
    change _ ∨ t = s ∧ s.current.kind = .eof
    by_cases ended : s.current.kind = .eof
    · rw [Scanner.advance, if_pos ended] at moved
      cases moved
      exact Or.inr ⟨rfl, ended⟩
    · left
      rw [if_neg ended]
      split
      · have := s.budget_pos
        omega
      · rename_i running
        exact Scanner.advance_spends ended moved running
  failed _ failed := ⟨trivial, Scanner.advance_ne_exhausted failed⟩
  ended {s} _ ended := ⟨s, if_pos ended⟩

/-- Given tokens, the last of which marks the end of the text, are counted. -/
def TokenList.countdown : Countdown TokenList where
  good list := ∃ last, list.toList.getLast? = some last ∧ last.kind = .eof
  left list := list.upcoming.length
  le_budget _ := Nat.le_refl _
  moved {list list'} good moved := by
    obtain ⟨current, upcoming⟩ := list
    obtain ⟨last, found, ended⟩ := good
    cases moved
    cases upcoming with
    | nil =>
        cases found
        exact ⟨⟨current, rfl, ended⟩, Or.inr ⟨rfl, ended⟩⟩
    | cons next rest =>
        rw [toList, List.getLast?_cons_cons] at found
        exact ⟨⟨last, found, ended⟩, Or.inl (Nat.lt_succ_self _)⟩
  failed _ failed := by cases failed
  ended {list} _ _ := ⟨list.advance, rfl⟩

theorem TokenList.countdown_good_ofList (tokens : List Token) :
    TokenList.countdown.good (TokenList.ofList tokens) := by
  cases tokens with
  | nil => exact ⟨Token.eof 0, rfl, rfl⟩
  | cons first more =>
      change ∃ last, (first :: closed first more).getLast? = some last ∧ last.kind = .eof
      unfold closed
      dsimp only
      split
      · rename_i ended
        exact ⟨_, List.getLast?_cons, ended⟩
      · exact ⟨Token.eof _, by rw [← List.cons_append, List.getLast?_concat], rfl⟩

/-- A path over tokens before the end of the text is no longer than what is left. -/
theorem Countdown.length_le_left {σ : Type} [Cursor σ] (down : Countdown σ) {c c' : σ}
    {tokens : List Token} (good : down.good c) (path : Path c tokens c')
    (running : ∀ token ∈ tokens, token.kind ≠ .eof) : tokens.length ≤ down.left c := by
  induction path with
  | nil c => exact Nat.zero_le _
  | @cons c next c' token tokens here moved rest ih =>
      obtain ⟨good', less | ⟨-, ended⟩⟩ := down.moved good moved
      · have within := ih good' fun other mem => running other (List.mem_cons_of_mem _ mem)
        simp only [List.length_cons]
        omega
      · exact absurd (here ▸ ended) (running token List.mem_cons_self)

/-! ### Rules that end where they begin -/

namespace Test

/-- The kinds of the current token with which the answer may be yes. -/
def mayHold : Test → KindSet
  | .on kinds => .ofList kinds
  | .onName _ => .ofList [.name]
  | .not test => (test.kinds?.map KindSet.compl).getD .full
  | .both first second => first.mayHold.inter second.mayHold
  | .either first second => first.mayHold.union second.mayHold
  | _ => .full

/-- The kinds of the current token with which the answer may be no. -/
def mayFail (test : Test) : KindSet := (test.kinds?.map KindSet.compl).getD .full

end Test

theorem Token.kind_of_spells {token : Token} {word : String} (h : token.spells word = true) :
    token.kind = .name := by
  simp only [Token.spells, Bool.and_eq_true, decide_eq_true_eq] at h
  exact h.1

namespace Session

variable {σ : Type} [Cursor σ] {s : Session σ} {frame : Frame} {test : Test}

theorem mayFail_of_fails (h : s.answers frame test = false) :
    test.mayFail.mem s.current.kind = true := by
  unfold Test.mayFail
  cases eq : test.kinds? with
  | none => simp
  | some set =>
      rw [answers_of_kinds? eq] at h
      simp [h]

theorem mayHold_of_holds (h : s.answers frame test = true) :
    test.mayHold.mem s.current.kind = true := by
  induction test with
  | on kinds => simpa [answers, Test.mayHold] using h
  | onName word => simp [Test.mayHold, Token.kind_of_spells h]
  | not test _ => exact mayFail_of_fails (by simpa [answers] using h)
  | both first second ih ih' =>
      simp only [answers, Bool.and_eq_true] at h
      simp [Test.mayHold, ih h.1, ih' h.2]
  | either first second ih ih' =>
      simp only [answers, Bool.or_eq_true] at h
      rcases h with one | two
      · simp [Test.mayHold, ih one]
      · simp [Test.mayHold, ih' two]
  | _ => simp [Test.mayHold]

end Session

namespace Rule

/-- The rule may take a token. -/
def mayMove : Rule → Bool
  | .shift _ | .call _ _ => true
  | .seq first second => first.mayMove || second.mayMove
  | .branch _ yes no => yes.mayMove || no.mayMove
  | .loop _ body | .within _ body => body.mayMove
  | _ => false

/-- The kinds of the current token, which is of one of `kinds`, with which the rule may end where
it began.  There are none if the rule may call a name of rank above `limit` before a token is taken,
or one that looks for other tokens, or if it may loop for ever. -/
def stalls : Rule → KindSet → Nat → Option KindSet
  | .shift _, kinds, _ => some (kinds.inter (.ofList [.eof]))
  | .refuse _ _, _, _ => some .empty
  | .call name _, kinds, limit =>
    if kinds = .empty ∨ kinds.subset name.entry = true ∧ name.rank ≤ limit then some .empty
    else none
  | .seq first second, kinds, limit =>
    if first.mayMove = true → (second.stalls .full 63).isSome = true then
      (first.stalls kinds limit).bind fun still => second.stalls still limit
    else none
  | .branch test yes no, kinds, limit =>
    (yes.stalls (kinds.inter test.mayHold) limit).bind fun still =>
      (no.stalls (kinds.inter test.mayFail) limit).map still.union
  | .loop test body, kinds, limit =>
    if body.stalls (kinds.inter test.mayHold) limit = some .empty ∧
        body.stalls (KindSet.full.inter test.mayHold) 63 = some .empty then
      some (kinds.inter test.mayFail)
    else none
  | .within _ body, kinds, limit => body.stalls kinds limit
  | _, kinds, _ => some kinds

end Rule

/-- No rule of a grammar ends where it began, and before it takes a token it calls only names of
smaller rank. -/
def Grammar.Founded (grammar : Grammar) : Prop :=
  ∀ name : Nonterminal,
    0 < name.rank ∧ (grammar name).stalls name.entry (name.rank - 1) = some .empty

theorem Grammar.founded_python : Grammar.python.Founded := by
  intro name
  have checked := Nonterminal.forall_of_all
    (fun name => decide (0 < name.rank ∧
      (Grammar.python name).stalls name.entry (name.rank - 1) = some .empty))
    (by decide) name
  exact of_decide_eq_true checked

theorem Entry.stalls_rule (entry : Entry) : ∃ still, entry.rule.stalls .full 63 = some still := by
  cases entry <;> exact Option.isSome_iff_exists.1 (by decide)

/-! ### Outcomes -/

open Session

namespace Countdown

variable {σ : Type} [Cursor σ] (down : Countdown σ)

/-- An outcome of reading from `s` that is not for want of depth.  Where reading has ended, there is
less left than before, if `moves` allows it, or the session has stayed at a token of one of the
kinds. -/
inductive Lively (s : Session σ) (moves : Bool) (still : KindSet) : Outcome σ → Prop
  | done {frame : Frame} {t : Session σ} (good : down.good t.cursor)
      (less : moves = true ∧ down.left t.cursor < down.left s.cursor ∨
        t.cursor = s.cursor ∧ still.mem s.current.kind = true) : Lively s moves still (.done frame t)
  | failed {error : SyntaxError} {t : Session σ} (good : down.good t.cursor)
      (blamed : error.cause ≠ .exhausted) : Lively s moves still (.failed error t)

variable {down} {s t : Session σ} {moves : Bool} {still : KindSet} {outcome : Outcome σ}

theorem Lively.not_exhausted (h : down.Lively s moves still outcome) : ¬ outcome.Exhausted := by
  rintro ⟨position, t, rfl⟩
  cases h with
  | failed good blamed => exact blamed rfl

/-- Reading on from where less is left. -/
theorem Lively.of_less {moves' : Bool} {still' : KindSet}
    (h : down.Lively t moves' still' outcome) (may : moves = true)
    (less : down.left t.cursor < down.left s.cursor) : down.Lively s moves still outcome := by
  cases h with
  | failed good blamed => exact .failed good blamed
  | @done frame u good less' =>
      refine .done good (Or.inl ⟨may, ?_⟩)
      rcases less' with ⟨-, less'⟩ | ⟨same, -⟩
      · exact Nat.lt_trans less' less
      · rw [same]
        exact less

/-- Reading on from where the session has stayed. -/
theorem Lively.of_same {moves' : Bool} (h : down.Lively t moves' still outcome)
    (le : moves' = true → moves = true) (same : t.cursor = s.cursor) :
    down.Lively s moves still outcome := by
  cases h with
  | failed good blamed => exact .failed good blamed
  | @done frame u good less =>
      have kind : t.current = s.current := congrArg Cursor.current same
      rw [same, kind] at less
      exact .done good (less.imp (fun less => ⟨le less.1, less.2⟩) id)

theorem Lively.mono {moves' : Bool} {still' : KindSet} (h : down.Lively s moves still outcome)
    (le : moves = true → moves' = true)
    (sub : still.mem s.current.kind = true → still'.mem s.current.kind = true) :
    down.Lively s moves' still' outcome := by
  cases h with
  | failed good blamed => exact .failed good blamed
  | done good less =>
      refine .done good (less.imp (fun less => ⟨le less.1, less.2⟩) ?_)
      exact fun stayed => ⟨stayed.1, sub stayed.2⟩

/-- Going on behind what has been read. -/
theorem Lively.andThen {moves' : Bool} {still' : KindSet} {next : Frame → Session σ → Outcome σ}
    (h : down.Lively s moves still outcome)
    (moved : ∀ frame t, down.good t.cursor → moves = true →
      down.left t.cursor < down.left s.cursor → down.Lively s moves' still' (next frame t))
    (stayed : ∀ frame t, down.good t.cursor → t.cursor = s.cursor →
      still.mem s.current.kind = true → down.Lively s moves' still' (next frame t)) :
    down.Lively s moves' still' (outcome.andThen next) := by
  cases h with
  | done good less =>
      rcases less with ⟨may, less⟩ | ⟨same, mem⟩
      · exact moved _ _ good may less
      · exact stayed _ _ good same mem
  | failed good blamed => exact .failed good blamed

theorem Lively.withFlow {entered : Flow} (h : down.Lively (s.withFlow entered) moves still outcome)
    (flow : Flow) : down.Lively s moves still (outcome.withFlow flow) := by
  cases h with
  | done good less => exact .done good less
  | failed good blamed => exact .failed good blamed

/-- Reading where nothing can end without a move. -/
theorem Lively.less_of_empty {frame : Frame} (h : down.Lively s moves .empty (.done frame t)) :
    down.left t.cursor < down.left s.cursor := by
  cases h with
  | done good less =>
      rcases less with ⟨-, less⟩ | ⟨-, none⟩
      · exact less
      · simp at none

/-! ### Following a rule -/

variable (down) {grammar : Grammar}

/-- Rules that are read with a given depth end in lively outcomes. -/
def Enough (grammar : Grammar) (fuel : Nat) : Prop :=
  ∀ rule frame (s : Session σ) kinds limit still, down.good s.cursor →
    kinds.mem s.current.kind = true → Rule.stalls rule kinds limit = some still →
    limit + 64 * down.left s.cursor ≤ fuel →
    down.Lively s rule.mayMove still (follow grammar (run grammar fuel) rule frame s)

variable {down}

theorem shift_lively (good : down.good s.cursor) (frame : Frame) (field : Field) {kinds : KindSet}
    (mem : kinds.mem s.current.kind = true) :
    down.Lively s true (kinds.inter (.ofList [.eof])) (s.shift frame field) := by
  unfold Session.shift
  dsimp only
  split
  · rename_i next moved
    obtain ⟨good', less⟩ := down.moved good moved
    refine .done good' (less.imp (fun less => ⟨rfl, less⟩) ?_)
    rintro ⟨same, ended⟩
    exact ⟨same, by rw [KindSet.mem_inter, mem]; simpa [Session.current] using ended⟩
  · rename_i error next failed
    obtain ⟨good', blamed⟩ := down.failed good failed
    exact .failed good' blamed

/-- A call that succeeds passes a token, and it is not cut short. -/
theorem run_call_lively_of_enough (founded : grammar.Founded) {fuel : Nat}
    (enough : ∀ less < fuel, down.Enough grammar less) {name : Nonterminal}
    (good : down.good s.cursor) (enters : name.entry.mem s.current.kind = true)
    (depth : name.rank + 64 * down.left s.cursor ≤ fuel) :
    down.Lively s true .empty (run grammar fuel (grammar name) [] s) := by
  obtain ⟨pos, stalls⟩ := founded name
  obtain ⟨less, rfl⟩ : ∃ n, fuel = n + 1 := ⟨fuel - 1, by omega⟩
  have lively := enough less (Nat.lt_succ_self _) _ [] s _ _ _ good enters stalls (by omega)
  exact lively.mono (fun _ => rfl) id

theorem follow_lively_of_enough (founded : grammar.Founded) {fuel : Nat}
    (enough : ∀ less < fuel, down.Enough grammar less) : down.Enough grammar fuel := by
  intro rule
  induction rule with
  | done | reduce _ | reducePair _ _ | relabel _ | unwrap _ =>
      intro frame s kinds limit still good mem stalls depth
      cases stalls
      exact .done good (Or.inr ⟨rfl, mem⟩)
  | refuse complaint place =>
      intro frame s kinds limit still good mem stalls depth
      exact .failed good (by simp)
  | shift field =>
      intro frame s kinds limit still good mem stalls depth
      cases stalls
      exact shift_lively good frame field mem
  | call name field =>
      intro frame s kinds limit still good mem stalls depth
      simp only [Rule.stalls, Option.ite_none_right_eq_some, Option.some.injEq] at stalls
      obtain ⟨callable, rfl⟩ := stalls
      rcases callable with rfl | ⟨enters, ranked⟩
      · simp at mem
      · have called := run_call_lively_of_enough founded enough good
          (KindSet.mem_of_subset enters mem) (by omega)
        rw [follow_call]
        exact called.andThen (fun _ _ good' _ less => .done good' (Or.inl ⟨rfl, less⟩))
          fun _ _ good' same none => .done good' (Or.inr ⟨same, none⟩)
  | seq first second ih ih' =>
      intro frame s kinds limit still good mem stalls depth
      simp only [Rule.stalls, Option.ite_none_right_eq_some, Option.bind_eq_some_iff] at stalls
      obtain ⟨later, middle, stalls, stalls'⟩ := stalls
      rw [follow_seq]
      -- Behind a token the second rule has the depth of a fresh start; before one, what is left.
      refine (ih frame s kinds limit middle good mem stalls depth).andThen ?_ ?_
      · intro frame' t good' moves less
        obtain ⟨still', stalls'⟩ := Option.isSome_iff_exists.1 (later moves)
        have two := ih' frame' t .full 63 still' good' (by simp) stalls' (by omega)
        exact two.of_less (by simp [Rule.mayMove, moves]) less
      · intro frame' t good' same mem'
        have kind : t.current = s.current := congrArg Cursor.current same
        have two := ih' frame' t middle limit still good' (by rw [kind]; exact mem') stalls'
          (by rw [same]; exact depth)
        exact two.of_same (by simp +contextual [Rule.mayMove]) same
  | branch test yes no ih ih' =>
      intro frame s kinds limit still good mem stalls depth
      simp only [Rule.stalls, Option.bind_eq_some_iff, Option.map_eq_some_iff] at stalls
      obtain ⟨one, stalls, two, stalls', rfl⟩ := stalls
      rw [follow_branch]
      split
      · rename_i holds
        have both : (kinds.inter test.mayHold).mem s.current.kind = true := by
          simp [mem, mayHold_of_holds holds]
        exact (ih frame s _ limit one good both stalls depth).mono
          (by simp +contextual [Rule.mayMove]) (by simp +contextual)
      · rename_i fails
        have both : (kinds.inter test.mayFail).mem s.current.kind = true := by
          simp [mem, mayFail_of_fails (Bool.eq_false_iff.2 fails)]
        exact (ih' frame s _ limit two good both stalls' depth).mono
          (by simp +contextual [Rule.mayMove]) (by simp +contextual)
  | loop test body ih =>
      intro frame s kinds limit still good mem stalls depth
      simp only [Rule.stalls, Option.ite_none_right_eq_some, Option.some.injEq] at stalls
      obtain ⟨⟨stalls, again⟩, rfl⟩ := stalls
      rw [follow_loop]
      split
      · rename_i holds
        have both : (kinds.inter test.mayHold).mem s.current.kind = true := by
          simp [mem, mayHold_of_holds holds]
        -- A round takes a token, so the next one is read with less to come.
        refine (ih frame s _ limit _ good both stalls depth).andThen ?_ fun _ _ _ _ none => ?_
        · intro frame' t good' moves less
          have rounds : (Rule.loop test body).stalls .full 63 =
              some (KindSet.full.inter test.mayFail) := by
            simp [Rule.stalls, again]
          obtain ⟨fewer, rfl⟩ : ∃ n, fuel = n + 1 := ⟨fuel - 1, by omega⟩
          have rest := enough fewer (Nat.lt_succ_self _) (.loop test body) frame' t _ _ _
            good' (KindSet.mem_full _) rounds (by omega)
          exact rest.of_less (by simpa [Rule.mayMove] using moves) less
        · simp at none
      · rename_i fails
        refine .done good (Or.inr ⟨rfl, ?_⟩)
        simp [mem, mayFail_of_fails (Bool.eq_false_iff.2 fails)]
  | within scope body ih =>
      intro frame s kinds limit still good mem stalls depth
      have inner := ih frame (s.withFlow (s.flow.enter scope)) kinds limit still good mem stalls
        depth
      rw [follow_within]
      exact inner.withFlow s.flow

/-- **Following a rule is never cut short**, given depth for the tokens that are left. -/
theorem follow_lively (down : Countdown σ) (founded : grammar.Founded) (fuel : Nat) :
    down.Enough grammar fuel := by
  induction fuel using Nat.strongRecOn with
  | ind fuel ih => exact follow_lively_of_enough founded ih

/-- **A call that succeeds passes a token**, and it is not cut short. -/
theorem run_call_lively (founded : grammar.Founded) {fuel : Nat} {name : Nonterminal}
    (good : down.good s.cursor) (enters : name.entry.mem s.current.kind = true)
    (depth : name.rank + 64 * down.left s.cursor ≤ fuel) :
    down.Lively s true .empty (run grammar fuel (grammar name) [] s) :=
  run_call_lively_of_enough founded (fun less _ => follow_lively down founded less) good enters
    depth

/-- What is read as a whole is not cut short. -/
theorem run_entry_lively (founded : grammar.Founded) (good : down.good s.cursor) (entry : Entry) :
    ∃ still, down.Lively s entry.rule.mayMove still (run grammar s.depth entry.rule [] s) := by
  obtain ⟨still, stalls⟩ := entry.stalls_rule
  have le := down.le_budget good
  obtain ⟨less, eq⟩ : ∃ n, s.depth = n + 1 := ⟨s.depth - 1, by unfold Session.depth; omega⟩
  refine ⟨still, ?_⟩
  rw [eq]
  refine follow_lively down founded less _ _ _ _ _ _ good (KindSet.mem_full _) stalls ?_
  unfold Session.depth at eq
  omega

/-- **Reading by a founded grammar is never cut short**, and it leaves the cursor at a good
position. -/
theorem parseBy_ne_exhausted (founded : grammar.Founded) (good : down.good s.cursor)
    (entry : Entry) :
    down.good (s.parseBy grammar entry).2.cursor ∧
      ∀ error, (s.parseBy grammar entry).1 = .error error → error.cause ≠ .exhausted := by
  obtain ⟨still, lively⟩ := run_entry_lively founded good entry
  unfold Session.parseBy
  split
  · rename_i frame t eq
    rw [eq] at lively
    cases lively with
    | done good' less => exact ⟨good', by simp⟩
  · rename_i error t eq
    rw [eq] at lively
    cases lively with
    | failed good' blamed =>
        refine ⟨good', fun _ same => ?_⟩
        cases same
        exact blamed

/-- **Reading a module, a statement or an expression is never cut short**, and it leaves the cursor
at a good position. -/
theorem parse_ne_exhausted (good : down.good s.cursor) (entry : Entry) :
    down.good (s.parse entry).2.cursor ∧
      ∀ error, (s.parse entry).1 = .error error → error.cause ≠ .exhausted :=
  parseBy_ne_exhausted Grammar.founded_python good entry

end Countdown

end PythonSyntax
