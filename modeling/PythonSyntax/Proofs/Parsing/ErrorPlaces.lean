/-
**Where errors are reported.**

A rule of the grammar objects at the token on which the session stands, or at the beginning of a
tree that has been read; and a tree begins where one of its tokens does.  So an error is reported at
a token that has been delivered, or where the scanner finds a fault behind it.

Main definitions:

* `PythonSyntax.Met` — offsets at which delivered tokens begin;
* `PythonSyntax.Lands` — what following a rule comes to, as to where things are;
* `PythonSyntax.CallFails`, `PythonSyntax.TokenizeFails` — what has been delivered before an error;
* `PythonSyntax.WellPlaced` — an error that is reported where it should be.

Main results:

* `PythonSyntax.Session.run_lands` — following a rule ends where it should;
* `PythonSyntax.errors_located` — **so does every call**, and no error of the text lies before it.
-/

import PythonSyntax.Proofs.Lexical.Faults
import PythonSyntax.Proofs.Parsing.Progress
import PythonSyntax.Proofs.Parsing.Sessions

set_option autoImplicit false

namespace PythonSyntax

/-! ### Where trees begin -/

/-- All trees in a row, and all trees in them, begin at some of the offsets. -/
def BeginIn (starts : Nat → Prop) (frame : Frame) : Prop :=
  ∀ tree ∈ Tree.subtreesOf frame, starts tree.start

namespace BeginIn

variable {starts others : Nat → Prop} {frame more : Frame}

theorem nil : BeginIn starts [] := nofun

theorem append (h : BeginIn starts frame) (h' : BeginIn starts more) :
    BeginIn starts (frame ++ more) := by
  intro tree mem
  rw [Tree.subtreesOf_append] at mem
  exact (List.mem_append.1 mem).elim (h tree) (h' tree)

theorem mono (h : BeginIn starts frame) (le : ∀ offset, starts offset → others offset) :
    BeginIn others frame :=
  fun tree mem => le _ (h tree mem)

theorem of_subset (h : BeginIn starts frame) (sub : ∀ child ∈ more, ∃ other ∈ frame,
    child.2 = other.2) : BeginIn starts more := by
  intro tree mem
  obtain ⟨child, mem, inside⟩ := Tree.mem_subtreesOf.1 mem
  obtain ⟨other, mem', same⟩ := sub child mem
  exact h tree (Tree.mem_subtreesOf.2 ⟨other, mem', same ▸ inside⟩)

theorem start (h : BeginIn starts frame) {child : Child} (mem : child ∈ frame) :
    starts child.2.start :=
  h _ (Tree.mem_subtreesOf.2 ⟨child, mem, child.2.mem_subtrees_self⟩)

/-- Other fields change nothing. -/
theorem map (h : BeginIn starts frame) (field : Field) :
    BeginIn starts (frame.map fun child => (field, child.2)) := by
  refine h.of_subset fun child mem => ?_
  obtain ⟨other, mem', rfl⟩ := List.mem_map.1 mem
  exact ⟨other, mem', rfl⟩

/-- A node that is made of some pieces begins where the first of them does. -/
theorem build (h : BeginIn starts frame) {here : Nat} (there : starts here) (kind : NodeKind)
    (stop : Nat) (field : Field) : BeginIn starts [(field, frame.build kind here stop)] := by
  intro tree mem
  simp only [Frame.build, Tree.subtreesOf_cons, Tree.subtrees_node, Tree.subtreesOf_nil,
    List.append_nil, List.mem_cons] at mem
  rcases mem with rfl | mem
  · change starts ((frame.getLast?.map fun child => child.2.start).getD here)
    cases last : frame.getLast? with
    | none => exact there
    | some child => exact h.start (List.mem_of_getLast? last)
  · exact (h.of_subset fun child mem => ⟨child, List.mem_reverse.1 mem, rfl⟩) tree mem

theorem relabel (h : BeginIn starts frame) (field : Field) :
    BeginIn starts (frame.relabel field) := by
  cases frame with
  | nil => exact h
  | cons child rest => exact h

theorem unwrap (h : BeginIn starts frame) (field : Field) :
    BeginIn starts (frame.unwrap field) := by
  match frame with
  | [] => exact h
  | (_, .leaf token) :: rest => exact h
  | (other, .node kind start stop children) :: rest =>
    have inner : BeginIn starts children := fun tree mem =>
      h tree (List.mem_append_left _ (List.mem_cons_of_mem _ mem))
    have outer : BeginIn starts rest := fun tree mem => h tree (List.mem_append_right _ mem)
    exact ((inner.of_subset fun child mem => ⟨child, List.mem_reverse.1 mem, rfl⟩).map field).append
      outer

end BeginIn

/-! ### Following rules -/

section

variable {σ : Type} [Cursor σ] {first c c' : σ} {offset : Nat}

/-- A token that has been delivered on the way to the cursor, or on which it stands, begins at the
offset. -/
def Met (first c : σ) (offset : Nat) : Prop :=
  ∃ tokens, Path first tokens c ∧ ∃ token ∈ tokens ++ [Cursor.current c], token.start = offset

theorem Met.advance (h : Met first c offset) (moved : Cursor.advance c = (none, c')) :
    Met first c' offset := by
  obtain ⟨tokens, path, token, mem, start⟩ := h
  exact ⟨tokens ++ [Cursor.current c], Path.append_iff.2 ⟨c, path, .cons rfl moved (.nil _)⟩, token,
    List.mem_append_left _ mem, start⟩

/-- What following a rule comes to, as to where things are: trees begin where tokens do that have
been delivered; a rule objects at such a place; or the cursor fails to move. -/
inductive Lands (first : σ) (s : Session σ) : Outcome σ → Prop
  | done {frame : Frame} {t : Session σ} (here : Met first t.cursor t.position)
      (onwards : ∀ offset, Met first s.cursor offset → Met first t.cursor offset)
      (begins : BeginIn (Met first t.cursor) frame) : Lands first s (.done frame t)
  | refused {complaint : Complaint} {found : Token} {position : Nat} {t : Session σ}
      (met : Met first t.cursor position) :
      Lands first s (.failed ⟨.grammatical complaint found, position⟩ t)
  | stuck {error : SyntaxError} {t : Session σ} {c : σ} {tokens : List Token}
      (path : Path first tokens c) (failed : Cursor.advance c = (some error, t.cursor)) :
      Lands first s (.failed error t)
  | exhausted {position : Nat} {t : Session σ} :
      Lands first s (.failed ⟨.exhausted, position⟩ t)

namespace Lands

variable {s t u : Session σ}

theorem trans {outcome : Outcome σ}
    (onwards : ∀ offset, Met first s.cursor offset → Met first u.cursor offset)
    (h : Lands first u outcome) : Lands first s outcome := by
  cases h with
  | done here onwards' begins =>
      exact .done here (fun offset met => onwards' offset (onwards offset met)) begins
  | refused met => exact .refused met
  | stuck path failed => exact .stuck path failed
  | exhausted => exact .exhausted

theorem andThen {outcome : Outcome σ} {next : Frame → Session σ → Outcome σ}
    (h : Lands first s outcome)
    (goes : ∀ frame t, Met first t.cursor t.position → BeginIn (Met first t.cursor) frame →
      (∀ offset, Met first s.cursor offset → Met first t.cursor offset) →
      Lands first t (next frame t)) : Lands first s (outcome.andThen next) := by
  cases h with
  | done here onwards begins => exact (goes _ _ here begins onwards).trans onwards
  | refused met => exact .refused met
  | stuck path failed => exact .stuck path failed
  | exhausted => exact .exhausted

theorem withFlow {outcome : Outcome σ} {entered : Flow}
    (h : Lands first (s.withFlow entered) outcome) (flow : Flow) : Lands first s (outcome.withFlow flow) := by
  cases h with
  | done here onwards begins => exact .done here onwards begins
  | refused met => exact .refused met
  | stuck path failed => exact .stuck path failed
  | exhausted => exact .exhausted

end Lands

namespace Session

variable {s t : Session σ}

theorem shift_lands (here : Met first s.cursor s.position) {frame : Frame} (field : Field)
    (begins : BeginIn (Met first s.cursor) frame) : Lands first s (s.shift frame field) := by
  obtain ⟨tokens, path, -⟩ := here
  unfold shift
  dsimp only
  split
  · rename_i c moved
    have onwards := fun offset (met : Met first s.cursor offset) => met.advance moved
    have path' : Path first (tokens ++ [s.current]) c :=
      Path.append_iff.2 ⟨s.cursor, path, .cons rfl moved (.nil c)⟩
    refine .done ⟨_, path', Cursor.current c, by simp, rfl⟩ onwards ?_
    intro tree mem
    rcases List.mem_cons.1 mem with rfl | mem
    · exact ⟨_, path', s.current, by simp, rfl⟩
    · exact onwards _ (begins tree mem)
  · rename_i failed
    exact .stuck path failed

/-- Where a rule objects. -/
theorem locate_met (here : Met first s.cursor s.position) {frame : Frame}
    (begins : BeginIn (Met first s.cursor) frame) (place : Place) :
    Met first s.cursor (s.locate frame place) := by
  cases place with
  | here => exact here
  | latest =>
      cases frame with
      | nil => exact here
      | cons child rest => exact begins.start List.mem_cons_self
  | firstOf kind =>
      unfold locate Frame.firstOf?
      dsimp only
      cases found : frame.reverse.find? fun child => Frame.isOneOf [kind] child.2 with
      | none => exact here
      | some child => exact begins.start (List.mem_reverse.1 (List.mem_of_find?_eq_some found))

/-- Following a rule ends where it should, if its calls do. -/
theorem follow_lands {grammar : Grammar} {recur : Rule → Frame → Session σ → Outcome σ}
    (calls : ∀ rule frame s, Met first s.cursor s.position → BeginIn (Met first s.cursor) frame →
      Lands first s (recur rule frame s)) (rule : Rule) (frame : Frame) (s : Session σ)
    (here : Met first s.cursor s.position) (begins : BeginIn (Met first s.cursor) frame) :
    Lands first s (follow grammar recur rule frame s) := by
  induction rule generalizing frame s with
  | done => exact .done here (fun _ => id) begins
  | shift field => exact shift_lands here field begins
  | seq one two ih ih' =>
      rw [follow_seq]
      exact (ih frame s here begins).andThen fun middle t here begins _ => ih' middle t here begins
  | call name field =>
      rw [follow_call]
      refine (calls (grammar name) [] s here .nil).andThen fun pieces t here inner onwards => ?_
      exact .done here (fun _ => id) ((inner.map field).append (begins.mono onwards))
  | reduce kind => exact .done here (fun _ => id) (begins.build here kind _ _)
  | reducePair kind field =>
      have front : BeginIn (Met first s.cursor) (frame.take 2) :=
        begins.of_subset fun child mem => ⟨child, List.mem_of_mem_take mem, rfl⟩
      have back : BeginIn (Met first s.cursor) (frame.drop 2) :=
        begins.of_subset fun child mem => ⟨child, List.mem_of_mem_drop mem, rfl⟩
      have both := (front.build here kind s.lastStop field).append back
      exact .done here (fun _ => id) both
  | relabel field => exact .done here (fun _ => id) (begins.relabel field)
  | unwrap field => exact .done here (fun _ => id) (begins.unwrap field)
  | branch test yes no ih ih' =>
      rw [follow_branch]
      split
      · exact ih frame s here begins
      · exact ih' frame s here begins
  | loop test body ih =>
      rw [follow_loop]
      split
      · exact (ih frame s here begins).andThen fun middle t here begins _ =>
          calls _ middle t here begins
      · exact .done here (fun _ => id) begins
  | within scope body ih =>
      rw [follow_within]
      exact (ih frame (s.withFlow (s.flow.enter scope)) here begins).withFlow s.flow
  | refuse complaint place => exact .refused (locate_met here begins place)

/-- **Following a rule ends where it should.** -/
theorem run_lands (grammar : Grammar) (fuel : Nat) (rule : Rule) (frame : Frame) (s : Session σ)
    (here : Met first s.cursor s.position) (begins : BeginIn (Met first s.cursor) frame) :
    Lands first s (run grammar fuel rule frame s) := by
  induction fuel generalizing rule frame s with
  | zero => exact .exhausted
  | succ fuel ih => exact follow_lands ih rule frame s here begins

end Session

end

/-! ### The scanner -/

namespace Path

variable {σ : Type} [Cursor σ] {first s t : σ} {tokens more : List Token} {error : SyntaxError}

/-- A path does not lead past a place where the cursor fails to move. -/
theorem comes_to (path : Path first tokens s) (path' : Path first more t) {t' : σ}
    (failed : Cursor.advance t = (some error, t')) : ∃ rest, Path s rest t := by
  induction path generalizing more with
  | nil c => exact ⟨more, path'⟩
  | @cons c c' s token tokens here moved rest ih =>
      cases path' with
      | nil _ =>
          rw [moved] at failed
          cases failed
      | cons _ moved' rest' =>
          rw [moved] at moved'
          cases moved'
          exact ih rest'

/-- Where the cursor fails to move, a path ends. -/
theorem eq_of_failed (path : Path s tokens t) {s' : σ}
    (failed : Cursor.advance s = (some error, s')) : t = s := by
  cases path with
  | nil _ => rfl
  | cons _ moved _ =>
      rw [moved] at failed
      cases failed

end Path

namespace Scanner

variable {options : Options} {text : List Char} {s t : Scanner}

theorem next_options {token : Token} (settled : s.Settled) (result : s.next = (.ok token, t)) :
    t.options = s.options := by
  cases kept : s.pending with
  | nil =>
      rw [next_of_quiet kept] at result
      obtain ⟨u, pieces, last, front, idles, stepped, rfl⟩ := exists_step_of_read result
      have alike := idles.alike settled kept
      have moves := step_moves alike.settled alike.quiet
      rw [stepped] at moves
      exact moves.options.trans alike.options
  | cons first pending =>
      rw [next, kept] at result
      cases result
      rfl

/-- A scanner that has met no fault so far: it stands where it may, and so does its token. -/
structure Sound (options : Options) (text : List Char) (s : Scanner) : Prop where
  options : s.options = options
  sited : s.Sited text
  nested : s.Nested
  upright : s.Upright text
  start : Text.Unsplit text s.current.start

theorem ofText_sound (opened : ofText options text = .ok s) : s.Sound options text := by
  have upright := ofText_upright opened
  refine ⟨?_, ofText_sited opened, (Reachable.first opened).nested, upright.1, upright.2⟩
  unfold ofText at opened
  split at opened
  · rename_i token u found
    cases opened
    have kept : u.options = _ := next_options (initial_settled options text) found
    exact kept
  · cases opened

theorem Sound.advance (h : s.Sound options text) (moved : s.advance = (none, t)) :
    t.Sound options text := by
  have sited := h.sited.advance.1
  have nested := h.nested.advance
  have upright := advance_upright h.sited.standing h.nested.settled h.upright h.start moved
  rw [moved] at sited nested
  refine ⟨?_, sited, nested, upright.1, upright.2⟩
  unfold Scanner.advance at moved
  split at moved
  · cases moved
    exact h.options
  · split at moved
    · rename_i token u found
      cases moved
      exact (next_options h.nested.settled found).trans h.options
    · cases moved

theorem Sound.path {tokens : List Token} (h : s.Sound options text) (path : Path s tokens t) :
    t.Sound options text ∧ ∀ token ∈ tokens ++ [t.current], Text.Unsplit text token.start := by
  induction path with
  | nil s =>
      refine ⟨h, fun token mem => ?_⟩
      obtain rfl := List.mem_singleton.1 mem
      exact h.start
  | @cons s next t token tokens here moved rest ih =>
      obtain rfl : s.current = token := here
      obtain ⟨sound, starts⟩ := ih (h.advance moved)
      refine ⟨sound, fun token mem => ?_⟩
      rcases List.mem_cons.1 mem with rfl | mem
      · exact h.start
      · exact starts token mem

/-- The tokens that are passed, and the one on which the scanner then stands, lie before it. -/
theorem Sound.stop_le {tokens : List Token} (h : s.Sound options text) (path : Path s tokens t) :
    ∀ token ∈ tokens ++ [t.current],
      token.start ≤ t.current.start ∧ token.start ≤ token.stop ∧ token.stop ≤ t.offset := by
  obtain ⟨row, sited, -, inside⟩ := h.sited.inRow_of_path path
  intro token mem
  rcases List.mem_append.1 mem with mem | mem
  · have forward := row.forward token mem
    have before := (inside token mem).2
    exact ⟨Nat.le_trans forward before, forward,
      Nat.le_trans before (Nat.le_trans sited.forward sited.behind)⟩
  · obtain rfl := List.mem_singleton.1 mem
    exact ⟨Nat.le_refl _, sited.forward, sited.behind⟩

/-- If not all tokens of a text can be read, the scanner comes to a place where it fails to move. -/
theorem exists_path_of_tokens {error : SyntaxError} (failed : s.tokens = .error error) :
    ∃ tokens u t, Path s tokens u ∧ u.advance = (some error, t) := by
  induction s using advance_induction with
  | step s ih =>
      rw [tokens_eq] at failed
      split at failed
      · cases failed
      · rename_i running
        split at failed
        · rename_i cause t stuck
          cases failed
          exact ⟨[], s, t, .nil s, stuck⟩
        · rename_i t moved
          cases rest : t.tokens with
          | ok tokens =>
              rw [rest] at failed
              cases failed
          | error cause =>
              rw [rest] at failed
              cases failed
              obtain ⟨tokens, u, v, path, stuck⟩ := ih t running moved rest
              exact ⟨s.current :: tokens, u, v, .cons rfl moved path, stuck⟩

end Scanner

/-! ### Errors -/

variable {options : Options} {entry : Entry} {text : List Char} {error : SyntaxError}
  {delivered : List Token} {s : Scanner}

/-- A call on a new parser fails: the first token is malformed already, a rule objects, or the
scanner fails to move.  The tokens have been delivered up to then, and so the scanner stands. -/
inductive CallFails (options : Options) (entry : Entry) (text : List Char) :
    SyntaxError → List Token → Scanner → Prop
  | opening {error : SyntaxError} (failed : Scanner.ofText options text = .error error) :
      CallFails options entry text error [] (Scanner.initial options text)
  | refused {complaint : Complaint} {found : Token} {position : Nat} {scanner : Scanner}
      {t : Session Scanner} {tokens : List Token}
      (opened : Scanner.ofText options text = .ok scanner)
      (failed : (Session.start scanner).parse entry =
        (.error ⟨.grammatical complaint found, position⟩, t))
      (path : Path scanner tokens t.cursor) :
      CallFails options entry text ⟨.grammatical complaint found, position⟩
        (tokens ++ [t.current]) t.cursor
  | stuck {error : SyntaxError} {scanner s : Scanner} {t : Session Scanner} {tokens : List Token}
      (opened : Scanner.ofText options text = .ok scanner)
      (failed : (Session.start scanner).parse entry = (.error error, t))
      (path : Path scanner tokens s) (still : s.advance = (some error, t.cursor)) :
      CallFails options entry text error (tokens ++ [s.current]) s

/-- Reading all tokens fails, likewise. -/
inductive TokenizeFails (options : Options) (text : List Char) (error : SyntaxError) :
    List Token → Scanner → Prop
  | opening (failed : Scanner.ofText options text = .error error) :
      TokenizeFails options text error [] (Scanner.initial options text)
  | stuck {scanner s t : Scanner} {tokens : List Token}
      (opened : Scanner.ofText options text = .ok scanner) (path : Path scanner tokens s)
      (still : s.advance = (some error, t)) :
      TokenizeFails options text error (tokens ++ [s.current]) s

/-- Where an error is reported: a rule objects at a token that has been delivered; the scanner finds
a fault behind all of them. -/
inductive ErrorPlace (options : Options) (text : List Char) (delivered : List Token)
    (levels : List Nat) : SyntaxError → Prop
  | token {complaint : Complaint} {found token : Token} (mem : token ∈ delivered) :
      ErrorPlace options text delivered levels ⟨.grammatical complaint found, token.start⟩
  | fault {error : SyntaxError} (behind : ∀ token ∈ delivered, token.stop ≤ error.position)
      (place : FaultPlace options text levels error) :
      ErrorPlace options text delivered levels error

/-- An error that is reported where it should be: in the text, at a place for errors and not inside
of a line break.  So its line is the number of line breaks that end up to there, and its column the
number of characters behind the last of them, both counted from one. -/
structure WellPlaced (options : Options) (text : List Char) (delivered : List Token)
    (levels : List Nat) (error : SyntaxError) : Prop where
  inside : error.position ≤ text.length
  place : ErrorPlace options text delivered levels error
  unsplit : Text.Unsplit text error.position
  location : error.location text =
    ⟨1 + (Text.breaksUpTo text error.position).length,
      1 + (error.position - (Text.breaksUpTo text error.position).getLast?.getD 0)⟩

theorem WellPlaced.of_token {tokens : List Token} {first : Scanner} {complaint : Complaint}
    {found token : Token} (sound : first.Sound options text) (path : Path first tokens s)
    (mem : token ∈ tokens ++ [s.current]) (levels : List Nat) :
    WellPlaced options text (tokens ++ [s.current]) levels
      ⟨.grammatical complaint found, token.start⟩ := by
  obtain ⟨sound', starts⟩ := sound.path path
  obtain ⟨-, forward, behind⟩ := sound.stop_le path token mem
  have inside : token.start ≤ text.length :=
    Nat.le_trans forward (Nat.le_trans behind sound'.sited.standing.le)
  exact ⟨inside, .token mem, starts token mem, Text.locate_eq inside (starts token mem)⟩

theorem WellPlaced.of_fault (same : s.options = options) (fault : Scanner.FaultBehind text s error)
    (behind : ∀ token ∈ delivered, token.stop ≤ s.offset) :
    WellPlaced options text delivered s.levels error where
  inside := Nat.le_of_lt fault.inside
  place := .fault (fun token mem => Nat.le_trans (behind token mem) fault.behind)
    (same ▸ fault.place)
  unsplit := fault.unsplit
  location := Text.locate_eq (Nat.le_of_lt fault.inside) fault.unsplit

theorem Scanner.Sound.fault {first t : Scanner} {tokens : List Token}
    (sound : first.Sound options text) (path : Path first tokens s)
    (failed : s.advance = (some error, t)) :
    WellPlaced options text (tokens ++ [s.current]) s.levels error := by
  have here := (sound.path path).1
  exact .of_fault here.options (advance_fault here.sited.standing here.nested here.upright failed)
    fun token mem => (sound.stop_le path token mem).2.2

/-- The error of a failing call is reported where it should be. -/
theorem exists_callFails (failed : parse options entry text = .error error) :
    ∃ delivered s, CallFails options entry text error delivered s ∧
      WellPlaced options text delivered s.levels error := by
  cases opened : Scanner.ofText options text with
  | error cause =>
      simp only [parse, opened, bind, Except.bind, Except.error.injEq] at failed
      subst failed
      exact ⟨[], _, .opening opened, .of_fault rfl (Scanner.ofText_fault opened) nofun⟩
  | ok scanner =>
      have sound := Scanner.ofText_sound opened
      have called : (Session.start scanner).parse entry =
          (.error error, ((Session.start scanner).parse entry).2) := by
        simp only [parse, opened, bind, Except.bind] at failed
        rw [← failed]
      have lively := (Scanner.countdown.parse_ne_exhausted (s := Session.start scanner) trivial
        entry).2 error (by rw [called])
      have here : Met scanner scanner scanner.current.start :=
        ⟨[], .nil scanner, scanner.current, List.mem_singleton_self _, rfl⟩
      have lands := Session.run_lands Grammar.python (Session.start scanner).depth entry.rule []
        (Session.start scanner) here .nil
      have called' := called
      unfold Session.parse Session.parseBy at called'
      split at called'
      · cases called'
      · rename_i cause t ran
        cases called'
        have left : ((Session.start scanner).parse entry).2 = t := by
          unfold Session.parse Session.parseBy
          rw [ran]
        rw [left] at called
        rw [ran] at lands
        cases lands with
        | refused met =>
            obtain ⟨tokens, path, token, mem, rfl⟩ := met
            exact ⟨_, _, .refused opened called path, .of_token sound path mem _⟩
        | stuck path still => exact ⟨_, _, .stuck opened called path still, sound.fault path still⟩
        | exhausted => exact absurd rfl lively

/-- So is the error of reading all tokens. -/
theorem exists_tokenizeFails (failed : tokenize options text = .error error) :
    ∃ delivered s, TokenizeFails options text error delivered s ∧
      WellPlaced options text delivered s.levels error := by
  rw [tokenize_eq] at failed
  cases opened : Scanner.ofText options text with
  | error cause =>
      rw [opened] at failed
      cases failed
      exact ⟨[], _, .opening opened, .of_fault rfl (Scanner.ofText_fault opened) nofun⟩
  | ok scanner =>
      rw [opened] at failed
      obtain ⟨tokens, s, t, path, still⟩ := Scanner.exists_path_of_tokens failed
      exact ⟨_, s, .stuck opened path still, (Scanner.ofText_sound opened).fault path still⟩

/-- The error of a call does not lie behind that of the tokens. -/
theorem CallFails.le {other : SyntaxError} {front : List Token} {u : Scanner}
    (h : CallFails options entry text error delivered s)
    (place : ErrorPlace options text delivered s.levels error)
    (h' : TokenizeFails options text other front u) :
    error = other ∨ error.position ≤ other.position := by
  cases h' with
  | opening failed' =>
      cases h with
      | opening failed =>
          rw [failed] at failed'
          exact Or.inl (Except.error.inj failed')
      | refused opened | stuck opened =>
          rw [opened] at failed'
          cases failed'
  | stuck opened' path' still' =>
      have sound := Scanner.ofText_sound opened'
      cases h with
      | opening failed =>
          rw [failed] at opened'
          cases opened'
      | refused opened failed path =>
          rw [opened] at opened'
          cases opened'
          obtain ⟨rest, onwards⟩ := path.comes_to path' still'
          have there := (sound.path path').1
          have behind := (Scanner.advance_fault there.sited.standing there.nested there.upright
            still').behind
          have le := ((sound.path path).1.sited.inRow_of_path onwards).2.2.1
          cases place with
          | token mem =>
              have before := (sound.stop_le path _ mem).1
              have within := Nat.le_trans there.sited.forward there.sited.behind
              exact Or.inr (Nat.le_trans before (Nat.le_trans le (Nat.le_trans within behind)))
          | fault _ place => cases place
      | stuck opened failed path still =>
          rw [opened] at opened'
          cases opened'
          obtain ⟨rest, onwards⟩ := path.comes_to path' still'
          obtain rfl := onwards.eq_of_failed still
          rw [still] at still'
          cases still'
          exact Or.inl rfl

/-- **Every error is reported where it should be.**  If all tokens of a text are read and it fails,
or if a parser for it is made and called and either fails: the error lies in the text, at a token
that has been delivered, at the beginning of a malformed literal or behind the blanks of a line that
is indented like no open block, and not inside of a line break; its line and column are those of
that place.  The error of a call is that of the tokens, if they have one, or it lies before it. -/
theorem errors_located :
    (∀ options text error, tokenize options text = .error error →
      ∃ delivered s, TokenizeFails options text error delivered s ∧
        WellPlaced options text delivered s.levels error) ∧
    ∀ options entry text error, parse options entry text = .error error →
      (∃ delivered s, CallFails options entry text error delivered s ∧
        WellPlaced options text delivered s.levels error) ∧
      ∀ other, tokenize options text = .error other →
        error = other ∨ error.position ≤ other.position := by
  refine ⟨fun options text error => exists_tokenizeFails, fun options entry text error failed => ?_⟩
  obtain ⟨delivered, s, fails, located⟩ := exists_callFails failed
  refine ⟨⟨delivered, s, fails, located⟩, fun other failed' => ?_⟩
  obtain ⟨front, u, fails', -⟩ := exists_tokenizeFails failed'
  exact fails.le located.place fails'

/-- A rule objects to the comma, before the string that is not terminated; the second line of the
other text is indented like no open block. -/
theorem errors_located_comma :
    (∃ error other, parse {} .eval "f(\r\n,'a".toList = .error error ∧
      tokenize {} "f(\r\n,'a".toList = .error other ∧
      error.location "f(\r\n,'a".toList = ⟨2, 1⟩ ∧
      (∃ delivered s, CallFails {} .eval "f(\r\n,'a".toList error delivered s ∧
        WellPlaced {} "f(\r\n,'a".toList delivered s.levels error) ∧
      (error = other ∨ error.position ≤ other.position)) ∧
    ∃ error, tokenize {} "if x:\r\n  y\r\n z".toList = .error error ∧
      error.location "if x:\r\n  y\r\n z".toList = ⟨3, 2⟩ ∧
      ∃ delivered s, TokenizeFails {} "if x:\r\n  y\r\n z".toList error delivered s ∧
        WellPlaced {} "if x:\r\n  y\r\n z".toList delivered s.levels error := by
  constructor
  · obtain ⟨error, failed, place⟩ : ∃ error, parse {} .eval "f(\r\n,'a".toList = .error error ∧
        decide (error.location "f(\r\n,'a".toList = ⟨2, 1⟩) = true :=
      exists_error_of_any (by decide +kernel)
    obtain ⟨other, failed', -⟩ : ∃ other, tokenize {} "f(\r\n,'a".toList = .error other ∧
        decide (other.position = 5) = true :=
      exists_error_of_any (by decide +kernel)
    obtain ⟨located, before⟩ := errors_located.2 {} .eval _ error failed
    exact ⟨error, other, failed, failed', of_decide_eq_true place, located, before other failed'⟩
  · obtain ⟨error, failed, place⟩ : ∃ error,
        tokenize {} "if x:\r\n  y\r\n z".toList = .error error ∧
          decide (error.location "if x:\r\n  y\r\n z".toList = ⟨3, 2⟩) = true :=
      exists_error_of_any (by decide +kernel)
    exact ⟨error, failed, of_decide_eq_true place, errors_located.1 {} _ error failed⟩

end PythonSyntax
