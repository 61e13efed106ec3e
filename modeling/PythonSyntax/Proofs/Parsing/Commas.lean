/-
**Two commas in a row are refused at the second one.**

Wherever a rule takes a comma, it looks at the next token before it goes on, or it calls a rule that
does.  For each rule it is computed on which tokens the session may stand behind it, and whether it
may stand on a comma that follows another.  No rule takes such a comma, and all that a rule may do
there is to object to it.

Main definitions:

* `PythonSyntax.CommasApart` — no two commas stand next to each other;
* `PythonSyntax.Stance` — on which tokens a session may stand;
* `PythonSyntax.Rule.leaves` — where a rule leaves a session that stands on such a token;
* `PythonSyntax.Stands`, `PythonSyntax.KeepsApart` — what a stance says of a session and of an
  outcome.

Main results:

* `PythonSyntax.Session.follow_keepsApart` — following a rule ends where it has been computed, if
  its calls do;
* `PythonSyntax.Session.run_keepsApart` — so does every run;
* `PythonSyntax.Session.parse_commasApart` — a tree that is parsed has no two commas in a row;
* `PythonSyntax.Session.doubledComma_refused` — **two commas in a row are refused at the second
  one**.
-/

import Mathlib.Data.List.Chain
import PythonSyntax.Proofs.Parsing.Locality
import PythonSyntax.Proofs.Parsing.Sound

set_option autoImplicit false

namespace PythonSyntax

/-! ### Commas in a row -/

/-- No two commas stand next to each other. -/
def CommasApart (tokens : List Token) : Prop :=
  List.IsChain (fun a b => ¬ (a.kind = .symbol .comma ∧ b.kind = .symbol .comma)) tokens

namespace CommasApart

variable {tokens : List Token} {token next : Token} {i : Nat}

theorem nil : CommasApart [] := List.isChain_nil

theorem single (token : Token) : CommasApart [token] := List.isChain_singleton token

/-- Behind what is no comma anything may stand. -/
theorem concat (h : CommasApart (tokens ++ [token])) (ne : token.kind ≠ .symbol .comma)
    (next : Token) : CommasApart (tokens ++ [token] ++ [next]) := by
  refine List.isChain_append.2 ⟨h, List.isChain_singleton next, fun last isLast other _ both => ?_⟩
  obtain rfl : token = last := by simpa using isLast
  exact ne both.1

/-- What is no comma may stand behind anything. -/
theorem concat_of_ne (h : CommasApart tokens) (ne : next.kind ≠ .symbol .comma) :
    CommasApart (tokens ++ [next]) := by
  refine List.isChain_append.2 ⟨h, List.isChain_singleton next, fun last _ other isNext both => ?_⟩
  obtain rfl : next = other := by simpa using isNext
  exact ne both.2

theorem not_both (h : CommasApart tokens) (here : tokens[i]? = some token)
    (there : tokens[i + 1]? = some next) :
    ¬ (token.kind = .symbol .comma ∧ next.kind = .symbol .comma) := by
  obtain ⟨_, rfl⟩ := List.getElem?_eq_some_iff.1 here
  obtain ⟨within, rfl⟩ := List.getElem?_eq_some_iff.1 there
  exact List.isChain_iff_getElem.1 h i within

/-- With one more token, only the last two may be commas. -/
theorem eq_of_both {last : Token} (h : CommasApart tokens)
    (here : (tokens ++ [last])[i]? = some token) (there : (tokens ++ [last])[i + 1]? = some next)
    (both : token.kind = .symbol .comma ∧ next.kind = .symbol .comma) : next = last := by
  rcases Nat.lt_or_ge (i + 1) tokens.length with inside | behind
  · rw [List.getElem?_append_left (Nat.lt_of_succ_lt inside)] at here
    rw [List.getElem?_append_left inside] at there
    exact absurd both (h.not_both here there)
  · rw [List.getElem?_append_right behind] at there
    exact (List.mem_singleton.1 (List.mem_of_getElem? there))

end CommasApart

/-! ### Where rules leave a session -/

/-- On which tokens a session may stand. -/
structure Stance where
  kinds : KindSet
  /-- It may stand on a comma that follows another one. -/
  doubled : Bool
  deriving DecidableEq, Repr

namespace Stance

/-- The token is, besides, of one of the kinds. -/
def among (stance : Stance) (kinds : KindSet) : Stance :=
  ⟨stance.kinds.inter kinds, stance.doubled && kinds.mem (.symbol .comma)⟩

/-- The one or the other. -/
def join (one two : Stance) : Stance := ⟨one.kinds.union two.kinds, one.doubled || two.doubled⟩

end Stance

/-- Where the rule leaves a session that stands as given.  There is no answer if the rule may take a
comma that follows another one, or may object at another place than there. -/
def Rule.leaves : Rule → Stance → Option Stance
  | .shift _, stance =>
    if stance.doubled then none else some ⟨.full, stance.kinds.mem (.symbol .comma)⟩
  | .refuse _ place, stance =>
    if stance.doubled = true → place = .here then some ⟨.empty, false⟩ else none
  | .call name _, stance =>
    if stance.kinds.subset name.entry = true ∧
        (stance.doubled = true → name.startsBlindly = false) then
      some ⟨.full, false⟩
    else none
  | .seq first second, stance => (first.leaves stance).bind second.leaves
  | .branch test yes no, stance =>
    (yes.leaves (stance.among test.mayHold)).bind fun one =>
      (no.leaves (stance.among test.mayFail)).map one.join
  | .loop test body, stance =>
    if stance.doubled = false ∧ (body.leaves ⟨test.mayHold, false⟩).any (!·.doubled) = true then
      some ⟨test.mayFail, false⟩
    else none
  | .within _ body, stance => body.leaves stance
  | _, stance => some stance

/-- The rule of a name that looks at its first token objects to a comma that follows another one; no
rule ends on such a comma. -/
theorem Nonterminal.leaves_python (name : Nonterminal) :
    ∃ after, (Grammar.python name).leaves ⟨name.entry, !name.startsBlindly⟩ = some after ∧
      after.doubled = false := by
  have checked := forall_of_all
    (fun name => ((Grammar.python name).leaves ⟨name.entry, !name.startsBlindly⟩).any
      (!·.doubled)) (by decide) name
  simpa [Option.any_eq_true] using checked

theorem Entry.leaves_rule (entry : Entry) :
    ∃ after, entry.rule.leaves ⟨.full, false⟩ = some after ∧ after.doubled = false := by
  have checked : (entry.rule.leaves ⟨.full, false⟩).any (!·.doubled) = true := by
    cases entry <;> decide
  simpa [Option.any_eq_true] using checked

/-! ### What stances say -/

section

variable {σ : Type} [Cursor σ] {first c : σ} {stance other : Stance}

/-- The cursor stands as given, at the end of a path without two commas in a row. -/
structure Stands (first : σ) (stance : Stance) (c : σ) : Prop where
  kind : stance.kinds.mem (Cursor.current c).kind = true
  reached : ∃ tokens, Path first tokens c ∧ CommasApart tokens ∧
    (stance.doubled = false → CommasApart (tokens ++ [Cursor.current c]))

namespace Stands

theorem mono (h : Stands first stance c)
    (kinds : stance.kinds.mem (Cursor.current c).kind = true →
      other.kinds.mem (Cursor.current c).kind = true)
    (doubled : other.doubled = false → stance.doubled = false) : Stands first other c := by
  obtain ⟨kind, tokens, path, apart, single⟩ := h
  exact ⟨kinds kind, tokens, path, apart, fun alone => single (doubled alone)⟩

theorem among (h : Stands first stance c) {kinds : KindSet}
    (mem : kinds.mem (Cursor.current c).kind = true) : Stands first (stance.among kinds) c := by
  obtain ⟨kind, tokens, path, apart, single⟩ := h
  refine ⟨by simp [Stance.among, kind, mem], tokens, path, apart, fun alone => ?_⟩
  rcases Bool.and_eq_false_iff.1 alone with alone | others
  · exact single alone
  · refine apart.concat_of_ne fun comma => ?_
    rw [comma, others] at mem
    cases mem

end Stands

/-- What following a rule comes to, as to commas: the session stands as given; or a rule objects,
where the session stands if that is a comma behind another one; or the cursor fails to move. -/
inductive KeepsApart (first : σ) (stance : Stance) : Outcome σ → Prop
  | done {frame : Frame} {t : Session σ} (stands : Stands first stance t.cursor) :
      KeepsApart first stance (.done frame t)
  | refused {error : SyntaxError} {t : Session σ} {tokens : List Token}
      (path : Path first tokens t.cursor) (apart : CommasApart tokens)
      (place : CommasApart (tokens ++ [t.current]) ∨ error.position = t.position) :
      KeepsApart first stance (.failed error t)
  | stuck {error : SyntaxError} {t : Session σ} {c : σ} {tokens : List Token}
      (path : Path first tokens c) (apart : CommasApart (tokens ++ [Cursor.current c]))
      (failed : Cursor.advance c = (some error, t.cursor)) :
      KeepsApart first stance (.failed error t)

namespace KeepsApart

variable {outcome : Outcome σ}

theorem mono (h : KeepsApart first stance outcome)
    (kinds : ∀ kind, stance.kinds.mem kind = true → other.kinds.mem kind = true)
    (doubled : other.doubled = false → stance.doubled = false) :
    KeepsApart first other outcome := by
  cases h with
  | done stands => exact .done (stands.mono (kinds _) doubled)
  | refused path apart place => exact .refused path apart place
  | stuck path apart failed => exact .stuck path apart failed

/-- A failure ends everywhere alike. -/
theorem of_failed {error : SyntaxError} {t t' : Session σ}
    (h : KeepsApart first stance (.failed error t)) (same : t'.cursor = t.cursor) :
    KeepsApart first other (.failed error t') := by
  cases h with
  | refused path apart place =>
      have here : t'.current = t.current := congrArg Cursor.current same
      refine .refused (same ▸ path) apart ?_
      rw [Session.position, here]
      exact place
  | stuck path apart failed => exact .stuck path apart (same ▸ failed)

/-- Going on where the session stands as given. -/
theorem andThen {next : Frame → Session σ → Outcome σ} (h : KeepsApart first stance outcome)
    (goes : ∀ frame t, Stands first stance t.cursor → KeepsApart first other (next frame t)) :
    KeepsApart first other (outcome.andThen next) := by
  cases outcome with
  | done frame t =>
      cases h with
      | done stands => exact goes frame t stands
  | failed error t => exact h.of_failed rfl

theorem withFlow (h : KeepsApart first stance outcome) (flow : Flow) :
    KeepsApart first stance (outcome.withFlow flow) := by
  cases outcome with
  | done frame t =>
      cases h with
      | done stands => exact .done stands
  | failed error t => exact h.of_failed rfl

end KeepsApart

/-! ### Following rules -/

namespace Session

variable {s : Session σ}

theorem shift_keepsApart (h : Stands first stance s.cursor) (alone : stance.doubled = false)
    (frame : Frame) (field : Field) :
    KeepsApart first ⟨.full, stance.kinds.mem (.symbol .comma)⟩ (s.shift frame field) := by
  obtain ⟨kind, tokens, path, -, single⟩ := h
  have apart := single alone
  unfold shift
  dsimp only
  split
  · rename_i c moved
    have path' : Path first (tokens ++ [s.current]) c :=
      Path.append_iff.2 ⟨s.cursor, path, .cons rfl moved (.nil c)⟩
    refine .done ⟨KindSet.mem_full _, _, path', apart, fun others => ?_⟩
    refine apart.concat (fun comma => ?_) _
    exact absurd (comma ▸ kind) (Bool.eq_false_iff.1 others)
  · rename_i failed
    exact .stuck path apart failed

/-- Following a rule ends where it has been computed, if its calls do. -/
theorem follow_keepsApart {recur : Rule → Frame → Session σ → Outcome σ}
    (calls : ∀ {rule s stance} frame {after}, Rule.leaves rule stance = some after →
      Stands first stance s.cursor → KeepsApart first after (recur rule frame s))
    {rule : Rule} (frame : Frame) {after : Stance} (leaves : rule.leaves stance = some after)
    (h : Stands first stance s.cursor) :
    KeepsApart first after (follow Grammar.python recur rule frame s) := by
  induction rule generalizing frame s stance after with
  | done | reduce _ | reducePair _ _ | relabel _ | unwrap _ =>
      cases leaves
      exact .done h
  | shift field =>
      simp only [Rule.leaves, Option.ite_none_left_eq_some, Option.some.injEq] at leaves
      obtain ⟨alone, rfl⟩ := leaves
      exact shift_keepsApart h (Bool.eq_false_iff.2 alone) frame field
  | refuse complaint place =>
      simp only [Rule.leaves, Option.ite_none_right_eq_some] at leaves
      obtain ⟨kind, tokens, path, apart, single⟩ := h
      refine .refused path apart ?_
      cases doubled : stance.doubled with
      | false => exact Or.inl (single doubled)
      | true =>
          rw [leaves.1 doubled]
          exact Or.inr rfl
  | call name field =>
      simp only [Rule.leaves, Option.ite_none_right_eq_some, Option.some.injEq] at leaves
      obtain ⟨⟨subset, looks⟩, rfl⟩ := leaves
      obtain ⟨after, leaves, alone⟩ := name.leaves_python
      have entered : Stands first ⟨name.entry, !name.startsBlindly⟩ s.cursor := by
        refine h.mono (KindSet.mem_of_subset subset) fun blind => ?_
        refine Bool.eq_false_iff.2 fun doubled => ?_
        rw [looks doubled] at blind
        cases blind
      rw [follow_call]
      exact (calls [] leaves entered).andThen fun pieces t stands =>
        .done (stands.mono (fun _ => KindSet.mem_full _) fun _ => alone)
  | seq one two ih ih' =>
      obtain ⟨middle, leaves, leaves'⟩ := Option.bind_eq_some_iff.1 leaves
      rw [follow_seq]
      exact (ih frame leaves h).andThen fun pieces t stands => ih' pieces leaves' stands
  | branch test yes no ih ih' =>
      obtain ⟨one, first, rest⟩ := Option.bind_eq_some_iff.1 leaves
      obtain ⟨two, second, rfl⟩ := Option.map_eq_some_iff.1 rest
      rw [follow_branch]
      split
      · rename_i holds
        exact (ih frame first (h.among (mayHold_of_holds holds))).mono
          (by simp +contextual [Stance.join]) (by simp +contextual [Stance.join])
      · rename_i fails
        exact (ih' frame second (h.among (mayFail_of_fails (Bool.eq_false_iff.2 fails)))).mono
          (by simp +contextual [Stance.join]) (by simp +contextual [Stance.join])
  | loop test body ih =>
      -- A round begins on no doubled comma and, as computed, ends on none; so the next may begin.
      have again : (Rule.loop test body).leaves ⟨.full, false⟩ = some after := by
        simp only [Rule.leaves, Option.ite_none_right_eq_some] at leaves ⊢
        exact ⟨⟨trivial, leaves.1.2⟩, leaves.2⟩
      simp only [Rule.leaves, Option.ite_none_right_eq_some, Option.some.injEq] at leaves
      obtain ⟨⟨alone, round⟩, rfl⟩ := leaves
      obtain ⟨back, leaves, single⟩ := (Option.any_eq_true _ _).1 round
      rw [follow_loop]
      split
      · rename_i holds
        have entered : Stands first ⟨test.mayHold, false⟩ s.cursor :=
          h.mono (fun _ => mayHold_of_holds holds) fun _ => alone
        refine (ih frame leaves entered).andThen fun pieces t stands => ?_
        refine calls pieces again (stands.mono (fun _ => KindSet.mem_full _) fun _ => ?_)
        simpa using single
      · rename_i fails
        exact .done (h.mono (fun _ => mayFail_of_fails (Bool.eq_false_iff.2 fails)) fun _ => alone)
  | within scope body ih =>
      rw [follow_within]
      exact (ih frame leaves (s := s.withFlow (s.flow.enter scope)) h).withFlow s.flow

/-- **Every run ends where it has been computed.** -/
theorem run_keepsApart {fuel : Nat} {rule : Rule} (frame : Frame) {after : Stance}
    (leaves : rule.leaves stance = some after) (h : Stands first stance s.cursor) :
    KeepsApart first after (run Grammar.python fuel rule frame s) := by
  induction fuel generalizing rule frame s stance after with
  | zero =>
      obtain ⟨-, tokens, path, apart, -⟩ := h
      exact .refused path apart (Or.inr rfl)
  | succ fuel ih => exact follow_keepsApart ih frame leaves h

/-- What is read as a whole ends on no comma that follows another one. -/
theorem run_entry_keepsApart (s : Session σ) (entry : Entry) :
    KeepsApart s.cursor ⟨.full, false⟩ (run Grammar.python s.depth entry.rule [] s) := by
  obtain ⟨after, leaves, alone⟩ := entry.leaves_rule
  have here : Stands s.cursor ⟨.full, false⟩ s.cursor :=
    ⟨KindSet.mem_full _, [], .nil _, .nil, fun _ => .single _⟩
  exact (run_keepsApart [] leaves here).mono (fun _ _ => KindSet.mem_full _) fun _ => alone

end Session

end

/-! ### Trees -/

namespace Session

/-- **A tree that is parsed has no two commas in a row**, whatever the cursor is. -/
theorem parse_commasApart {σ : Type} [Cursor σ] {c : σ} {entry : Entry} {tree : Tree}
    (h : ((start c).parse entry).1 = .ok tree) : CommasApart tree.tokens := by
  -- A cursor may pass some tokens again and again; one that keeps its places shows which it passed.
  have recorded := (parse_recorded c entry).1.trans h
  have ends := run_entry_keepsApart (start (⟨c, []⟩ : Recorded σ)) entry
  have path := (parseBy_path (Prod.ext recorded rfl)).1
  unfold parse parseBy at path
  unfold parse parseBy at recorded
  split at recorded
  · rename_i frame t ran
    rw [ran] at ends path
    cases ends with
    | done stands =>
        obtain ⟨-, tokens, path', apart, -⟩ := stands
        have same := (Recorded.map_current_trail path).symm.trans
          (Recorded.map_current_trail path')
        rwa [List.append_cancel_left same]
  · cases recorded

end Session

/-! ### Lists of tokens -/

namespace TokenList

theorem getElem?_toList_ofList {tokens : List Token} {token : Token} {i : Nat}
    (h : tokens[i]? = some token) : (ofList tokens).toList[i]? = some token := by
  obtain ⟨within, -⟩ := List.getElem?_eq_some_iff.1 h
  rw [← h, ← List.getElem?_take_of_lt within, take_toList_ofList (Nat.le_refl _), List.take_length]

/-- The tokens that are passed are those of the list, up to the place that is reached.  At the end
of the list a cursor may pass the last one again and again. -/
theorem getElem?_of_path {list list' : TokenList} {passed : List Token} {i : Nat}
    (path : Path list passed list') (le : i ≤ list.toList.length - list'.toList.length) :
    (passed ++ [list'.current])[i]? = list.toList[i]? := by
  induction path generalizing i with
  | nil list =>
      obtain rfl : i = 0 := by omega
      rfl
  | @cons list next list' token tokens here moved rest ih =>
      cases i with
      | zero => exact congrArg some here.symm
      | succ i =>
          obtain ⟨current, upcoming⟩ := list
          cases moved
          have left : 1 ≤ list'.toList.length := Nat.succ_pos _
          cases upcoming with
          | nil =>
              -- The cursor stays on the last token, so there is no second place to read.
              simp only [toList, List.length_singleton] at le left
              omega
          | cons next rest =>
              refine ih ?_
              simp only [advance, toList, List.length_cons] at le left ⊢
              omega

end TokenList

namespace Session

/-- Reading a list passes no two commas in a row, and it does not stop at the second of two, unless
it objects there. -/
theorem exists_path_parse (s : Session TokenList) (entry : Entry) : ∃ passed,
    Path s.cursor passed (s.parse entry).2.cursor ∧
      (CommasApart (passed ++ [(s.parse entry).2.current]) ∨
        CommasApart passed ∧ ∃ error, (s.parse entry).1 = .error error ∧
          error.position = (s.parse entry).2.position) := by
  have apart := run_entry_keepsApart s entry
  unfold parse parseBy
  cases ran : run Grammar.python s.depth entry.rule [] s with
  | done frame t =>
      rw [ran] at apart
      cases apart with
      | done stands =>
          obtain ⟨-, passed, path, -, single⟩ := stands
          exact ⟨passed, path, Or.inl (single rfl)⟩
  | failed error t =>
      rw [ran] at apart
      cases apart with
      | refused path apart place =>
          exact ⟨_, path, place.imp id fun here => ⟨apart, error, rfl, here⟩⟩
      | stuck path apart failed => cases failed

/-- **Two commas in a row are refused at the second one.**  If the token at a place of a list has
been taken and is a comma, and the next one is a comma too, then reading fails and the error is at
the second of them, on which the session is left.  So no tree has two commas in a row. -/
theorem doubledComma_refused (tokens : List Token) (entry : Entry) :
    (∀ i first second,
      i < ((start (TokenList.ofList tokens)).parse entry).2.cursor.indexIn tokens →
      tokens[i]? = some first → tokens[i + 1]? = some second →
      first.kind = .symbol .comma → second.kind = .symbol .comma →
      ∃ error, ((start (TokenList.ofList tokens)).parse entry).1 = .error error ∧
        error.position = second.start ∧
        ((start (TokenList.ofList tokens)).parse entry).2.current = second) ∧
    ∀ tree, ((start (TokenList.ofList tokens)).parse entry).1 = .ok tree →
      CommasApart tree.tokens := by
  refine ⟨fun i first second taken here there comma comma' => ?_, fun tree => parse_commasApart⟩
  obtain ⟨passed, path, apart⟩ := exists_path_parse (start (TokenList.ofList tokens)) entry
  have one := (TokenList.getElem?_of_path path (Nat.le_of_lt taken)).trans
    (TokenList.getElem?_toList_ofList here)
  have two := (TokenList.getElem?_of_path path taken).trans
    (TokenList.getElem?_toList_ofList there)
  rcases apart with apart | ⟨apart, error, failed, place⟩
  · exact absurd ⟨comma, comma'⟩ (apart.not_both one two)
  -- Up to the last token no comma follows another, so the second one is where the session stands.
  · obtain rfl := apart.eq_of_both one two ⟨comma, comma'⟩
    exact ⟨error, failed, place, rfl⟩

/-- The arguments of the call `f(a,,b)`: the rule that takes the first comma objects to the second
one. -/
theorem doubledComma_refused_call :
    let tokens : List Token := [.literal 0 1 .name "f", .mark 1 2 (.symbol .leftParen),
      .literal 2 3 .name "a", .mark 3 4 (.symbol .comma), .mark 4 5 (.symbol .comma),
      .literal 5 6 .name "b", .mark 6 7 (.symbol .rightParen)]
    3 < ((start (TokenList.ofList tokens)).parse .eval).2.cursor.indexIn tokens ∧
      ∃ error, ((start (TokenList.ofList tokens)).parse .eval).1 = .error error ∧
        error.position = 4 ∧
        ((start (TokenList.ofList tokens)).parse .eval).2.current = .mark 4 5 (.symbol .comma) := by
  intro tokens
  have taken : 3 < ((start (TokenList.ofList tokens)).parse .eval).2.cursor.indexIn tokens := by
    decide +kernel
  exact ⟨taken, (doubledComma_refused tokens .eval).1 3 (.mark 3 4 (.symbol .comma))
    (.mark 4 5 (.symbol .comma)) taken rfl rfl rfl rfl⟩

end Session

end PythonSyntax
