/-
**One token at a time.**

A parser decides by the token on which it stands.  Tokens that it has not reached do not matter: two
lists that agree up to some place are read in the same way for as long as the cursor is not moved
past that place, if no line is found to open a block.  And a parser never goes back: a cursor that
keeps the places from which it was moved on is read in the same way, and shows them in order.

Main definitions:

* `PythonSyntax.TokenList.indexIn` — the place of a cursor in a list;
* `PythonSyntax.Recorded` — a cursor that keeps the places on which it has stood;
* `PythonSyntax.WithoutLookahead.countdown` — counting down without looking ahead.

Main results:

* `PythonSyntax.Session.parse_recorded` — keeping the places changes nothing;
* `PythonSyntax.TokenList.indexIn_visited` — the places of a recorded cursor are in order;
* `PythonSyntax.Recorded.map_current_trail` — the tokens of a tree are those that were current there;
* `PythonSyntax.Session.parse_locality` — **the tokens that were not reached do not matter**.
-/

import PythonSyntax.Proofs.Parsing.Completeness
import PythonSyntax.Proofs.Parsing.SideBySide

set_option autoImplicit false

namespace PythonSyntax

/-! ### Places in a list -/

namespace TokenList

variable {tokens : List Token} {list : TokenList} {index : Nat}

/-- The place of a cursor among the tokens that it has passed and those that are left. -/
def indexIn (tokens : List Token) (list : TokenList) : Nat :=
  (ofList tokens).toList.length - list.toList.length

theorem take_toList_ofList {count : Nat} (le : count ≤ tokens.length) :
    (ofList tokens).toList.take count = tokens.take count := by
  cases tokens with
  | nil => rw [Nat.le_zero.1 le, List.take_zero, List.take_zero]
  | cons first more =>
      change (first :: closed first more).take count = _
      unfold closed
      dsimp only
      split
      · rfl
      · rw [← List.cons_append, List.take_append_of_le_length le]

theorem length_le_toList_ofList : tokens.length ≤ (ofList tokens).toList.length := by
  have same := congrArg List.length (take_toList_ofList (Nat.le_refl tokens.length))
  rw [List.take_length, List.length_take] at same
  omega

theorem indexIn_of_drop (h : list.toList = (ofList tokens).toList.drop index) :
    list.indexIn tokens = index := by
  have positive : 0 < list.toList.length := Nat.succ_pos _
  unfold indexIn
  rw [h, List.length_drop] at positive ⊢
  omega

/-- A cursor that is moved on before the end of the list stands on the next token. -/
theorem toList_advance_of_drop {list : TokenList} {all : List Token} {index : Nat}
    (here : list.toList = all.drop index) (more : index + 1 < all.length) :
    list.advance.toList = all.drop (index + 1) := by
  have running : list.upcoming ≠ [] := by
    intro none
    have short := congrArg List.length here
    rw [toList, none, List.length_drop, List.length_singleton] at short
    omega
  rw [← List.drop_drop, ← here, toList_advance running]
  rfl

/-- A cursor never goes back. -/
theorem indexIn_le_advance (tokens : List Token) (list : TokenList) :
    list.indexIn tokens ≤ list.advance.indexIn tokens := by
  obtain ⟨current, upcoming⟩ := list
  cases upcoming with
  | nil => exact Nat.le_refl _
  | cons next rest => exact Nat.sub_le_sub_left (Nat.le_succ _) _

end TokenList

/-! ### Keeping the places -/

/-- A cursor with the places from which it was moved on, the latest first. -/
structure Recorded (σ : Type) where
  cursor : σ
  trail : List σ

/-- It moves as the cursor inside does. -/
instance {σ : Type} [Cursor σ] : Cursor (Recorded σ) where
  current c := Cursor.current c.cursor
  advance c := let (error, next) := Cursor.advance c.cursor; (error, ⟨next, c.cursor :: c.trail⟩)
  opensBlock c := Cursor.opensBlock c.cursor
  budget c := Cursor.budget c.cursor

namespace Recorded

variable {σ : Type}

/-- All the places, in the order in which the cursor stood there. -/
def visited (c : Recorded σ) : List σ := (c.cursor :: c.trail).reverse

variable [Cursor σ] {c c' : Recorded σ} {tokens : List Token}

/-- Each place is where the cursor was moved to from the place before. -/
def Connected (c : Recorded σ) : Prop :=
  List.IsChain (fun later earlier => (Cursor.advance earlier).2 = later) (c.cursor :: c.trail)

theorem connected_advance (h : c.Connected) : (Cursor.advance c).2.Connected :=
  List.isChain_cons_cons.2 ⟨rfl, h⟩

/-- **The tokens that are passed are those that were current** at the places that were left. -/
theorem map_current_trail (path : Path c tokens c') :
    c'.trail.reverse.map Cursor.current = c.trail.reverse.map Cursor.current ++ tokens := by
  induction path with
  | nil => exact (List.append_nil _).symm
  | @cons c next c' token tokens here moved rest ih =>
      have left : next.trail = c.cursor :: c.trail := congrArg (fun moved => moved.2.trail) moved.symm
      rw [ih, left, List.reverse_cons, List.map_append, List.append_assoc]
      exact congrArg (fun token => _ ++ token :: tokens) here

/-- A cursor and a recorded one over it move together. -/
theorem abreast : Abreast (σ := σ) (τ := Recorded σ) .equality (fun _ => False)
    (fun c d => d.cursor = c) := by
  refine ⟨?_, ?_, ?_, id⟩
  · rintro _ d rfl
    rfl
  · rintro _ d rfl
    rfl
  · rintro _ d rfl
    refine Or.inr ⟨?_, rfl⟩
    change Option.Rel _ _ (Cursor.advance d.cursor).1
    cases (Cursor.advance d.cursor).1 with
    | none => exact .none
    | some error => exact .some (.refl error)

end Recorded

namespace Session

variable {σ : Type} [Cursor σ]

/-- **Keeping the places changes nothing.** -/
theorem parse_recorded (c : σ) (entry : Entry) :
    ((start (⟨c, []⟩ : Recorded σ)).parse entry).1 = ((start c).parse entry).1 ∧
      ((start (⟨c, []⟩ : Recorded σ)).parse entry).2.cursor.cursor =
        ((start c).parse entry).2.cursor := by
  have sides : Sides .equality (fun (c : σ) (d : Recorded σ) => d.cursor = c) (start c)
      (start ⟨c, []⟩) := ⟨rfl, rfl, rfl⟩
  rcases parse_alike_of_budget Recorded.abreast rfl sides entry with never | ⟨result, sides'⟩
  · exact never.elim
  · exact ⟨result.eq, sides'.cursor⟩

/-- The places of a recorded cursor stay connected. -/
theorem connected_parse {s : Session (Recorded σ)} (h : s.cursor.Connected) (entry : Entry) :
    (s.parse entry).2.cursor.Connected :=
  parse_cursor (R := fun c c' : Recorded σ => c.Connected → c'.Connected) (fun _ => id)
    (fun one two => two ∘ one) (fun _ => Recorded.connected_advance) s entry h

end Session

/-! ### Cursors without lookahead -/

/-- A cursor that finds no line that opens a block counts as the cursor inside does. -/
def WithoutLookahead.countdown {σ : Type} [Cursor σ] (down : Countdown σ) :
    Countdown (WithoutLookahead σ) where
  good c := down.good c.cursor
  left c := down.left c.cursor
  le_budget good := down.le_budget good
  moved {c c'} good moved := by
    have moved : ((Cursor.advance c.cursor).1, WithoutLookahead.mk (Cursor.advance c.cursor).2) =
      (none, c') := moved
    obtain ⟨none, rfl⟩ := Prod.mk.inj moved
    obtain ⟨good', less⟩ := down.moved good (Prod.ext none rfl)
    exact ⟨good', less.imp id fun ⟨same, ended⟩ => ⟨congrArg WithoutLookahead.mk same, ended⟩⟩
  failed {c c' error} good failed := by
    have failed : ((Cursor.advance c.cursor).1, WithoutLookahead.mk (Cursor.advance c.cursor).2) =
      (some error, c') := failed
    obtain ⟨some, rfl⟩ := Prod.mk.inj failed
    exact down.failed good (Prod.ext some rfl)
  ended {c} good ended := by
    obtain ⟨c', moved⟩ := down.ended good ended
    refine ⟨⟨c'⟩, ?_⟩
    change ((Cursor.advance c.cursor).1, WithoutLookahead.mk (Cursor.advance c.cursor).2) = _
    rw [moved]

namespace TokenList

/-- A cursor over some tokens that finds no line that opens a block. -/
def blind (tokens : List Token) : WithoutLookahead TokenList := ⟨ofList tokens⟩

theorem countdown_good_blind (tokens : List Token) :
    (WithoutLookahead.countdown countdown).good (Session.start (blind tokens)).cursor :=
  countdown_good_ofList tokens

/-- Both cursors stand at the same place, up to which their lists agree. -/
def Together (tokens others : List Token) (last : Nat) (c d : WithoutLookahead TokenList) : Prop :=
  ∃ index ≤ last, c.cursor.toList = (ofList tokens).toList.drop index ∧
    d.cursor.toList = (ofList others).toList.drop index

/-- **Cursors over lists that agree up to some place move together**, until the first of them has
passed that place. -/
theorem abreast_of_take_eq {tokens others : List Token} {last : Nat}
    (agree : tokens.take (last + 1) = others.take (last + 1)) (more : last + 1 < tokens.length)
    (more' : last + 1 < others.length) :
    Abreast .equality (fun c : WithoutLookahead TokenList => last < c.cursor.indexIn tokens)
      (Together tokens others last) := by
  have le : tokens.length ≤ (ofList tokens).toList.length := length_le_toList_ofList
  have le' : others.length ≤ (ofList others).toList.length := length_le_toList_ofList
  constructor
  · rintro ⟨c⟩ ⟨d⟩ ⟨index, before, here, here'⟩
    have same : (ofList tokens).toList.take (last + 1) = (ofList others).toList.take (last + 1) := by
      rw [take_toList_ofList (Nat.le_of_lt more), take_toList_ofList (Nat.le_of_lt more'), agree]
    have one : (ofList tokens).toList[index]? = some c.current := by
      rw [← List.head?_drop, ← here]
      rfl
    have two : (ofList others).toList[index]? = some d.current := by
      rw [← List.head?_drop, ← here']
      rfl
    have both := congrArg (·[index]?) same
    simp only [List.getElem?_take, if_pos (Nat.lt_succ_of_le before), one, two] at both
    exact (Option.some.inj both).symm
  · exact fun _ => rfl
  · -- Both lists have a token behind the place up to which they agree, so both cursors move.
    rintro ⟨c⟩ ⟨d⟩ ⟨index, before, here, here'⟩
    have next : c.advance.toList = (ofList tokens).toList.drop (index + 1) :=
      toList_advance_of_drop here (by omega)
    have next' : d.advance.toList = (ofList others).toList.drop (index + 1) :=
      toList_advance_of_drop here' (by omega)
    by_cases passed : last < index + 1
    · exact Or.inl (Nat.lt_of_lt_of_eq passed (indexIn_of_drop next).symm)
    · exact Or.inr ⟨.none, index + 1, Nat.le_of_not_lt passed, next, next'⟩
  · exact fun {c} gone => Nat.lt_of_lt_of_le gone (indexIn_le_advance tokens c.cursor)

/-- Moving on, a recorded cursor passes the tokens that are current at its places. -/
theorem path_advance {first : WithoutLookahead TokenList}
    {c : Recorded (WithoutLookahead TokenList)}
    (h : Path first (c.trail.reverse.map Cursor.current) c.cursor) :
    Path first ((Cursor.advance c).2.trail.reverse.map Cursor.current)
      (Cursor.advance c).2.cursor := by
  change Path first ((c.cursor :: c.trail).reverse.map Cursor.current) ⟨c.cursor.cursor.advance⟩
  rw [List.reverse_cons, List.map_append]
  exact Path.append_iff.2 ⟨_, h, .cons rfl rfl (.nil _)⟩

/-- The places of a recorded cursor are in order. -/
theorem indexIn_visited {c : Recorded (WithoutLookahead TokenList)} (h : c.Connected)
    (tokens : List Token) :
    c.visited.Pairwise fun earlier later =>
      earlier.cursor.indexIn tokens ≤ later.cursor.indexIn tokens := by
  unfold Recorded.visited
  rw [List.pairwise_reverse]
  refine List.isChain_iff_pairwise.1 (h.imp ?_)
  rintro _ earlier rfl
  exact indexIn_le_advance tokens earlier.cursor

end TokenList

/-- **The tokens that were not reached do not matter.**  Let two lists agree up to some place and go
on behind it.  If the first is read without passing this place, then reading the second comes to the
same tree or error, and to the same place.  Reading always ends with a tree or with an error that the
tokens are to blame for; the places at which it stands on the way never decrease; each token that it
passes is the current one, and these are the tokens of a tree. -/
theorem Session.parse_locality (tokens : List Token) (entry : Entry) :
    (∀ (others : List Token) (last : Nat), tokens.take (last + 1) = others.take (last + 1) →
      last + 1 < tokens.length → last + 1 < others.length →
      ((start (TokenList.blind tokens)).parse entry).2.cursor.cursor.indexIn tokens ≤ last →
        ((start (TokenList.blind others)).parse entry).1 =
            ((start (TokenList.blind tokens)).parse entry).1 ∧
          ((start (TokenList.blind others)).parse entry).2.cursor.cursor.indexIn others =
            ((start (TokenList.blind tokens)).parse entry).2.cursor.cursor.indexIn tokens) ∧
    (∀ error, ((start (TokenList.blind tokens)).parse entry).1 = .error error →
      error.cause ≠ .exhausted) ∧
    ∃ kept : Session (Recorded (WithoutLookahead TokenList)),
      (start (⟨TokenList.blind tokens, []⟩ : Recorded _)).parse entry =
        (((start (TokenList.blind tokens)).parse entry).1, kept) ∧
      kept.cursor.cursor = ((start (TokenList.blind tokens)).parse entry).2.cursor ∧
      (kept.cursor.visited.Pairwise fun earlier later =>
        earlier.cursor.indexIn tokens ≤ later.cursor.indexIn tokens) ∧
      Path (TokenList.blind tokens) (kept.cursor.trail.reverse.map Cursor.current)
        kept.cursor.cursor ∧
      ∀ tree, ((start (TokenList.blind tokens)).parse entry).1 = .ok tree →
        tree.tokens = kept.cursor.trail.reverse.map Cursor.current := by
  refine ⟨fun others last agree more more' stays => ?_, ?_, ?_⟩
  · -- The cursor only moves on, so it has not passed the place on the way either.
    have abreast := TokenList.abreast_of_take_eq agree more more'
    have sides : Sides .equality (TokenList.Together tokens others last)
        (start (TokenList.blind tokens)) (start (TokenList.blind others)) := by
      have together : TokenList.Together tokens others last (TokenList.blind tokens)
          (TokenList.blind others) := ⟨0, Nat.zero_le _, rfl, rfl⟩
      exact ⟨together, Likeness.equality.begun_of (abreast.current together), rfl⟩
    rcases parse_alike abreast _ _ (TokenList.countdown_good_blind tokens)
      (TokenList.countdown_good_blind others) sides entry with
      passed | ⟨result, ⟨⟨index, -, here, here'⟩, -, -⟩⟩
    · exact absurd passed (Nat.not_lt.2 stays)
    · refine ⟨result.eq, ?_⟩
      rw [TokenList.indexIn_of_drop here, TokenList.indexIn_of_drop here']
  · exact (Countdown.parse_ne_exhausted (TokenList.countdown_good_blind tokens) entry).2
  · obtain ⟨result, cursor⟩ := parse_recorded (TokenList.blind tokens) entry
    have connected := connected_parse (s := start (⟨TokenList.blind tokens, []⟩ : Recorded _))
      (List.IsChain.singleton _) entry
    have path := parse_cursor (R := fun c c' : Recorded (WithoutLookahead TokenList) =>
        Path (TokenList.blind tokens) (c.trail.reverse.map Cursor.current) c.cursor →
          Path (TokenList.blind tokens) (c'.trail.reverse.map Cursor.current) c'.cursor)
      (fun _ => id) (fun one two => two ∘ one) (fun _ => TokenList.path_advance)
      (start (⟨TokenList.blind tokens, []⟩ : Recorded _)) entry (.nil _)
    refine ⟨_, Prod.ext result rfl, cursor, TokenList.indexIn_visited connected tokens, path, ?_⟩
    intro tree parsed
    have own := (parseBy_path (Prod.ext (result.trans parsed) rfl)).1
    exact (Recorded.map_current_trail own).symm

/-- Reading one statement leaves the cursor at the next one, `y`.  Whether that one is ended or
assigned to does not matter. -/
theorem Session.parse_locality_statement :
    let tokens (last : Token) : List Token := [.literal 0 1 .name "x", .literal 1 2 .newline "\n",
      .literal 2 3 .name "y", last, .literal 4 5 .newline "\n", .eof 5]
    let one := tokens (.literal 3 4 .newline "\n")
    let other := tokens (.mark 3 4 (.symbol .assign))
    ((start (TokenList.blind one)).parse .single).2.cursor.cursor.indexIn one = 2 ∧
      ((start (TokenList.blind one)).parse .single).1.toOption.map Tree.tokens =
        some (one.take 2) ∧
      ((start (TokenList.blind other)).parse .single).1 =
        ((start (TokenList.blind one)).parse .single).1 ∧
      ((start (TokenList.blind other)).parse .single).2.cursor.cursor.indexIn other = 2 := by
  intro tokens one other
  have two : ((start (TokenList.blind one)).parse .single).2.cursor.cursor.indexIn one = 2 := by
    decide +kernel
  have same := (parse_locality one .single).1 other 2 (by decide) (by decide) (by decide)
    (Nat.le_of_eq two)
  exact ⟨two, by decide +kernel, same.1, same.2.trans two⟩

end PythonSyntax
