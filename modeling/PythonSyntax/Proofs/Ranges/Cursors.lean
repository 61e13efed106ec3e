/-
**Cursors that may lack a result.**

A cursor with an index takes characters of its text, or tokens of its list, by their indices.  Each
of its operations has a result only if what it takes is there.

Main definitions:

* `PythonSyntax.CheckedCursor` — the class of types of such cursors;
* `PythonSyntax.Row` — given tokens with an index;
* `PythonSyntax.Shadows` — a cursor that has the results of another one.

Main results:

* `PythonSyntax.Tape.shadows`, `PythonSyntax.Row.shadows` — **the cursors with an index have the
  results of those without**.
-/

import PythonSyntax.Cursor.TokenList
import PythonSyntax.Proofs.Parsing.Sessions
import PythonSyntax.Proofs.Ranges.Tape

set_option autoImplicit false

namespace PythonSyntax

/-- A cursor whose operations may lack a result. -/
class CheckedCursor (σ : Type) where
  current? : σ → Option Token
  position? : σ → Option Nat
  advance? : σ → Option (Option SyntaxError × σ)
  opensBlock? : σ → Option Bool
  budget : σ → Nat

/-- Where two cursors are related, the first one has the results of the second, and it moves with
it. -/
structure Shadows {σ τ : Type} [CheckedCursor σ] [Cursor τ] (R : σ → τ → Prop) : Prop where
  current : ∀ {c d}, R c d → CheckedCursor.current? c = some (Cursor.current d)
  position : ∀ {c d}, R c d → CheckedCursor.position? c = some (Cursor.position d)
  advance : ∀ {c d}, R c d → ∃ c', CheckedCursor.advance? c = some ((Cursor.advance d).1, c') ∧
    R c' (Cursor.advance d).2
  opensBlock : ∀ {c d}, R c d → CheckedCursor.opensBlock? c = some (Cursor.opensBlock d)
  budget : ∀ {c d}, R c d → CheckedCursor.budget c = Cursor.budget d

/-! ### The scanner -/

/-- The scanner with an index is such a cursor. -/
instance : CheckedCursor Tape where
  current? t := some t.current
  position? t := some t.current.start
  advance? := Tape.advance?
  opensBlock? := Tape.opensBlock?
  budget t :=
    3 * t.ahead.length + 2 * t.indents.blocks.length + t.pending.length +
      (if t.lineHasContent then 2 else 0) + 3

/-- Moving leaves the scanner in its text, also if it fails. -/
theorem Scanner.Standing.advance {text : List Char} {s : Scanner} (h : s.Standing text) :
    s.advance.2.Standing text := by
  have standing := (next_reaches h).standing
  unfold Scanner.advance
  split
  · exact h
  · split
    · rename_i found
      rw [found] at standing
      exact ⟨standing.le, standing.rest, standing.pending⟩
    · rename_i found
      rw [found] at standing
      exact standing

/-- **The scanner with an index has the results of the scanner.** -/
theorem Tape.shadows (text : List Char) :
    Shadows fun (t : Tape) (s : Scanner) => s.Standing text ∧ t = s.onTape text where
  current := by
    rintro _ s ⟨-, rfl⟩
    rfl
  position := by
    rintro _ s ⟨-, rfl⟩
    rfl
  advance := by
    rintro _ s ⟨h, rfl⟩
    exact ⟨s.advance.2.onTape text, h.advance?, h.advance, rfl⟩
  opensBlock := by
    rintro _ s ⟨h, rfl⟩
    exact h.fits.opensBlock?
  budget := by
    rintro _ s ⟨h, rfl⟩
    change 3 * (s.onTape text).ahead.length + _ + _ + _ + _ = _
    rw [h.fits.ahead]
    rfl

/-! ### Given tokens -/

/-- Given tokens, and the index of the one on which the cursor stands. -/
structure Row where
  tokens : List Token
  index : Nat

namespace Row

/-- A cursor on the first of some tokens, with a mark of the end of the text behind them unless the
last one is such a mark. -/
def ofList (tokens : List Token) : Row :=
  let last := tokens.getLast?
  ⟨if last.map Token.kind = some .eof then tokens
    else tokens ++ [Token.eof ((last.map Token.stop).getD 0)], 0⟩

/-- The tokens from an index on. -/
def from? (row : Row) (start : Nat) : Option (List Token) :=
  if start ≤ row.tokens.length then some (row.tokens.drop start) else none

/-- The cursor shows the same tokens. -/
def Shows (row : Row) (list : TokenList) : Prop := row.tokens.drop row.index = list.toList

theorem ofList_shows (tokens : List Token) : (ofList tokens).Shows (TokenList.ofList tokens) := by
  cases tokens with
  | nil => rfl
  | cons first more =>
      unfold ofList TokenList.ofList Shows TokenList.toList TokenList.closed
      simp only [List.getLast?_cons, Option.map_some, Option.some.injEq, List.drop_zero,
        Option.getD_some]
      split <;> simp

end Row

/-- Given tokens with an index are such a cursor. -/
instance : CheckedCursor Row where
  current? row := row.tokens[row.index]?
  position? row := row.tokens[row.index]?.map Token.start
  advance? row :=
    some (none, if row.index + 1 < row.tokens.length then { row with index := row.index + 1 }
      else row)
  opensBlock? row := do
    let later ← row.from? (row.index + 1)
    some (Lookahead.ofTokens .start later).opensBlock
  budget row := row.tokens.length - (row.index + 1)

namespace Row

variable {row : Row} {list : TokenList}

theorem Shows.index_lt (h : row.Shows list) : row.index < row.tokens.length := by
  refine Nat.lt_of_not_le fun le => ?_
  have none := List.drop_eq_nil_of_le le
  rw [show row.tokens.drop row.index = list.toList from h] at none
  cases none

theorem Shows.current (h : row.Shows list) : row.tokens[row.index]? = some list.current := by
  rw [← List.head?_drop, show row.tokens.drop row.index = list.toList from h]
  rfl

theorem Shows.upcoming (h : row.Shows list) : row.tokens.drop (row.index + 1) = list.upcoming := by
  rw [← List.drop_drop, show row.tokens.drop row.index = list.toList from h]
  rfl

/-- **Given tokens with an index have the results of given tokens.** -/
theorem shadows : Shadows Shows where
  current h := h.current
  position h := congrArg (Option.map Token.start) h.current
  advance := by
    intro row list h
    refine ⟨_, rfl, ?_⟩
    have left : row.tokens.length - (row.index + 1) = list.upcoming.length := by
      rw [← h.upcoming, List.length_drop]
    change Shows _ list.advance
    unfold TokenList.advance
    cases eq : list.upcoming with
    | nil =>
        rw [eq, List.length_nil] at left
        rw [if_neg (by omega)]
        exact h
    | cons next rest =>
        rw [eq, List.length_cons] at left
        rw [if_pos (by omega)]
        exact h.upcoming.trans eq
  opensBlock := by
    intro row list h
    change (row.from? (row.index + 1)).bind _ = _
    rw [from?, if_pos (Nat.succ_le_of_lt h.index_lt), h.upcoming]
    rfl
  budget := by
    intro row list h
    change row.tokens.length - (row.index + 1) = list.upcoming.length
    rw [← h.upcoming, List.length_drop]

end Row

end PythonSyntax
