/-
**Lines and columns, counted by line breaks.**

The location of an offset is found by reading the text before it.  If the offset does not stand
inside of a line break, its line is told by the number of line breaks that end before it, and its
column by the end of the last of them.

Main definitions:

* `PythonSyntax.Text.endsBreak` — whether a line break ends at an offset;
* `PythonSyntax.Text.breaksUpTo` — the ends of the line breaks, up to an offset;
* `PythonSyntax.Text.Unsplit` — an offset that does not stand inside of a line break.

Main results:

* `PythonSyntax.Text.locate_eq` — **the location of an offset** that splits no line break.
-/

import Mathlib.Data.List.TakeWhile
import PythonSyntax.Text.Location

set_option autoImplicit false

namespace PythonSyntax.Text

/-- Whether a line break ends at the offset: behind a line feed, or behind a carriage return that no
line feed follows. -/
def endsBreak (text : List Char) (offset : Nat) : Bool :=
  0 < offset && (text[offset - 1]? = some '\n' ||
    (text[offset - 1]? = some '\r' && text[offset]? ≠ some '\n'))

/-- The offsets at which line breaks end, up to a given one. -/
def breaksUpTo (text : List Char) (offset : Nat) : List Nat :=
  (List.range (offset + 1)).filter (endsBreak text)

/-- The offset does not stand between a carriage return and the line feed that belongs to it. -/
def Unsplit (text : List Char) (offset : Nat) : Prop :=
  0 < offset → text[offset - 1]? = some '\r' → text[offset]? ≠ some '\n'

variable {text rest : List Char} {c : Char} {count : Nat}

/-! ### Offsets that split no line break -/

theorem unsplit_zero (text : List Char) : Unsplit text 0 := nofun

/-- What counts are the characters on both sides of the offset. -/
theorem Unsplit.of_drop {offset : Nat} (pos : 0 < count) (h : Unsplit (text.drop offset) count) :
    Unsplit text (offset + count) := by
  have last : offset + count - 1 = offset + (count - 1) := by omega
  intro _ returns
  have behind := h pos (by rwa [List.getElem?_drop, ← last])
  rwa [List.getElem?_drop] at behind

theorem Unsplit.add {offset : Nat} (h : Unsplit text offset)
    (h' : Unsplit (text.drop offset) count) : Unsplit text (offset + count) := by
  rcases Nat.eq_zero_or_pos count with rfl | pos
  · exact h
  · exact h'.of_drop pos

theorem Unsplit.cons (pos : 0 < count) (h : Unsplit rest count) (c : Char) :
    Unsplit (c :: rest) (count + 1) := by
  rw [Nat.add_comm]
  exact Unsplit.of_drop pos h

/-- Behind a character that is no carriage return. -/
theorem unsplit_one (other : c ≠ '\r') (rest : List Char) : Unsplit (c :: rest) 1 := by
  intro _ returns
  exact absurd (Option.some.inj returns) other

/-- Behind characters none of which is a carriage return. -/
theorem unsplit_of_take (none : ∀ c ∈ text.take count, c ≠ '\r') : Unsplit text count := by
  intro pos returns
  obtain ⟨inside, eq⟩ := List.getElem?_eq_some_iff.1 returns
  refine absurd eq (none _ (List.mem_take_iff_getElem.2 ⟨count - 1, ?_, rfl⟩))
  omega

theorem unsplit_takeWhile {p : Char → Bool} (returns : p '\r' = false) (text : List Char) :
    Unsplit text (text.takeWhile p).length := by
  refine unsplit_of_take fun c mem same => ?_
  rw [← List.prefix_iff_eq_take.1 (List.takeWhile_prefix p)] at mem
  have holds := List.mem_takeWhile_imp mem
  rw [same, returns] at holds
  cases holds

/-- A line break ends in a text where it ends in what is left of it. -/
theorem endsBreak_drop {offset : Nat} (pos : 0 < count) :
    endsBreak text (offset + count) = endsBreak (text.drop offset) count := by
  have last : offset + count - 1 = offset + (count - 1) := by omega
  have pos' : 0 < offset + count := by omega
  rw [endsBreak, endsBreak, List.getElem?_drop, List.getElem?_drop, last]
  simp [pos, pos']

/-! ### Counting line breaks -/

/-- The ends of the line breaks of a text whose first character stands at the offset `base`.  A
carriage return at the end of the text is a line break. -/
def breaksFrom : List Char → Nat → List Nat
  | [], _ => []
  | c :: rest, base =>
    if c = '\n' ∨ c = '\r' ∧ rest.head? ≠ some '\n' then (base + 1) :: breaksFrom rest (base + 1)
    else breaksFrom rest (base + 1)

/-- Reading a text counts its line breaks, and the characters since the last of them. -/
theorem advance_eq (front : List Char) (line base last : Nat) (le : last ≤ base) :
    Location.advance ⟨line, 1 + (base - last)⟩ front =
      ⟨line + (breaksFrom front base).length,
        1 + (base + front.length - (breaksFrom front base).getLast?.getD last)⟩ := by
  induction front generalizing line base last with
  | nil => rfl
  | cons c rest ih =>
      unfold Location.advance breaksFrom
      split
      · have step := ih (line + 1) (base + 1) (base + 1) (Nat.le_refl _)
        rw [Nat.sub_self] at step
        rw [step, List.length_cons, List.length_cons, List.getLast?_cons, Option.getD_some,
          Nat.add_right_comm, Nat.add_assoc base, Nat.add_comm 1 rest.length, Nat.add_assoc line]
      · have column : base + 1 - last = base - last + 1 := by omega
        have step := ih line (base + 1) last (by omega)
        rw [column] at step
        rw [Nat.add_assoc 1, step, List.length_cons, Nat.add_assoc base, Nat.add_comm 1 rest.length]

/-- The line breaks of a part of a text that splits none of them. -/
theorem filter_endsBreak (base count : Nat) (within : base + count ≤ text.length)
    (whole : Unsplit text (base + count)) :
    (List.range' (base + 1) count).filter (endsBreak text) =
      breaksFrom ((text.drop base).take count) base := by
  induction count generalizing base with
  | zero => rfl
  | succ count ih =>
      have inside : base < text.length := by omega
      have next := ih (base + 1) (by omega) (by rwa [Nat.add_right_comm])
      rw [List.drop_eq_getElem_cons inside, List.take_succ_cons, breaksFrom, List.range'_succ,
        List.filter_cons, next]
      have ends : endsBreak text (base + 1) = true ↔
          text[base] = '\n' ∨ text[base] = '\r' ∧
            ((text.drop (base + 1)).take count).head? ≠ some '\n' := by
        have here : text[base]? = some text[base] := List.getElem?_eq_getElem inside
        simp only [endsBreak, Nat.zero_lt_succ, decide_true, Bool.true_and, Nat.add_sub_cancel, here,
          Option.some.injEq, Bool.or_eq_true, Bool.and_eq_true, decide_eq_true_eq]
        refine or_congr_right (and_congr_right fun returns => ?_)
        cases count with
        | zero => simpa using whole (Nat.succ_pos _) (here.trans (congrArg some returns))
        | succ count => simp [List.head?_take, List.head?_drop]
      simp only [ends]

/-- **The location of an offset** that splits no line break: one line for each line break before it,
and one column for each character since the last of them. -/
theorem locate_eq {offset : Nat} (within : offset ≤ text.length) (whole : Unsplit text offset) :
    locate text offset =
      ⟨1 + (breaksUpTo text offset).length,
        1 + (offset - (breaksUpTo text offset).getLast?.getD 0)⟩ := by
  have breaks : breaksUpTo text offset = breaksFrom (text.take offset) 0 := by
    have filtered : (List.range' (0 + 1) offset).filter (endsBreak text) =
        breaksFrom ((text.drop 0).take offset) 0 :=
      filter_endsBreak 0 offset (by omega) (by rwa [Nat.zero_add])
    rw [breaksUpTo, List.range_eq_range', List.range'_succ, List.filter_cons]
    exact filtered
  have read := advance_eq (text.take offset) 1 0 0 (Nat.le_refl _)
  rw [breaks]
  rwa [List.length_take, Nat.min_eq_left within, Nat.zero_add] at read

end PythonSyntax.Text
