/-
**Locations are in the order of their offsets.**

Of two offsets of a text the greater one has the later location, by line and on a line by column.
There is one exception: a carriage return that a line feed follows ends no line by itself, but it
does so in the text before the line feed, where it stands last.  So the offset inside of such a line
break has the location of the offset behind it, and no other two offsets share one.

Main definitions:

* `PythonSyntax.Text.Location.Before` — the order of locations;
* `PythonSyntax.Text.Location.step` — the location behind one more character.

Main results:

* `PythonSyntax.Text.Location.advance_concat` — reading one more character;
* `PythonSyntax.Text.locate_succ` — the locations of an offset and the next one;
* `PythonSyntax.Text.locations_ordered` — **which offsets have locations in their order**.
-/

import PythonSyntax.Proofs.Lexical.LineBreaks

set_option autoImplicit false

namespace PythonSyntax.Text

/-! ### The order of locations -/

namespace Location

variable {a b c here : Location}

/-- The one location is on an earlier line, or on the same line in an earlier column. -/
def Before (a b : Location) : Prop := a.line < b.line ∨ a.line = b.line ∧ a.column < b.column

theorem Before.trans (h : a.Before b) (h' : b.Before c) : a.Before c := by
  unfold Before at *
  omega

theorem Before.ne (h : a.Before b) : a ≠ b := by
  rintro rfl
  unfold Before at h
  omega

/-! ### One more character -/

/-- The location behind one more character: on the next line if it is a line feed or a carriage
return, and in the next column otherwise. -/
def step (here : Location) (c : Char) : Location :=
  if c = '\n' ∨ c = '\r' then ⟨here.line + 1, 1⟩ else ⟨here.line, here.column + 1⟩

theorem before_step (here : Location) (c : Char) : here.Before (here.step c) := by
  unfold step
  split
  · exact Or.inl (Nat.lt_succ_self _)
  · exact Or.inr ⟨rfl, Nat.lt_succ_self _⟩

/-- **Reading one more character.**  A line feed behind a carriage return changes nothing, since the
carriage return has ended the line while it stood last. -/
theorem advance_concat (here : Location) (front : List Char) (c : Char) :
    here.advance (front ++ [c]) =
      if front.getLast? = some '\r' ∧ c = '\n' then here.advance front
      else (here.advance front).step c := by
  induction front generalizing here with
  | nil => simp [advance, step]
  | cons first rest ih =>
      cases rest with
      | nil =>
          by_cases returns : first = '\r'
          · by_cases feeds : c = '\n'
            · simp [advance, returns, feeds]
            · simp [advance, step, returns, feeds]
          · by_cases feeds : first = '\n'
            · simp [advance, step, feeds]
            · simp [advance, step, returns, feeds]
      | cons second more =>
          -- The first character does not see the last one.
          have head : ((second :: more) ++ [c]).head? = (second :: more).head? := rfl
          rw [List.getLast?_cons_cons, List.cons_append, advance, advance, head]
          split
          · exact ih _
          · exact ih _

end Location

/-! ### The next offset -/

variable {text : List Char} {offset i j : Nat}

theorem not_unsplit_iff : ¬ Unsplit text offset ↔
    0 < offset ∧ text[offset - 1]? = some '\r' ∧ text[offset]? = some '\n' := by
  simp [Unsplit]

/-- An offset inside of a line break stands between its two characters. -/
theorem not_unsplit_iff_of_lt (inside : offset < text.length) : ¬ Unsplit text offset ↔
    (text.take offset).getLast? = some '\r' ∧ text[offset] = '\n' := by
  rw [not_unsplit_iff, List.getLast?_take, List.getElem?_eq_getElem inside, Option.some_inj]
  cases offset with
  | zero => simp
  | succ before =>
      have here : text[before]? = some text[before] :=
        List.getElem?_eq_getElem (Nat.lt_of_succ_lt inside)
      simp [here]

/-- **The next location** is one character further on, unless the offset is inside of a line
break. -/
theorem locate_succ (inside : offset < text.length) :
    (Unsplit text offset → locate text (offset + 1) = (locate text offset).step text[offset]) ∧
      (¬ Unsplit text offset → locate text (offset + 1) = locate text offset) := by
  have read := Location.advance_concat ⟨1, 1⟩ (text.take offset) text[offset]
  rw [List.take_append_getElem inside] at read
  constructor
  · intro whole
    exact read.trans (if_neg fun cut => (not_unsplit_iff_of_lt inside).2 cut whole)
  · intro cut
    exact read.trans (if_pos ((not_unsplit_iff_of_lt inside).1 cut))

theorem locate_before_succ (inside : offset < text.length) (whole : Unsplit text offset) :
    (locate text offset).Before (locate text (offset + 1)) := by
  rw [(locate_succ inside).1 whole]
  exact Location.before_step _ _

/-- No line break has an inside of two offsets. -/
theorem unsplit_succ (cut : ¬ Unsplit text offset) : Unsplit text (offset + 1) := by
  obtain ⟨-, -, feeds⟩ := not_unsplit_iff.1 cut
  intro _ returns
  rw [Nat.add_sub_cancel, feeds] at returns
  cases returns

/-! ### Offsets in order -/

/-- The locations of all offsets behind one that is not inside of a line break come later. -/
theorem locate_before_of_unsplit (lt : i < j) (le : j ≤ text.length) (whole : Unsplit text i) :
    (locate text i).Before (locate text j) := by
  induction j, lt using Nat.le_induction with
  | base => exact locate_before_succ le whole
  | succ j _ ih =>
      have sooner := ih (Nat.le_of_lt le)
      -- Behind the inside of a line break the location stays, but it is a later one already.
      by_cases next : Unsplit text j
      · exact sooner.trans (locate_before_succ le next)
      · rwa [(locate_succ le).2 next]

theorem locate_before_of_lt (lt : i + 1 < j) (le : j ≤ text.length) :
    (locate text i).Before (locate text j) := by
  by_cases whole : Unsplit text i
  · exact locate_before_of_unsplit (by omega) le whole
  · rw [← (locate_succ (by omega)).2 whole]
    exact locate_before_of_unsplit lt le (unsplit_succ whole)

/-- **Which offsets have locations in their order.**  Of two offsets of the text the greater one has
the later location, unless the smaller one stands inside of a line break and the greater one behind
it; then both have the same.  Offsets past the end have the location of the end. -/
theorem locations_ordered (text : List Char) :
    (∀ i j, i < j → j ≤ text.length →
      ((locate text i).Before (locate text j) ↔ Unsplit text i ∨ i + 1 < j) ∧
        (locate text i = locate text j ↔ ¬ Unsplit text i ∧ j = i + 1)) ∧
      ∀ i, text.length ≤ i → locate text i = locate text text.length := by
  refine ⟨fun i j lt le => ?_, locate_of_length_le text⟩
  by_cases apart : Unsplit text i ∨ i + 1 < j
  · have before : (locate text i).Before (locate text j) :=
      apart.elim (locate_before_of_unsplit lt le) fun far => locate_before_of_lt far le
    refine ⟨iff_of_true before apart, iff_of_false before.ne ?_⟩
    rintro ⟨cut, rfl⟩
    exact apart.elim cut (Nat.lt_irrefl _)
  · have cut : ¬ Unsplit text i := fun whole => apart (Or.inl whole)
    obtain rfl : j = i + 1 := by omega
    have same := ((locate_succ le).2 cut).symm
    exact ⟨iff_of_false (fun before => before.ne same) apart, iff_of_true same ⟨cut, rfl⟩⟩

/-- Both sides of the line feed of `"a\r\nb"` have the location at the beginning of the second
line. -/
theorem not_locate_before :
    ¬ ∀ (text : List Char) (i j : Nat), i < j → j ≤ text.length →
      (locate text i).Before (locate text j) := by
  intro ordered
  have same : locate "a\r\nb".toList 2 = locate "a\r\nb".toList 3 := by decide
  exact (ordered "a\r\nb".toList 2 3 (by decide) (by decide)).ne same

end PythonSyntax.Text
