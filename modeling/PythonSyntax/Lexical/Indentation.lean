/-
**Indentation.**

The open blocks are known by the widths of their indentation, innermost first.  Behind them stands
the margin, of width zero, which is always open.

Main definitions:

* `PythonSyntax.Indentation.width` — how far a run of blanks indents a line;
* `PythonSyntax.Indentation.Change` — what a line does to the open blocks;
* `PythonSyntax.Indentation.change` — that change, by the width of the line;
* `PythonSyntax.Indents` — the widths of the open blocks and the margin.

Main results:

* `PythonSyntax.Indentation.change_margin` — no line closes the margin.
-/

set_option autoImplicit false

namespace PythonSyntax

namespace Indentation

/-- The width that a character leads to from a given one.  A tab leads to the next multiple of the
tab size, and a form feed back to the margin.  Widths are counted in 64 bits: behind the last one
counting starts again at zero. -/
def advance (tab : Nat) (width : Nat) (c : Char) : Nat :=
  if c = '\t' then (width / tab + 1) * tab % UInt64.size
  else if c = '\x0c' then 0
  else (width + 1) % UInt64.size

/-- How far a run of blanks indents a line; a tab size of zero counts as one. -/
def width (tabSize : Nat) (blanks : List Char) : Nat :=
  blanks.foldl (advance (max tabSize 1)) 0

/-- What a line does to the open blocks. -/
inductive Change where
  /-- It goes on with the innermost one. -/
  | stays
  /-- It opens a block. -/
  | opens
  /-- It closes some of them, at least one. -/
  | closes (count : Nat)
  /-- It is indented like none of them. -/
  | unmatched
  deriving DecidableEq, Repr

/-- The change that a line of a given width makes to the blocks whose widths are given, and those
that are open after it.  A line that matches no block still closes those that are indented further.
Whether the margin is among the widths makes no difference. -/
def change (open_ : List Nat) (width : Nat) : Change × List Nat :=
  let top := open_.headD 0
  if top < width then
    (.opens, width :: open_)
  else if width < top then
    let kept := open_.dropWhile (width < ·)
    if kept.headD 0 = width then (.closes (open_.length - kept.length), kept)
    else (.unmatched, kept)
  else
    (.stays, open_)

/-- A width that is not passed over is still the last. -/
theorem getLast?_dropWhile {widths : List Nat} {last width : Nat} (le : last ≤ width)
    (h : widths.getLast? = some last) : (widths.dropWhile (width < ·)).getLast? = some last := by
  obtain ⟨front, rfl⟩ := List.getLast?_eq_some_iff.1 h
  have kept : [last].dropWhile (width < ·) = [last] := by simp [Nat.not_lt.2 le]
  rw [List.dropWhile_append, kept]
  split <;> simp

/-- **No line closes the margin.** -/
theorem change_margin {widths : List Nat} (width : Nat) (h : widths.getLast? = some 0) :
    (change widths width).2.getLast? = some 0 := by
  unfold change
  dsimp only
  split
  · cases widths with
    | nil => cases h
    | cons first rest => rwa [List.getLast?_cons_cons]
  · split
    · split <;> exact getLast?_dropWhile (Nat.zero_le _) h
    · exact h

end Indentation

/-- The widths that the indentation of a line may have: those of the open blocks, innermost first,
and the margin. -/
structure Indents where
  widths : List Nat
  margin : widths.getLast? = some 0
  deriving DecidableEq, Repr

namespace Indents

/-- The widths of the open blocks, without the margin. -/
def blocks (indents : Indents) : List Nat := indents.widths.dropLast

/-- The indents where no block is open. -/
def atMargin : Indents := ⟨[0], rfl⟩

/-- What a line of a given width does to the open blocks, and the indents after it. -/
def change (indents : Indents) (width : Nat) : Indentation.Change × Indents :=
  ((Indentation.change indents.widths width).1,
    ⟨(Indentation.change indents.widths width).2,
      Indentation.change_margin width indents.margin⟩)

/-! ### Indents and blocks -/

variable (indents : Indents) (width : Nat)

@[simp] theorem blocks_atMargin : atMargin.blocks = [] := rfl

theorem widths_eq : indents.widths = indents.blocks ++ [0] := by
  obtain ⟨front, eq⟩ := List.getLast?_eq_some_iff.1 indents.margin
  rw [blocks, eq, List.dropLast_concat]

/-- Indents are known by their blocks. -/
theorem eq_of_blocks {indents other : Indents} (h : indents.blocks = other.blocks) :
    indents = other := by
  have widths : indents.widths = other.widths := by rw [widths_eq, widths_eq, h]
  cases indents
  cases other
  cases widths
  rfl

/-- The margin is open before a line and after it, so it counts for nothing. -/
theorem change_widths (blocks : List Nat) :
    Indentation.change (blocks ++ [0]) width =
      ((Indentation.change blocks width).1, (Indentation.change blocks width).2 ++ [0]) := by
  have top : (blocks ++ [0]).headD 0 = blocks.headD 0 := by cases blocks <;> rfl
  have kept : (blocks ++ [0]).dropWhile (width < ·) = blocks.dropWhile (width < ·) ++ [0] := by
    rw [List.dropWhile_append]
    split
    · rename_i none
      rw [List.isEmpty_iff.1 none]
      simp
    · rfl
  have top' : (blocks.dropWhile (width < ·) ++ [0]).headD 0 =
      (blocks.dropWhile (width < ·)).headD 0 := by
    cases blocks.dropWhile (width < ·) <;> rfl
  unfold Indentation.change
  simp only [top, kept, top', List.length_append, Nat.add_sub_add_right]
  split
  · rfl
  · split
    · split <;> rfl
    · rfl

theorem change_fst : (indents.change width).1 = (Indentation.change indents.blocks width).1 := by
  change (Indentation.change indents.widths width).1 = _
  rw [widths_eq, change_widths]

@[simp] theorem blocks_change :
    (indents.change width).2.blocks = (Indentation.change indents.blocks width).2 := by
  change (Indentation.change indents.widths width).2.dropLast = _
  rw [widths_eq, change_widths, List.dropLast_concat]

end Indents

end PythonSyntax
