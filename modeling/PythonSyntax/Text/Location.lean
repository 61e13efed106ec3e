/-
**Lines and columns.**

Main definitions:

* `PythonSyntax.Text.Location` — a line and a column, both counted from one;
* `PythonSyntax.Text.locate` — the location of an offset in a text.

Main results:

* `PythonSyntax.Text.locate_of_length_le` — offsets past the end of the text have the location of
  its end.
-/

set_option autoImplicit false

namespace PythonSyntax.Text

/-- A line and a column, both counted from one. -/
structure Location where
  line : Nat
  column : Nat
  deriving DecidableEq, Repr

/-- The location that is reached from `here` by reading a text.  A line feed ends a line; a carriage
return ends one unless a line feed follows it in the text that is read. -/
def Location.advance (here : Location) : List Char → Location
  | [] => here
  | c :: rest =>
    if c = '\n' ∨ c = '\r' ∧ rest.head? ≠ some '\n' then
      Location.advance ⟨here.line + 1, 1⟩ rest
    else
      Location.advance ⟨here.line, here.column + 1⟩ rest

/-- The location of an offset: where reading the text before it leads. -/
def locate (text : List Char) (offset : Nat) : Location :=
  Location.advance ⟨1, 1⟩ (text.take offset)

/-- Offsets past the end of the text have the location of its end. -/
theorem locate_of_length_le (text : List Char) (offset : Nat) (h : text.length ≤ offset) :
    locate text offset = locate text text.length := by
  simp [locate, List.take_of_length_le h]

end PythonSyntax.Text
