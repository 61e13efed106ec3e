/-
**Character classes given by ranges of code points.**

Main definitions:

* `PythonSyntax.Text.inRanges` — membership in a list of closed ranges.
-/

set_option autoImplicit false

namespace PythonSyntax.Text

/-- Whether the code point of `c` lies in one of the closed ranges. -/
def inRanges (ranges : List (Nat × Nat)) (c : Char) : Bool :=
  ranges.any fun range => range.1 ≤ c.toNat && c.toNat ≤ range.2

end PythonSyntax.Text
