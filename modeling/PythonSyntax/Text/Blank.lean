/-
**Blanks**: the characters with the property White_Space.

Main definitions:

* `PythonSyntax.Text.blankRanges` — the ranges of the property, in order;
* `PythonSyntax.Text.isBlank` — whether a character is in one of them.
-/

import PythonSyntax.Text.Ranges

set_option autoImplicit false

namespace PythonSyntax.Text

/-- The code points with the property White_Space, as ranges in increasing order. -/
def blankRanges : List (Nat × Nat) := [
  (0x9, 0xd), (0x20, 0x20), (0x85, 0x85), (0xa0, 0xa0), (0x1680, 0x1680), (0x2000, 0x200a),
  (0x2028, 0x2029), (0x202f, 0x202f), (0x205f, 0x205f), (0x3000, 0x3000)]

/-- Blanks of any kind, line breaks included. -/
def isBlank (c : Char) : Bool := inRanges blankRanges c

end PythonSyntax.Text
