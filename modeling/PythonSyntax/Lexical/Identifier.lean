/-
**Names.**

Main definitions:

* `PythonSyntax.isNameStart`, `PythonSyntax.isNamePart` — the characters of names;
* `PythonSyntax.runsOn` — whether a text begins with a character of a name;
* `PythonSyntax.isStringMark` — the words that, right before a quote, belong to the string.
-/

import PythonSyntax.Text.Alphabetic
import PythonSyntax.Text.Numeric

set_option autoImplicit false

namespace PythonSyntax

/-- The characters with which a name can begin. -/
def isNameStart (c : Char) : Bool := c = '_' || Text.isAlphabetic c

/-- The characters with which a name can go on. -/
def isNamePart (c : Char) : Bool := c = '_' || Text.isAlphabetic c || Text.isNumeric c

/-- Whether a text begins with a character of a name. -/
def runsOn (text : List Char) : Bool := text.head?.any isNamePart

/-- The words that belong to a string when a quote follows them, in upper or lower case. -/
def isStringMark (word : List Char) : Bool :=
  [['r'], ['u'], ['b'], ['f'], ['b', 'r'], ['r', 'b'], ['f', 'r'], ['r', 'f']].contains
    (word.map Char.toLower)

end PythonSyntax
