/-
**Reading a literal off the front of a text.**

A reader looks at the characters that are left and answers how many of them belong to the literal,
and whether they are well formed.  The count is the number of characters that are passed in either
case, so that reading can go on behind a malformed literal.

Main definitions:

* `PythonSyntax.Reading` — a count of characters, and what is wrong with them, if anything;
* `PythonSyntax.Reading.after` — the reading with further characters in front;
* `PythonSyntax.Reading.followedBy` — one reader after another.
-/

import PythonSyntax.SyntaxError

set_option autoImplicit false

namespace PythonSyntax

/-- How many characters were read, and what is wrong with them, if anything. -/
structure Reading where
  length : Nat
  fault : Option LexicalFault
  deriving DecidableEq, Repr

namespace Reading

/-- Nothing is read, and nothing is wrong. -/
def nothing : Reading := ⟨0, none⟩

/-- The reading with `count` characters in front. -/
def after (count : Nat) (reading : Reading) : Reading :=
  ⟨count + reading.length, reading.fault⟩

/-- The same characters, with a fault. -/
def spoilt (reading : Reading) (fault : LexicalFault) : Reading :=
  ⟨reading.length, some fault⟩

/-- A reading of `text` and then that of `next` on what it leaves; a fault ends it. -/
def followedBy (reading : Reading) (text : List Char) (next : List Char → Reading) : Reading :=
  match reading.fault with
  | some _ => reading
  | none => (next (text.drop reading.length)).after reading.length

end Reading

end PythonSyntax
