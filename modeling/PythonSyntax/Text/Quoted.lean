/-
**Quoted text.**

A quoted text stands on one line: what would break the line, end the quotation or not be seen is
written with a backslash.

Main definitions:

* `PythonSyntax.Text.escape` — how a character is written between quotes;
* `PythonSyntax.Text.quote` — a text in quotes.
-/

import PythonSyntax.Text.Unprintable

set_option autoImplicit false

namespace PythonSyntax.Text

/-- How a character is written between quotes; without a shape of its own, by its code point. -/
def escape (c : Char) : List Char :=
  if c = '\x00' then ['\\', '0']
  else if c = '\t' then ['\\', 't']
  else if c = '\r' then ['\\', 'r']
  else if c = '\n' then ['\\', 'n']
  else if c = '\\' then ['\\', '\\']
  else if c = '"' then ['\\', '"']
  else if isUnprintable c then ['\\', 'u', '{'] ++ Nat.toDigits 16 c.toNat ++ ['}']
  else [c]

/-- A text in quotes. -/
def quote (text : String) : String :=
  String.ofList ('"' :: text.toList.flatMap escape ++ ['"'])

end PythonSyntax.Text
