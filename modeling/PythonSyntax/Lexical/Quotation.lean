/-
**Strings.**

A string stands between two quotes of one sort, single or in threes.  A backslash takes away the
meaning of the character after it, and of both characters of a line break written with two.  Only a
string in triple quotes goes on over a line break that no backslash precedes.

Main definitions:

* `PythonSyntax.Quotation.body` — the rest of a string, after the quotes that open it;
* `PythonSyntax.Quotation.read` — a whole string, from its first quote on.
-/

import PythonSyntax.Lexical.Reading

set_option autoImplicit false

namespace PythonSyntax.Quotation

/-- The two characters that open and close strings. -/
def isQuote (c : Char) : Bool := c = '\'' || c = '"'

/-- The rest of a string, up to the quote, or the three, that closes it. -/
def body (quote : Char) (triple : Bool) : List Char → Reading
  | [] =>
    Reading.nothing.spoilt (if triple then .unterminatedTripleString else .unterminatedString)
  | '\\' :: '\r' :: '\n' :: rest => (body quote triple rest).after 3
  | '\\' :: _ :: rest => (body quote triple rest).after 2
  | ['\\'] => ⟨1, some .unterminatedString⟩
  | c :: rest =>
    if !triple && (c = '\n' || c = '\r') then ⟨1, some .unterminatedString⟩
    else if c = quote then
      if !triple then ⟨1, none⟩
      else if rest.take 2 = [quote, quote] then ⟨3, none⟩
      else (body quote triple rest).after 1
    else (body quote triple rest).after 1

/-- A string, from the quote that opens it. -/
def read : List Char → Reading
  | [] => Reading.nothing.spoilt .unterminatedString
  | quote :: rest =>
    if rest.take 2 = [quote, quote] then (body quote true (rest.drop 2)).after 3
    else (body quote false rest).after 1

end PythonSyntax.Quotation
