/-
**Numbers.**

A number is an integer in one of four bases, a decimal fraction with or without an exponent, or one
of the decimal forms with the letter `j` after it.  A single underscore may stand between two
digits, and one after the letter that announces a base.

Main definitions:

* `PythonSyntax.Numeral.digits` — a run of digits with single underscores between them;
* `PythonSyntax.Numeral.fraction`, `PythonSyntax.Numeral.exponent`,
  `PythonSyntax.Numeral.imaginary` — the parts that can follow the first digits;
* `PythonSyntax.Numeral.read` — a whole number.
-/

import PythonSyntax.Lexical.Identifier
import PythonSyntax.Lexical.Reading

set_option autoImplicit false

namespace PythonSyntax.Numeral

/-- Whether a text begins with a decimal digit. -/
def startsWithDigit (text : List Char) : Bool := text.head?.any Char.isDigit

/-- Whether a number begins here: with a digit, or with a point and a digit. -/
def starts : List Char → Bool
  | [] => false
  | c :: rest => c.isDigit || (c = '.' && startsWithDigit rest)

/-- A run of digits.  An underscore after a digit belongs to it if a digit follows, and spoils it
otherwise; `seen` tells whether a digit has been read before. -/
def digits (radix : Radix) : Bool → List Char → Reading
  | _, [] => .nothing
  | seen, c :: rest =>
    if radix.isDigit c then (digits radix true rest).after 1
    else if c = '_' && seen then
      if rest.head?.any radix.isDigit then (digits radix seen rest).after 1
      else Reading.nothing.spoilt (.malformedNumber radix)
    else .nothing

/-- What follows the letter that announces a base: an underscore, if any, and at least one digit. -/
def inRadix (radix : Radix) (text : List Char) : Reading :=
  let skipped := if text.head? = some '_' then 1 else 0
  let run := digits radix false (text.drop skipped)
  let reading := run.after skipped
  if run.fault.isNone && (run.length = 0 || runsOn (text.drop reading.length)) then
    reading.spoilt (.malformedNumber radix)
  else
    reading

/-- A point and the digits after it, if the text begins with a point. -/
def fraction : List Char → Reading
  | '.' :: rest => (digits .decimal false rest).after 1
  | _ => .nothing

/-- A letter `e`, a sign, if any, and digits; without a digit it is no exponent. -/
def exponent : List Char → Reading
  | [] => .nothing
  | c :: rest =>
    let sign := if rest.head? = some '+' ∨ rest.head? = some '-' then 1 else 0
    if (c = 'e' || c = 'E') && startsWithDigit (rest.drop sign) then
      (digits .decimal false (rest.drop sign)).after (1 + sign)
    else
      .nothing

/-- The letter `j`, if the text begins with it. -/
def imaginary : List Char → Reading
  | [] => .nothing
  | c :: _ => if c = 'j' || c = 'J' then ⟨1, none⟩ else .nothing

/-- Whether the digits begin with a zero without all being zeros. -/
def isPadded (text : List Char) : Bool :=
  text.head? = some '0' && text.any fun c => c ≠ '0' && c ≠ '_'

/-- A number in decimal notation.  It may not run on into a name, and an integer may not be padded
with zeros. -/
def inDecimal (text : List Char) : Reading :=
  let whole := digits .decimal false text
  let mantissa := whole.followedBy text fraction
  let real := mantissa.followedBy text exponent
  let reading := real.followedBy text imaginary
  if reading.fault.isSome then
    reading
  else if runsOn (text.drop reading.length) then
    reading.spoilt (.malformedNumber .decimal)
  else if reading.length = whole.length && isPadded (text.take reading.length) then
    reading.spoilt .leadingZeros
  else
    reading

/-- A number; a zero with a letter behind it may announce the base. -/
def read (text : List Char) : Reading :=
  match text with
  | '0' :: c :: rest =>
    match Radix.ofLetter? c with
    | some radix => (inRadix radix rest).after 2
    | none => inDecimal text
  | _ => inDecimal text

end PythonSyntax.Numeral
