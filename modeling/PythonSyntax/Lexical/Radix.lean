/-
**The bases in which numbers are written.**

Main definitions:

* `PythonSyntax.Radix` — decimal, or one of the three bases that a letter after a zero announces;
* `PythonSyntax.Radix.isDigit` — the digits of a base;
* `PythonSyntax.Radix.ofLetter?` — the base that a letter announces.
-/

set_option autoImplicit false

namespace PythonSyntax

/-- The base in which a number is written. -/
inductive Radix where
  | decimal
  | hexadecimal
  | octal
  | binary
  deriving DecidableEq, Repr

namespace Radix

/-- How a message calls the base. -/
def describe : Radix → String
  | .decimal => "decimal"
  | .hexadecimal => "hexadecimal"
  | .octal => "octal"
  | .binary => "binary"

/-- The digits of the base; all are among the first 128 characters. -/
def isDigit : Radix → Char → Bool
  | .decimal, c => c.isDigit
  | .hexadecimal, c => c.isDigit || ('a' ≤ c && c ≤ 'f') || ('A' ≤ c && c ≤ 'F')
  | .octal, c => '0' ≤ c && c ≤ '7'
  | .binary, c => c = '0' || c = '1'

/-- The base that a letter announces after a leading zero. -/
def ofLetter? (c : Char) : Option Radix :=
  if c = 'x' ∨ c = 'X' then some .hexadecimal
  else if c = 'o' ∨ c = 'O' then some .octal
  else if c = 'b' ∨ c = 'B' then some .binary
  else none

end Radix

end PythonSyntax
