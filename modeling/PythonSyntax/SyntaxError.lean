/-
**Syntax errors.**

Reading stops at the first error.  An error is a cause and the offset at which it is reported; the
wording is kept apart from both.

Main definitions:

* `PythonSyntax.LexicalFault` — what can be wrong with the characters of a text;
* `PythonSyntax.Complaint` — what a rule of the grammar can object to;
* `PythonSyntax.Cause`, `PythonSyntax.Cause.message` — either of them, and the words for it;
* `PythonSyntax.SyntaxError` — a cause with its offset.
-/

import PythonSyntax.Lexical.Radix
import PythonSyntax.Text.Location
import PythonSyntax.Token.Basic

set_option autoImplicit false

namespace PythonSyntax

/-- What can be wrong with the characters of a text. -/
inductive LexicalFault where
  /-- A number that lacks digits, breaks off at an underscore or runs into a name. -/
  | malformedNumber (radix : Radix)
  /-- A decimal integer other than zero that begins with a zero. -/
  | leadingZeros
  | unterminatedString
  | unterminatedTripleString
  /-- A line indented less than the one before it, but like none of the open blocks. -/
  | unmatchedUnindent
  deriving DecidableEq, Repr

/-- The words for a lexical fault. -/
def LexicalFault.message : LexicalFault → String
  | .malformedNumber radix => "invalid " ++ radix.describe ++ " literal"
  | .leadingZeros => "leading zeros in decimal integer literals are not permitted"
  | .unterminatedString => "unterminated string literal"
  | .unterminatedTripleString => "unterminated triple-quoted string literal"
  | .unmatchedUnindent => "unindent does not match any outer indentation level"

/-- What a rule of the grammar can object to. -/
inductive Complaint where
  /-- Something else had to stand here. -/
  | expected (what : String)
  | unexpectedIndent
  | unexpectedUnindent
  /-- Two commas in a row. -/
  | doubledComma
  /-- A comma after the last name of an import without parentheses. -/
  | trailingImportComma
  /-- A comma after the last item of a `with` statement. -/
  | trailingItemComma
  | breakOutsideLoop
  | continueOutsideLoop
  | returnOutsideFunction
  | yieldOutsideFunction
  /-- The target of `:=` is not a name. -/
  | namedTarget
  /-- The left side of `=` among arguments is not a name. -/
  | assignedArgument
  /-- A generator expression without parentheses beside other arguments. -/
  | bareGenerator
  /-- A starred element before a comprehension clause. -/
  | starredComprehension
  /-- A double-starred element before a comprehension clause. -/
  | unpackedComprehension
  /-- An annotation on more than one target. -/
  | annotatedTuple
  /-- A decorator before an `async` statement that defines no function. -/
  | undecorable
  | leadingSlash
  | repeatedSlash
  | slashAfterStar
  | repeatedStar
  /-- A bare `*` with no named parameter after it. -/
  | danglingStar
  /-- A parameter without a default after one with a default. -/
  | missingDefault
  /-- A parameter after the one that takes the remaining keywords. -/
  | afterKeywords
  deriving DecidableEq, Repr

/-- The words for a complaint, given the token at which the rule stands. -/
def Complaint.message (found : Token) : Complaint → String
  | .expected what => "Expected " ++ what ++ ", found " ++ found.describe
  | .unexpectedIndent => "Unexpected indent"
  | .unexpectedUnindent => "Unexpected unindent"
  | .doubledComma => "Unexpected ',' after ','"
  | .trailingImportComma => "Trailing comma not allowed without surrounding parentheses"
  | .trailingItemComma => "Trailing comma not allowed in 'with' items"
  | .breakOutsideLoop => "'break' outside loop"
  | .continueOutsideLoop => "'continue' not properly in loop"
  | .returnOutsideFunction => "'return' outside function"
  | .yieldOutsideFunction => "'yield' outside function"
  | .namedTarget => "Cannot use assignment expression with this target"
  | .assignedArgument => "Expression cannot contain assignment, perhaps you meant \"==\"?"
  | .bareGenerator => "Generator expression must be parenthesized"
  | .starredComprehension => "Iterable unpacking cannot be used in comprehension"
  | .unpackedComprehension => "Dict unpacking cannot be used in dict comprehension"
  | .annotatedTuple => "Only single target (not tuple) can be annotated"
  | .undecorable => "Only functions and classes can be decorated"
  | .leadingSlash => "At least one argument must precede /"
  | .repeatedSlash => "/ may appear only once"
  | .slashAfterStar => "/ must be ahead of *"
  | .repeatedStar => "* argument may appear only once"
  | .danglingStar => "Named arguments must follow bare *"
  | .missingDefault => "Non-default argument follows default argument"
  | .afterKeywords => "Arguments cannot follow var-keyword argument"

/-- Why reading a text failed. -/
inductive Cause where
  | lexical (fault : LexicalFault)
  /-- A rule of the grammar objects, standing at the token `found`. -/
  | grammatical (complaint : Complaint) (found : Token)
  /-- The bound on the number of steps was reached. -/
  | exhausted
  deriving DecidableEq, Repr

/-- The words for a cause. -/
def Cause.message : Cause → String
  | .lexical fault => fault.message
  | .grammatical complaint found => complaint.message found
  | .exhausted => "too many steps"

/-- The first error of a text. -/
structure SyntaxError where
  cause : Cause
  /-- The offset, in characters, at which the error is reported. -/
  position : Nat
  deriving DecidableEq, Repr

namespace SyntaxError

/-- The words for the error's cause. -/
def message (error : SyntaxError) : String := error.cause.message

/-- A message with the offset it belongs to. -/
def report (message : String) (position : Nat) : String :=
  "Syntax error at offset " ++ toString position ++ ": " ++ message

/-- Where in the text the error is reported. -/
def location (error : SyntaxError) (text : List Char) : Text.Location :=
  Text.locate text error.position

end SyntaxError

end PythonSyntax
