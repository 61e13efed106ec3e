/-
**Single tokens at the front of a text.**

Main definitions:

* `PythonSyntax.Lexeme` — the kind and the length of a token, and what is wrong with it, if
  anything;
* `PythonSyntax.Lexeme.word` — a name, a reserved word, or a string with letters before its quote;
* `PythonSyntax.Lexeme.symbol?` — the first symbol, by priority, with which the text begins;
* `PythonSyntax.Lexeme.read` — the token at the front of a text;
* `PythonSyntax.Lexeme.lineBreak`, `PythonSyntax.Lexeme.comment`,
  `PythonSyntax.Lexeme.typeComment?` — line ends and comments.
-/

import PythonSyntax.Lexical.Numeral
import PythonSyntax.Lexical.Quotation
import PythonSyntax.Text.Blank

set_option autoImplicit false

namespace PythonSyntax

/-- A token at the front of a text. -/
structure Lexeme where
  kind : TokenKind
  length : Nat
  fault : Option LexicalFault
  deriving DecidableEq, Repr

namespace Lexeme

/-- A reading as a token of a given kind. -/
def ofReading (kind : TokenKind) (reading : Reading) : Lexeme :=
  ⟨kind, reading.length, reading.fault⟩

/-- The token that begins with a name: the longest run of characters of names.  If the run is one
of those that belong to a string and a quote follows, the token is that string. -/
def word (text : List Char) : Lexeme :=
  let run := text.takeWhile isNamePart
  let rest := text.drop run.length
  if rest.head?.any Quotation.isQuote && isStringMark run then
    ofReading .string ((Quotation.read rest).after run.length)
  else
    match Keyword.ofSpelling? (String.ofList run) with
    | some keyword => ⟨.keyword keyword, run.length, none⟩
    | none => ⟨.name, run.length, none⟩

/-- The first symbol, by priority, with which the text begins. -/
def symbol? (text : List Char) : Option Symbol :=
  Symbol.byPriority.find? fun sign => sign.spelling.toList.isPrefixOf text

/-- The token at the front of a text that begins with no blank, comment or line break. -/
def read (text : List Char) : Lexeme :=
  match text with
  | [] => ⟨.eof, 0, none⟩
  | c :: _ =>
    if isNameStart c then word text
    else if Numeral.starts text then ofReading .number (Numeral.read text)
    else if Quotation.isQuote c then ofReading .string (Quotation.read text)
    else
      match symbol? text with
      | some sign => ⟨.symbol sign, sign.spelling.length, none⟩
      | none => ⟨.invalid, 1, none⟩

/-- Whether tokens of the kind are told apart by their text. -/
def carriesText : TokenKind → Bool
  | .keyword _ | .symbol _ | .eof | .indent | .dedent => false
  | _ => true

/-! ### Line ends, blanks and comments -/

/-- The characters that end a line. -/
def isLineEnd (c : Char) : Bool := c = '\n' || c = '\r'

/-- The blanks that can stand before and between tokens: space, tab and form feed. -/
def isSpace (c : Char) : Bool := c = ' ' || c = '\t' || c = '\x0c'

/-- The length of the line break at the front of a text: a carriage return with a line feed after
it is one break. -/
def lineBreak : List Char → Nat
  | '\r' :: '\n' :: _ => 2
  | c :: _ => if isLineEnd c then 1 else 0
  | [] => 0

/-- The length of the run of blanks at the front of a text. -/
def spaces (text : List Char) : Nat := (text.takeWhile isSpace).length

/-- The length of a comment: up to the end of the line. -/
def comment (text : List Char) : Nat := (text.takeWhile fun c => !isLineEnd c).length

/-- The length of the comment if it declares a type: after the mark and blanks it says `type:`, and
what follows that and blanks does not begin with `ignore`. -/
def typeComment? (text : List Char) : Option Nat :=
  let line := text.take (comment text)
  let body := (line.drop 1).dropWhile Text.isBlank
  let subject := (body.drop 5).dropWhile Text.isBlank
  if "type:".toList.isPrefixOf body && !"ignore".toList.isPrefixOf subject then some line.length
  else none

end Lexeme

end PythonSyntax
