/-
**Tokens and the text between them.**

A token has a span in the text, counted in characters, and carries the blanks, comments and line
breaks that stand before it.  Writing, token by token, the texts of what stands before it and then
its own text gives the whole text back.

Main definitions:

* `PythonSyntax.Trivia` — a blank, a comment, or a line break that ends no logical line;
* `PythonSyntax.Token` — a token with its span, its kind, its text and its trivia;
* `PythonSyntax.Token.text`, `PythonSyntax.Token.written` — its own text, and that text after its
  trivia;
* `PythonSyntax.Token.describe` — how an error message calls it.
-/

import PythonSyntax.Token.Kind

set_option autoImplicit false

namespace PythonSyntax

/-- What stands between two tokens. -/
inductive TriviaKind where
  | whitespace
  | comment
  /-- A line break that ends no logical line: after a blank or comment line, or inside brackets. -/
  | newline
  /-- A backslash with the line break after it. -/
  | continuation
  deriving DecidableEq, Repr

/-- The name under which the kind is listed. -/
def TriviaKind.label : TriviaKind → String
  | .whitespace => "Whitespace"
  | .comment => "Comment"
  | .newline => "Newline"
  | .continuation => "Continuation"

/-- A piece of text between two tokens. -/
structure Trivia where
  start : Nat
  stop : Nat
  kind : TriviaKind
  text : String
  deriving DecidableEq, Repr

/-- A token; `stop` is the offset just after its last character. -/
structure Token where
  start : Nat
  stop : Nat
  kind : TokenKind
  /-- The text of names, literals, line ends, type comments and invalid characters. -/
  value : Option String
  /-- What stands before the token. -/
  trivia : List Trivia
  deriving DecidableEq, Repr

namespace Token

/-- A token whose text is settled by its kind. -/
def mark (start stop : Nat) (kind : TokenKind) : Token :=
  ⟨start, stop, kind, none, []⟩

/-- A token that carries its own text. -/
def literal (start stop : Nat) (kind : TokenKind) (text : String) : Token :=
  ⟨start, stop, kind, some text, []⟩

/-- The end of the text, at an offset. -/
def eof (offset : Nat) : Token := mark offset offset .eof

/-- The token with other trivia before it. -/
def withTrivia (token : Token) (trivia : List Trivia) : Token :=
  { token with trivia := trivia }

/-- The token's own text: its value, or else the spelling of its kind. -/
def text (token : Token) : String :=
  match token.value with
  | some value => value
  | none => token.kind.spelling?.getD ""

/-- The token's trivia and then its own text. -/
def written (token : Token) : String :=
  String.join (token.trivia.map Trivia.text) ++ token.text

/-- Whether the token is a name spelled `word`; so are the words that only some places reserve. -/
def spells (token : Token) (word : String) : Bool :=
  token.kind = .name && token.value = some word

/-- How a message calls the token. -/
def describe (token : Token) : String :=
  match token.kind with
  | .name => "identifier '" ++ token.text ++ "'"
  | .number => "number " ++ token.text
  | .string => "string " ++ token.text
  | .invalid => "invalid character '" ++ token.text ++ "'"
  | .keyword word => "keyword " ++ (TokenKind.keyword word).describe
  | kind => kind.describe

end Token

end PythonSyntax
