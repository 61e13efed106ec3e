/-
**Kinds of tokens.**

Main definitions:

* `PythonSyntax.TokenKind` — a reserved word, a symbol, one of the literals, or one of the tokens
  that carry the layout;
* `PythonSyntax.TokenKind.spelling?` — the text that every token of the kind has, if it is fixed;
* `PythonSyntax.TokenKind.describe` — how an error message calls the kind;
* `PythonSyntax.TokenKind.all`, `PythonSyntax.TokenKind.ofLabel?` — the kinds and their names.
-/

import PythonSyntax.Token.Keyword
import PythonSyntax.Token.Symbol

set_option autoImplicit false

namespace PythonSyntax

/-- What a token is. -/
inductive TokenKind where
  /-- The end of the text. -/
  | eof
  /-- The start of a deeper block. -/
  | indent
  /-- The end of a block. -/
  | dedent
  /-- The end of a logical line. -/
  | newline
  | keyword (word : Keyword)
  | symbol (sign : Symbol)
  | name
  | number
  | string
  /-- A comment that declares a type, after code on its line. -/
  | typeComment
  /-- A character that starts no token; the grammar accepts it nowhere. -/
  | invalid
  deriving DecidableEq, Repr

namespace TokenKind

/-- The text of every token of the kind; none for those whose text varies, and for the layout. -/
def spelling? : TokenKind → Option String
  | .keyword word => some word.spelling
  | .symbol sign => some sign.spelling
  | _ => none

/-- The reserved words. -/
def isKeyword : TokenKind → Bool
  | .keyword _ => true
  | _ => false

/-- The kinds that mark where blocks begin and end; such a token has no width. -/
def isBlockMark : TokenKind → Bool
  | .indent | .dedent => true
  | _ => false

/-- The brackets that open a nested region. -/
def opens : TokenKind → Bool
  | .symbol sign => sign.opens
  | _ => false

/-- The brackets that close a nested region. -/
def closes : TokenKind → Bool
  | .symbol sign => sign.closes
  | _ => false

/-- How a message calls the kind: reserved words and symbols by their spelling in quotes. -/
def describe : TokenKind → String
  | .eof => "end of file"
  | .indent => "indent"
  | .dedent => "dedent"
  | .newline => "newline"
  | .keyword word => "'" ++ word.spelling ++ "'"
  | .symbol sign => "'" ++ sign.spelling ++ "'"
  | .name => "name"
  | .number => "number"
  | .string => "string"
  | .typeComment => "type comment"
  | .invalid => "invalid character"

/-- The name under which the kind is listed. -/
def label : TokenKind → String
  | .eof => "Eof"
  | .indent => "Indent"
  | .dedent => "Dedent"
  | .newline => "Newline"
  | .keyword word => word.label
  | .symbol sign => sign.label
  | .name => "Name"
  | .number => "Number"
  | .string => "String"
  | .typeComment => "TypeComment"
  | .invalid => "Invalid"

/-- Every kind of token. -/
def all : List TokenKind :=
  [eof, indent, dedent, newline] ++ Keyword.all.map keyword ++ Symbol.byPriority.map symbol
    ++ [name, number, string, typeComment, invalid]

theorem mem_all (kind : TokenKind) : kind ∈ all := by
  cases kind with
  | keyword word => simp [all, Keyword.mem_all]
  | symbol sign => simp [all, Symbol.mem_byPriority]
  | _ => simp [all]

/-- The kind listed under a name. -/
def ofLabel? (text : String) : Option TokenKind :=
  all.find? fun kind => kind.label = text

end TokenKind

end PythonSyntax
