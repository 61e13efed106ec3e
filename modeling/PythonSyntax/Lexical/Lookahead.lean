/-
**Looking ahead to the end of a logical line.**

Whether a name begins a statement with a block of its own depends on how its logical line ends: with
a colon outside all brackets, and with something before that colon.

Main definitions:

* `PythonSyntax.Lookahead` — what is known of the part of the line read so far;
* `PythonSyntax.Lookahead.opensBlock` — whether the line, ending there, opens a block;
* `PythonSyntax.Lookahead.ofText` — the rest of a logical line, read off its characters;
* `PythonSyntax.Lookahead.ofTokens` — the rest of a logical line, read off its tokens.
-/

import PythonSyntax.Lexical.Lexeme

set_option autoImplicit false

namespace PythonSyntax

/-- What is known of a part of a logical line. -/
structure Lookahead where
  /-- The brackets that are open. -/
  depth : Nat
  /-- The pieces met so far. -/
  pieces : Nat
  /-- Whether the last piece is a colon outside all brackets. -/
  colon : Bool
  deriving DecidableEq, Repr

namespace Lookahead

/-- Nothing has been met. -/
def start : Lookahead := ⟨0, 0, false⟩

/-- One more piece: a bracket of either sort, a colon, or anything else. -/
def meet (look : Lookahead) (opens closes colon : Bool) : Lookahead :=
  let depth := if opens then look.depth + 1 else if closes then look.depth - 1 else look.depth
  ⟨depth, look.pieces + 1, colon && depth = 0⟩

/-- One more piece that is neither a bracket nor a colon. -/
def meetOther (look : Lookahead) : Lookahead := look.meet false false false

/-- Whether a line that ends here opens a block. -/
def opensBlock (look : Lookahead) : Bool := look.colon && 2 ≤ look.pieces

/-! ### Characters -/

/-- Where in the text a character stands. -/
inductive Region where
  | code
  | comment
  | quoted (quote : Char) (triple : Bool)
  deriving DecidableEq, Repr

/-- One more character of code. -/
def meetChar (look : Lookahead) (c : Char) : Lookahead :=
  look.meet (c = '(' || c = '[' || c = '{') (c = ')' || c = ']' || c = '}') (c = ':')

/-- The logical line up to the end of the text, or to the first line break that is in code, outside
brackets and without a backslash before it.  A string counts as one piece and every other character
of code as one, but `:=` as one; after a backslash in a string one character is passed. -/
def ofText : Region → Lookahead → List Char → Lookahead
  | _, look, [] => look
  | .comment, look, c :: rest =>
    if Lexeme.isLineEnd c then
      if look.depth = 0 then look else ofText .code look rest
    else ofText .comment look rest
  | .quoted quote triple, look, c :: rest =>
    if c = '\\' then
      match rest with
      | [] => look
      | _ :: rest => ofText (.quoted quote triple) look rest
    else if !triple && Lexeme.isLineEnd c then
      if look.depth = 0 then look else ofText .code look rest
    else if c = quote then
      if !triple then ofText .code look rest
      else
        match rest with
        | a :: b :: rest' =>
          if a = quote && b = quote then ofText .code look rest'
          else ofText (.quoted quote triple) look (a :: b :: rest')
        | rest => ofText (.quoted quote triple) look rest
    else ofText (.quoted quote triple) look rest
  | .code, look, c :: rest =>
    if c = '#' then ofText .comment look rest
    else if c = '\\' && rest.head?.any Lexeme.isLineEnd then
      match rest with
      | '\r' :: '\n' :: rest => ofText .code look rest
      | _ :: rest => ofText .code look rest
      | [] => look
    else if Lexeme.isLineEnd c && look.depth = 0 then look
    else if Lexeme.isSpace c || Lexeme.isLineEnd c then ofText .code look rest
    else if Quotation.isQuote c then
      match rest with
      | a :: b :: rest' =>
        if a = c && b = c then ofText (.quoted c true) look.meetOther rest'
        else ofText (.quoted c false) look.meetOther (a :: b :: rest')
      | rest => ofText (.quoted c false) look.meetOther rest
    else if c = ':' then
      match rest with
      | '=' :: rest => ofText .code look.meetOther rest
      | rest => ofText .code (look.meetChar c) rest
    else ofText .code (look.meetChar c) rest

/-! ### Tokens -/

/-- One more token. -/
def meetToken (look : Lookahead) (kind : TokenKind) : Lookahead :=
  look.meet kind.opens kind.closes (kind = .symbol .colon)

/-- The logical line up to the first line end, or the end of the text, outside brackets. -/
def ofTokens : Lookahead → List Token → Lookahead
  | look, [] => look
  | look, token :: rest =>
    if (token.kind = .newline || token.kind = .eof) && look.depth = 0 then look
    else if token.kind = .typeComment || token.kind = .newline then ofTokens look rest
    else ofTokens (look.meetToken token.kind) rest

end Lookahead

end PythonSyntax
