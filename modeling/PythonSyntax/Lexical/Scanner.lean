/-
**The scanner: tokens of a text, one at a time.**

The scanner keeps the characters that are left, the open blocks, the depth of open brackets, and
where in its logical line it stands.  A token is read by steps; a step passes trivia, finds a token,
or meets a fault.  After a fault the scanner can go on, behind the characters at fault.

Main definitions:

* `PythonSyntax.Options` — the tab size, and whether type comments are tokens;
* `PythonSyntax.Scanner` — the state of the scanner, with the token it stands on;
* `PythonSyntax.Scanner.step` — one step towards the next token;
* `PythonSyntax.Scanner.next`, `PythonSyntax.Scanner.advance` — the next token, and moving to it;
* `PythonSyntax.Scanner.ofText` — a scanner on the first token of a text;
* `PythonSyntax.tokenize` — all tokens of a text, the end of the text included.
-/

import PythonSyntax.Lexical.Indentation
import PythonSyntax.Lexical.Lookahead

set_option autoImplicit false

namespace PythonSyntax

/-- How a text is to be read. -/
structure Options where
  /-- The columns to whose multiples a tab leads. -/
  tabSize : Nat := 8
  /-- Whether a comment after code that declares a type is a token. -/
  typeComments : Bool := false
  deriving DecidableEq, Repr

/-- The state of the scanner. -/
structure Scanner where
  /-- The characters that are left. -/
  rest : List Char
  /-- The number of characters passed. -/
  offset : Nat
  options : Options
  /-- The indentation of the open blocks, and the margin. -/
  indents : Indents
  /-- The number of open brackets. -/
  nesting : Nat
  /-- Whether the indentation of a new line is still to be measured. -/
  atLineStart : Bool
  /-- Whether the logical line holds a token. -/
  lineHasContent : Bool
  /-- Tokens that are found but not delivered. -/
  pending : List Token
  /-- The token on which the scanner stands. -/
  current : Token
  deriving DecidableEq, Repr

/-- What a step comes to. -/
inductive Found where
  /-- Only trivia was passed. -/
  | trivia (pieces : List Trivia)
  /-- A token, with trivia before it. -/
  | token (pieces : List Trivia) (token : Token)
  | fault (fault : LexicalFault) (position : Nat)
  deriving DecidableEq, Repr

/-- What was found, with further trivia in front. -/
def Found.after (pieces : List Trivia) : Found → Found
  | .trivia more => .trivia (pieces ++ more)
  | .token more t => .token (pieces ++ more) t
  | .fault cause position => .fault cause position

namespace Scanner

/-- The scanner after passing `count` characters. -/
def skip (s : Scanner) (count : Nat) : Scanner :=
  { s with rest := s.rest.drop count, offset := s.offset + count }

/-- The next `count` characters as trivia. -/
def piece (s : Scanner) (kind : TriviaKind) (count : Nat) : Trivia :=
  ⟨s.offset, s.offset + count, kind, String.ofList (s.rest.take count)⟩

/-- The next `count` characters as a token. -/
def lexeme (s : Scanner) (kind : TokenKind) (count : Nat) : Token :=
  ⟨s.offset, s.offset + count, kind,
    if Lexeme.carriesText kind then some (String.ofList (s.rest.take count)) else none, []⟩

/-- A token without width, where the scanner stands. -/
def mark (s : Scanner) (kind : TokenKind) : Token := Token.mark s.offset s.offset kind

/-- Passing the next `count` characters as trivia. -/
def passTrivia (s : Scanner) (kind : TriviaKind) (count : Nat) : Found × Scanner :=
  (.trivia [s.piece kind count], s.skip count)

/-- The bracket depth after a token. -/
def nestingAfter (nesting : Nat) (kind : TokenKind) : Nat :=
  if kind.opens then nesting + 1 else if kind.closes then nesting - 1 else nesting

/-- The tokens that end a text: the end of an unfinished line, of each open block, and of the text.
The first is found and the others are kept. -/
def finish (s : Scanner) : Found × Scanner :=
  let closing := List.replicate s.indents.blocks.length (s.mark .dedent)
  if s.lineHasContent then
    (.token [] (Token.literal s.offset s.offset .newline ""),
      { s with
        lineHasContent := false, atLineStart := true, indents := .atMargin,
        pending := s.pending ++ closing ++ [Token.eof s.offset] })
  else
    match closing with
    | [] => (.token [] (Token.eof s.offset), s)
    | first :: more =>
      (.token [] first,
        { s with indents := .atMargin, pending := s.pending ++ more ++ [Token.eof s.offset] })

/-- The token at the front of the text. -/
def readToken (s : Scanner) : Found × Scanner :=
  let found := Lexeme.read s.rest
  match found.fault with
  | some fault => (.fault fault s.offset, s.skip found.length)
  | none =>
    (.token [] (s.lexeme found.kind found.length),
      { s.skip found.length with
        nesting := nestingAfter s.nesting found.kind, lineHasContent := true })

/-- A step within a line.  A line break ends the logical line unless a bracket is open or the line
holds no token yet. -/
def stepInLine (s : Scanner) : Found × Scanner :=
  match s.rest with
  | [] => s.finish
  | c :: rest =>
    if Lexeme.isSpace c then
      s.passTrivia .whitespace (Lexeme.spaces s.rest)
    else if c = '#' then
      match Lexeme.typeComment? s.rest with
      | some count =>
        if s.options.typeComments && s.lineHasContent then
          (.token [] (s.lexeme .typeComment count), s.skip count)
        else
          s.passTrivia .comment (Lexeme.comment s.rest)
      | none => s.passTrivia .comment (Lexeme.comment s.rest)
    else if c = '\\' && rest.head?.any Lexeme.isLineEnd then
      s.passTrivia .continuation (1 + Lexeme.lineBreak rest)
    else if Lexeme.isLineEnd c then
      let count := Lexeme.lineBreak s.rest
      if 0 < s.nesting || !s.lineHasContent then
        s.passTrivia .newline count
      else
        (.token [] (s.lexeme .newline count),
          { s.skip count with atLineStart := true, lineHasContent := false })
    else
      s.readToken

/-- The scanner behind the indentation of a line that holds something. -/
def begun (s : Scanner) (width : Nat) : Scanner :=
  { s with atLineStart := false, indents := (s.indents.change width).2 }

@[simp] theorem blocks_begun (s : Scanner) (width : Nat) :
    (s.begun width).indents.blocks = (Indentation.change s.indents.blocks width).2 :=
  s.indents.blocks_change width

/-- A step behind the indentation of a line, which is `width` wide.  Only a line that holds
something other than a comment is compared with the open blocks. -/
def stepAtIndentation (s : Scanner) (width : Nat) : Found × Scanner :=
  match s.rest with
  | [] => s.finish
  | c :: _ =>
    if c = '#' then
      s.passTrivia .comment (Lexeme.comment s.rest)
    else if Lexeme.isLineEnd c then
      s.passTrivia .newline (Lexeme.lineBreak s.rest)
    else
      match (s.indents.change width).1 with
      | .stays => (s.begun width).stepInLine
      | .opens => (.token [] (s.mark .indent), s.begun width)
      | .closes count =>
        (.token [] (s.mark .dedent),
          { s.begun width with
            pending := s.pending ++ List.replicate (count - 1) (s.mark .dedent) })
      | .unmatched => (.fault .unmatchedUnindent s.offset, s.begun width)

/-- A step at the start of a line, outside brackets. -/
def stepAtLineStart (s : Scanner) : Found × Scanner :=
  let count := Lexeme.spaces s.rest
  let blanks := if count = 0 then [] else [s.piece .whitespace count]
  let width := Indentation.width s.options.tabSize (s.rest.take count)
  let (found, t) := (s.skip count).stepAtIndentation width
  (found.after blanks, t)

/-- One step towards the next token. -/
def step (s : Scanner) : Found × Scanner :=
  if s.atLineStart && s.nesting = 0 then s.stepAtLineStart else s.stepInLine

/-- Steps up to a token or a fault; `trivia` has been passed before.  Each step that passes only
trivia passes a character of the text, so `bound`, the characters that were left at first, bounds
their number. -/
def read (bound : List Char) (trivia : List Trivia) (s : Scanner) :
    Except SyntaxError Token × Scanner :=
  match s.step, bound with
  | (.token pieces token, s), _ => (.ok (token.withTrivia (trivia ++ pieces)), s)
  | (.fault fault position, s), _ => (.error ⟨.lexical fault, position⟩, s)
  | (.trivia pieces, s), _ :: bound => read bound (trivia ++ pieces) s
  | (.trivia _, s), [] => (.error ⟨.exhausted, s.offset⟩, s)

/-- The next token: one that was kept, or else one read off the text. -/
def next (s : Scanner) : Except SyntaxError Token × Scanner :=
  match s.pending with
  | token :: pending => (.ok token, { s with pending := pending })
  | [] => read s.rest [] s

/-- Moving to the next token; at the end of the text nothing happens.  After a fault the scanner
still stands on the same token. -/
def advance (s : Scanner) : Option SyntaxError × Scanner :=
  if s.current.kind = .eof then (none, s)
  else
    match s.next with
    | (.ok token, s) => (none, { s with current := token })
    | (.error error, s) => (some error, s)

/-- Whether the rest of the logical line, after the current token, opens a block. -/
def opensBlock (s : Scanner) : Bool := (Lookahead.ofText .code .start s.rest).opensBlock

/-- A scanner before the first token of a text. -/
def initial (options : Options) (text : List Char) : Scanner :=
  ⟨text, 0, options, .atMargin, 0, true, false, [], Token.eof 0⟩

/-- A scanner on the first token of a text. -/
def ofText (options : Options) (text : List Char) : Except SyntaxError Scanner :=
  match (initial options text).next with
  | (.ok token, s) => .ok { s with current := token }
  | (.error error, _) => .error error

/-- A bound on the tokens that are still to come: a character yields at most a token and opens a
block, a block yields a token when it closes, and the end of the text yields up to two. -/
def budget (s : Scanner) : Nat :=
  3 * s.rest.length + 2 * s.indents.blocks.length + s.pending.length +
    (if s.lineHasContent then 2 else 0) + 3

/-- The current token and those after it, at most `fuel` more. -/
def tokensFrom : Nat → Scanner → Except SyntaxError (List Token)
  | 0, s => .error ⟨.exhausted, s.offset⟩
  | fuel + 1, s =>
    if s.current.kind = .eof then .ok [s.current]
    else
      match s.advance with
      | (some error, _) => .error error
      | (none, t) => (tokensFrom fuel t).map (s.current :: ·)

end Scanner

/-- All tokens of a text, up to the one that marks its end. -/
def tokenize (options : Options) (text : List Char) : Except SyntaxError (List Token) := do
  let s ← Scanner.ofText options text
  s.tokensFrom s.budget

end PythonSyntax
