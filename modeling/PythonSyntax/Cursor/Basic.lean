/-
**Cursors: what a parser sees of its tokens.**

A parser looks at one token at a time and never goes back.  It asks for one thing more: whether the
rest of the logical line opens a block.

Main definitions:

* `PythonSyntax.Cursor` — the class of types of cursors;
* `PythonSyntax.Cursor.position` — the offset of the current token;
* `PythonSyntax.WithoutLookahead` — a cursor that never finds that a line opens a block;
* an instance of `PythonSyntax.Cursor` for the scanner.
-/

import PythonSyntax.Lexical.Scanner

set_option autoImplicit false

namespace PythonSyntax

/-- A cursor stands on a token and moves forwards.  When moving fails, the cursor that is left still
stands on the same token.  The end of the text is never left. -/
class Cursor (σ : Type) where
  current : σ → Token
  advance : σ → Option SyntaxError × σ
  /-- Whether the rest of the logical line, after the current token, opens a block. -/
  opensBlock : σ → Bool
  /-- A bound on the tokens that are still to come. -/
  budget : σ → Nat

/-- The offset of the current token. -/
def Cursor.position {σ : Type} [Cursor σ] (cursor : σ) : Nat := (Cursor.current cursor).start

/-- The scanner is a cursor over the tokens of its text. -/
instance : Cursor Scanner where
  current := Scanner.current
  advance := Scanner.advance
  opensBlock := Scanner.opensBlock
  budget := Scanner.budget

/-- A cursor that never finds that a line opens a block. -/
structure WithoutLookahead (σ : Type) where
  cursor : σ

/-- It moves as the cursor inside does. -/
instance {σ : Type} [Cursor σ] : Cursor (WithoutLookahead σ) where
  current c := Cursor.current c.cursor
  advance c := let (error, next) := Cursor.advance c.cursor; (error, ⟨next⟩)
  opensBlock _ := false
  budget c := Cursor.budget c.cursor

end PythonSyntax
