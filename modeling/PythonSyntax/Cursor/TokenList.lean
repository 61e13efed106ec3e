/-
**A cursor over given tokens.**

Main definitions:

* `PythonSyntax.TokenList` — the token on which the cursor stands, and those after it;
* `PythonSyntax.TokenList.ofList` — the cursor on the first of some tokens; if the last one does not
  mark the end of the text, such a mark is added.
-/

import PythonSyntax.Cursor.Basic

set_option autoImplicit false

namespace PythonSyntax

/-- A token and those after it. -/
structure TokenList where
  current : Token
  upcoming : List Token
  deriving DecidableEq, Repr

namespace TokenList

/-- The tokens with a mark of the end of the text behind them, unless the last one is such a mark.
`first` stands before `more`. -/
def closed (first : Token) (more : List Token) : List Token :=
  let last := more.getLast?.getD first
  if last.kind = .eof then more else more ++ [Token.eof last.stop]

/-- A cursor on the first of some tokens. -/
def ofList : List Token → TokenList
  | [] => ⟨Token.eof 0, []⟩
  | first :: more => ⟨first, closed first more⟩

/-- The tokens from the current one on. -/
def toList (list : TokenList) : List Token := list.current :: list.upcoming

/-- Moving to the next token; on the last one nothing happens. -/
def advance (list : TokenList) : TokenList :=
  match list.upcoming with
  | [] => list
  | next :: rest => ⟨next, rest⟩

end TokenList

/-- A list of tokens is a cursor that never fails to move. -/
instance : Cursor TokenList where
  current := TokenList.current
  advance list := (none, list.advance)
  opensBlock list := (Lookahead.ofTokens .start list.upcoming).opensBlock
  budget list := list.upcoming.length

end PythonSyntax
