/-
**What a rule of the grammar is made of.**

A rule is read from left to right.  It takes tokens and calls other rules; what they yield is
collected, each piece under the field that it takes, until the rule makes a node of it.  Which way
to go is decided by the current token, by the enclosing loops and functions, and by what has been
collected.

Main definitions:

* `PythonSyntax.Shape` — what can be asked about the collected pieces;
* `PythonSyntax.Test` — what can be asked where the ways part;
* `PythonSyntax.Rule` — rules;
* `PythonSyntax.Rule.steps`, `PythonSyntax.Rule.choose`, `PythonSyntax.Rule.expect` — rules put
  together from others;
* `PythonSyntax.Grammar` — a rule for every name.
-/

import PythonSyntax.Grammar.Nonterminal
import PythonSyntax.SyntaxError
import PythonSyntax.Tree.NodeKind

set_option autoImplicit false

namespace PythonSyntax

/-- Questions about the pieces that a rule has collected. -/
inductive Shape where
  /-- There are none. -/
  | nothing
  /-- There are at least two. -/
  | several
  /-- The latest takes the field. -/
  | latestAt (field : Field)
  /-- The latest is a node of one of the kinds. -/
  | latestIs (kinds : List NodeKind)
  /-- The latest is of one of the kinds, or its first child is. -/
  | latestBeginsWith (kinds : List NodeKind)
  /-- The latest has a child of the kind. -/
  | latestHolds (kind : NodeKind)
  /-- The latest has a child that takes the field. -/
  | latestHas (field : Field)
  /-- One of them is of the kind. -/
  | someIs (kind : NodeKind)
  /-- One of them has a child that takes the field. -/
  | someHas (field : Field)
  /-- One of them is of the kind and lacks the field, and none after it is of the kind `closing`. -/
  | unanswered (kind : NodeKind) (field : Field) (closing : NodeKind)
  deriving DecidableEq, Repr

/-- Questions that decide which way a rule goes. -/
inductive Test where
  /-- The current token is of one of the kinds. -/
  | on (kinds : List TokenKind)
  /-- The current token is a name with the spelling. -/
  | onName (word : String)
  /-- The rest of the logical line opens a block. -/
  | lineOpensBlock
  /-- The rule is read in the body of a loop. -/
  | inLoop
  /-- The rule is read in the body of a function. -/
  | inFunction
  | collected (shape : Shape)
  | not (test : Test)
  | both (first second : Test)
  | either (first second : Test)
  deriving DecidableEq, Repr

/-- The bodies that change what `break`, `return` and their like may do. -/
inductive Scope where
  | loopBody
  | functionBody
  | classBody
  deriving DecidableEq, Repr

/-- Where an objection is reported. -/
inductive Place where
  /-- At the current token. -/
  | here
  /-- At the beginning of the latest piece. -/
  | latest
  /-- At the beginning of the first piece of the kind. -/
  | firstOf (kind : NodeKind)
  deriving DecidableEq, Repr

/-- A rule of the grammar. -/
inductive Rule where
  /-- Nothing is left to read. -/
  | done
  /-- One part and then another. -/
  | seq (first second : Rule)
  /-- Taking the current token. -/
  | shift (field : Field)
  /-- Reading what another rule describes. -/
  | call (name : Nonterminal) (field : Field)
  /-- Making one node of all pieces.  It takes the field `left`, as the first operand of whatever
  may follow. -/
  | reduce (kind : NodeKind)
  /-- Making one node of the latest two pieces. -/
  | reducePair (kind : NodeKind) (field : Field)
  /-- Giving the latest piece another field. -/
  | relabel (field : Field)
  /-- Replacing the latest piece by its children, each of which takes the field. -/
  | unwrap (field : Field)
  | branch (test : Test) (yes no : Rule)
  /-- Reading `body` again and again, as long as the test holds before it. -/
  | loop (test : Test) (body : Rule)
  /-- Reading in the body of a loop, a function or a class. -/
  | within (scope : Scope) (body : Rule)
  /-- Giving up. -/
  | refuse (complaint : Complaint) (place : Place)
  deriving DecidableEq, Repr

/-- A rule for every name. -/
abbrev Grammar := Nonterminal → Rule

/-! ### Tests -/

namespace Test

/-- The current token is a given symbol. -/
def onSymbol (sign : Symbol) : Test := .on [.symbol sign]

/-- The current token is a given reserved word. -/
def onKeyword (word : Keyword) : Test := .on [.keyword word]

end Test

/-! ### Rules -/

namespace Rule

/-- Rules in a row. -/
def steps : List Rule → Rule
  | [] => .done
  | rule :: rest => .seq rule (steps rest)

/-- The rule of the first test that holds, or `otherwise`. -/
def choose (cases : List (Test × Rule)) (otherwise : Rule) : Rule :=
  match cases with
  | [] => otherwise
  | (test, rule) :: rest => .branch test rule (choose rest otherwise)

/-- The rule if the test holds. -/
def when (test : Test) (rule : Rule) : Rule := .branch test rule .done

/-- Objecting at the current token. -/
def object (complaint : Complaint) : Rule := .refuse complaint .here

/-- A token of the kind; `what` is said to be expected otherwise. -/
def expect (kind : TokenKind) (field : Field) (what : String) : Rule :=
  .branch (.on [kind]) (.shift field) (object (.expected what))

/-- A symbol; `what` is said to be expected otherwise. -/
def expectSymbol (sign : Symbol) (field : Field) (what : String) : Rule :=
  expect (.symbol sign) field what

/-- A token of the kind, if there is one. -/
def accept (kind : TokenKind) (field : Field) : Rule := when (.on [kind]) (.shift field)

/-- Elements with commas between them.  After a comma the list goes on if `continues` holds; two
commas in a row are refused. -/
def separated (element : Nonterminal) (field : Field) (continues : Test) : Rule :=
  steps [
    .call element field,
    .loop (.onSymbol .comma) (steps [
      .shift .separators,
      .branch (.onSymbol .comma) (object .doubledComma) (when continues (.call element field))])]

end Rule

end PythonSyntax
