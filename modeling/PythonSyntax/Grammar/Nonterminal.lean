/-
**The rules of the grammar, by name.**

Main definitions:

* `PythonSyntax.Nonterminal` — the names.
-/

set_option autoImplicit false

namespace PythonSyntax

/-- The names of the rules. -/
inductive Nonterminal where
  -- the ladder of operators
  | test | testNoCondition | namedExprTest | orTest | andTest | notTest | comparison | expr
  | xorExpr | andExpr | shiftExpr | arithExpr | term | factor | power | atomExpr
  | lambda | lambdaNoCondition
  -- atoms and what follows them
  | trailer | atom | parenthesized | listDisplay | curlyDisplay | curlyItems | dictItem
  | dictUnpack | subscriptList | subscript
  -- elements and lists of elements
  | starExpr | starOrTest | starOrExpr | starOrNamedExpr | displayItems | namedExprList | exprList
  | testList | testListStarExpr
  -- comprehensions
  | compFor | compIf
  -- arguments and parameters
  | argList | argument | parameters (typed : Bool) | parameter (typed withDefault : Bool)
  | starParameter (typed : Bool) | doubleStarParameter (typed : Bool) | positionalOnly
  | yieldExpr
  -- simple statements
  | statement | simpleStatement | smallStatement | exprStatement | assignmentValue
  | returnStatement | raiseStatement | importName | importFrom | dottedName | dottedAsName
  | importAsName | nameDeclaration | assertStatement
  -- compound statements
  | suite | ifStatement | elifClause | elseClause | whileStatement | forStatement | tryStatement
  | exceptClause | finallyClause | withStatement | withItem | matchStatement | caseBlock
  | patterns | asPattern
  -- definitions
  | decorated | decorators | decorator | asyncStatement | functionDef | classDef
  deriving DecidableEq, Repr

end PythonSyntax
