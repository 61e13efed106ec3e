/-
**The grammar as a whole, and where reading can start.**

Main definitions:

* `PythonSyntax.Grammar.python` — the rule of every name;
* `PythonSyntax.Entry` — a module, an interactive statement, or an expression;
* `PythonSyntax.Entry.rule`, `PythonSyntax.Entry.kind` — what is read, and the node it makes.
-/

import PythonSyntax.Grammar.Compound

set_option autoImplicit false

namespace PythonSyntax

/-- The rule of every name. -/
def Grammar.python : Grammar
  | .test => Grammar.test
  | .testNoCondition => Grammar.testNoCondition
  | .namedExprTest => Grammar.namedExprTest
  | .orTest => Grammar.binaryLevel [.disjunction] .andTest
  | .andTest => Grammar.binaryLevel [.conjunction] .notTest
  | .notTest => Grammar.notTest
  | .comparison => Grammar.comparison
  | .expr => Grammar.binaryLevel [.bitOr] .xorExpr
  | .xorExpr => Grammar.binaryLevel [.bitXor] .andExpr
  | .andExpr => Grammar.binaryLevel [.bitAnd] .shiftExpr
  | .shiftExpr => Grammar.binaryLevel [.shiftLeft, .shiftRight] .arithExpr
  | .arithExpr => Grammar.binaryLevel [.plus, .minus] .term
  | .term => Grammar.binaryLevel [.mul, .div, .floorDiv, .modulo, .matMul] .factor
  | .factor => Grammar.factor
  | .power => Grammar.power
  | .atomExpr => Grammar.atomExpr
  | .lambda => Grammar.lambdaWith .test
  | .lambdaNoCondition => Grammar.lambdaWith .testNoCondition
  | .trailer => Grammar.trailer
  | .atom => Grammar.atom
  | .parenthesized => Grammar.parenthesized
  | .listDisplay => Grammar.listDisplay
  | .curlyDisplay => Grammar.curlyDisplay
  | .curlyItems => Grammar.curlyItems
  | .dictItem => Grammar.dictItem
  | .dictUnpack => Grammar.dictUnpack
  | .subscriptList => Grammar.subscriptList
  | .subscript => Grammar.subscript
  | .starExpr => Grammar.starExpr
  | .starOrTest => Grammar.starOr .test
  | .starOrExpr => Grammar.starOr .expr
  | .starOrNamedExpr => Grammar.starOr .namedExprTest
  | .displayItems => Grammar.displayItems
  | .namedExprList => Grammar.namedExprList
  | .exprList => Grammar.exprList
  | .testList => Grammar.testList
  | .testListStarExpr => Grammar.testListStarExpr
  | .compFor => Grammar.compFor
  | .compIf => Grammar.compIf
  | .argList => Grammar.argList
  | .argument => Grammar.argument
  | .parameters typed => Grammar.parameters typed
  | .parameter typed withDefault => Grammar.parameter typed withDefault
  | .starParameter typed => Grammar.starParameter typed
  | .doubleStarParameter typed => Grammar.doubleStarParameter typed
  | .positionalOnly => Grammar.positionalOnly
  | .yieldExpr => Grammar.yieldExpr
  | .statement => Grammar.statement
  | .simpleStatement => Grammar.simpleStatement
  | .smallStatement => Grammar.smallStatement
  | .exprStatement => Grammar.exprStatement
  | .assignmentValue => Grammar.assignmentValue
  | .returnStatement => Grammar.returnStatement
  | .raiseStatement => Grammar.raiseStatement
  | .importName => Grammar.importName
  | .importFrom => Grammar.importFrom
  | .dottedName => Grammar.dottedName
  | .dottedAsName => Grammar.dottedAsName
  | .importAsName => Grammar.importAsName
  | .nameDeclaration => Grammar.nameDeclaration
  | .assertStatement => Grammar.assertStatement
  | .suite => Grammar.suite
  | .ifStatement => Grammar.ifStatement
  | .elifClause => Grammar.elifClause
  | .elseClause => Grammar.elseClause
  | .whileStatement => Grammar.whileStatement
  | .forStatement => Grammar.forStatement
  | .tryStatement => Grammar.tryStatement
  | .exceptClause => Grammar.exceptClause
  | .finallyClause => Grammar.finallyClause
  | .withStatement => Grammar.withStatement
  | .withItem => Grammar.withItem
  | .matchStatement => Grammar.matchStatement
  | .caseBlock => Grammar.caseBlock
  | .patterns => Grammar.patterns
  | .asPattern => Grammar.asPattern
  | .decorated => Grammar.decorated
  | .decorators => Grammar.decorators
  | .decorator => Grammar.decorator
  | .asyncStatement => Grammar.asyncStatement
  | .functionDef => Grammar.functionDef
  | .classDef => Grammar.classDef

/-- What is read as a whole. -/
inductive Entry where
  /-- A module: statements up to the end of the text. -/
  | file
  /-- An interactive statement: a line end, a line, or a compound statement. -/
  | single
  /-- A list of expressions up to the end of the text. -/
  | eval
  deriving DecidableEq, Repr

namespace Entry

open Rule Test

/-- The node that is made of what is read. -/
def kind : Entry → NodeKind
  | .file => .fileInput
  | .single => .singleInput
  | .eval => .evalInput

/-- What is read. -/
def rule : Entry → Rule
  | .file =>
    steps [
      .loop (.not (.on [.eof]))
        (.branch (.on [.newline]) (.shift .newlines) (.call .statement .statements)),
      expect .eof .eof "end of file"]
  | .single =>
    choose [
      (.on [.newline], .shift .newline),
      (.on [.eof], .done),
      (Grammar.startsCompound,
        steps [.call .statement .statement, accept .newline .newline])]
      (.call .simpleStatement .statement)
  | .eval =>
    steps [
      .call .testList .right,
      .loop (.on [.newline]) (.shift .newlines),
      expect .eof .eof "end of input"]

/-- The name of the entry. -/
def label : Entry → String
  | .file => "file"
  | .single => "single"
  | .eval => "eval"

/-- The entry with a name. -/
def ofLabel? (text : String) : Option Entry :=
  [file, single, eval].find? fun entry => entry.label = text

end Entry

end PythonSyntax
