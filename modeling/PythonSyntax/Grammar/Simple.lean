/-
**Simple statements.**

```text
simple_stmt ::= small_stmt (';' small_stmt)* [';'] NEWLINE
expr_stmt   ::= test_list (':' test ['=' value] | augmented_operator value | ('=' value)*)
import_from ::= 'from' (('.' | '...')* dotted_name | ('.' | '...')+)
                'import' ('*' | '(' names ')' | names)
```

Main definitions:

* `PythonSyntax.Grammar.simpleStatement`, `PythonSyntax.Grammar.smallStatement` — statements on a
  line, and one of them;
* `PythonSyntax.Grammar.exprStatement` — expressions, annotations and assignments;
* `PythonSyntax.Grammar.importName`, `PythonSyntax.Grammar.importFrom` — imports.
-/

import PythonSyntax.Grammar.Argument

set_option autoImplicit false

namespace PythonSyntax.Grammar

open Rule Test

/-- Statements on one line, with semicolons between them and the end of the line. -/
def simpleStatement : Rule :=
  steps [
    .call .smallStatement .statements,
    .loop (onSymbol .semiColon) (steps [
      .shift .separators,
      .branch (.on [.newline]) .done (.call .smallStatement .statements)]),
    expect .newline .newline "newline after statement",
    .reduce .simpleStatement]

/-- A statement of one word that is allowed only where the test holds. -/
def guardedWord (word : Keyword) (allowed : Test) (complaint : Complaint) (kind : NodeKind) :
    Test × Rule :=
  (onKeyword word, steps [
    .branch allowed .done (object complaint),
    .shift .token,
    .reduce kind])

/-- One of the statements on a line. -/
def smallStatement : Rule :=
  choose [
    (onKeyword .passKw, steps [.shift .token, .reduce .passStatement]),
    guardedWord .breakKw .inLoop .breakOutsideLoop .breakStatement,
    guardedWord .continueKw .inLoop .continueOutsideLoop .continueStatement,
    (onKeyword .returnKw, .call .returnStatement .left),
    (onKeyword .raiseKw, .call .raiseStatement .left),
    (onKeyword .yieldKw, steps [.call .yieldExpr .expr, .reduce .yieldStatement]),
    (onKeyword .delKw, steps [
      .shift .delToken,
      .call .exprList .targets,
      .reduce .delStatement]),
    (onKeyword .importKw, .call .importName .left),
    (onKeyword .fromKw, .call .importFrom .left),
    (.on [.keyword .globalKw, .keyword .nonlocalKw], .call .nameDeclaration .left),
    (onKeyword .assertKw, .call .assertStatement .left)]
    (.call .exprStatement .left)

/-! ### Expressions and assignments -/

/-- What may be assigned: a list of expressions, or one that yields. -/
def assignmentValue : Rule :=
  .branch (onKeyword .yieldKw) (.call .yieldExpr .left) (.call .testListStarExpr .left)

/-- An operator that assigns, and its right operand. -/
def augmentedOperation (op : AugmentedOperator) : Test × Rule :=
  (.on [op.token], steps [
    .shift .op,
    .branch (onKeyword .yieldKw) (.call .yieldExpr .right) (.call .testList .right),
    .reduce (.augmented op)])

/-- The latest list becomes a target: it takes the sign after it, and a value follows. -/
def assignLatest : Rule :=
  steps [
    .relabel .target,
    .shift .op,
    .reducePair .assignTarget .targets,
    .call .assignmentValue .value]

/-- Expressions alone, an annotated target, or an assignment. -/
def exprStatement : Rule :=
  steps [
    .call .testListStarExpr .left,
    choose (AugmentedOperator.all.map augmentedOperation ++ [
      (onSymbol .colon, steps [
        when (.collected (.latestIs [.testList])) (object .annotatedTuple),
        .shift .colon,
        .call .test .annotated,
        when (onSymbol .assign) (steps [.shift .assign, .call .assignmentValue .value]),
        .reduce .annAssign]),
      (onSymbol .assign, steps [
        assignLatest,
        .loop (onSymbol .assign) assignLatest,
        accept .typeComment .typeComment,
        .reduce .assignment])])
      (steps [.relabel .expr, .reduce .exprStatement])]

/-! ### Statements that begin with a word -/

/-- `'return' [tests]`, in a function only. -/
def returnStatement : Rule :=
  steps [
    .branch .inFunction .done (object .returnOutsideFunction),
    .shift .returnToken,
    when startsStarred (.call .testListStarExpr .value),
    .reduce .returnStatement]

/-- `'raise' [test ['from' test]]`. -/
def raiseStatement : Rule :=
  steps [
    .shift .raiseToken,
    when startsExpression (steps [
      .call .test .exception,
      when (onKeyword .fromKw) (steps [.shift .fromToken, .call .test .cause])]),
    .reduce .raiseStatement]

/-- Names with commas between them, after `global` or `nonlocal`. -/
def declaredNames : Rule :=
  steps [
    expect .name .names "name",
    .loop (onSymbol .comma) (steps [
      .shift .separators,
      expect .name .names "name after ','"])]

/-- `('global' | 'nonlocal') NAME (',' NAME)*`. -/
def nameDeclaration : Rule :=
  .branch (onKeyword .globalKw)
    (steps [.shift .globalToken, declaredNames, .reduce .globalStatement])
    (steps [.shift .nonlocalToken, declaredNames, .reduce .nonlocalStatement])

/-- `'assert' test [',' test]`. -/
def assertStatement : Rule :=
  steps [
    .shift .assertToken,
    .call .test .test,
    when (onSymbol .comma) (steps [.shift .comma, .call .test .message]),
    .reduce .assertStatement]

/-! ### Imports -/

/-- Another name for what is imported. -/
def importAlias : Rule :=
  when (onKeyword .asKw) (steps [.shift .asToken, expect .name .alias "alias after 'as'"])

/-- `NAME ('.' NAME)*`. -/
def dottedName : Rule :=
  steps [
    expect .name .names "module name",
    .loop (onSymbol .dot) (steps [.shift .dots, expect .name .names "name after '.'"]),
    .reduce .dottedName]

/-- `dotted_name ['as' NAME]`. -/
def dottedAsName : Rule :=
  steps [.call .dottedName .name, importAlias, .reduce .dottedAsName]

/-- `NAME ['as' NAME]`. -/
def importAsName : Rule :=
  steps [expect .name .name "name to import", importAlias, .reduce .importAsName]

/-- Objecting if the latest piece is a comma. -/
def refuseTrailingComma (complaint : Complaint) : Rule :=
  when (.collected (.latestAt .separators)) (object complaint)

/-- `'import' dotted_as_name (',' dotted_as_name)*`. -/
def importName : Rule :=
  steps [
    .shift .importToken,
    separated .dottedAsName .names (.on [.name]),
    refuseTrailingComma .trailingImportComma,
    .reduce .importStatement]

/-- Importing names, or all of them, from a module; the module is left out only after dots. -/
def importFrom : Rule :=
  steps [
    .shift .fromToken,
    .loop (.on [.symbol .dot, .symbol .ellipsis]) (.shift .dots),
    when (.either (.on [.name]) (.not (.collected (.latestAt .dots))))
      (.call .dottedName .moduleName),
    expect (.keyword .importKw) .importToken "'import'",
    choose [
      (onSymbol .mul, .shift .star),
      (onSymbol .leftParen, steps [
        .shift .lparen,
        separated .importAsName .names (.on [.name]),
        expectSymbol .rightParen .rparen "')' after imported names"])]
      (steps [
        separated .importAsName .names (.on [.name]),
        refuseTrailingComma .trailingImportComma]),
    .reduce .importFrom]

end PythonSyntax.Grammar
