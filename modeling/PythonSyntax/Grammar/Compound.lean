/-
**Compound statements and definitions.**

```text
suite      ::= simple_stmt | NEWLINE INDENT stmt+ DEDENT
try_stmt   ::= 'try' ':' suite (except_clause+ ['else' ':' suite] ['finally' ':' suite]
               | 'finally' ':' suite)
match_stmt ::= "match" subject ':' NEWLINE INDENT case_block+ DEDENT
decorated  ::= decorator+ (class_def | function_def | async_function_def)
```

Main definitions:

* `PythonSyntax.Grammar.statement` — any statement, told apart by its first token;
* `PythonSyntax.Grammar.suite` — the body of a statement, on its line or in a block;
* the rules of the single statements.
-/

import PythonSyntax.Grammar.Simple

set_option autoImplicit false

namespace PythonSyntax.Grammar

open Rule Test

/-! ### Which statement begins -/

/-- A name `match` begins a statement if its line opens a block. -/
def startsMatch : Test := .both (.onName "match") .lineOpensBlock

/-- The current token begins a compound statement. -/
def startsCompound : Test :=
  .either
    (.on [.keyword .ifKw, .keyword .whileKw, .keyword .forKw, .keyword .tryKw, .keyword .withKw,
      .keyword .defKw, .keyword .classKw, .symbol .matMul, .keyword .asyncKw])
    startsMatch

/-- Any statement.  Blocks begin only where a suite allows it. -/
def statement : Rule :=
  choose [
    (onKeyword .ifKw, .call .ifStatement .left),
    (onKeyword .whileKw, .call .whileStatement .left),
    (onKeyword .forKw, .call .forStatement .left),
    (onKeyword .tryKw, .call .tryStatement .left),
    (onKeyword .withKw, .call .withStatement .left),
    (onKeyword .defKw, .call .functionDef .left),
    (onKeyword .classKw, .call .classDef .left),
    (onSymbol .matMul, .call .decorated .left),
    (onKeyword .asyncKw, .call .asyncStatement .left),
    (startsMatch, .call .matchStatement .left),
    (.on [.indent], object .unexpectedIndent),
    (.on [.dedent], object .unexpectedUnindent)]
    (.call .simpleStatement .left)

/-! ### Bodies -/

/-- At least one piece of the sort, up to the end of the block. -/
def untilDedent (piece : Nonterminal) (field : Field) : Rule :=
  steps [.call piece field, .loop (.not (.on [.dedent, .eof])) (.call piece field)]

/-- A body: statements on the line of the header, or an indented block. -/
def suite : Rule :=
  .branch (.on [.newline])
    (steps [
      .shift .newline,
      expect .indent .indent "an indented block",
      untilDedent .statement .statements,
      expect .dedent .dedent "end of indented block",
      .reduce .block])
    (.call .simpleStatement .left)

/-- A colon and the body after it; `what` says after what the colon is expected. -/
def colonSuite (what : String) : Rule :=
  steps [expectSymbol .colon .colon what, .call .suite .body]

/-- A colon, a type comment if there is one, and the body after it. -/
def colonCommentSuite (what : String) (body : Rule) : Rule :=
  steps [expectSymbol .colon .colon what, accept .typeComment .typeComment, body]

/-- An `else` clause, if there is one. -/
def acceptElse : Rule := when (onKeyword .elseKw) (.call .elseClause .elseClause)

/-! ### Conditions and loops -/

/-- `'if' test suite ('elif' test suite)* ['else' suite]`. -/
def ifStatement : Rule :=
  steps [
    .shift .ifToken,
    .call .namedExprTest .test,
    colonSuite "':' after 'if' condition",
    .loop (onKeyword .elifKw) (.call .elifClause .elifs),
    acceptElse,
    .reduce .ifStatement]

/-- `'elif' test suite`. -/
def elifClause : Rule :=
  steps [
    .shift .elifToken,
    .call .namedExprTest .test,
    colonSuite "':' after 'elif' condition",
    .reduce .elifClause]

/-- `'else' suite`. -/
def elseClause : Rule :=
  steps [.shift .elseToken, colonSuite "':' after 'else'", .reduce .elseClause]

/-- The `else` clause of a loop is not in the loop. -/
def whileStatement : Rule :=
  steps [
    .shift .whileToken,
    .call .namedExprTest .test,
    expectSymbol .colon .colon "':' after 'while' condition",
    .within .loopBody (.call .suite .body),
    acceptElse,
    .reduce .whileStatement]

/-- `'for' targets 'in' tests suite ['else' suite]`; the `else` clause is not in the loop. -/
def forStatement : Rule :=
  steps [
    .shift .forToken,
    .call .exprList .targets,
    expect (.keyword .inKw) .inToken "'in' in 'for' statement",
    .call .testList .iterable,
    colonCommentSuite "':' after 'for' iterable" (.within .loopBody (.call .suite .body)),
    acceptElse,
    .reduce .forStatement]

/-! ### Handlers and contexts -/

/-- There has to be a handler or a `finally` clause; an `else` clause follows handlers only. -/
def tryStatement : Rule :=
  steps [
    .shift .tryToken,
    colonSuite "':' after 'try'",
    .loop (onKeyword .exceptKw) (.call .exceptClause .handlers),
    when (.collected (.latestAt .handlers)) acceptElse,
    when (onKeyword .finallyKw) (.call .finallyClause .finallyClause),
    when (.collected (.latestAt .body)) (object (.expected "'except' or 'finally' block")),
    .reduce .tryStatement]

/-- `'except' [test ['as' NAME]] suite`. -/
def exceptClause : Rule :=
  steps [
    .shift .exceptToken,
    .branch (onSymbol .colon) .done (steps [
      .call .test .test,
      when (onKeyword .asKw) (steps [.shift .asToken, expect .name .name "name after 'as'"])]),
    colonSuite "':' after 'except' clause",
    .reduce .exceptClause]

/-- `'finally' suite`. -/
def finallyClause : Rule :=
  steps [.shift .finallyToken, colonSuite "':' after 'finally'", .reduce .finallyClause]

/-- `'with' item (',' item)* suite`. -/
def withStatement : Rule :=
  steps [
    .shift .withToken,
    separated .withItem .items startsExpression,
    refuseTrailingComma .trailingItemComma,
    colonCommentSuite "':' after 'with' items" (.call .suite .body),
    .reduce .withStatement]

/-- `test ['as' expr]`. -/
def withItem : Rule :=
  steps [
    .call .test .context,
    when (onKeyword .asKw) (steps [.shift .asToken, .call .expr .target]),
    .reduce .withItem]

/-! ### Matching -/

/-- A `match` statement: its subject and an indented block of cases. -/
def matchStatement : Rule :=
  steps [
    .shift .matchToken,
    .call .namedExprList .subject,
    expectSymbol .colon .colon "':' after match subject",
    expect .newline .newline "newline after 'match' header",
    expect .indent .indent "an indented block of 'case' clauses",
    untilDedent .caseBlock .cases,
    expect .dedent .dedent "end of 'match' block",
    .reduce .matchStatement]

/-- `"case" patterns ['if' test] suite`; the word `case` is a name. -/
def caseBlock : Rule :=
  steps [
    .branch (.onName "case") (.shift .caseToken) (object (.expected "'case'")),
    .call .patterns .pattern,
    when (onKeyword .ifKw) (steps [.shift .ifToken, .call .namedExprTest .guard]),
    colonSuite "':' after case pattern",
    .reduce .caseBlock]

/-- Patterns with commas between them. -/
def patterns : Rule := listOf .asPattern startsStarred

/-- A pattern is written as an expression, and may be given a name. -/
def asPattern : Rule :=
  steps [
    .branch (onSymbol .mul) (.call .starExpr .pattern) (.call .expr .pattern),
    when (onKeyword .asKw) (steps [
      .shift .asToken,
      expect .name .name "name after 'as' in pattern",
      .reduce .asPattern])]

/-! ### Definitions -/

/-- Of the statements with `async`, only those that define functions can be decorated. -/
def decorated : Rule :=
  steps [
    .call .decorators .decorators,
    choose [
      (onKeyword .defKw, .call .functionDef .definition),
      (onKeyword .classKw, .call .classDef .definition),
      (onKeyword .asyncKw, .call .asyncStatement .definition)]
      (object (.expected "'def' or 'class' after decorator")),
    when
      (.both (.collected (.latestIs [.asyncStatement]))
        (.not (.collected (.latestHolds .functionDef))))
      (.refuse .undecorable .latest),
    .reduce .decorated]

/-- Decorators, each on its own line. -/
def decorators : Rule :=
  steps [.loop (onSymbol .matMul) (.call .decorator .decorators), .reduce .decorators]

/-- `'@' test NEWLINE`. -/
def decorator : Rule :=
  steps [
    .shift .atSign,
    .call .namedExprTest .expr,
    expect .newline .newline "newline after decorator",
    .reduce .decorator]

/-- `'async'` before a function, a `with` or a `for` statement. -/
def asyncStatement : Rule :=
  steps [
    .shift .asyncToken,
    choose [
      (onKeyword .defKw, .call .functionDef .statement),
      (onKeyword .withKw, .call .withStatement .statement),
      (onKeyword .forKw, .call .forStatement .statement)]
      (object (.expected "'def', 'with' or 'for' after 'async'")),
    .reduce .asyncStatement]

/-- Parameters, annotation and type comment belong to the text around the function. -/
def functionDef : Rule :=
  steps [
    .shift .defToken,
    expect .name .name "function name after 'def'",
    expectSymbol .leftParen .lparen "'(' after function name",
    .branch (onSymbol .rightParen) .done (.call (.parameters true) .parameters),
    expectSymbol .rightParen .rparen "')' after parameters",
    when (onSymbol .arrow) (steps [.shift .arrow, .call .test .returns]),
    colonCommentSuite "':' after function signature"
      (.within .functionBody (.call .suite .body)),
    .reduce .functionDef]

/-- `'class' NAME ['(' [arguments] ')'] suite`; the body is in no loop and no function. -/
def classDef : Rule :=
  steps [
    .shift .classToken,
    expect .name .name "class name after 'class'",
    when (onSymbol .leftParen) (steps [
      .shift .lparen,
      .branch (onSymbol .rightParen) .done (.call .argList .arguments),
      expectSymbol .rightParen .rparen "')' after base classes"]),
    expectSymbol .colon .colon "':' after class header",
    .within .classBody (.call .suite .body),
    .reduce .classDef]

end PythonSyntax.Grammar
