/-
**Atoms, displays and lists.**

Main definitions:

* `PythonSyntax.Grammar.atom`, `PythonSyntax.Grammar.trailer` — the smallest expressions, and
  attributes, calls and subscripts;
* `PythonSyntax.Grammar.parenthesized`, `PythonSyntax.Grammar.listDisplay`,
  `PythonSyntax.Grammar.curlyDisplay` — what stands in brackets;
* `PythonSyntax.Grammar.compFor`, `PythonSyntax.Grammar.compIf` — the clauses of comprehensions;
* `PythonSyntax.Grammar.listOf` — elements with commas between them, of which one alone, without a
  comma, is left as it is.
-/

import PythonSyntax.Grammar.Expression

set_option autoImplicit false

namespace PythonSyntax.Grammar

open Rule Test

/-! ### Lists -/

/-- Making a list of the elements, unless there is only one and no comma. -/
def finishList : Rule := when (.collected .several) (.reduce .testList)

/-- Elements with commas between them. -/
def listOf (element : Nonterminal) (continues : Test) : Rule :=
  steps [separated element .elements continues, finishList]

/-- A starred expression, or an element of another sort. -/
def starOr (element : Nonterminal) : Rule :=
  .branch (onSymbol .mul) (.call .starExpr .left) (.call element .left)

/-- `'*' expr`. -/
def starExpr : Rule :=
  steps [expectSymbol .mul .op "'*'", .call .expr .right, .reduce .starExpr]

/-- Targets: operands without comparisons, and starred ones. -/
def exprList : Rule :=
  listOf .starOrExpr
    (.either (onSymbol .mul)
      (.both startsExpression (.not (.on [.keyword .notKw, .keyword .lambdaKw]))))

/-- Expressions. -/
def testList : Rule := listOf .test startsExpression

/-- Expressions, starred or not. -/
def testListStarExpr : Rule := listOf .starOrTest startsStarred

/-- What a `match` statement looks at. -/
def namedExprList : Rule := listOf .starOrNamedExpr startsStarred

/-! ### Comprehensions -/

/-- The current token begins a clause over what is iterated. -/
def startsCompFor : Test := .on [.keyword .forKw, .keyword .asyncKw]

/-- The clauses after an element, which make a comprehension with it. -/
def finishComprehension : Rule :=
  steps [.relabel .element, .call .compFor .clause, .reduce .comprehension]

/-- Refusing the latest element, before a clause, if it is of the kind. -/
def refuseElement (kind : NodeKind) (complaint : Complaint) : Rule :=
  when (.collected (.latestIs [kind])) (object complaint)

/-- The next clause, if there is one. -/
def compNext : Rule :=
  choose [
    (startsCompFor, .call .compFor .next),
    (onKeyword .ifKw, .call .compIf .next)] .done

/-- `['async'] 'for' targets 'in' or_test [clause]`. -/
def compFor : Rule :=
  steps [
    accept (.keyword .asyncKw) .asyncToken,
    expect (.keyword .forKw) .forToken "'for' in comprehension",
    .call .exprList .targets,
    expect (.keyword .inKw) .inToken "'in' in comprehension",
    .call .orTest .iterable,
    compNext,
    .reduce .compFor]

/-- `'if' test [clause]`, where the test has no condition of its own. -/
def compIf : Rule :=
  steps [.shift .ifToken, .call .testNoCondition .condition, compNext, .reduce .compIf]

/-! ### Displays -/

/-- The elements after the first one, which has been read, and the list of all. -/
def restOfList (element : Nonterminal) (continues : Test) : Rule :=
  steps [
    .relabel .elements,
    .loop (onSymbol .comma) (steps [
      .shift .separators,
      .branch (onSymbol .comma) (object .doubledComma)
        (when continues (.call element .elements))]),
    finishList]

/-- What stands in parentheses or square brackets: a comprehension or a list. -/
def displayItems : Rule :=
  steps [
    .call .starOrNamedExpr .element,
    .branch startsCompFor
      (steps [refuseElement .starExpr .starredComprehension, finishComprehension])
      (restOfList .starOrNamedExpr startsStarred)]

/-- Parentheses around nothing, a `yield`, an expression, a list or a comprehension. -/
def parenthesized : Rule :=
  steps [
    .shift .lparen,
    choose [
      (onSymbol .rightParen, .done),
      (onKeyword .yieldKw, .call .yieldExpr .inner)] (.call .displayItems .inner),
    expectSymbol .rightParen .rparen "')'",
    .reduce .tuple]

/-- Square brackets around nothing, a list or a comprehension. -/
def listDisplay : Rule :=
  steps [
    .shift .lbracket,
    .branch (onSymbol .rightBracket) .done (.call .displayItems .inner),
    expectSymbol .rightBracket .rbracket "']'",
    .reduce .list]

/-- The colon and the value, after a key. -/
def finishDictEntry : Rule :=
  steps [.relabel .key, .shift .colon, .call .test .value, .reduce .dictEntry]

/-- `'**' expr`, which adds the entries of another dictionary. -/
def dictUnpack : Rule := steps [.shift .op, .call .expr .right, .reduce .dictUnpack]

/-- An element of a dictionary after its first. -/
def dictItem : Rule :=
  .branch (onSymbol .power) (.call .dictUnpack .left) (steps [
    .call .test .key,
    .branch (onSymbol .colon) finishDictEntry
      (object (.expected "':' in dictionary entry"))])

/-- The latest piece is, or begins with, an element of a dictionary. -/
def isDictionary : Test := .collected (.latestBeginsWith [.dictEntry, .dictUnpack])

/-- What stands in curly brackets.  The first element decides between a dictionary and a set. -/
def curlyItems : Rule :=
  steps [
    choose [
      (onSymbol .power, .call .dictUnpack .left),
      (onSymbol .mul, .call .starExpr .left)]
      (steps [.call .test .left, when (onSymbol .colon) finishDictEntry]),
    .branch startsCompFor
      (steps [
        refuseElement .dictUnpack .unpackedComprehension,
        refuseElement .starExpr .starredComprehension,
        finishComprehension])
      (.branch isDictionary
        (restOfList .dictItem (.either startsExpression (onSymbol .power)))
        (restOfList .starOrTest startsStarred))]

/-- A dictionary or a set. -/
def curlyDisplay : Rule :=
  steps [
    .shift .lcurly,
    .branch (onSymbol .rightCurly)
      (steps [.shift .rcurly, .reduce .dictionary])
      (steps [
        .call .curlyItems .inner,
        .branch isDictionary
          (steps [expectSymbol .rightCurly .rcurly "'\x7d'", .reduce .dictionary])
          (steps [expectSymbol .rightCurly .rcurly "'\x7d'", .reduce .set])])]

/-! ### Atoms and trailers -/

/-- An atom of one token. -/
def tokenAtom (token : TokenKind) (kind : NodeKind) : Test × Rule :=
  (.on [token], steps [.shift .token, .reduce kind])

/-- The smallest expressions; strings next to each other are one atom. -/
def atom : Rule :=
  choose [
    tokenAtom .name .name,
    tokenAtom .number .number,
    tokenAtom (.keyword .noneKw) .noneLiteral,
    tokenAtom (.keyword .trueKw) .trueLiteral,
    tokenAtom (.keyword .falseKw) .falseLiteral,
    tokenAtom (.symbol .ellipsis) .ellipsis,
    (.on [.string], steps [.loop (.on [.string]) (.shift .tokens), .reduce .string]),
    (onSymbol .leftParen, .call .parenthesized .left),
    (onSymbol .leftBracket, .call .listDisplay .left),
    (onSymbol .leftCurly, .call .curlyDisplay .left)]
    (object (.expected "expression"))

/-- An attribute, the arguments of a call, or subscripts. -/
def trailer : Rule :=
  choose [
    (onSymbol .dot, steps [
      .shift .dot,
      expect .name .name "attribute name after '.'",
      .reduce .dotName]),
    (onSymbol .leftParen, steps [
      .shift .lparen,
      .branch (onSymbol .rightParen) .done (.call .argList .arguments),
      expectSymbol .rightParen .rparen "')' after arguments",
      .reduce .call])]
    (steps [
      expectSymbol .leftBracket .lbracket "'['",
      .call .subscriptList .subscripts,
      expectSymbol .rightBracket .rbracket "']' after subscript",
      .reduce .index])

/-- Subscripts with commas between them. -/
def subscriptList : Rule :=
  listOf .subscript (.either startsExpression (.on [.symbol .colon, .symbol .mul]))

/-- The rest of a slice, from its first colon on. -/
def restOfSlice : Rule :=
  steps [
    .shift .colon,
    when startsExpression (.call .test .upper),
    when (onSymbol .colon) (steps [
      .shift .stepColon,
      when startsExpression (.call .test .step)]),
    .reduce .slice]

/-- A starred expression, a slice, or an expression that may be given a name. -/
def subscript : Rule :=
  choose [
    (onSymbol .mul, .call .starExpr .left),
    (onSymbol .colon, restOfSlice)]
    (steps [.call .namedExprTest .lower, when (onSymbol .colon) restOfSlice])

end PythonSyntax.Grammar
