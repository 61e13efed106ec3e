/-
**Expressions.**

```text
test        ::= or_test ['if' or_test 'else' test] | lambda
or_test     ::= and_test ('or' and_test)*
and_test    ::= not_test ('and' not_test)*
not_test    ::= 'not' not_test | comparison
comparison  ::= expr (comparison_operator expr)*
expr        ::= xor_expr ('|' xor_expr)*
xor_expr    ::= and_expr ('^' and_expr)*
and_expr    ::= shift_expr ('&' shift_expr)*
shift_expr  ::= arith_expr (('<<' | '>>') arith_expr)*
arith_expr  ::= term (('+' | '-') term)*
term        ::= factor (('*' | '/' | '//' | '%' | '@') factor)*
factor      ::= ('+' | '-' | '~') factor | power
power       ::= atom_expr ['**' factor]
atom_expr   ::= ['await'] atom trailer*
```

Main definitions:

* `PythonSyntax.Grammar.startsExpression` — the tokens with which an expression begins;
* `PythonSyntax.Grammar.binaryLevel` — operators of one rank, grouped to the left;
* the rules from `PythonSyntax.Grammar.test` to `PythonSyntax.Grammar.atomExpr`;
* `PythonSyntax.Grammar.lambdaWith`, `PythonSyntax.Grammar.yieldExpr` — the expressions that are
  bound to functions.
-/

import PythonSyntax.Grammar.Rule

set_option autoImplicit false

namespace PythonSyntax.Grammar

open Rule Test

/-- The current token begins an expression; a star does not. -/
def startsExpression : Test :=
  .on [.name, .number, .string, .keyword .noneKw, .keyword .trueKw, .keyword .falseKw,
    .symbol .ellipsis, .symbol .leftParen, .symbol .leftBracket, .symbol .leftCurly,
    .symbol .minus, .symbol .plus, .symbol .bitInvert, .keyword .notKw, .keyword .lambdaKw,
    .keyword .awaitKw]

/-- The current token begins an expression or a starred one. -/
def startsStarred : Test := .either startsExpression (onSymbol .mul)

/-! ### The ladder of operators -/

/-- An operator and its right operand, which make a node with the left one. -/
def operation (operand : Nonterminal) (op : BinaryOperator) : Test × Rule :=
  (.on [op.token], steps [.shift .op, .call operand .right, .reduce (.binary op)])

/-- Operands with operators of one rank between them, grouped to the left. -/
def binaryLevel (operators : List BinaryOperator) (operand : Nonterminal) : Rule :=
  steps [
    .call operand .left,
    .loop (.on (operators.map BinaryOperator.token))
      (choose (operators.map (operation operand)) .done)]

/-- An operator before its operand. -/
def unaryOperation (operand : Nonterminal) (op : UnaryOperator) : Test × Rule :=
  (.on [op.token], steps [.shift .op, .call operand .right, .reduce (.unary op)])

/-- A choice by condition, a `lambda`, or an operand without either. -/
def test : Rule :=
  .branch (onKeyword .lambdaKw) (.call .lambda .left) (steps [
    .call .orTest .body,
    when (onKeyword .ifKw) (steps [
      .shift .ifToken,
      .call .orTest .condition,
      expect (.keyword .elseKw) .elseToken "'else' in conditional expression",
      .call .test .otherwise,
      .reduce .conditional])])

/-- A test that does not go on with a condition. -/
def testNoCondition : Rule :=
  .branch (onKeyword .lambdaKw) (.call .lambdaNoCondition .left) (.call .orTest .left)

/-- The sign `:=` and the value, after the target, which has to be a name. -/
def namedValue : Rule :=
  steps [
    .branch (.collected (.latestIs [.name])) .done (object .namedTarget),
    .shift .op,
    .call .test .value,
    .reduce .namedExpr]

/-- A test that may be given a name. -/
def namedExprTest : Rule :=
  steps [.call .test .target, when (onSymbol .colonAssign) namedValue]

/-- The operators that compare and are written as one token, but for `is`. -/
def comparisons : List BinaryOperator :=
  [.less, .greater, .equal, .greaterEqual, .lessEqual, .notEqual, .membership]

/-- Comparisons, grouped to the left; `not in` and `is not` are operators of two tokens. -/
def comparison : Rule :=
  steps [
    .call .expr .left,
    .loop (.on (comparisons.map BinaryOperator.token ++ [TokenKind.keyword .notKw, .keyword .isKw]))
      (choose (comparisons.map (operation .expr) ++ [
        (onKeyword .notKw, steps [
          .shift .notToken,
          expect (.keyword .inKw) .inToken "'in' after 'not'",
          .call .expr .right,
          .reduce .notIn]),
        (onKeyword .isKw, steps [
          .shift .op,
          .branch (onKeyword .notKw)
            (steps [
              .relabel .isToken,
              .shift .notToken,
              .call .expr .right,
              .reduce .isNot])
            (steps [.call .expr .right, .reduce (.binary .identity)])])])
        .done)]

/-- A comparison with any number of `not` before it. -/
def notTest : Rule := choose [unaryOperation .notTest .negation] (.call .comparison .left)

/-- A power with any number of signs before it. -/
def factor : Rule :=
  choose ([.plus, .minus, .invert].map (unaryOperation .factor)) (.call .power .left)

/-- Powers group to the right, and bind more tightly than a sign before them. -/
def power : Rule :=
  steps [.call .atomExpr .left, choose [operation .factor .power] .done]

/-- The tokens that begin what follows an atom. -/
def startsTrailer : Test := .on [.symbol .dot, .symbol .leftParen, .symbol .leftBracket]

/-- An atom with what precedes and follows it; alone it is left as it is. -/
def atomExpr : Rule :=
  steps [
    accept (.keyword .awaitKw) .awaitToken,
    .call .atom .atom,
    .loop startsTrailer (.call .trailer .trailers),
    when (.collected .several) (.reduce .atomExpr)]

/-! ### Functions without a name, and yielding -/

/-- A `lambda` with a body of the given sort.  Its body is that of a function. -/
def lambdaWith (body : Nonterminal) : Rule :=
  steps [
    .shift .lambdaToken,
    .branch (onSymbol .colon) .done (.call (.parameters false) .parameters),
    expectSymbol .colon .colon "':' after lambda parameters",
    .within .functionBody (.call body .body),
    .reduce .lambda]

/-- Yielding nothing, a value, or what another generator yields. -/
def yieldExpr : Rule :=
  steps [
    .branch .inFunction .done (object .yieldOutsideFunction),
    .shift .yieldToken,
    choose [
      (onKeyword .fromKw, steps [.shift .fromToken, .call .test .value]),
      (startsStarred, .call .testListStarExpr .value)] .done,
    .reduce .yieldExpr]

end PythonSyntax.Grammar
