/-
**Arguments and parameters.**

Main definitions:

* `PythonSyntax.Grammar.argList`, `PythonSyntax.Grammar.argument` — what a call passes;
* `PythonSyntax.Grammar.parameters`, `PythonSyntax.Grammar.parameter` — what a function takes.
-/

import PythonSyntax.Grammar.Display

set_option autoImplicit false

namespace PythonSyntax.Grammar

open Rule Test

/-! ### Arguments -/

/-- Arguments.  A comprehension without parentheses has to be the only one, without a comma. -/
def argList : Rule :=
  steps [
    separated .argument .arguments
      (.either startsExpression (.on [.symbol .mul, .symbol .power])),
    when (.both (.collected .several) (.collected (.someIs .comprehension)))
      (.refuse .bareGenerator (.firstOf .comprehension)),
    .reduce .argList]

/-- One argument.  The name of a keyword argument is kept as a token. -/
def argument : Rule :=
  choose [
    (onSymbol .mul, steps [.shift .op, .call .test .value, .reduce .starArgument]),
    (onSymbol .power, steps [.shift .op, .call .test .value, .reduce .doubleStarArgument])]
    (steps [
      .call .test .target,
      choose [
        (startsCompFor, finishComprehension),
        (onSymbol .colonAssign, namedValue),
        (onSymbol .assign, steps [
          .branch (.collected (.latestIs [.name])) .done (object .assignedArgument),
          .unwrap .name,
          .shift .assign,
          .call .test .value,
          .reduce .keywordArgument])] .done])

/-! ### Parameters -/

/-- A name, with an annotation in the parameters of a definition, and with a default if that is
allowed. -/
def parameter (typed withDefault : Bool) : Rule :=
  steps [
    expect .name .name "parameter name",
    if typed then
      when (onSymbol .colon) (steps [.shift .colon, .call .test .annotated])
    else .done,
    if withDefault then
      when (onSymbol .assign) (steps [.shift .assign, .call .test .defaultValue])
    else .done,
    .reduce .parameter]

/-- A star; with a name it takes the remaining positional arguments, bare it ends the positional
parameters. -/
def starParameter (typed : Bool) : Rule :=
  steps [
    .shift .op,
    when (.on [.name]) (.call (.parameter typed false) .parameter),
    .reduce .starParameter]

/-- Two stars and the name that takes the remaining keyword arguments. -/
def doubleStarParameter (typed : Bool) : Rule :=
  steps [.shift .op, .call (.parameter typed false) .parameter, .reduce .doubleStarParameter]

/-- The slash that makes the parameters before it positional only. -/
def positionalOnly : Rule := steps [.shift .slash, .reduce .positionalOnly]

/-- Objecting if a parameter of the kind has been read. -/
def refuseAfter (kind : NodeKind) (complaint : Complaint) : Rule :=
  when (.collected (.someIs kind)) (object complaint)

/-- The latest parameter has no default, one before it has, and no star stands between. -/
def missesDefault : Test :=
  .both (.not (.collected (.someIs .starParameter)))
    (.both (.not (.collected (.latestHas .defaultValue)))
      (.collected (.someHas .defaultValue)))

/-- The next parameter, after those that have been read. -/
def nextParameter (typed : Bool) : Rule :=
  steps [
    refuseAfter .doubleStarParameter .afterKeywords,
    choose [
      (onSymbol .div, steps [
        when (.collected .nothing) (object .leadingSlash),
        refuseAfter .positionalOnly .repeatedSlash,
        refuseAfter .starParameter .slashAfterStar,
        .call .positionalOnly .parameters]),
      (onSymbol .mul, steps [
        refuseAfter .starParameter .repeatedStar,
        .call (.starParameter typed) .parameters]),
      (onSymbol .power, .call (.doubleStarParameter typed) .parameters),
      (.on [.name], steps [
        .call (.parameter typed true) .parameters,
        when missesDefault (.refuse .missingDefault .latest)])]
      (object (.expected "parameter name"))]

/-- The parameters of a definition, up to a parenthesis, or of a `lambda`, up to a colon. -/
def parameters (typed : Bool) : Rule :=
  let closing : Symbol := if typed then .rightParen else .colon
  steps [
    nextParameter typed,
    .loop (onSymbol .comma) (steps [
      .shift .separators,
      .branch (onSymbol .comma) (object .doubledComma)
        (.branch (onSymbol closing) .done (nextParameter typed))]),
    when (.collected (.unanswered .starParameter .parameter .parameter))
      (.refuse .danglingStar (.firstOf .starParameter)),
    .reduce (if typed then .typedArgsList else .varArgsList)]

end PythonSyntax.Grammar
