/-
**The grammar as a table of phrases.**

Every name of a rule has a phrase, which says what the trees of that name are.  Operators that
group to the left are written with the same name on their left.

Main definitions:

* `PythonSyntax.Ebnf.level`, `PythonSyntax.Ebnf.list` — operators of one rank, and lists;
* `PythonSyntax.Ebnf.admits`, `PythonSyntax.Ebnf.ordered` — the order of parameters;
* `PythonSyntax.Ebnf.loneComprehension`, `PythonSyntax.Ebnf.beginsDictionary` — the other
  conditions on children;
* `PythonSyntax.ebnf` — the phrase of every name;
* `PythonSyntax.Entry.phrase` — what is read as a whole.
-/

import PythonSyntax.Proofs.Syntax.Phrase

set_option autoImplicit false

namespace PythonSyntax

namespace Ebnf

open Phrase

/-! ### Conditions on children -/

/-- A comprehension is the only argument, without a comma. -/
def loneComprehension (arguments : List Child) : Bool :=
  arguments.length = 1 || arguments.all fun child => !Frame.isOneOf [.comprehension] child.2

/-- The first child is, or begins with, an element of a dictionary. -/
def beginsDictionary (children : List Child) : Bool :=
  children.head?.any fun child =>
    Frame.isOneOf [.dictEntry, .dictUnpack] child.2 ||
      child.2.children.head?.any fun inner => Frame.isOneOf [.dictEntry, .dictUnpack] inner.2

/-- A node of the kind is among the children. -/
def holds (kind : NodeKind) (children : List Child) : Bool :=
  children.any fun child => Frame.isOneOf [kind] child.2

/-- A parameter may stand after others.  Nothing follows two stars; a slash is not the first, nor
does it follow a slash or a star; there is one star; and before it no parameter without a default
follows one with a default. -/
def admits (before : List Child) (item : Child) : Bool :=
  match item.2.kind? with
  | some .positionalOnly =>
    !holds .doubleStarParameter before && !before.isEmpty && !holds .positionalOnly before &&
      !holds .starParameter before
  | some .starParameter => !holds .doubleStarParameter before && !holds .starParameter before
  | some .doubleStarParameter => !holds .doubleStarParameter before
  | some .parameter =>
    !holds .doubleStarParameter before &&
      (holds .starParameter before || Frame.hasField .defaultValue item.2 ||
        !before.any fun child => Frame.hasField .defaultValue child.2)
  | _ => true

/-- Each of the children may stand after those before it. -/
def allAdmitted : List Child → List Child → Bool
  | _, [] => true
  | before, item :: rest => admits before item && allAdmitted (before ++ [item]) rest

/-- A star without a name is followed by a parameter, at some later place. -/
def starsAnswered : List Child → Bool
  | [] => true
  | item :: rest =>
    (!(Frame.isOneOf [.starParameter] item.2 && !Frame.hasField .parameter item.2) ||
      holds .parameter rest) && starsAnswered rest

/-- The parameters stand in an allowed order. -/
def ordered (children : List Child) : Bool := allAdmitted [] children && starsAnswered children

/-! ### Operators -/

/-- An operator and its right operand, after a left operand that has the name `self`. -/
def operation (self operand : Nonterminal) (op : BinaryOperator) : Phrase :=
  tree .left (.binary op) (row [part .left self, leaf .op [op.token], part .right operand])

/-- Operators of one rank, grouped to the left. -/
def level (self operand : Nonterminal) (operators : List BinaryOperator) : Phrase :=
  alt (part .left operand) (oneOf (operators.map (operation self operand)))

/-- An operator before its operand. -/
def unaryOperation (operand : Nonterminal) (op : UnaryOperator) : Phrase :=
  tree .left (.unary op) (row [leaf .op [op.token], part .right operand])

/-- A name as an expression. -/
def nameAtom (field : Field) : Phrase := tree field .name (row [name .token])

/-! ### Lists and clauses -/

/-- A comma. -/
def comma : Phrase := sign .separators .comma

/-- Further elements with commas between them, and perhaps one at the end. -/
def furtherElements (field : Field) (element : Nonterminal) : Phrase :=
  further .separators [.symbol .comma] (part field element)

/-- One element alone, without a comma, or a list of at least one with commas. -/
def list (element : Nonterminal) : Phrase :=
  alt (part .elements element)
    (tree .left .testList (row [
      part .elements element,
      comma,
      opt (seq (part .elements element) (furtherElements .elements element))]))

/-- A starred expression, or an element of another sort. -/
def starOr (element : Nonterminal) : Phrase := alt (part .left .starExpr) (part .left element)

/-- The next clause of a comprehension, if there is one. -/
def compNext : Phrase := choice [part .next .compFor, part .next .compIf] .nil

/-- A comprehension with an element of a sort. -/
def comprehension (element : Phrase) : Phrase :=
  tree .left .comprehension (row [element, part .clause .compFor])

/-- The key of a dictionary and its value. -/
def dictEntry (field : Field) : Phrase :=
  tree field .dictEntry (row [part .key .test, sign .colon .colon, part .value .test])

/-- A slice, after its lower bound. -/
def restOfSlice : Phrase :=
  row [
    sign .colon .colon,
    opt (part .upper .test),
    opt (row [sign .stepColon .colon, opt (part .step .test)])]

/-- An expression with a name that it is given. -/
def namedExpr : Phrase :=
  tree .left .namedExpr
    (row [nameAtom .target, sign .op .colonAssign, part .value .test])

/-- An atom of one token. -/
def tokenAtom (token : TokenKind) (kind : NodeKind) : Phrase :=
  tree .left kind (row [leaf .token [token]])

/-- A parameter of any sort. -/
def anyParameter (typed : Bool) : Phrase :=
  choice [
    part .parameters .positionalOnly,
    part .parameters (.starParameter typed),
    part .parameters (.doubleStarParameter typed)]
    (part .parameters (.parameter typed true))

/-! ### Statements -/

/-- A target of an assignment with the sign after it. -/
def assignTarget (target : Nonterminal) : Phrase :=
  tree .targets .assignTarget (row [part .target target, sign .op .assign])

/-- An operator that assigns, between its operands. -/
def augmentedOperation (op : AugmentedOperator) : Phrase :=
  tree .left (.augmented op) (row [
    part .left .testListStarExpr,
    leaf .op [op.token],
    alt (part .right .yieldExpr) (part .right .testList)])

/-- A statement of one word, in the bodies that it needs. -/
def guardedWord (word : Keyword) (need : Need) (kind : NodeKind) : Phrase :=
  tree .left kind (row [needs need, keyword .token word])

/-- Another name for what is imported. -/
def importAlias : Phrase := opt (row [keyword .asToken .asKw, name .alias])

/-- Names with commas between them. -/
def declaredNames : Phrase := row [name .names, many (row [comma, name .names])]

/-- Imported names without a comma at the end. -/
def closedNames (element : Nonterminal) : Phrase :=
  row [part .names element, many (seq comma (part .names element))]

/-- A colon and the body after it. -/
def colonSuite : Phrase := row [sign .colon .colon, part .body .suite]

/-- A colon, a type comment if there is one, and the body after it. -/
def colonCommentSuite (body : Phrase) : Phrase :=
  row [sign .colon .colon, opt (leaf .typeComment [.typeComment]), body]

/-- An `else` clause, if there is one. -/
def acceptElse : Phrase := opt (part .elseClause .elseClause)

end Ebnf

open Phrase Ebnf

/-- The phrase of every name. -/
def ebnf : Nonterminal → Phrase
  | .test =>
    choice [part .left .lambda, part .body .orTest]
      (tree .left .conditional (row [
        part .body .orTest,
        keyword .ifToken .ifKw,
        part .condition .orTest,
        keyword .elseToken .elseKw,
        part .otherwise .test]))
  | .testNoCondition => alt (part .left .lambdaNoCondition) (part .left .orTest)
  | .namedExprTest => alt (part .target .test) namedExpr
  | .orTest => level .orTest .andTest [.disjunction]
  | .andTest => level .andTest .notTest [.conjunction]
  | .notTest => alt (unaryOperation .notTest .negation) (part .left .comparison)
  | .comparison =>
    alt (part .left .expr) (oneOf
      ([.less, .greater, .equal, .greaterEqual, .lessEqual, .notEqual, .membership].map
        (operation .comparison .expr) ++
      [tree .left .notIn (row [
        part .left .comparison,
        keyword .notToken .notKw,
        keyword .inToken .inKw,
        part .right .expr]),
      tree .left .isNot (row [
        part .left .comparison,
        keyword .isToken .isKw,
        keyword .notToken .notKw,
        part .right .expr]),
      operation .comparison .expr .identity]))
  | .expr => level .expr .xorExpr [.bitOr]
  | .xorExpr => level .xorExpr .andExpr [.bitXor]
  | .andExpr => level .andExpr .shiftExpr [.bitAnd]
  | .shiftExpr => level .shiftExpr .arithExpr [.shiftLeft, .shiftRight]
  | .arithExpr => level .arithExpr .term [.plus, .minus]
  | .term => level .term .factor [.mul, .div, .floorDiv, .modulo, .matMul]
  | .factor =>
    choice ([.plus, .minus, .invert].map (unaryOperation .factor)) (part .left .power)
  | .power =>
    alt (part .left .atomExpr)
      (tree .left (.binary .power) (row [
        part .left .atomExpr,
        leaf .op [BinaryOperator.power.token],
        part .right .factor]))
  | .atomExpr =>
    choice [
      part .atom .atom,
      tree .left .atomExpr (row [
        keyword .awaitToken .awaitKw,
        part .atom .atom,
        many (part .trailers .trailer)])]
      (tree .left .atomExpr (row [part .atom .atom, atLeastOne (part .trailers .trailer)]))
  | .lambda =>
    tree .left .lambda (row [
      keyword .lambdaToken .lambdaKw,
      alt .nil (part .parameters (.parameters false)),
      sign .colon .colon,
      inside .functionBody (part .body .test)])
  | .lambdaNoCondition =>
    tree .left .lambda (row [
      keyword .lambdaToken .lambdaKw,
      alt .nil (part .parameters (.parameters false)),
      sign .colon .colon,
      inside .functionBody (part .body .testNoCondition)])
  | .trailer =>
    choice [
      tree .left .dotName (row [sign .dot .dot, name .name]),
      tree .left .call (row [
        sign .lparen .leftParen,
        alt .nil (part .arguments .argList),
        sign .rparen .rightParen])]
      (tree .left .index (row [
        sign .lbracket .leftBracket,
        part .subscripts .subscriptList,
        sign .rbracket .rightBracket]))
  | .atom =>
    oneOf [
      tokenAtom .name .name,
      tokenAtom .number .number,
      tokenAtom (.keyword .noneKw) .noneLiteral,
      tokenAtom (.keyword .trueKw) .trueLiteral,
      tokenAtom (.keyword .falseKw) .falseLiteral,
      tokenAtom (.symbol .ellipsis) .ellipsis,
      tree .left .string (row [atLeastOne (leaf .tokens [.string])]),
      part .left .parenthesized,
      part .left .listDisplay,
      part .left .curlyDisplay]
  | .parenthesized =>
    tree .left .tuple (row [
      sign .lparen .leftParen,
      choice [.nil, part .inner .yieldExpr] (part .inner .displayItems),
      sign .rparen .rightParen])
  | .listDisplay =>
    tree .left .list (row [
      sign .lbracket .leftBracket,
      alt .nil (part .inner .displayItems),
      sign .rbracket .rightBracket])
  | .curlyDisplay =>
    choice [
      tree .left .dictionary (row [sign .lcurly .leftCurly, sign .rcurly .rightCurly]),
      tree .left .dictionary (row [
        sign .lcurly .leftCurly,
        such beginsDictionary (part .inner .curlyItems),
        sign .rcurly .rightCurly])]
      (tree .left .set (row [
        sign .lcurly .leftCurly,
        such (fun children => !beginsDictionary children) (part .inner .curlyItems),
        sign .rcurly .rightCurly]))
  | .curlyItems =>
    choice [
      comprehension (dictEntry .element),
      comprehension (part .element .test),
      list .dictItem]
      (list .starOrTest)
  | .dictItem => alt (part .left .dictUnpack) (dictEntry .left)
  | .dictUnpack => tree .left .dictUnpack (row [sign .op .power, part .right .expr])
  | .subscriptList => list .subscript
  | .subscript =>
    choice [
      part .left .starExpr,
      tree .left .slice restOfSlice,
      part .lower .namedExprTest]
      (tree .left .slice (seq (part .lower .namedExprTest) restOfSlice))
  | .starExpr => tree .left .starExpr (row [sign .op .mul, part .right .expr])
  | .starOrTest => starOr .test
  | .starOrExpr => starOr .expr
  | .starOrNamedExpr => starOr .namedExprTest
  | .displayItems =>
    alt (comprehension (part .element .namedExprTest)) (list .starOrNamedExpr)
  | .namedExprList => list .starOrNamedExpr
  | .exprList => list .starOrExpr
  | .testList => list .test
  | .testListStarExpr => list .starOrTest
  | .compFor =>
    tree .left .compFor (row [
      opt (keyword .asyncToken .asyncKw),
      keyword .forToken .forKw,
      part .targets .exprList,
      keyword .inToken .inKw,
      part .iterable .orTest,
      compNext])
  | .compIf =>
    tree .left .compIf
      (row [keyword .ifToken .ifKw, part .condition .testNoCondition, compNext])
  | .argList =>
    tree .left .argList (such loneComprehension (seq
      (part .arguments .argument) (furtherElements .arguments .argument)))
  | .argument =>
    choice [
      tree .left .starArgument (row [sign .op .mul, part .value .test]),
      tree .left .doubleStarArgument (row [sign .op .power, part .value .test]),
      part .target .test,
      comprehension (part .element .test),
      namedExpr]
      (tree .left .keywordArgument (row [name .name, sign .assign .assign, part .value .test]))
  | .parameters typed =>
    tree .left (if typed then .typedArgsList else .varArgsList) (such ordered (seq
      (anyParameter typed) (further .separators [.symbol .comma] (anyParameter typed))))
  | .parameter typed withDefault =>
    tree .left .parameter (row [
      name .name,
      if typed then opt (row [sign .colon .colon, part .annotated .test]) else .nil,
      if withDefault then opt (row [sign .assign .assign, part .defaultValue .test]) else .nil])
  | .starParameter typed =>
    tree .left .starParameter
      (row [sign .op .mul, opt (part .parameter (.parameter typed false))])
  | .doubleStarParameter typed =>
    tree .left .doubleStarParameter
      (row [sign .op .power, part .parameter (.parameter typed false)])
  | .positionalOnly => tree .left .positionalOnly (row [sign .slash .div])
  | .yieldExpr =>
    tree .left .yieldExpr (row [
      needs .function,
      keyword .yieldToken .yieldKw,
      choice [
        row [keyword .fromToken .fromKw, part .value .test],
        part .value .testListStarExpr] .nil])
  | .statement =>
    choice [
      part .left .ifStatement,
      part .left .whileStatement,
      part .left .forStatement,
      part .left .tryStatement,
      part .left .withStatement,
      part .left .functionDef,
      part .left .classDef,
      part .left .decorated,
      part .left .asyncStatement,
      part .left .matchStatement]
      (part .left .simpleStatement)
  | .simpleStatement =>
    tree .left .simpleStatement (row [
      part .statements .smallStatement,
      further .separators [.symbol .semiColon] (part .statements .smallStatement),
      leaf .newline [.newline]])
  | .smallStatement =>
    choice [
      tree .left .passStatement (row [keyword .token .passKw]),
      guardedWord .breakKw .loop .breakStatement,
      guardedWord .continueKw .loop .continueStatement,
      part .left .returnStatement,
      part .left .raiseStatement,
      tree .left .yieldStatement (row [part .expr .yieldExpr]),
      tree .left .delStatement (row [keyword .delToken .delKw, part .targets .exprList]),
      part .left .importName,
      part .left .importFrom,
      part .left .nameDeclaration,
      part .left .assertStatement]
      (part .left .exprStatement)
  | .exprStatement =>
    choice (AugmentedOperator.all.map augmentedOperation ++ [
      tree .left .annAssign (row [
        part .left .starOrTest,
        sign .colon .colon,
        part .annotated .test,
        opt (row [sign .assign .assign, part .value .assignmentValue])]),
      tree .left .assignment (row [
        assignTarget .testListStarExpr,
        many (assignTarget .assignmentValue),
        part .value .assignmentValue,
        opt (leaf .typeComment [.typeComment])])])
      (tree .left .exprStatement (row [part .expr .testListStarExpr]))
  | .assignmentValue => alt (part .left .yieldExpr) (part .left .testListStarExpr)
  | .returnStatement =>
    tree .left .returnStatement (row [
      needs .function,
      keyword .returnToken .returnKw,
      opt (part .value .testListStarExpr)])
  | .raiseStatement =>
    tree .left .raiseStatement (row [
      keyword .raiseToken .raiseKw,
      opt (row [
        part .exception .test,
        opt (row [keyword .fromToken .fromKw, part .cause .test])])])
  | .importName =>
    tree .left .importStatement
      (row [keyword .importToken .importKw, closedNames .dottedAsName])
  | .importFrom =>
    tree .left .importFrom (row [
      keyword .fromToken .fromKw,
      alt
        (row [many (leaf .dots [.symbol .dot, .symbol .ellipsis]), part .moduleName .dottedName])
        (atLeastOne (leaf .dots [.symbol .dot, .symbol .ellipsis])),
      keyword .importToken .importKw,
      choice [
        sign .star .mul,
        row [
          sign .lparen .leftParen,
          row [part .names .importAsName, furtherElements .names .importAsName],
          sign .rparen .rightParen]]
        (closedNames .importAsName)])
  | .dottedName =>
    tree .left .dottedName (row [name .names, many (row [sign .dots .dot, name .names])])
  | .dottedAsName => tree .left .dottedAsName (row [part .name .dottedName, importAlias])
  | .importAsName => tree .left .importAsName (row [name .name, importAlias])
  | .nameDeclaration =>
    alt
      (tree .left .globalStatement (row [keyword .globalToken .globalKw, declaredNames]))
      (tree .left .nonlocalStatement (row [keyword .nonlocalToken .nonlocalKw, declaredNames]))
  | .assertStatement =>
    tree .left .assertStatement (row [
      keyword .assertToken .assertKw,
      part .test .test,
      opt (row [sign .comma .comma, part .message .test])])
  | .suite =>
    alt
      (tree .left .block (row [
        leaf .newline [.newline],
        leaf .indent [.indent],
        row [part .statements .statement, many (part .statements .statement)],
        leaf .dedent [.dedent]]))
      (part .left .simpleStatement)
  | .ifStatement =>
    tree .left .ifStatement (row [
      keyword .ifToken .ifKw,
      part .test .namedExprTest,
      colonSuite,
      many (part .elifs .elifClause),
      acceptElse])
  | .elifClause =>
    tree .left .elifClause
      (row [keyword .elifToken .elifKw, part .test .namedExprTest, colonSuite])
  | .elseClause => tree .left .elseClause (row [keyword .elseToken .elseKw, colonSuite])
  | .whileStatement =>
    tree .left .whileStatement (row [
      keyword .whileToken .whileKw,
      part .test .namedExprTest,
      sign .colon .colon,
      inside .loopBody (part .body .suite),
      acceptElse])
  | .forStatement =>
    tree .left .forStatement (row [
      keyword .forToken .forKw,
      part .targets .exprList,
      keyword .inToken .inKw,
      part .iterable .testList,
      colonCommentSuite (inside .loopBody (part .body .suite)),
      acceptElse])
  | .tryStatement =>
    tree .left .tryStatement (row [
      keyword .tryToken .tryKw,
      colonSuite,
      alt
        (row [
          atLeastOne (part .handlers .exceptClause),
          acceptElse,
          opt (part .finallyClause .finallyClause)])
        (part .finallyClause .finallyClause)])
  | .exceptClause =>
    tree .left .exceptClause (row [
      keyword .exceptToken .exceptKw,
      alt .nil (row [
        part .test .test,
        opt (row [keyword .asToken .asKw, name .name])]),
      colonSuite])
  | .finallyClause =>
    tree .left .finallyClause (row [keyword .finallyToken .finallyKw, colonSuite])
  | .withStatement =>
    tree .left .withStatement (row [
      keyword .withToken .withKw,
      row [part .items .withItem, many (seq comma (part .items .withItem))],
      colonCommentSuite (part .body .suite)])
  | .withItem =>
    tree .left .withItem
      (row [part .context .test, opt (row [keyword .asToken .asKw, part .target .expr])])
  | .matchStatement =>
    tree .left .matchStatement (row [
      word .matchToken "match",
      part .subject .namedExprList,
      sign .colon .colon,
      leaf .newline [.newline],
      leaf .indent [.indent],
      row [part .cases .caseBlock, many (part .cases .caseBlock)],
      leaf .dedent [.dedent]])
  | .caseBlock =>
    tree .left .caseBlock (row [
      word .caseToken "case",
      part .pattern .patterns,
      opt (row [keyword .ifToken .ifKw, part .guard .namedExprTest]),
      colonSuite])
  | .patterns => list .asPattern
  | .asPattern =>
    alt (alt (part .pattern .starExpr) (part .pattern .expr))
      (tree .left .asPattern (row [
        alt (part .pattern .starExpr) (part .pattern .expr),
        keyword .asToken .asKw,
        name .name]))
  | .decorated =>
    tree .left .decorated (row [
      part .decorators .decorators,
      choice [part .definition .functionDef, part .definition .classDef]
        (tree .definition .asyncStatement
          (row [keyword .asyncToken .asyncKw, part .statement .functionDef]))])
  | .decorators =>
    tree .left .decorators (row [atLeastOne (part .decorators .decorator)])
  | .decorator =>
    tree .left .decorator
      (row [sign .atSign .matMul, part .expr .namedExprTest, leaf .newline [.newline]])
  | .asyncStatement =>
    tree .left .asyncStatement (row [
      keyword .asyncToken .asyncKw,
      oneOf [
        part .statement .functionDef,
        part .statement .withStatement,
        part .statement .forStatement]])
  | .functionDef =>
    tree .left .functionDef (row [
      keyword .defToken .defKw,
      name .name,
      sign .lparen .leftParen,
      alt .nil (part .parameters (.parameters true)),
      sign .rparen .rightParen,
      opt (row [sign .arrow .arrow, part .returns .test]),
      colonCommentSuite (inside .functionBody (part .body .suite))])
  | .classDef =>
    tree .left .classDef (row [
      keyword .classToken .classKw,
      name .name,
      opt (row [
        sign .lparen .leftParen,
        alt .nil (part .arguments .argList),
        sign .rparen .rightParen]),
      sign .colon .colon,
      inside .classBody (part .body .suite)])

/-- What is read as a whole. -/
def Entry.phrase : Entry → Phrase
  | .file =>
    row [
      many (alt (leaf .newlines [.newline]) (part .statements .statement)),
      leaf .eof [.eof]]
  | .single =>
    choice [
      leaf .newline [.newline],
      .nil,
      row [part .statement .statement, opt (leaf .newline [.newline])]]
      (part .statement .simpleStatement)
  | .eval =>
    row [part .right .testList, many (leaf .newlines [.newline]), leaf .eof [.eof]]

end PythonSyntax
