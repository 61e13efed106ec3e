/-
**Kinds of nodes.**

A node of the tree records one rule of the grammar.  Its kind settles which fields its children
take, how often each field can occur, and in which order the fields are listed.  That order is that
of the text, but for a field that occurs many times: its children may alternate with those of the
field listed after it, as the elements of a list do with their separators.

Main definitions:

* `PythonSyntax.NodeKind` — the kinds;
* `PythonSyntax.NodeKind.label` — the name of a kind;
* `PythonSyntax.Slot`, `PythonSyntax.NodeKind.slots` — the fields of a kind.
-/

import PythonSyntax.Tree.Field
import PythonSyntax.Tree.Operator

set_option autoImplicit false

namespace PythonSyntax

/-- The kinds of nodes: expressions and their parts, then statements and theirs. -/
inductive NodeKind where
  | noneLiteral | falseLiteral | trueLiteral | ellipsis | name | number | string | tuple | list
  | dictionary | set | atomExpr | dotName | call | index | slice | binary (op : BinaryOperator)
  | unary (op : UnaryOperator) | notIn | isNot | conditional | lambda | namedExpr | starExpr
  | testList | dictEntry | dictUnpack | comprehension | compFor | compIf | argList
  | keywordArgument | starArgument | doubleStarArgument | typedArgsList | varArgsList
  | parameter | starParameter | doubleStarParameter | positionalOnly | yieldExpr | dottedName
  | dottedAsName | importAsName | withItem | asPattern
  | fileInput | singleInput | evalInput | simpleStatement | exprStatement | assignment
  | assignTarget | annAssign | augmented (op : AugmentedOperator) | delStatement | passStatement
  | breakStatement | continueStatement | returnStatement | raiseStatement | yieldStatement
  | importStatement | importFrom | globalStatement | nonlocalStatement | assertStatement
  | ifStatement | elifClause | elseClause | whileStatement | forStatement | tryStatement
  | exceptClause | finallyClause | withStatement | asyncStatement | decorator | decorators
  | decorated | functionDef | classDef | block | matchStatement | caseBlock
  deriving DecidableEq, Repr

/-- How often a field occurs in a node. -/
inductive Arity where
  | one
  | optional
  | many
  deriving DecidableEq, Repr

/-- A field of a kind of node. -/
structure Slot where
  field : Field
  arity : Arity
  deriving DecidableEq, Repr

namespace Slot

/-- A field that occurs once. -/
def one (field : Field) : Slot := ⟨field, .one⟩

/-- A field that occurs at most once. -/
def optional (field : Field) : Slot := ⟨field, .optional⟩

/-- A field that occurs any number of times. -/
def many (field : Field) : Slot := ⟨field, .many⟩

end Slot

namespace NodeKind

/-- The name of the kind.  An expression that yields and the statement made of it share theirs. -/
def label : NodeKind → String
  | .noneLiteral => "None"
  | .falseLiteral => "False"
  | .trueLiteral => "True"
  | .ellipsis => "Ellipsis"
  | .name => "Name"
  | .number => "Number"
  | .string => "String"
  | .tuple => "Tuple"
  | .list => "List"
  | .dictionary => "Dictionary"
  | .set => "Set"
  | .atomExpr => "AtomExpr"
  | .dotName => "DotName"
  | .call => "Call"
  | .index => "Index"
  | .slice => "Slice"
  | .binary op => op.label
  | .unary op => op.label
  | .notIn => "NotIn"
  | .isNot => "IsNot"
  | .conditional => "Conditional"
  | .lambda => "Lambda"
  | .namedExpr => "NamedExpr"
  | .starExpr => "StarExpr"
  | .testList => "TestList"
  | .dictEntry => "DictEntry"
  | .dictUnpack => "DictUnpack"
  | .comprehension => "Comprehension"
  | .compFor => "CompFor"
  | .compIf => "CompIf"
  | .argList => "ArgList"
  | .keywordArgument => "KeywordArgument"
  | .starArgument => "StarArgument"
  | .doubleStarArgument => "DoubleStarArgument"
  | .typedArgsList => "TypedArgsList"
  | .varArgsList => "VarArgsList"
  | .parameter => "Parameter"
  | .starParameter => "StarParameter"
  | .doubleStarParameter => "DoubleStarParameter"
  | .positionalOnly => "PositionalOnly"
  | .yieldExpr => "Yield"
  | .dottedName => "DottedName"
  | .dottedAsName => "DottedAsName"
  | .importAsName => "ImportAsName"
  | .withItem => "WithItem"
  | .asPattern => "AsPattern"
  | .fileInput => "FileInput"
  | .singleInput => "SingleInput"
  | .evalInput => "EvalInput"
  | .simpleStatement => "SimpleStatement"
  | .exprStatement => "Expr"
  | .assignment => "Assignment"
  | .assignTarget => "AssignTarget"
  | .annAssign => "AnnAssign"
  | .augmented op => op.label
  | .delStatement => "Del"
  | .passStatement => "Pass"
  | .breakStatement => "Break"
  | .continueStatement => "Continue"
  | .returnStatement => "Return"
  | .raiseStatement => "Raise"
  | .yieldStatement => "Yield"
  | .importStatement => "Import"
  | .importFrom => "ImportFrom"
  | .globalStatement => "Global"
  | .nonlocalStatement => "Nonlocal"
  | .assertStatement => "Assert"
  | .ifStatement => "If"
  | .elifClause => "Elif"
  | .elseClause => "Else"
  | .whileStatement => "While"
  | .forStatement => "For"
  | .tryStatement => "Try"
  | .exceptClause => "Except"
  | .finallyClause => "Finally"
  | .withStatement => "With"
  | .asyncStatement => "Async"
  | .decorator => "Decorator"
  | .decorators => "Decorators"
  | .decorated => "Decorated"
  | .functionDef => "FunctionDef"
  | .classDef => "ClassDef"
  | .block => "Block"
  | .matchStatement => "Match"
  | .caseBlock => "Case"

/-- The fields of the kind, in the order in which they are listed. -/
def slots : NodeKind → List Slot
  | .noneLiteral | .falseLiteral | .trueLiteral | .ellipsis | .name | .number => [.one .token]
  | .string => [.many .tokens]
  | .tuple => [.one .lparen, .optional .inner, .one .rparen]
  | .list => [.one .lbracket, .optional .inner, .one .rbracket]
  | .dictionary => [.one .lcurly, .optional .inner, .one .rcurly]
  | .set => [.one .lcurly, .one .inner, .one .rcurly]
  | .atomExpr => [.optional .awaitToken, .one .atom, .many .trailers]
  | .dotName => [.one .dot, .one .name]
  | .call => [.one .lparen, .optional .arguments, .one .rparen]
  | .index => [.one .lbracket, .one .subscripts, .one .rbracket]
  | .slice =>
    [.optional .lower, .one .colon, .optional .upper, .optional .stepColon, .optional .step]
  | .binary _ => [.one .left, .one .op, .one .right]
  | .unary _ => [.one .op, .one .right]
  | .notIn => [.one .left, .one .notToken, .one .inToken, .one .right]
  | .isNot => [.one .left, .one .isToken, .one .notToken, .one .right]
  | .conditional => [.one .body, .one .ifToken, .one .condition, .one .elseToken, .one .otherwise]
  | .lambda => [.one .lambdaToken, .optional .parameters, .one .colon, .one .body]
  | .namedExpr => [.one .target, .one .op, .one .value]
  | .starExpr => [.one .op, .one .right]
  | .testList => [.many .elements, .many .separators]
  | .dictEntry => [.one .key, .one .colon, .one .value]
  | .dictUnpack => [.one .op, .one .right]
  | .comprehension => [.one .element, .one .clause]
  | .compFor =>
    [.optional .asyncToken, .one .forToken, .one .targets, .one .inToken, .one .iterable,
     .optional .next]
  | .compIf => [.one .ifToken, .one .condition, .optional .next]
  | .argList => [.many .arguments, .many .separators]
  | .keywordArgument => [.one .name, .one .assign, .one .value]
  | .starArgument | .doubleStarArgument => [.one .op, .one .value]
  | .typedArgsList | .varArgsList => [.many .parameters, .many .separators]
  | .parameter =>
    [.one .name, .optional .colon, .optional .annotated, .optional .assign,
     .optional .defaultValue]
  | .starParameter => [.one .op, .optional .parameter]
  | .doubleStarParameter => [.one .op, .one .parameter]
  | .positionalOnly => [.one .slash]
  | .yieldExpr => [.one .yieldToken, .optional .fromToken, .optional .value]
  | .dottedName => [.many .names, .many .dots]
  | .dottedAsName | .importAsName => [.one .name, .optional .asToken, .optional .alias]
  | .withItem => [.one .context, .optional .asToken, .optional .target]
  | .asPattern => [.one .pattern, .one .asToken, .one .name]
  | .fileInput => [.many .statements, .many .newlines, .one .eof]
  | .singleInput => [.optional .statement, .optional .newline]
  | .evalInput => [.one .right, .many .newlines, .one .eof]
  | .simpleStatement => [.many .statements, .many .separators, .one .newline]
  | .exprStatement => [.one .expr]
  | .assignment => [.many .targets, .one .value, .optional .typeComment]
  | .assignTarget => [.one .target, .one .op]
  | .annAssign => [.one .left, .one .colon, .one .annotated, .optional .assign, .optional .value]
  | .augmented _ => [.one .left, .one .op, .one .right]
  | .delStatement => [.one .delToken, .one .targets]
  | .passStatement | .breakStatement | .continueStatement => [.one .token]
  | .returnStatement => [.one .returnToken, .optional .value]
  | .raiseStatement =>
    [.one .raiseToken, .optional .exception, .optional .fromToken, .optional .cause]
  | .yieldStatement => [.one .expr]
  | .importStatement => [.one .importToken, .many .names, .many .separators]
  | .importFrom =>
    [.one .fromToken, .many .dots, .optional .moduleName, .one .importToken, .optional .star,
     .optional .lparen, .many .names, .many .separators, .optional .rparen]
  | .globalStatement => [.one .globalToken, .many .names, .many .separators]
  | .nonlocalStatement => [.one .nonlocalToken, .many .names, .many .separators]
  | .assertStatement => [.one .assertToken, .one .test, .optional .comma, .optional .message]
  | .ifStatement =>
    [.one .ifToken, .one .test, .one .colon, .one .body, .many .elifs, .optional .elseClause]
  | .elifClause => [.one .elifToken, .one .test, .one .colon, .one .body]
  | .elseClause => [.one .elseToken, .one .colon, .one .body]
  | .whileStatement =>
    [.one .whileToken, .one .test, .one .colon, .one .body, .optional .elseClause]
  | .forStatement =>
    [.one .forToken, .one .targets, .one .inToken, .one .iterable, .one .colon,
     .optional .typeComment, .one .body, .optional .elseClause]
  | .tryStatement =>
    [.one .tryToken, .one .colon, .one .body, .many .handlers, .optional .elseClause,
     .optional .finallyClause]
  | .exceptClause =>
    [.one .exceptToken, .optional .test, .optional .asToken, .optional .name, .one .colon,
     .one .body]
  | .finallyClause => [.one .finallyToken, .one .colon, .one .body]
  | .withStatement =>
    [.one .withToken, .many .items, .many .separators, .one .colon, .optional .typeComment,
     .one .body]
  | .asyncStatement => [.one .asyncToken, .one .statement]
  | .decorator => [.one .atSign, .one .expr, .one .newline]
  | .decorators => [.many .decorators]
  | .decorated => [.one .decorators, .one .definition]
  | .functionDef =>
    [.one .defToken, .one .name, .one .lparen, .optional .parameters, .one .rparen,
     .optional .arrow, .optional .returns, .one .colon, .optional .typeComment, .one .body]
  | .classDef =>
    [.one .classToken, .one .name, .optional .lparen, .optional .arguments, .optional .rparen,
     .one .colon, .one .body]
  | .block => [.one .newline, .one .indent, .many .statements, .one .dedent]
  | .matchStatement =>
    [.one .matchToken, .one .subject, .one .colon, .one .newline, .one .indent, .many .cases,
     .one .dedent]
  | .caseBlock =>
    [.one .caseToken, .one .pattern, .optional .ifToken, .optional .guard, .one .colon,
     .one .body]

end NodeKind

end PythonSyntax
