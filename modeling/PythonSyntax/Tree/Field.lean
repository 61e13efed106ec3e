/-
**Fields: the places that the children of a node take.**

Main definitions:

* `PythonSyntax.Field` — the places;
* `PythonSyntax.Field.label` — the name of a place.
-/

set_option autoImplicit false

namespace PythonSyntax

/-- The place that a child takes in its node. -/
inductive Field where
  | token | tokens | lparen | inner | rparen | lbracket | rbracket | lcurly | rcurly
  | awaitToken | atom | trailers | dot | name | arguments | subscripts | lower | colon | upper
  | stepColon | step | left | op | right | notToken | inToken | isToken | body | ifToken
  | condition | elseToken | otherwise | lambdaToken | parameters | target | value | elements
  | separators | key | element | clause | asyncToken | forToken | targets | iterable | next
  | assign | annotated | defaultValue | parameter | slash | yieldToken | fromToken | names
  | dots | asToken | alias | context | pattern | statements | newlines | eof | statement
  | newline | expr | typeComment | delToken | returnToken | raiseToken | exception | cause
  | importToken | moduleName | star | globalToken | nonlocalToken | assertToken | test | comma
  | message | elifs | elseClause | elifToken | whileToken | tryToken | handlers | finallyClause
  | exceptToken | finallyToken | withToken | items | atSign | decorators | definition | defToken
  | arrow | returns | classToken | indent | dedent | matchToken | subject | cases | caseToken
  | guard
  deriving DecidableEq, Repr

/-- The name of a place. -/
def Field.label : Field → String
  | .token => "token"
  | .tokens => "tokens"
  | .lparen => "lparen"
  | .inner => "inner"
  | .rparen => "rparen"
  | .lbracket => "lbracket"
  | .rbracket => "rbracket"
  | .lcurly => "lcurly"
  | .rcurly => "rcurly"
  | .awaitToken => "await_token"
  | .atom => "atom"
  | .trailers => "trailers"
  | .dot => "dot"
  | .name => "name"
  | .arguments => "arguments"
  | .subscripts => "subscripts"
  | .lower => "lower"
  | .colon => "colon"
  | .upper => "upper"
  | .stepColon => "step_colon"
  | .step => "step"
  | .left => "left"
  | .op => "op"
  | .right => "right"
  | .notToken => "not_token"
  | .inToken => "in_token"
  | .isToken => "is_token"
  | .body => "body"
  | .ifToken => "if_token"
  | .condition => "condition"
  | .elseToken => "else_token"
  | .otherwise => "orelse"
  | .lambdaToken => "lambda_token"
  | .parameters => "parameters"
  | .target => "target"
  | .value => "value"
  | .elements => "elements"
  | .separators => "separators"
  | .key => "key"
  | .element => "element"
  | .clause => "clause"
  | .asyncToken => "async_token"
  | .forToken => "for_token"
  | .targets => "targets"
  | .iterable => "iter"
  | .next => "next"
  | .assign => "assign"
  | .annotated => "annotation"
  | .defaultValue => "default"
  | .parameter => "parameter"
  | .slash => "slash"
  | .yieldToken => "yield_token"
  | .fromToken => "from_token"
  | .names => "names"
  | .dots => "dots"
  | .asToken => "as_token"
  | .alias => "alias"
  | .context => "context"
  | .pattern => "pattern"
  | .statements => "statements"
  | .newlines => "newlines"
  | .eof => "eof"
  | .statement => "statement"
  | .newline => "newline"
  | .expr => "expr"
  | .typeComment => "type_comment"
  | .delToken => "del_token"
  | .returnToken => "return_token"
  | .raiseToken => "raise_token"
  | .exception => "exception"
  | .cause => "cause"
  | .importToken => "import_token"
  | .moduleName => "module"
  | .star => "star"
  | .globalToken => "global_token"
  | .nonlocalToken => "nonlocal_token"
  | .assertToken => "assert_token"
  | .test => "test"
  | .comma => "comma"
  | .message => "message"
  | .elifs => "elifs"
  | .elseClause => "else_clause"
  | .elifToken => "elif_token"
  | .whileToken => "while_token"
  | .tryToken => "try_token"
  | .handlers => "handlers"
  | .finallyClause => "finally_clause"
  | .exceptToken => "except_token"
  | .finallyToken => "finally_token"
  | .withToken => "with_token"
  | .items => "items"
  | .atSign => "at"
  | .decorators => "decorators"
  | .definition => "definition"
  | .defToken => "def_token"
  | .arrow => "arrow"
  | .returns => "returns"
  | .classToken => "class_token"
  | .indent => "indent"
  | .dedent => "dedent"
  | .matchToken => "match_token"
  | .subject => "subject"
  | .cases => "cases"
  | .caseToken => "case_token"
  | .guard => "guard"

end PythonSyntax
