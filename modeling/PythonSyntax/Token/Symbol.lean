/-
**Operators and delimiters.**

Main definitions:

* `PythonSyntax.Symbol` — the operators and delimiters;
* `PythonSyntax.Symbol.spelling` — how one is written;
* `PythonSyntax.Symbol.byPriority` — the order in which they are tried against a text, each before
  every symbol that it extends.
-/

set_option autoImplicit false

namespace PythonSyntax

/-- The operators and delimiters of the language. -/
inductive Symbol where
  | plus | minus | mul | power | div | floorDiv | modulo | matMul | shiftLeft | shiftRight
  | bitAnd | bitOr | bitXor | bitInvert | colonAssign | less | greater | lessEqual
  | greaterEqual | equal | notEqual | leftParen | leftBracket | leftCurly | rightParen
  | rightBracket | rightCurly | colon | comma | dot | ellipsis | semiColon | assign | arrow
  | plusAssign | minusAssign | mulAssign | divAssign | floorDivAssign | moduloAssign
  | matMulAssign | bitAndAssign | bitOrAssign | bitXorAssign | shiftLeftAssign
  | shiftRightAssign | powerAssign
  deriving DecidableEq, Repr

namespace Symbol

/-- How a symbol is written. -/
def spelling : Symbol → String
  | .plus => "+"
  | .minus => "-"
  | .mul => "*"
  | .power => "**"
  | .div => "/"
  | .floorDiv => "//"
  | .modulo => "%"
  | .matMul => "@"
  | .shiftLeft => "<<"
  | .shiftRight => ">>"
  | .bitAnd => "&"
  | .bitOr => "|"
  | .bitXor => "^"
  | .bitInvert => "~"
  | .colonAssign => ":="
  | .less => "<"
  | .greater => ">"
  | .lessEqual => "<="
  | .greaterEqual => ">="
  | .equal => "=="
  | .notEqual => "!="
  | .leftParen => "("
  | .leftBracket => "["
  | .leftCurly => "\x7b"
  | .rightParen => ")"
  | .rightBracket => "]"
  | .rightCurly => "\x7d"
  | .colon => ":"
  | .comma => ","
  | .dot => "."
  | .ellipsis => "..."
  | .semiColon => ";"
  | .assign => "="
  | .arrow => "->"
  | .plusAssign => "+="
  | .minusAssign => "-="
  | .mulAssign => "*="
  | .divAssign => "/="
  | .floorDivAssign => "//="
  | .moduloAssign => "%="
  | .matMulAssign => "@="
  | .bitAndAssign => "&="
  | .bitOrAssign => "|="
  | .bitXorAssign => "^="
  | .shiftLeftAssign => "<<="
  | .shiftRightAssign => ">>="
  | .powerAssign => "**="

/-- The name under which a symbol is listed. -/
def label : Symbol → String
  | .plus => "Plus"
  | .minus => "Minus"
  | .mul => "Mul"
  | .power => "Power"
  | .div => "Div"
  | .floorDiv => "FloorDiv"
  | .modulo => "Modulo"
  | .matMul => "MatMul"
  | .shiftLeft => "ShiftLeft"
  | .shiftRight => "ShiftRight"
  | .bitAnd => "BitAnd"
  | .bitOr => "BitOr"
  | .bitXor => "BitXor"
  | .bitInvert => "BitInvert"
  | .colonAssign => "ColonAssign"
  | .less => "Less"
  | .greater => "Greater"
  | .lessEqual => "LessEqual"
  | .greaterEqual => "GreaterEqual"
  | .equal => "Equal"
  | .notEqual => "NotEqual"
  | .leftParen => "LeftParen"
  | .leftBracket => "LeftBracket"
  | .leftCurly => "LeftCurly"
  | .rightParen => "RightParen"
  | .rightBracket => "RightBracket"
  | .rightCurly => "RightCurly"
  | .colon => "Colon"
  | .comma => "Comma"
  | .dot => "Dot"
  | .ellipsis => "Ellipsis"
  | .semiColon => "SemiColon"
  | .assign => "Assign"
  | .arrow => "Arrow"
  | .plusAssign => "PlusAssign"
  | .minusAssign => "MinusAssign"
  | .mulAssign => "MulAssign"
  | .divAssign => "DivAssign"
  | .floorDivAssign => "FloorDivAssign"
  | .moduloAssign => "ModuloAssign"
  | .matMulAssign => "MatMulAssign"
  | .bitAndAssign => "BitAndAssign"
  | .bitOrAssign => "BitOrAssign"
  | .bitXorAssign => "BitXorAssign"
  | .shiftLeftAssign => "ShiftLeftAssign"
  | .shiftRightAssign => "ShiftRightAssign"
  | .powerAssign => "PowerAssign"

/-- The symbols in the order in which they are tried: three characters, then two, then one. -/
def byPriority : List Symbol :=
  [.powerAssign, .floorDivAssign, .shiftLeftAssign, .shiftRightAssign, .ellipsis, .power,
   .mulAssign, .floorDiv, .divAssign, .shiftLeft, .lessEqual, .shiftRight, .greaterEqual,
   .equal, .notEqual, .colonAssign, .arrow, .plusAssign, .minusAssign, .moduloAssign,
   .matMulAssign, .bitAndAssign, .bitOrAssign, .bitXorAssign, .mul, .div, .less, .greater,
   .assign, .colon, .minus, .plus, .modulo, .matMul, .bitAnd, .bitOr, .bitXor, .bitInvert, .dot,
   .comma, .semiColon, .leftParen, .rightParen, .leftBracket, .rightBracket, .leftCurly,
   .rightCurly]

theorem mem_byPriority (sign : Symbol) : sign ∈ byPriority := by
  cases sign <;> decide

/-- The brackets that open a nested region. -/
def opens : Symbol → Bool
  | .leftParen | .leftBracket | .leftCurly => true
  | _ => false

/-- The brackets that close a nested region. -/
def closes : Symbol → Bool
  | .rightParen | .rightBracket | .rightCurly => true
  | _ => false

end Symbol

end PythonSyntax
