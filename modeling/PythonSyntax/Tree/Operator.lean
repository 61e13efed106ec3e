/-
**Operators of expressions and statements.**

Main definitions:

* `PythonSyntax.BinaryOperator`, `PythonSyntax.UnaryOperator` — the operators that are written as
  one token, between two operands or before one;
* `PythonSyntax.AugmentedOperator` — the operators that assign to their left operand.
-/

import PythonSyntax.Token.Kind

set_option autoImplicit false

namespace PythonSyntax

/-- The operators between two operands that are written as one token. -/
inductive BinaryOperator where
  | disjunction | conjunction | less | greater | equal | greaterEqual | lessEqual | notEqual
  | membership | identity | bitOr | bitXor | bitAnd | shiftLeft | shiftRight | plus | minus
  | mul | div | floorDiv | modulo | matMul | power
  deriving DecidableEq, Repr

namespace BinaryOperator

/-- The token of the operator. -/
def token : BinaryOperator → TokenKind
  | .disjunction => .keyword .orKw
  | .conjunction => .keyword .andKw
  | .less => .symbol .less
  | .greater => .symbol .greater
  | .equal => .symbol .equal
  | .greaterEqual => .symbol .greaterEqual
  | .lessEqual => .symbol .lessEqual
  | .notEqual => .symbol .notEqual
  | .membership => .keyword .inKw
  | .identity => .keyword .isKw
  | .bitOr => .symbol .bitOr
  | .bitXor => .symbol .bitXor
  | .bitAnd => .symbol .bitAnd
  | .shiftLeft => .symbol .shiftLeft
  | .shiftRight => .symbol .shiftRight
  | .plus => .symbol .plus
  | .minus => .symbol .minus
  | .mul => .symbol .mul
  | .div => .symbol .div
  | .floorDiv => .symbol .floorDiv
  | .modulo => .symbol .modulo
  | .matMul => .symbol .matMul
  | .power => .symbol .power

/-- The name of the node that the operator makes. -/
def label : BinaryOperator → String
  | .disjunction => "Or"
  | .conjunction => "And"
  | .less => "Less"
  | .greater => "Greater"
  | .equal => "Equal"
  | .greaterEqual => "GreaterEqual"
  | .lessEqual => "LessEqual"
  | .notEqual => "NotEqual"
  | .membership => "In"
  | .identity => "Is"
  | .bitOr => "BitOr"
  | .bitXor => "BitXor"
  | .bitAnd => "BitAnd"
  | .shiftLeft => "ShiftLeft"
  | .shiftRight => "ShiftRight"
  | .plus => "Plus"
  | .minus => "Minus"
  | .mul => "Mul"
  | .div => "Div"
  | .floorDiv => "FloorDiv"
  | .modulo => "Modulo"
  | .matMul => "MatMul"
  | .power => "Power"

end BinaryOperator

/-- The operators before one operand. -/
inductive UnaryOperator where
  | negation | plus | minus | invert
  deriving DecidableEq, Repr

namespace UnaryOperator

/-- The token of the operator. -/
def token : UnaryOperator → TokenKind
  | .negation => .keyword .notKw
  | .plus => .symbol .plus
  | .minus => .symbol .minus
  | .invert => .symbol .bitInvert

/-- The name of the node that the operator makes. -/
def label : UnaryOperator → String
  | .negation => "Not"
  | .plus => "UnaryPlus"
  | .minus => "UnaryMinus"
  | .invert => "BitInvert"

end UnaryOperator

/-- The operators that assign to their left operand. -/
inductive AugmentedOperator where
  | plus | minus | mul | div | floorDiv | modulo | matMul | bitAnd | bitOr | bitXor | shiftLeft
  | shiftRight | power
  deriving DecidableEq, Repr

namespace AugmentedOperator

/-- The symbol of the operator. -/
def symbol : AugmentedOperator → Symbol
  | .plus => .plusAssign
  | .minus => .minusAssign
  | .mul => .mulAssign
  | .div => .divAssign
  | .floorDiv => .floorDivAssign
  | .modulo => .moduloAssign
  | .matMul => .matMulAssign
  | .bitAnd => .bitAndAssign
  | .bitOr => .bitOrAssign
  | .bitXor => .bitXorAssign
  | .shiftLeft => .shiftLeftAssign
  | .shiftRight => .shiftRightAssign
  | .power => .powerAssign

/-- The token of the operator. -/
def token (op : AugmentedOperator) : TokenKind := .symbol op.symbol

/-- The name of the node that the operator makes. -/
def label (op : AugmentedOperator) : String := op.symbol.label

/-- All of them. -/
def all : List AugmentedOperator :=
  [.plus, .minus, .mul, .div, .floorDiv, .modulo, .matMul, .bitAnd, .bitOr, .bitXor, .shiftLeft,
   .shiftRight, .power]

end AugmentedOperator

end PythonSyntax
