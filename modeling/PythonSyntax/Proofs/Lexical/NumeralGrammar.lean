/-
**The grammar of numbers.**

It says which texts are numbers, and nothing of how they are found.  Numbers in decimal notation
share their parts, so that behind the first digits a text may turn out to be one sort of number or
another.

Main definitions:

* `PythonSyntax.Numeral.digitsOf`, `PythonSyntax.Numeral.lettersOf` — the digits of a base, and the
  letters that announce it;
* `PythonSyntax.Numeral.Begins` — a number begins here;
* `PythonSyntax.Numeral.Run`, `PythonSyntax.Numeral.Integer`, `PythonSyntax.Numeral.FloatNumber`,
  `PythonSyntax.Numeral.Literal` — the grammar of numbers;
* `PythonSyntax.Numeral.Parts` — a number in decimal notation, as the parts that may be missing.

Main results:

* `PythonSyntax.Numeral.Literal.cases_parts` — a number announces its base, or it has parts;
* `PythonSyntax.Numeral.Parts.literal` — parts make a number.
-/

import PythonSyntax.Lexical.Radix

set_option autoImplicit false

namespace PythonSyntax

/-! ### The grammar of numbers -/

namespace Numeral

/-- The digits of a base. -/
def digitsOf : Radix → List Char
  | .decimal => ['0', '1', '2', '3', '4', '5', '6', '7', '8', '9']
  | .hexadecimal =>
    ['0', '1', '2', '3', '4', '5', '6', '7', '8', '9', 'a', 'b', 'c', 'd', 'e', 'f',
      'A', 'B', 'C', 'D', 'E', 'F']
  | .octal => ['0', '1', '2', '3', '4', '5', '6', '7']
  | .binary => ['0', '1']

/-- The letters that announce a base, behind a zero. -/
def lettersOf : Radix → List Char
  | .decimal => []
  | .hexadecimal => ['x', 'X']
  | .octal => ['o', 'O']
  | .binary => ['b', 'B']

/-- A number begins with a digit, or with a point and a digit. -/
inductive Begins : List Char → Prop
  | digit {c : Char} {rest : List Char} (digit : c ∈ digitsOf .decimal) : Begins (c :: rest)
  | point {c : Char} {rest : List Char} (digit : c ∈ digitsOf .decimal) : Begins ('.' :: c :: rest)

/-- A run of digits, with single underscores between them. -/
inductive Run (radix : Radix) : List Char → Prop
  | last {c : Char} (digit : c ∈ digitsOf radix) : Run radix [c]
  | digit {c : Char} {rest : List Char} (digit : c ∈ digitsOf radix) (run : Run radix rest) :
      Run radix (c :: rest)
  | underscore {c : Char} {rest : List Char} (digit : c ∈ digitsOf radix) (run : Run radix rest) :
      Run radix (c :: '_' :: rest)

/-- Digits without a zero in front, or zeros only. -/
def Unpadded (digits : List Char) : Prop :=
  digits.head? ≠ some '0' ∨ ∀ c ∈ digits, c = '0' ∨ c = '_'

/-- An integer: in decimal notation, or with a zero and a letter that announce another base; after
the letter an underscore may stand. -/
inductive Integer : List Char → Prop
  | decimal {digits : List Char} (run : Run .decimal digits) (unpadded : Unpadded digits) :
      Integer digits
  | inRadix {letter : Char} {radix : Radix} {mark digits : List Char}
      (announced : letter ∈ lettersOf radix) (marked : mark = [] ∨ mark = ['_'])
      (run : Run radix digits) : Integer ('0' :: letter :: (mark ++ digits))

/-- A point and digits. -/
inductive Fraction : List Char → Prop
  | intro {digits : List Char} (run : Run .decimal digits) : Fraction ('.' :: digits)

/-- A letter `e`, a sign, if any, and digits. -/
inductive Exponent : List Char → Prop
  | intro {letter : Char} {sign digits : List Char} (isE : letter = 'e' ∨ letter = 'E')
      (signed : sign = [] ∨ sign = ['+'] ∨ sign = ['-']) (run : Run .decimal digits) :
      Exponent (letter :: (sign ++ digits))

/-- A number with a point; digits stand before it, behind it, or both. -/
inductive PointFloat : List Char → Prop
  | fraction {whole fraction : List Char} (before : whole = [] ∨ Run .decimal whole)
      (behind : Fraction fraction) : PointFloat (whole ++ fraction)
  | point {whole : List Char} (before : Run .decimal whole) : PointFloat (whole ++ ['.'])

/-- A number with a point, with an exponent, or with both. -/
inductive FloatNumber : List Char → Prop
  | point {text : List Char} (float : PointFloat text) : FloatNumber text
  | exponent {mantissa exponent : List Char} (before : Run .decimal mantissa ∨ PointFloat mantissa)
      (power : Exponent exponent) : FloatNumber (mantissa ++ exponent)

/-- A number: an integer, a number with a point or an exponent, or any digits or such a number with
the letter `j` behind. -/
inductive Literal : List Char → Prop
  | integer {text : List Char} (integer : Integer text) : Literal text
  | float {text : List Char} (float : FloatNumber text) : Literal text
  | imaginary {text : List Char} {letter : Char} (number : Run .decimal text ∨ FloatNumber text)
      (isJ : letter = 'j' ∨ letter = 'J') : Literal (text ++ [letter])

/-! ### Numbers in decimal notation -/

/-- The parts of a number in decimal notation, each of which may be missing.  There is a digit
before the point or behind it; and if there is nothing but digits, no zeros stand in front. -/
structure Parts (whole fraction exponent letter : List Char) : Prop where
  before : whole = [] ∨ Run .decimal whole
  behind : fraction = [] ∨ fraction = ['.'] ∨ Fraction fraction
  power : exponent = [] ∨ Exponent exponent
  unit : letter = [] ∨ letter = ['j'] ∨ letter = ['J']
  digit : whole ≠ [] ∨ Fraction fraction
  unpadded : fraction = [] → exponent = [] → letter = [] → Unpadded whole

variable {radix : Radix} {text front whole fraction exponent letter rest : List Char} {c : Char}

theorem Run.ne_nil (h : Run radix front) : front ≠ [] := by
  cases h <;> exact List.cons_ne_nil _ _

/-- The digits before and behind a point are digits alone or a number with a point. -/
theorem Parts.mantissa (h : Parts whole fraction exponent letter) :
    Run .decimal (whole ++ fraction) ∧ fraction = [] ∨ PointFloat (whole ++ fraction) := by
  have run : fraction = [] ∨ fraction = ['.'] → Run .decimal whole := by
    intro plain
    refine h.before.resolve_left fun none => ?_
    rcases h.digit with some | digits
    · exact some none
    · rcases plain with rfl | rfl
      · cases digits
      · cases digits with
        | intro run => exact run.ne_nil rfl
  rcases h.behind with rfl | rfl | behind
  · rw [List.append_nil]
    exact Or.inl ⟨run (Or.inl rfl), rfl⟩
  · exact Or.inr (.point (run (Or.inr rfl)))
  · exact Or.inr (.fraction h.before behind)

/-- The parts make a number. -/
theorem Parts.literal (h : Parts whole fraction exponent letter) :
    Literal (whole ++ fraction ++ exponent ++ letter) := by
  have real : Run .decimal (whole ++ fraction ++ exponent) ∧ fraction = [] ∧ exponent = [] ∨
      FloatNumber (whole ++ fraction ++ exponent) := by
    rcases h.power with rfl | power
    · rw [List.append_nil]
      exact h.mantissa.imp (fun plain => ⟨plain.1, plain.2, rfl⟩) .point
    · exact Or.inr (.exponent (h.mantissa.imp_left And.left) power)
  rcases h.unit with rfl | j
  · rw [List.append_nil]
    rcases real with ⟨run, rfl, rfl⟩ | float
    · refine .integer (.decimal run ?_)
      simpa using h.unpadded rfl rfl rfl
    · exact .float float
  · have number := real.imp_left And.left
    rcases j with rfl | rfl
    · exact .imaginary number (Or.inl rfl)
    · exact .imaginary number (Or.inr rfl)

/-- A number with a point has parts, whatever follows it. -/
theorem PointFloat.parts (h : PointFloat text) (power : exponent = [] ∨ Exponent exponent)
    (unit : letter = [] ∨ letter = ['j'] ∨ letter = ['J']) :
    ∃ whole fraction, Parts whole fraction exponent letter ∧ text = whole ++ fraction := by
  cases h with
  | @fraction whole fraction before behind =>
      refine ⟨whole, fraction, ⟨before, Or.inr (Or.inr behind), power, unit, Or.inr behind,
        fun none => ?_⟩, rfl⟩
      subst none
      cases behind
  | @point whole run =>
      exact ⟨whole, ['.'], ⟨Or.inr run, Or.inr (Or.inl rfl), power, unit, Or.inl run.ne_nil,
        nofun⟩, rfl⟩

/-- So has a number with a point or an exponent. -/
theorem FloatNumber.parts (h : FloatNumber text)
    (unit : letter = [] ∨ letter = ['j'] ∨ letter = ['J']) :
    ∃ whole fraction exponent, Parts whole fraction exponent letter ∧
      text = whole ++ fraction ++ exponent := by
  cases h with
  | point point =>
      obtain ⟨whole, fraction, parts, rfl⟩ := point.parts (Or.inl rfl) unit
      exact ⟨whole, fraction, [], parts, (List.append_nil _).symm⟩
  | @exponent mantissa exponent before power =>
      rcases before with run | point
      · refine ⟨mantissa, [], exponent, ⟨Or.inr run, Or.inl rfl, Or.inr power, unit,
          Or.inl run.ne_nil, fun _ none => ?_⟩, by rw [List.append_nil]⟩
        subst none
        cases power
      · obtain ⟨whole, fraction, parts, rfl⟩ := point.parts (Or.inr power) unit
        exact ⟨whole, fraction, exponent, parts, rfl⟩

/-- **A number announces its base, or it has parts.** -/
theorem Literal.cases_parts (h : Literal text) :
    (∃ letter radix mark digits, letter ∈ lettersOf radix ∧ (mark = [] ∨ mark = ['_']) ∧
      Run radix digits ∧ text = '0' :: letter :: (mark ++ digits)) ∨
    ∃ whole fraction exponent letter, Parts whole fraction exponent letter ∧
      text = whole ++ fraction ++ exponent ++ letter := by
  cases h with
  | integer integer =>
      cases integer with
      | inRadix announced marked run => exact Or.inl ⟨_, _, _, _, announced, marked, run, rfl⟩
      | decimal run unpadded =>
          exact Or.inr ⟨text, [], [], [], ⟨Or.inr run, Or.inl rfl, Or.inl rfl, Or.inl rfl,
            Or.inl run.ne_nil, fun _ _ _ => unpadded⟩, by simp⟩
  | float float =>
      obtain ⟨whole, fraction, exponent, parts, rfl⟩ := float.parts (Or.inl rfl)
      exact Or.inr ⟨whole, fraction, exponent, [], parts, (List.append_nil _).symm⟩
  | @imaginary text letter number isJ =>
      have isJ' : [letter] = [] ∨ [letter] = ['j'] ∨ [letter] = ['J'] :=
        Or.inr (isJ.imp (congrArg (fun c => [c])) (congrArg (fun c => [c])))
      rcases number with run | float
      · exact Or.inr ⟨text, [], [], [letter], ⟨Or.inr run, Or.inl rfl, Or.inl rfl, isJ',
          Or.inl run.ne_nil, nofun⟩, by simp⟩
      · obtain ⟨whole, fraction, exponent, parts, rfl⟩ := float.parts isJ'
        exact Or.inr ⟨whole, fraction, exponent, [letter], parts, rfl⟩

end Numeral

end PythonSyntax
