/-
**Reserved words.**

The words `match`, `case` and `_` are not among them: they are names that some places of the grammar
read in a special way.

Main definitions:

* `PythonSyntax.Keyword` — the reserved words;
* `PythonSyntax.Keyword.spelling` — how a reserved word is written;
* `PythonSyntax.Keyword.ofSpelling?` — the reserved word written in a given way, if any.

Main results:

* `PythonSyntax.Keyword.spelling_injective` — no two reserved words are written alike;
* `PythonSyntax.Keyword.ofSpelling?_eq_some_iff` — looking up is the inverse of writing.
-/

set_option autoImplicit false

namespace PythonSyntax

/-- The reserved words of the language. -/
inductive Keyword where
  | falseKw | noneKw | trueKw | andKw | asKw | assertKw | asyncKw | awaitKw | breakKw | classKw
  | continueKw | defKw | delKw | elifKw | elseKw | exceptKw | finallyKw | forKw | fromKw
  | globalKw | ifKw | importKw | inKw | isKw | lambdaKw | nonlocalKw | notKw | orKw | passKw
  | raiseKw | returnKw | tryKw | whileKw | withKw | yieldKw
  deriving DecidableEq, Repr

namespace Keyword

/-- How a reserved word is written. -/
def spelling : Keyword → String
  | .falseKw => "False"
  | .noneKw => "None"
  | .trueKw => "True"
  | .andKw => "and"
  | .asKw => "as"
  | .assertKw => "assert"
  | .asyncKw => "async"
  | .awaitKw => "await"
  | .breakKw => "break"
  | .classKw => "class"
  | .continueKw => "continue"
  | .defKw => "def"
  | .delKw => "del"
  | .elifKw => "elif"
  | .elseKw => "else"
  | .exceptKw => "except"
  | .finallyKw => "finally"
  | .forKw => "for"
  | .fromKw => "from"
  | .globalKw => "global"
  | .ifKw => "if"
  | .importKw => "import"
  | .inKw => "in"
  | .isKw => "is"
  | .lambdaKw => "lambda"
  | .nonlocalKw => "nonlocal"
  | .notKw => "not"
  | .orKw => "or"
  | .passKw => "pass"
  | .raiseKw => "raise"
  | .returnKw => "return"
  | .tryKw => "try"
  | .whileKw => "while"
  | .withKw => "with"
  | .yieldKw => "yield"

/-- The name under which a reserved word is listed: its spelling with a capital. -/
def label (word : Keyword) : String := word.spelling.capitalize

/-- All reserved words, in alphabetical order, the capitalised ones first. -/
def all : List Keyword :=
  [.falseKw, .noneKw, .trueKw, .andKw, .asKw, .assertKw, .asyncKw, .awaitKw, .breakKw, .classKw,
   .continueKw, .defKw, .delKw, .elifKw, .elseKw, .exceptKw, .finallyKw, .forKw, .fromKw,
   .globalKw, .ifKw, .importKw, .inKw, .isKw, .lambdaKw, .nonlocalKw, .notKw, .orKw, .passKw,
   .raiseKw, .returnKw, .tryKw, .whileKw, .withKw, .yieldKw]

theorem mem_all (word : Keyword) : word ∈ all := by
  cases word <;> decide

/-- The reserved word written as `text`, if there is one. -/
def ofSpelling? (text : String) : Option Keyword :=
  all.find? fun word => word.spelling = text

/-- No two reserved words are written alike. -/
theorem spelling_injective {u v : Keyword} (h : u.spelling = v.spelling) : u = v := by
  revert h
  cases u <;> cases v <;> decide

/-- Looking up is the inverse of writing. -/
theorem ofSpelling?_eq_some_iff {text : String} {word : Keyword} :
    ofSpelling? text = some word ↔ word.spelling = text := by
  constructor
  · intro h
    simpa [ofSpelling?] using List.find?_some h
  · rintro rfl
    have found : (ofSpelling? word.spelling).isSome = true :=
      List.find?_isSome.2 ⟨word, mem_all word, by simp⟩
    obtain ⟨other, found⟩ := Option.isSome_iff_exists.1 found
    have same : other.spelling = word.spelling := by simpa [ofSpelling?] using List.find?_some found
    rw [found, spelling_injective same]

end Keyword

end PythonSyntax
