/-
**Words that belong into the body of a loop or a function.**

`break` and `continue` need a loop around them, `return` and `yield` a function.  Going up from such
a word to the root of its tree, one comes out of the bodies in which it stands; the first of them
decides.  The counters of a parser tell the same.

Main definitions:

* `PythonSyntax.NodeKind.bodyAt` — where the body of a loop, a function or a class hangs;
* `PythonSyntax.FlowWord` — a word that needs a body, with the bodies around it;
* `PythonSyntax.FlowWord.legal` — the first body that matters is of the right sort;
* `PythonSyntax.Tree.wordAt`, `PythonSyntax.Tree.flowWords` — the words of a tree, in the order of
  the text;
* `PythonSyntax.Flow.of` — the counters of a parser inside of some bodies.

Main results:

* `PythonSyntax.Flow.meets_of` — the counters tell which words are legal;
* `PythonSyntax.Tree.flowWords_sublist` — the words come in the order of the tokens.
-/

import PythonSyntax.Proofs.Syntax.Phrase

set_option autoImplicit false

namespace PythonSyntax

/-! ### Bodies and words -/

namespace NodeKind

/-- The sort of body that hangs at a field of a node.  An `else` clause is no body. -/
def bodyAt : NodeKind → Field → Option Scope
  | whileStatement, .body | forStatement, .body => some .loopBody
  | functionDef, .body | lambda, .body => some .functionBody
  | classDef, .body => some .classBody
  | _, _ => none

/-- What the word at a field of a node needs, and what is said where it is missing. -/
def demandAt : NodeKind → Field → Option (Need × Complaint)
  | breakStatement, .token => some (.loop, .breakOutsideLoop)
  | continueStatement, .token => some (.loop, .continueOutsideLoop)
  | returnStatement, .returnToken => some (.function, .returnOutsideFunction)
  | yieldExpr, .yieldToken => some (.function, .yieldOutsideFunction)
  | _, _ => none

end NodeKind

/-- A word that needs a body. -/
structure FlowWord where
  need : Need
  complaint : Complaint
  token : Token
  /-- The bodies around the word, the innermost first. -/
  around : List Scope
  deriving DecidableEq

/-- The first body is that of a loop; or the first that is not the body of a loop is that of a
function. -/
def FlowWord.legal (word : FlowWord) : Bool :=
  match word.need with
  | .loop => word.around.head? = some .loopBody
  | .function => word.around.find? (· != .loopBody) = some .functionBody

namespace Tree

/-- The word that a child of a node is, if it is one. -/
def wordAt (kind : NodeKind) (around : List Scope) (field : Field) : Tree → List FlowWord
  | .leaf token =>
    ((kind.demandAt field).map fun demand => ⟨demand.1, demand.2, token, around⟩).toList
  | .node _ _ _ _ => []

mutual

/-- The words of a tree that need a body, in the order of the text; `around` are the bodies around
the tree. -/
def flowWords (around : List Scope) : Tree → List FlowWord
  | .leaf _ => []
  | .node kind _ _ children => flowWordsOf kind around children

/-- The words of the children of a node. -/
def flowWordsOf (kind : NodeKind) (around : List Scope) : List (Field × Tree) → List FlowWord
  | [] => []
  | (field, tree) :: rest =>
    wordAt kind around field tree ++ flowWords ((kind.bodyAt field).toList ++ around) tree ++
      flowWordsOf kind around rest

end

/-! ### The order of the words -/

theorem wordAt_sublist (kind : NodeKind) (around : List Scope) (field : Field) (token : Token) :
    ((wordAt kind around field (.leaf token)).map FlowWord.token).Sublist [token] := by
  unfold wordAt
  cases kind.demandAt field with
  | none => exact List.nil_sublist _
  | some demand => exact List.Sublist.refl _

mutual

/-- **The words come in the order of the tokens**, each from one token. -/
theorem flowWords_sublist (around : List Scope) :
    (tree : Tree) → ((tree.flowWords around).map FlowWord.token).Sublist tree.tokens
  | .leaf _ => List.nil_sublist _
  | .node kind _ _ children => flowWordsOf_sublist kind around children

theorem flowWordsOf_sublist (kind : NodeKind) (around : List Scope) :
    (children : List (Field × Tree)) →
      ((flowWordsOf kind around children).map FlowWord.token).Sublist (tokensOf children)
  | [] => by simp [flowWordsOf]
  | (field, .leaf token) :: rest => by
      rw [flowWordsOf, flowWords, List.append_nil, List.map_append, tokensOf_cons]
      exact (wordAt_sublist kind around field token).append (flowWordsOf_sublist kind around rest)
  | (field, .node inner start stop children) :: rest => by
      rw [flowWordsOf, wordAt, List.nil_append, List.map_append, tokensOf_cons]
      exact (flowWords_sublist _ (.node inner start stop children)).append
        (flowWordsOf_sublist kind around rest)

end

end Tree

/-! ### The counters of a parser -/

namespace Flow

/-- The counters inside of some bodies, the innermost first. -/
def of : List Scope → Flow
  | [] => outside
  | scope :: around => (of around).enter scope

@[simp] theorem of_nil : of [] = outside := rfl

@[simp] theorem of_cons (scope : Scope) (around : List Scope) :
    of (scope :: around) = (of around).enter scope := rfl

/-- **The counters tell which words are legal.** -/
theorem meets_of (word : FlowWord) : (of word.around).meets word.need = word.legal := by
  obtain ⟨need, complaint, token, around⟩ := word
  cases need with
  | loop =>
      cases around with
      | nil => rfl
      | cons scope around => cases scope <;> simp [meets, FlowWord.legal, enter, outside]
  | function =>
      induction around with
      | nil => rfl
      | cons scope around ih =>
          cases scope with
          | loopBody =>
              have inner : (of around).meets .function = _ := ih
              rw [of_cons, meets, enter, FlowWord.legal, List.find?_cons_of_neg (by simp)]
              exact inner
          | functionBody => simp [meets, FlowWord.legal, enter]
          | classBody => simp [meets, FlowWord.legal, enter, outside]

end Flow

end PythonSyntax
