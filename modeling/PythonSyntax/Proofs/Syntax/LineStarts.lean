/-
**Where rules look along a line.**

Whether the rest of a line opens a block is asked of a name that begins a statement, and a statement
begins where a line does: at the beginning of the text, or behind a token that ends a line or begins
or ends a block.  Where a session may stand is computed for each rule, so that this can be checked
rule by rule.

Main definitions:

* `PythonSyntax.Standpoint` — what is known of the token on which a session stands;
* `PythonSyntax.Test.looksAt` — the test looks along a line only from its beginning;
* `PythonSyntax.Nonterminal.finds`, `PythonSyntax.Nonterminal.leaves` — the spots at which the rule
  of a name is followed, and those at which it ends;
* `PythonSyntax.Rule.leads` — where a rule leaves a session.

Main results:

* `PythonSyntax.Nonterminal.leads_python`, `PythonSyntax.Entry.leads_rule` — **no rule looks along a
  line but from its beginning**.
-/

import PythonSyntax.Proofs.Syntax.Heads

set_option autoImplicit false

namespace PythonSyntax

/-- The token ends a line, or it begins or ends a block. -/
def TokenKind.isLineMark (kind : TokenKind) : Bool := kind.isBlockMark || kind = .newline

theorem TokenKind.isLineMark_iff {kind : TokenKind} :
    kind.isLineMark = true ↔ kind = .newline ∨ kind = .indent ∨ kind = .dedent := by
  cases kind <;> simp [isLineMark, isBlockMark]

/-- What is known of the token on which a session stands. -/
inductive Standpoint where
  | anywhere
  /-- If it is a name, a line begins with it. -/
  | lineStart
  /-- It ends a line, or begins or ends a block. -/
  | mark
  deriving DecidableEq, Repr

namespace Standpoint

/-- The one or the other. -/
def join : Standpoint → Standpoint → Standpoint
  | .mark, spot | spot, .mark => spot
  | .lineStart, .lineStart => .lineStart
  | _, _ => .anywhere

/-- What is known of the one is known of the other. -/
def within (spot other : Standpoint) : Bool := spot.join other = other

/-- The same spot, if a test has held there. -/
def upon (spot : Standpoint) : Test → Standpoint
  | .on kinds => if kinds.all TokenKind.isLineMark then .mark else spot
  | _ => spot

theorem within_join_left (spot other : Standpoint) : spot.within (spot.join other) = true := by
  cases spot <;> cases other <;> rfl

theorem within_join_right (spot other : Standpoint) : other.within (spot.join other) = true := by
  cases spot <;> cases other <;> rfl

end Standpoint

/-- The test looks along a line only from a name, and only where that begins the line. -/
def Test.looksAt (spot : Standpoint) : Test → Bool
  | .lineOpensBlock => false
  | .both (.onName _) .lineOpensBlock => spot.within .lineStart
  | .not test => test.looksAt spot
  | .both first second | .either first second => first.looksAt spot && second.looksAt spot
  | _ => true

namespace Nonterminal

/-- Where the rule of the name is followed. -/
def finds : Nonterminal → Standpoint
  | .statement => .lineStart
  | _ => .anywhere

/-- Where the rule of the name ends: statements and their parts take the end of their last line, or
of their last block. -/
def leaves : Nonterminal → Standpoint
  | .statement | .simpleStatement | .suite | .ifStatement | .elifClause | .elseClause
  | .whileStatement | .forStatement | .tryStatement | .exceptClause | .finallyClause
  | .withStatement | .matchStatement | .caseBlock | .decorated | .decorator | .asyncStatement
  | .functionDef | .classDef => .lineStart
  | _ => .anywhere

end Nonterminal

/-- Where the rule leaves a session that it finds at the spot.  There is no answer if the rule may
look along a line elsewhere than from its beginning. -/
def Rule.leads : Rule → Standpoint → Option Standpoint
  | .shift _, spot => some (if spot = .mark then .lineStart else .anywhere)
  | .refuse _ _, _ => some .mark
  | .call name _, spot => if spot.within name.finds then some name.leaves else none
  | .seq first second, spot => (first.leads spot).bind second.leads
  | .branch test yes no, spot =>
    if test.looksAt spot then
      (yes.leads (spot.upon test)).bind fun one => (no.leads spot).map one.join
    else none
  | .loop test body, spot =>
    if test.looksAt spot && (body.leads (spot.upon test)).any (·.within spot) then some spot
    else none
  | .within _ body, spot => body.leads spot
  | _, spot => some spot

/-- **No rule of the grammar looks along a line but from its beginning.** -/
theorem Nonterminal.leads_python (name : Nonterminal) :
    ∃ after, (Grammar.python name).leads name.finds = some after ∧
      after.within name.leaves = true := by
  have checked := forall_of_all
    (fun name => ((Grammar.python name).leads name.finds).any (·.within name.leaves))
    (by decide) name
  simpa [Option.any_eq_true] using checked

theorem Entry.leads_rule (entry : Entry) : ∃ after, entry.rule.leads .lineStart = some after := by
  have checked : (entry.rule.leads .lineStart).isSome = true := by
    cases entry <;> decide
  exact Option.isSome_iff_exists.1 checked

end PythonSyntax
