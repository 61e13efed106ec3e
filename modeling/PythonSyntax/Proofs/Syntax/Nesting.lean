/-
**Brackets come in pairs.**

What is derived from a name of the grammar closes all brackets that it opens, and closes no others.
This is computed from the phrases of the names, for statements as well as for what stands on one
line.

Main definitions:

* `PythonSyntax.depthBehind`, `PythonSyntax.nestAll` — the depth of brackets behind a token, and
  behind some tokens;
* `PythonSyntax.Phrase.level` — the depth behind a phrase, computed from that before it.

Main results:

* `PythonSyntax.Scanner.nestingAfter_eq`, `PythonSyntax.Lookahead.depth_meetAll` — the scanner and a
  look at a line count the brackets in the same way;
* `PythonSyntax.Phrase.Matches.level` — what is computed of a phrase holds of its tokens;
* `PythonSyntax.Derives.level` — **derived trees leave the depth of brackets as it is**.
-/

import PythonSyntax.Proofs.Syntax.Glance
import PythonSyntax.Lexical.Scanner

set_option autoImplicit false

namespace PythonSyntax

/-! ### The depth of brackets -/

/-- The depth of brackets behind a token.  One more is open behind a bracket that opens, and one
less behind a bracket that closes, unless none was open. -/
def depthBehind (depth : Nat) : TokenKind → Nat
  | .symbol .leftParen | .symbol .leftBracket | .symbol .leftCurly => depth + 1
  | .symbol .rightParen | .symbol .rightBracket | .symbol .rightCurly => depth - 1
  | _ => depth

/-- The depth of brackets behind some tokens. -/
def nestAll (depth : Nat) (tokens : List Token) : Nat :=
  tokens.foldl (fun depth token => depthBehind depth token.kind) depth

/-- **The scanner counts the brackets.** -/
theorem Scanner.nestingAfter_eq (depth : Nat) (kind : TokenKind) :
    nestingAfter depth kind = depthBehind depth kind := by
  cases kind with
  | symbol sign => cases sign <;> rfl
  | _ => rfl

@[simp] theorem nestAll_nil (depth : Nat) : nestAll depth [] = depth := rfl

@[simp] theorem nestAll_cons (depth : Nat) (token : Token) (tokens : List Token) :
    nestAll depth (token :: tokens) = nestAll (Scanner.nestingAfter depth token.kind) tokens := by
  rw [Scanner.nestingAfter_eq]
  rfl

theorem nestAll_append (depth : Nat) (first second : List Token) :
    nestAll depth (first ++ second) = nestAll (nestAll depth first) second :=
  List.foldl_append

theorem nestAll_concat (depth : Nat) (tokens : List Token) (token : Token) :
    nestAll depth (tokens ++ [token]) = Scanner.nestingAfter (nestAll depth tokens) token.kind := by
  rw [nestAll_append, nestAll_cons, nestAll_nil]

/-- A look at some tokens of a line counts their brackets. -/
theorem Lookahead.depth_meetAll (look : Lookahead) (tokens : List Token) :
    (look.meetAll tokens).depth = nestAll look.depth tokens := by
  induction tokens generalizing look with
  | nil => rfl
  | cons token tokens ih =>
      rw [meetAll_cons, ih, nestAll_cons]
      congr 1
      unfold meetOne
      split
      · rename_i comment
        rw [comment]
        rfl
      · rfl

/-- The depth behind a token; none if it would close a bracket that is not open. -/
def TokenKind.level (kind : TokenKind) (depth : Nat) : Option Nat :=
  if kind.opens then some (depth + 1)
  else if kind.closes then if depth = 0 then none else some (depth - 1)
  else some depth

/-- The depth behind a token of one of the kinds; among several kinds there are no brackets. -/
def TokenKind.levelAny (kinds : List TokenKind) (depth : Nat) : Option Nat :=
  match kinds with
  | [kind] => kind.level depth
  | kinds => if kinds.all fun kind => kind.level depth = some depth then some depth else none

theorem TokenKind.nestingAfter_of_level {kind : TokenKind} {depth after : Nat}
    (h : kind.level depth = some after) (base : Nat) :
    Scanner.nestingAfter (base + depth) kind = base + after := by
  unfold TokenKind.level at h
  unfold Scanner.nestingAfter
  split at h
  · rename_i opens
    cases h
    rw [if_pos opens, Nat.add_assoc]
  rename_i opens
  rw [if_neg opens]
  split at h
  · rename_i closes
    rw [if_pos closes]
    split at h <;> cases h
    omega
  · rename_i closes
    cases h
    rw [if_neg closes]

theorem TokenKind.nestingAfter_of_levelAny {kinds : List TokenKind} {kind : TokenKind}
    {depth after : Nat} (h : levelAny kinds depth = some after)
    (mem : kinds.contains kind = true) (base : Nat) :
    Scanner.nestingAfter (base + depth) kind = base + after := by
  rw [List.contains_iff_mem] at mem
  unfold levelAny at h
  split at h
  · rw [List.mem_singleton] at mem
    exact nestingAfter_of_level (mem ▸ h) base
  · split at h
    · rename_i all
      cases h
      exact nestingAfter_of_level (by simpa using List.all_eq_true.1 all kind mem) base
    · cases h

namespace Phrase

/-- The depth of brackets behind a phrase; none if it is not settled by that before it. -/
def level : Phrase → Nat → Option Nat
  | never, depth | nil, depth | needs _, depth | word _ _, depth | part _ _, depth => some depth
  | leaf _ kinds, depth => TokenKind.levelAny kinds depth
  | tree _ _ inner, depth | inside _ inner, depth | such _ inner, depth => inner.level depth
  | seq first second, depth => (first.level depth).bind second.level
  | alt first second, depth =>
    if first.level depth = second.level depth then first.level depth else none
  | many inner, depth | atLeastOne inner, depth =>
    if inner.level depth = some depth then some depth else none
  | further _ separators element, depth =>
    if TokenKind.levelAny separators depth = some depth ∧ element.level depth = some depth then
      some depth
    else none

variable {D : Flow → Nonterminal → Tree → Prop} {flow : Flow} {p : Phrase} {children : List Child}

/-- **What is computed of a phrase holds of its tokens.** -/
theorem Matches.level
    (parts : ∀ flow name tree, D flow name tree → ∀ depth, nestAll depth tree.tokens = depth)
    (h : Matches D flow p children) {depth after : Nat} (computed : p.level depth = some after)
    (base : Nat) : nestAll (base + depth) (Tree.tokensOf children) = base + after := by
  induction h generalizing depth after with
  | nil | needs _ =>
      cases computed
      rfl
  | leaf mem =>
      simpa using TokenKind.nestingAfter_of_levelAny computed mem base
  | word spelled =>
      simp only [Token.spells, Bool.and_eq_true, decide_eq_true_eq] at spelled
      cases computed
      simp [Scanner.nestingAfter, spelled.1, TokenKind.opens, TokenKind.closes]
  | part derived =>
      cases computed
      simpa using parts _ _ _ derived _
  | tree start stop _ ih => simpa using ih computed
  | seq _ _ ih ih' =>
      obtain ⟨middle, one, two⟩ := Option.bind_eq_some_iff.1 computed
      rw [Tree.tokensOf_append, nestAll_append, ih one, ih' two]
  | left _ ih =>
      simp only [Phrase.level, Option.ite_none_right_eq_some] at computed
      exact ih computed.2
  | right _ ih =>
      simp only [Phrase.level, Option.ite_none_right_eq_some] at computed
      exact ih (computed.1 ▸ computed.2)
  | stop =>
      simp only [Phrase.level, Option.ite_none_right_eq_some, Option.some.injEq] at computed
      rw [← computed.2]
      rfl
  | more _ _ ih ih' =>
      have same := computed
      simp only [Phrase.level, Option.ite_none_right_eq_some, Option.some.injEq] at same
      rw [Tree.tokensOf_append, nestAll_append, ih same.1, ih' computed]
  | atLeastOne _ _ ih ih' =>
      have same := computed
      simp only [Phrase.level, Option.ite_none_right_eq_some, Option.some.injEq] at same
      rw [Tree.tokensOf_append, nestAll_append, ih same.1, ih' computed]
  | noFurther =>
      simp only [Phrase.level, Option.ite_none_right_eq_some, Option.some.injEq] at computed
      rw [← computed.2]
      rfl
  | lastSeparator mem =>
      simp only [Phrase.level, Option.ite_none_right_eq_some, Option.some.injEq] at computed
      obtain ⟨⟨separators, -⟩, rfl⟩ := computed
      simpa using TokenKind.nestingAfter_of_levelAny separators mem base
  | further mem _ _ ih ih' =>
      have same := computed
      simp only [Phrase.level, Option.ite_none_right_eq_some, Option.some.injEq] at same
      obtain ⟨⟨separators, element⟩, rfl⟩ := same
      rw [Tree.tokensOf_cons, Tree.tokens_leaf, Tree.tokensOf_append, List.singleton_append,
        nestAll_cons, nestAll_append, TokenKind.nestingAfter_of_levelAny separators mem,
        ih element, ih' computed]
  | inside _ ih => exact ih computed
  | such _ _ ih => exact ih computed

end Phrase

theorem Nonterminal.level_ebnf (name : Nonterminal) : (ebnf name).level 0 = some 0 := by
  have checked := forall_of_all (fun name => (ebnf name).level 0 = some 0) (by decide) name
  simpa using checked

/-- **Derived trees leave the depth of brackets as it is.** -/
theorem Derives.level {flow : Flow} {name : Nonterminal} {tree : Tree}
    (h : Derives ebnf flow name tree) (depth : Nat) : nestAll depth tree.tokens = depth := by
  refine h.rule_induction (P := fun _ _ tree => ∀ depth, nestAll depth tree.tokens = depth) ?_ depth
  intro flow name field tree matched depth
  simpa using matched.level (fun _ _ _ part => part.2) name.level_ebnf depth

end PythonSyntax
