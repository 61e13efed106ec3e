/-
**Where phrases begin.**

The first token of what is derived from a name decides which way a rule goes.  A table lists, for
every name, the kinds of tokens with which its trees begin.

Main definitions:

* `PythonSyntax.Phrase.nullable`, `PythonSyntax.Phrase.heads` — whether a phrase may have no
  tokens, and the kinds with which it begins;
* `PythonSyntax.Phrase.starts` — the kinds of the token at a phrase, given those after it;
* `PythonSyntax.Nonterminal.heads` — the kinds with which the trees of a name begin.

Main results:

* `PythonSyntax.Derives.begins` — a derived tree begins as the table says;
* `PythonSyntax.Phrase.Matches.starts` — a path over what a phrase describes starts as computed.
-/

import PythonSyntax.Proofs.Parsing.Path
import PythonSyntax.Proofs.Syntax.Ebnf
import PythonSyntax.Proofs.Syntax.KindSet

set_option autoImplicit false

namespace PythonSyntax

namespace Phrase

/-- Whether a phrase may have no tokens. -/
def nullable : Phrase → Bool
  | never | leaf _ _ | word _ _ | part _ _ => false
  | nil | many _ | further _ _ _ | needs _ => true
  | tree _ _ inner | inside _ inner | such _ inner | atLeastOne inner => inner.nullable
  | seq first second => first.nullable && second.nullable
  | alt first second => first.nullable || second.nullable

/-- The kinds of tokens with which a phrase begins; `table` gives those of the names. -/
def heads (table : Nonterminal → KindSet) : Phrase → KindSet
  | never | nil | needs _ => .empty
  | leaf _ kinds | further _ kinds _ => .ofList kinds
  | word _ _ => .ofList [.name]
  | part _ name => table name
  | tree _ _ inner | inside _ inner | such _ inner | atLeastOne inner | many inner =>
    inner.heads table
  | seq first second =>
    if first.nullable then (first.heads table).union (second.heads table) else first.heads table
  | alt first second => (first.heads table).union (second.heads table)

end Phrase

/-- There is a first token, and its kind is in the set. -/
def Begins (kinds : KindSet) (tokens : List Token) : Prop :=
  ∃ token rest, tokens = token :: rest ∧ kinds.mem token.kind = true

theorem Begins.append {kinds : KindSet} {tokens : List Token} (h : Begins kinds tokens)
    (more : List Token) : Begins kinds (tokens ++ more) := by
  obtain ⟨token, rest, rfl, mem⟩ := h
  exact ⟨token, rest ++ more, rfl, mem⟩

theorem Begins.mono {a b : KindSet} {tokens : List Token} (h : Begins a tokens)
    (le : ∀ kind, a.mem kind = true → b.mem kind = true) : Begins b tokens := by
  obtain ⟨token, rest, rfl, mem⟩ := h
  exact ⟨token, rest, rfl, le _ mem⟩

namespace Phrase

variable {table : Nonterminal → KindSet} {D : Flow → Nonterminal → Tree → Prop} {flow : Flow}
  {p : Phrase} {children : List Child}

/-- Children without tokens are only where the phrase allows it; others begin as it says. -/
theorem Matches.begins
    (parts : ∀ flow name tree, D flow name tree → Begins (table name) tree.tokens)
    (h : Matches D flow p children) :
    (Tree.tokensOf children = [] ∧ p.nullable = true) ∨
      Begins (p.heads table) (Tree.tokensOf children) := by
  induction h with
  | nil => exact Or.inl ⟨rfl, rfl⟩
  | leaf mem => exact Or.inr ⟨_, [], rfl, by simpa [heads] using mem⟩
  | word spelled =>
      refine Or.inr ⟨_, [], rfl, ?_⟩
      simp only [Token.spells, Bool.and_eq_true, decide_eq_true_eq] at spelled
      simp [heads, spelled.1]
  | part derived =>
      refine Or.inr ?_
      simpa [heads] using parts _ _ _ derived
  | tree start stop _ ih =>
      rcases ih with ⟨none, null⟩ | begins
      · exact Or.inl ⟨by simpa using none, null⟩
      · exact Or.inr (by simpa [heads] using begins)
  | seq _ _ ih ih' =>
      rw [Tree.tokensOf_append]
      rcases ih with ⟨none, null⟩ | begins
      · rw [none, List.nil_append]
        rcases ih' with ⟨none', null'⟩ | begins'
        · exact Or.inl ⟨none', by simp [nullable, null, null']⟩
        · refine Or.inr (begins'.mono fun kind mem => ?_)
          simp [heads, null, mem]
      · refine Or.inr ((begins.append _).mono fun kind mem => ?_)
        simp only [heads]
        split <;> simp [mem]
  | left _ ih =>
      rcases ih with ⟨none, null⟩ | begins
      · exact Or.inl ⟨none, by simp [nullable, null]⟩
      · exact Or.inr (begins.mono fun kind mem => by simp [heads, mem])
  | right _ ih =>
      rcases ih with ⟨none, null⟩ | begins
      · exact Or.inl ⟨none, by simp [nullable, null]⟩
      · exact Or.inr (begins.mono fun kind mem => by simp [heads, mem])
  | stop => exact Or.inl ⟨rfl, rfl⟩
  | more _ _ ih ih' =>
      rw [Tree.tokensOf_append]
      rcases ih with ⟨none, -⟩ | begins
      · rw [none, List.nil_append]
        exact ih'
      · exact Or.inr (begins.append _)
  | atLeastOne _ _ ih ih' =>
      rw [Tree.tokensOf_append]
      rcases ih with ⟨none, null⟩ | begins
      · rw [none, List.nil_append]
        rcases ih' with ⟨none', -⟩ | begins'
        · exact Or.inl ⟨none', null⟩
        · exact Or.inr begins'
      · exact Or.inr (begins.append _)
  | noFurther => exact Or.inl ⟨rfl, rfl⟩
  | lastSeparator mem => exact Or.inr ⟨_, [], rfl, by simpa [heads] using mem⟩
  | further mem _ _ _ _ => exact Or.inr ⟨_, _, rfl, by simpa [heads] using mem⟩
  | needs _ => exact Or.inl ⟨rfl, rfl⟩
  | inside _ ih => exact ih
  | such _ _ ih => exact ih

/-- The kinds of the token at a phrase, if that after it is one of `after`. -/
def starts (table : Nonterminal → KindSet) (after : KindSet) (phrase : Phrase) : KindSet :=
  if phrase.nullable then (phrase.heads table).union after else phrase.heads table

/-- A path over what a phrase describes starts as computed. -/
theorem Matches.starts {σ : Type} [Cursor σ] {c c' : σ} {after : KindSet}
    (parts : ∀ flow name tree, D flow name tree → Begins (table name) tree.tokens)
    (h : Matches D flow p children) (path : Path c (Tree.tokensOf children) c')
    (next : after.mem (Cursor.current c').kind = true) :
    (p.starts table after).mem (Cursor.current c).kind = true := by
  unfold Phrase.starts
  rcases h.begins parts with ⟨none, null⟩ | ⟨token, rest, eq, mem⟩
  · rw [none, Path.nil_iff] at path
    rw [if_pos null, KindSet.mem_union, ← path, next, Bool.or_true]
  · rw [eq, Path.cons_iff] at path
    rw [path.1]
    split <;> simp [mem]

end Phrase

/-! ### The names -/

namespace Nonterminal

/-- The kinds with which expressions begin. -/
def expressionHeads : KindSet :=
  .ofList [.name, .number, .string, .keyword .noneKw, .keyword .trueKw, .keyword .falseKw,
    .symbol .ellipsis, .symbol .leftParen, .symbol .leftBracket, .symbol .leftCurly,
    .symbol .minus, .symbol .plus, .symbol .bitInvert, .keyword .notKw, .keyword .lambdaKw,
    .keyword .awaitKw]

/-- The kinds of a set that are not in a list. -/
def without (set : KindSet) (kinds : List TokenKind) : KindSet :=
  set.inter (KindSet.ofList kinds).compl

/-- The kinds of a set, and those of a list. -/
def orElse (set : KindSet) (kinds : List TokenKind) : KindSet := set.union (.ofList kinds)

/-- The kinds with which small statements begin, and thus also lines. -/
def lineHeads : KindSet :=
  orElse expressionHeads
    [.symbol .mul, .keyword .passKw, .keyword .breakKw, .keyword .continueKw, .keyword .returnKw,
      .keyword .raiseKw, .keyword .yieldKw, .keyword .delKw, .keyword .importKw,
      .keyword .fromKw, .keyword .globalKw, .keyword .nonlocalKw, .keyword .assertKw]

/-- The kinds with which the trees of a name begin. -/
def heads : Nonterminal → KindSet
  | test | testNoCondition | namedExprTest | testList => expressionHeads
  | orTest | andTest | notTest => without expressionHeads [.keyword .lambdaKw]
  | comparison | expr | xorExpr | andExpr | shiftExpr | arithExpr | term | factor =>
    without expressionHeads [.keyword .lambdaKw, .keyword .notKw]
  | power | atomExpr =>
    without expressionHeads [.keyword .lambdaKw, .keyword .notKw, .symbol .minus, .symbol .plus,
      .symbol .bitInvert]
  | atom =>
    without expressionHeads [.keyword .lambdaKw, .keyword .notKw, .symbol .minus, .symbol .plus,
      .symbol .bitInvert, .keyword .awaitKw]
  | lambda | lambdaNoCondition => .ofList [.keyword .lambdaKw]
  | trailer => .ofList [.symbol .dot, .symbol .leftParen, .symbol .leftBracket]
  | parenthesized => .ofList [.symbol .leftParen]
  | listDisplay => .ofList [.symbol .leftBracket]
  | curlyDisplay => .ofList [.symbol .leftCurly]
  | curlyItems => orElse expressionHeads [.symbol .power, .symbol .mul]
  | dictItem => orElse expressionHeads [.symbol .power]
  | dictUnpack => .ofList [.symbol .power]
  | subscriptList | subscript => orElse expressionHeads [.symbol .colon, .symbol .mul]
  | starExpr => .ofList [.symbol .mul]
  | starOrTest | starOrNamedExpr | displayItems | namedExprList | testListStarExpr =>
    orElse expressionHeads [.symbol .mul]
  | starOrExpr | exprList | asPattern | patterns =>
    orElse (without expressionHeads [.keyword .lambdaKw, .keyword .notKw]) [.symbol .mul]
  | compFor => .ofList [.keyword .forKw, .keyword .asyncKw]
  | compIf => .ofList [.keyword .ifKw]
  | argList | argument => orElse expressionHeads [.symbol .mul, .symbol .power]
  | parameters _ => .ofList [.name, .symbol .mul, .symbol .power, .symbol .div]
  | parameter _ _ => .ofList [.name]
  | starParameter _ => .ofList [.symbol .mul]
  | doubleStarParameter _ => .ofList [.symbol .power]
  | positionalOnly => .ofList [.symbol .div]
  | yieldExpr => .ofList [.keyword .yieldKw]
  | statement =>
    orElse lineHeads
      [.keyword .ifKw, .keyword .whileKw, .keyword .forKw, .keyword .tryKw, .keyword .withKw,
        .keyword .defKw, .keyword .classKw, .symbol .matMul, .keyword .asyncKw]
  | simpleStatement | smallStatement => lineHeads
  | exprStatement => orElse expressionHeads [.symbol .mul]
  | assignmentValue => orElse expressionHeads [.symbol .mul, .keyword .yieldKw]
  | returnStatement => .ofList [.keyword .returnKw]
  | raiseStatement => .ofList [.keyword .raiseKw]
  | importName => .ofList [.keyword .importKw]
  | importFrom => .ofList [.keyword .fromKw]
  | dottedName | dottedAsName | importAsName => .ofList [.name]
  | nameDeclaration => .ofList [.keyword .globalKw, .keyword .nonlocalKw]
  | assertStatement => .ofList [.keyword .assertKw]
  | suite => orElse lineHeads [.newline]
  | ifStatement => .ofList [.keyword .ifKw]
  | elifClause => .ofList [.keyword .elifKw]
  | elseClause => .ofList [.keyword .elseKw]
  | whileStatement => .ofList [.keyword .whileKw]
  | forStatement => .ofList [.keyword .forKw]
  | tryStatement => .ofList [.keyword .tryKw]
  | exceptClause => .ofList [.keyword .exceptKw]
  | finallyClause => .ofList [.keyword .finallyKw]
  | withStatement => .ofList [.keyword .withKw]
  | withItem => expressionHeads
  | matchStatement | caseBlock => .ofList [.name]
  | decorated | decorators | decorator => .ofList [.symbol .matMul]
  | asyncStatement => .ofList [.keyword .asyncKw]
  | functionDef => .ofList [.keyword .defKw]
  | classDef => .ofList [.keyword .classKw]

/-- All names. -/
def all : List Nonterminal :=
  [test, testNoCondition, namedExprTest, orTest, andTest, notTest, comparison, expr, xorExpr,
   andExpr, shiftExpr, arithExpr, term, factor, power, atomExpr, lambda, lambdaNoCondition,
   trailer, atom, parenthesized, listDisplay, curlyDisplay, curlyItems, dictItem, dictUnpack,
   subscriptList, subscript, starExpr, starOrTest, starOrExpr, starOrNamedExpr, displayItems,
   namedExprList, exprList, testList, testListStarExpr, compFor, compIf, argList, argument,
   parameters true, parameters false, parameter true true, parameter true false,
   parameter false true, parameter false false, starParameter true, starParameter false,
   doubleStarParameter true, doubleStarParameter false, positionalOnly, yieldExpr, statement,
   simpleStatement, smallStatement, exprStatement, assignmentValue, returnStatement,
   raiseStatement, importName, importFrom, dottedName, dottedAsName, importAsName,
   nameDeclaration, assertStatement, suite, ifStatement, elifClause, elseClause, whileStatement,
   forStatement, tryStatement, exceptClause, finallyClause, withStatement, withItem,
   matchStatement, caseBlock, patterns, asPattern, decorated, decorators, decorator,
   asyncStatement, functionDef, classDef]

theorem mem_all (name : Nonterminal) : name ∈ all := by
  cases name with
  | parameters typed => cases typed <;> decide
  | parameter typed withDefault => cases typed <;> cases withDefault <;> decide
  | starParameter typed => cases typed <;> decide
  | doubleStarParameter typed => cases typed <;> decide
  | _ => decide

/-- What can be computed for every name holds of every name. -/
theorem forall_of_all (check : Nonterminal → Bool) (h : all.all check = true)
    (name : Nonterminal) : check name = true := List.all_eq_true.1 h name (mem_all name)

theorem nullable_ebnf (name : Nonterminal) : (ebnf name).nullable = false := by
  have checked := forall_of_all (fun name => !(ebnf name).nullable)
    (by decide) name
  simpa using checked

theorem heads_ebnf (name : Nonterminal) : ((ebnf name).heads heads).subset name.heads = true :=
  forall_of_all (fun name => ((ebnf name).heads heads).subset name.heads)
    (by decide) name

end Nonterminal

/-- **A derived tree begins as the table says**; it has at least one token. -/
theorem Derives.begins {flow : Flow} {name : Nonterminal} {tree : Tree}
    (h : Derives ebnf flow name tree) : Begins name.heads tree.tokens := by
  refine Derives.rule_induction (P := fun _ name tree => Begins name.heads tree.tokens) ?_ h
  intro flow name field tree matched
  rcases matched.begins (fun _ _ _ part => part.2) with ⟨-, null⟩ | begins
  · rw [Nonterminal.nullable_ebnf] at null
    cases null
  · refine Begins.mono (by simpa using begins) fun kind mem => ?_
    exact KindSet.mem_of_subset (Nonterminal.heads_ebnf name) mem

end PythonSyntax
