/-
**Rules that read whatever a phrase describes.**

A rule never goes back: what it does next is decided by the current token.  So it reads all that a
phrase describes if the tokens that begin the alternatives tell them apart, and the token that
follows tells that nothing more is to come.  For most rules this can be computed: rule and phrase
are gone through side by side, with the kinds of tokens that may follow.

Main definitions:

* `PythonSyntax.Nonterminal.follow` — kinds of tokens after a tree at which its rule stops;
* `PythonSyntax.Session.Readable` — a call reads the tree, up to spans, from wherever its tokens
  stand;
* `PythonSyntax.Session.Completes`, `PythonSyntax.Session.CompletesTrees`,
  `PythonSyntax.Session.CompletesWhole` — a rule reads a part of a node, the rest of a node, or a
  whole tree;
* `PythonSyntax.Rule.completes`, `PythonSyntax.Rule.completesTrees`,
  `PythonSyntax.Rule.completesWhole`, `PythonSyntax.Rule.completesChain` — the computed answers.

Main results:

* `PythonSyntax.Session.completes_of_completes`,
  `PythonSyntax.Session.completesTrees_of_completesTrees`,
  `PythonSyntax.Session.completesWhole_of_completesWhole`,
  `PythonSyntax.Session.readable_of_completesChain` — what the computed answers mean.
-/

import PythonSyntax.Proofs.Parsing.Sound
import PythonSyntax.Proofs.Syntax.Bare

set_option autoImplicit false

namespace PythonSyntax

namespace Nonterminal

/-! ### Tokens that go on with an expression -/

/-- After an atom: another string, or what begins a trailer. -/
def trailing : List TokenKind := [.string, .symbol .dot, .symbol .leftParen, .symbol .leftBracket]

/-- After a factor. -/
def raising : List TokenKind := .symbol .power :: trailing

/-- After a term. -/
def multiplying : List TokenKind :=
  [TokenKind.symbol .mul, .symbol .div, .symbol .floorDiv, .symbol .modulo, .symbol .matMul]
    ++ raising

/-- After a sum. -/
def adding : List TokenKind := [TokenKind.symbol .plus, .symbol .minus] ++ multiplying

/-- After a shift. -/
def shifting : List TokenKind := [TokenKind.symbol .shiftLeft, .symbol .shiftRight] ++ adding

/-- After an operand of comparisons. -/
def joining : List TokenKind := [TokenKind.symbol .bitOr, .symbol .bitXor, .symbol .bitAnd] ++ shifting

/-- After a comparison. -/
def comparing : List TokenKind :=
  [TokenKind.symbol .less, .symbol .greater, .symbol .equal, .symbol .greaterEqual,
    .symbol .lessEqual, .symbol .notEqual, .keyword .inKw, .keyword .notKw, .keyword .isKw]
    ++ joining

/-- After an expression without a condition. -/
def deciding : List TokenKind := [TokenKind.keyword .orKw, .keyword .andKw] ++ comparing

/-- After an expression. -/
def choosing : List TokenKind := .keyword .ifKw :: deciding

/-- The kinds that are not in a list. -/
def except (kinds : List TokenKind) : KindSet := (KindSet.ofList kinds).compl

/-- The kinds with which a small statement is ended. -/
def lineEnds : List TokenKind := [.newline, .symbol .semiColon]

/-- The bracket or colon with which parameters are ended. -/
def closing (typed : Bool) : TokenKind := .symbol (if typed then .rightParen else .colon)

/-! ### The table -/

/-- Kinds of tokens after a tree of the name at which its rule stops. -/
def follow : Nonterminal → KindSet
  | atom => except [.string]
  | atomExpr => except trailing
  | power | factor => except raising
  | term => except multiplying
  | arithExpr => except adding
  | shiftExpr => except shifting
  | andExpr => except (.symbol .bitAnd :: shifting)
  | xorExpr => except ([TokenKind.symbol .bitXor, .symbol .bitAnd] ++ shifting)
  | expr | starExpr | starOrExpr | dictUnpack => except joining
  | comparison | notTest => except comparing
  | andTest => except (.keyword .andKw :: comparing)
  | orTest | testNoCondition | lambdaNoCondition => except deciding
  | test | lambda | starOrTest => except choosing
  | namedExprTest | starOrNamedExpr => except (.symbol .colonAssign :: choosing)
  | testListStarExpr =>
    (except ([TokenKind.symbol .comma, .symbol .mul] ++ choosing)).inter expressionHeads.compl
  | testList => .ofList (.symbol .colon :: .eof :: lineEnds)
  | exprList => .ofList (.keyword .inKw :: lineEnds)
  | namedExprList => .ofList [.symbol .colon]
  | patterns => .ofList [.keyword .ifKw, .symbol .colon]
  | asPattern => .ofList [.symbol .comma, .keyword .ifKw, .symbol .colon]
  | subscriptList => .ofList [.symbol .rightBracket]
  | subscript => .ofList [.symbol .comma, .symbol .rightBracket]
  | displayItems => .ofList [.symbol .rightParen, .symbol .rightBracket]
  | curlyItems => .ofList [.symbol .rightCurly]
  | dictItem => .ofList [.symbol .comma, .symbol .rightCurly]
  | compFor | compIf =>
    .ofList [.symbol .comma, .symbol .rightParen, .symbol .rightBracket, .symbol .rightCurly]
  | argList => .ofList [.symbol .rightParen]
  | argument => .ofList [.symbol .comma, .symbol .rightParen]
  | parameters typed => .ofList [closing typed]
  | parameter typed _ | starParameter typed | doubleStarParameter typed =>
    .ofList [.symbol .comma, closing typed]
  | yieldExpr => .ofList ([TokenKind.symbol .rightParen, .symbol .assign, .typeComment] ++ lineEnds)
  | assignmentValue => .ofList ([TokenKind.symbol .assign, .typeComment] ++ lineEnds)
  | smallStatement | exprStatement | returnStatement | raiseStatement | importName | importFrom
  | nameDeclaration | assertStatement => .ofList lineEnds
  | dottedName => except [.symbol .dot]
  | dottedAsName => .ofList (.symbol .comma :: lineEnds)
  | importAsName => .ofList ([TokenKind.symbol .comma, .symbol .rightParen] ++ lineEnds)
  | withItem => .ofList [.symbol .comma, .symbol .colon]
  | statement =>
    except [.keyword .elifKw, .keyword .elseKw, .keyword .exceptKw, .keyword .finallyKw]
  | ifStatement => except [.keyword .elifKw, .keyword .elseKw]
  | whileStatement | forStatement | asyncStatement | decorated => except [.keyword .elseKw]
  | tryStatement => except [.keyword .exceptKw, .keyword .elseKw, .keyword .finallyKw]
  | decorators => except [.symbol .matMul]
  | _ => .full

end Nonterminal


/-! ### The first element in curly brackets -/

/-- What reads the first element in curly brackets, before it is known whether it is one of a
dictionary or of a set. -/
def Grammar.curlyFirst : Rule :=
  Rule.choose [
    (.onSymbol .power, .call .dictUnpack .left),
    (.onSymbol .mul, .call .starExpr .left)]
    (Rule.steps [.call .test .left, Rule.when (.onSymbol .colon) Grammar.finishDictEntry])

/-- The names of what may be the first of several elements in curly brackets. -/
def Nonterminal.inCurly : Nonterminal → Bool
  | dictItem | starOrTest => true
  | _ => false

/-- The kinds of tokens after an element in curly brackets. -/
def Nonterminal.curlyFollow : KindSet := .ofList [.symbol .comma, .symbol .rightCurly]

/-! ### Computing the answers -/

namespace Phrase

/-- Every alternative is `operand` itself or a tree that begins with one of `self` and goes on with
a token of the set. -/
def chained (self operand : Nonterminal) (set : KindSet) (p : Phrase) : Bool :=
  p.cases.all fun
    | .never => true
    | .part .left name => name = operand
    | .tree .left _ (.seq (.part .left name) rest) =>
      name = self && (rest.starts Nonterminal.heads operand.follow).subset set
    | _ => false

/-- What is left of a tree that begins with the part is among the trees without it. -/
theorem mem_tails {field : Field} {name : Nonterminal} {kind : NodeKind} {p rest : Phrase}
    (case : tree .left kind (seq (part field name) rest) ∈ p.cases) :
    tree .left kind rest ∈ (p.tails field name).cases := by
  induction p with
  | alt one two ih ih' =>
      rcases List.mem_append.1 case with case | case
      · exact List.mem_append_left _ (ih case)
      · exact List.mem_append_right _ (ih' case)
  | tree _ _ _ _ =>
      cases List.mem_singleton.1 case
      simp [tails, cases]
  | _ => cases List.mem_singleton.1 case

end Phrase

namespace Rule

open Phrase

/-- Whether a branch goes on where the phrase demands a body or a word. -/
def allows : Test → Rule → Phrase → Bool
  | .inLoop, .done, .needs .loop => true
  | .inFunction, .done, .needs .function => true
  | .onName spelling, .shift field, .word field' spelling' =>
    field = field' && spelling = spelling'
  | _, _, _ => false

/-- Whether a rule reads whatever part of a node the phrase describes, before a token of one of the
kinds `after`. -/
def completes : Rule → KindSet → Phrase → Bool
  | .done, _, p => p.cases.all fun | .never | .nil => true | _ => false
  | .shift field, _, p =>
    p.cases.all fun
      | .never => true
      | .leaf field' _ | .word field' _ => field = field'
      | _ => false
  | .call name field, after, p =>
    p.cases.all fun
      | .never => true
      | .part field' name' => field = field' && name = name' && after.subset name.follow
      | _ => false
  | .seq first second, after, p =>
    p.cases.all fun
      | .never => true
      | .seq p q =>
        first.completes (q.starts Nonterminal.heads after) p && second.completes after q
      | _ => false
  | .branch test yes no, after, p =>
    p.cases.all fun q =>
      match test.kinds? with
      | some set =>
        let starts := q.starts Nonterminal.heads after
        (starts.subset set && yes.completes after q) ||
          (starts.disjoint set && no.completes after q)
      | none => allows test yes q
  | .loop test body, after, p =>
    match test.kinds? with
    | some set =>
      after.disjoint set && p.cases.all fun
        | .never => true
        | .many q | .atLeastOne q =>
          let heads := q.heads Nonterminal.heads
          !q.nullable && heads.subset set && body.completes (heads.union after) q
        | .further field separators q =>
          let kinds := KindSet.ofList separators
          kinds.subset set &&
            body.completes (kinds.union after) (.seq (.leaf field separators) (.seq q .nil)) &&
            body.completes after (.seq (.leaf field separators) (.seq .nil .nil))
        | _ => false
    | none => false
  | .within scope body, after, p =>
    p.cases.all fun
      | .never => true
      | .inside scope' q => scope = scope' && body.completes after q
      | _ => false
  | _, _, _ => false

/-- Whether a rule completes a node, whatever is left of it by the phrase. -/
def completesTrees : Rule → KindSet → Phrase → Bool
  | .branch test yes no, after, p =>
    match test.kinds? with
    | some set =>
      p.cases.all fun q =>
        let starts := q.starts Nonterminal.heads after
        (starts.subset set && yes.completesTrees after q) ||
          (starts.disjoint set && no.completesTrees after q)
    | none => false
  | .seq first second, after, p =>
    p.cases.all fun
      | .never => true
      | .tree .left kind .nil => first = .reduce kind && second = .done
      | .tree .left kind (.seq q q') =>
        first.completes (q'.starts Nonterminal.heads after) q &&
          second.completesTrees after (.tree .left kind q')
      | _ => false
  | _, _, p => p.cases.all fun | .never => true | _ => false

/-- Whether a rule reads whatever whole tree the phrase describes. -/
def completesWhole : Rule → KindSet → Phrase → Bool
  | .branch test yes no, after, p =>
    match test.kinds? with
    | some set =>
      p.cases.all fun q =>
        let starts := q.starts Nonterminal.heads after
        (starts.subset set && yes.completesWhole after q) ||
          (starts.disjoint set && no.completesWhole after q)
    | none => false
  | .call name field, after, p => (call name field).completes after p
  | .seq (.call name field) (.seq (.branch test tail .done) .done), after, p =>
    match test.kinds? with
    | some set =>
      p.cases.all fun
        | .tree .left kind (.seq (.part field' name') rest) =>
          let starts := rest.starts Nonterminal.heads after
          field = field' && name = name' && starts.subset name.follow && starts.subset set &&
            tail.completesTrees after (.tree .left kind rest)
        | q => after.disjoint set && (call name field).completes after q
    | none => false
  | .seq first second, after, p =>
    (p.cases.all fun | .never | .tree .left _ _ => true | _ => false) &&
      (seq first second).completesTrees after p
  | _, _, _ => false

/-- Operands with operators between them. -/
def isChain : Rule → Bool
  | .seq (.call _ .left) (.seq (.loop _ _) .done) => true
  | _ => false

/-- Whether a rule reads whatever operands and operators, grouped to the left, the phrase of `self`
describes. -/
def completesChain (self : Nonterminal) : Rule → Bool
  | .seq (.call operand .left) (.seq (.loop test body) .done) =>
    match test.kinds? with
    | some set =>
      set.subset operand.follow && self.follow.subset operand.follow &&
        self.follow.disjoint set && (ebnf self).chained self operand set &&
        body.completesTrees operand.follow ((ebnf self).tails .left self)
    | none => false
  | _ => false

end Rule

/-! ### Reading a given tree -/

namespace Session

open Phrase Rule

variable {σ : Type} [Cursor σ]

/-- Reading has led from `s` to the cursor `c`, and stands in the same bodies as before. -/
structure Arrives (s : Session σ) (c : σ) (t : Session σ) : Prop where
  cursor : t.cursor = c
  flow : t.flow = s.flow

omit [Cursor σ] in
theorem Arrives.refl (s : Session σ) : s.Arrives s.cursor s := ⟨rfl, rfl⟩

omit [Cursor σ] in
theorem Arrives.trans {s t u : Session σ} {c c' : σ} (one : s.Arrives c t) (two : t.Arrives c' u) :
    s.Arrives c' u := ⟨two.cursor, two.flow.trans one.flow⟩

/-- A token that stands at the cursor can be taken. -/
theorem exists_takes {s : Session σ} {token : Token} {c : σ} (path : Path s.cursor [token] c) :
    ∃ t, s.Takes token t ∧ s.Arrives c t := by
  obtain ⟨here, next, moved, rest⟩ := Path.cons_iff.1 path
  obtain rfl := Path.nil_iff.1 rest
  exact ⟨⟨c, if token.kind.isBlockMark then s.lastStop else token.stop, s.flow⟩,
    ⟨here, moved, rfl, rfl⟩, rfl, rfl⟩

variable (C : Nonterminal → Session σ → Frame → Session σ → Prop)

/-- Reading operands with operators between them comes, by way of the first operand, to the whole
tree: what can be reached from there can be reached from the first operand. -/
def Climbs (operand : Nonterminal) (test : Test) (body : Rule) (s : Session σ) (tree : Tree)
    (c : σ) : Prop :=
  ∃ field first t read u, C operand s [(field, first)] t ∧ read.bare = tree.bare ∧
    s.Arrives c u ∧ ∀ frame' s',
      Loops (fun frame s => s.answers frame test) (Follows C body) [(.left, read)] u frame' s' →
        Loops (fun frame s => s.answers frame test) (Follows C body) [(.left, first)] t frame' s'

/-- The tree is derived from the name, and a call reads it, up to spans, from wherever its tokens
stand before one that may follow.  If other rules than that of the name read such trees, they read
this one, too. -/
structure Readable (flow : Flow) (name : Nonterminal) (tree : Tree) : Prop where
  derived : Derives ebnf flow name tree
  read : ∀ s c, s.flow = flow → Path s.cursor tree.tokens c →
    name.follow.mem (Cursor.current c).kind = true →
      ∃ field read t, C name s [(field, read)] t ∧ read.bare = tree.bare ∧ s.Arrives c t
  climb : ∀ operand test body,
    Grammar.python name = steps [.call operand .left, .loop test body] →
      ∀ s c, s.flow = flow → Path s.cursor tree.tokens c →
        operand.follow.mem (Cursor.current c).kind = true → Climbs C operand test body s tree c
  first : name.inCurly = true → ∀ s c, s.flow = flow → Path s.cursor tree.tokens c →
    Nonterminal.curlyFollow.mem (Cursor.current c).kind = true →
      ∃ field read t, Follows C Grammar.curlyFirst [] s [(field, read)] t ∧
        read.bare = tree.bare ∧ s.Arrives c t

/-- The rule reads whatever children are as the phrase says, before a token of one of the kinds. -/
def Completes (rule : Rule) (after : KindSet) (p : Phrase) : Prop :=
  ∀ children frame s c, p.Matches (Readable C) s.flow children →
    Path s.cursor (Tree.tokensOf children) c → after.mem (Cursor.current c).kind = true →
      ∃ added t, Tree.bareOf added = Tree.bareOf children ∧
        Follows C rule frame s (added.reverse ++ frame) t ∧ s.Arrives c t

/-- The rule completes a node, whatever children are left by one of the trees that the phrase has
among its alternatives. -/
def CompletesTrees (rule : Rule) (after : KindSet) (p : Phrase) : Prop :=
  ∀ kind inner children before s c, .tree .left kind inner ∈ p.cases →
    inner.Matches (Readable C) s.flow children → Path s.cursor (Tree.tokensOf children) c →
      after.mem (Cursor.current c).kind = true →
        ∃ start stop added t, Tree.bareOf added = Tree.bareOf children ∧
          Follows C rule before s [(.left, .node kind start stop (before.reverse ++ added))] t ∧
          s.Arrives c t

/-- With no pieces before, the rule reads whatever tree the phrase describes. -/
def CompletesWhole (rule : Rule) (after : KindSet) (p : Phrase) : Prop :=
  ∀ piece s c, p.Matches (Readable C) s.flow [piece] → Path s.cursor piece.2.tokens c →
    after.mem (Cursor.current c).kind = true →
      ∃ field read t, Follows C rule [] s [(field, read)] t ∧ read.bare = piece.2.bare ∧
        s.Arrives c t

variable {C} {p q : Phrase} {children : List Child} {after set : KindSet} {test : Test}
  {s : Session σ} {c : σ}

/-! ### What the answers mean -/

/-- The current token before what is as a phrase says. -/
theorem Readable.starts (matched : p.Matches (Readable C) s.flow children)
    (path : Path s.cursor (Tree.tokensOf children) c)
    (next : after.mem (Cursor.current c).kind = true) :
    (p.starts Nonterminal.heads after).mem s.current.kind = true :=
  matched.starts (fun _ _ _ readable => readable.derived.begins) path next

/-- The way that a branch goes is told by the tokens with which an alternative begins. -/
theorem answers_of_starts (test : Test) (eq : test.kinds? = some set) (frame : Frame)
    (matched : p.Matches (Readable C) s.flow children)
    (path : Path s.cursor (Tree.tokensOf children) c)
    (next : after.mem (Cursor.current c).kind = true) :
    ((p.starts Nonterminal.heads after).subset set = true → s.answers frame test = true) ∧
      ((p.starts Nonterminal.heads after).disjoint set = true → s.answers frame test = false) := by
  have starts := Readable.starts matched path next
  rw [answers_of_kinds? eq]
  exact ⟨fun subset => KindSet.mem_of_subset subset starts,
    fun disjoint => KindSet.not_mem_of_disjoint disjoint starts⟩

/-- A loop stops at a token that may follow. -/
theorem answers_of_disjoint (after : KindSet) (eq : test.kinds? = some set) (frame : Frame)
    (stops : after.disjoint set = true) (next : after.mem s.current.kind = true) :
    s.answers frame test = false := by
  rw [answers_of_kinds? eq]
  exact KindSet.not_mem_of_disjoint stops next

/-- Any number in a row is read, each by a round. -/
theorem loops_many {body : Rule} (eq : test.kinds? = some set)
    (once : Completes C body ((q.heads Nonterminal.heads).union after) q)
    (null : q.nullable = false) (heads : (q.heads Nonterminal.heads).subset set = true)
    (stops : after.disjoint set = true) (frame : Frame)
    (matched : (many q).Matches (Readable C) s.flow children)
    (path : Path s.cursor (Tree.tokensOf children) c)
    (next : after.mem (Cursor.current c).kind = true) :
    ∃ added t, Tree.bareOf added = Tree.bareOf children ∧
      Loops (fun frame s => s.answers frame test) (Follows C body) frame s
        (added.reverse ++ frame) t ∧ s.Arrives c t := by
  generalize eq' : many q = phrase at matched
  generalize flows : s.flow = flow at matched
  induction matched generalizing s frame with
  | stop =>
      obtain rfl := Path.nil_iff.1 path
      exact ⟨[], s, rfl, .stop (answers_of_disjoint _ eq frame stops next), .refl s⟩
  | @more flow q front back first rest _ ih =>
      cases eq'
      subst flows
      rw [Tree.tokensOf_append] at path
      obtain ⟨middle, before, behind⟩ := Path.append_iff.1 path
      have going : s.answers frame test = true := by
        refine (answers_of_starts _ eq frame first before (KindSet.mem_full _)).1 ?_
        rw [Phrase.starts, null]
        exact heads
      have between : ((q.heads Nonterminal.heads).union after).mem (Cursor.current middle).kind =
          true := rest.starts (fun _ _ _ readable => readable.derived.begins) behind next
      obtain ⟨added, t, bare, followed, arrived⟩ := once _ frame _ _ first before between
      obtain ⟨more, u, bare', looped, arrived'⟩ :=
        ih (added.reverse ++ frame) (arrived.cursor ▸ behind) rfl arrived.flow
      refine ⟨added ++ more, u, by simp [bare, bare'], ?_, arrived.trans arrived'⟩
      rw [List.reverse_append, List.append_assoc]
      exact .round going followed looped
  | _ => cases eq'

/-- Further elements are read, each with its separator by a round. -/
theorem loops_further {body : Rule} {field : Field} {separators : List TokenKind}
    (eq : test.kinds? = some set)
    (once : Completes C body ((KindSet.ofList separators).union after)
      (.seq (.leaf field separators) (.seq q .nil)))
    (last : Completes C body after (.seq (.leaf field separators) (.seq .nil .nil)))
    (heads : (KindSet.ofList separators).subset set = true)
    (stops : after.disjoint set = true) (frame : Frame)
    (matched : (further field separators q).Matches (Readable C) s.flow children)
    (path : Path s.cursor (Tree.tokensOf children) c)
    (next : after.mem (Cursor.current c).kind = true) :
    ∃ added t, Tree.bareOf added = Tree.bareOf children ∧
      Loops (fun frame s => s.answers frame test) (Follows C body) frame s
        (added.reverse ++ frame) t ∧ s.Arrives c t := by
  generalize eq' : further field separators q = phrase at matched
  generalize flows : s.flow = flow at matched
  -- A separator stands at the cursor when a round begins.
  have goes : ∀ {s : Session σ} {frame : Frame} {token : Token} {rest : List Token} {c : σ},
      separators.contains token.kind = true → Path s.cursor (token :: rest) c →
        s.answers frame test = true := by
    intro s frame token rest c mem path
    rw [answers_of_kinds? eq, current, (Path.cons_iff.1 path).1]
    exact KindSet.mem_of_subset heads (by rw [KindSet.mem_ofList]; exact mem)
  induction matched generalizing s frame with
  | noFurther =>
      obtain rfl := Path.nil_iff.1 path
      exact ⟨[], s, rfl, .stop (answers_of_disjoint _ eq frame stops next), .refl s⟩
  | lastSeparator mem =>
      cases eq'
      subst flows
      obtain ⟨added, t, bare, followed, arrived⟩ := last _ frame _ _
        (.cons (.leaf mem) (.seq .nil .nil)) path next
      refine ⟨added, t, bare, .round (goes mem path) followed (.stop ?_), arrived⟩
      refine answers_of_disjoint _ eq _ stops ?_
      rw [current, arrived.cursor]
      exact next
  | @further flow field separators q token front back mem first rest _ ih =>
      cases eq'
      subst flows
      have whole : Tree.tokensOf ((field, Tree.leaf token) :: (front ++ back)) =
          Tree.tokensOf ((field, Tree.leaf token) :: front) ++ Tree.tokensOf back := by
        simp [Tree.tokensOf_append]
      have going : s.answers frame test = true := goes mem path
      rw [whole] at path
      obtain ⟨middle, before, behind⟩ := Path.append_iff.1 path
      have between : ((KindSet.ofList separators).union after).mem
          (Cursor.current middle).kind = true :=
        rest.starts (fun _ _ _ readable => readable.derived.begins) behind next
      obtain ⟨added, t, bare, followed, arrived⟩ := once _ frame _ _
        (.cons (.leaf mem) (Matches.last_iff.2 first)) before between
      obtain ⟨more, u, bare', looped, arrived'⟩ :=
        ih (added.reverse ++ frame) (arrived.cursor ▸ behind) rfl arrived.flow
      refine ⟨added ++ more, u, by simp [bare, bare'], ?_, arrived.trans arrived'⟩
      rw [List.reverse_append, List.append_assoc]
      exact .round going followed looped
  | _ => cases eq'

/-- A branch that demands a body or a word goes on where the phrase does. -/
theorem follows_of_allows {yes no : Rule} (checked : allows test yes p = true) (frame : Frame)
    (matched : p.Matches (Readable C) s.flow children)
    (path : Path s.cursor (Tree.tokensOf children) c) :
    ∃ added t, Tree.bareOf added = Tree.bareOf children ∧
      Follows C (.branch test yes no) frame s (added.reverse ++ frame) t ∧ s.Arrives c t := by
  unfold allows at checked
  split at checked
  · obtain ⟨meets, rfl⟩ := Matches.needs_iff.1 matched
    obtain rfl := Path.nil_iff.1 path
    exact ⟨[], s, rfl, Or.inl ⟨meets, rfl, rfl⟩, .refl s⟩
  · obtain ⟨meets, rfl⟩ := Matches.needs_iff.1 matched
    obtain rfl := Path.nil_iff.1 path
    exact ⟨[], s, rfl, Or.inl ⟨meets, rfl, rfl⟩, .refl s⟩
  · simp only [Bool.and_eq_true, decide_eq_true_eq] at checked
    obtain ⟨rfl, rfl⟩ := checked
    obtain ⟨token, spelled, rfl⟩ := Matches.word_iff.1 matched
    obtain ⟨t, taken, arrived⟩ := exists_takes path
    refine ⟨_, t, rfl, Or.inl ⟨?_, token, taken, rfl⟩, arrived⟩
    rw [answers, taken.1]
    exact spelled
  · cases checked

/-- **A rule that is found complete reads whatever the phrase describes.** -/
theorem completes_of_completes (rule : Rule) (after : KindSet)
    (checked : rule.completes after p = true) : Completes C rule after p := by
  intro children frame s c matched path next
  induction rule generalizing after p children frame s c with
  | done =>
      obtain ⟨q, case, matched⟩ := matched.exists_case
      have checked := List.all_eq_true.1 checked q case
      split at checked
      · exact absurd matched Matches.never_iff
      · obtain rfl := Matches.nil_iff.1 matched
        obtain rfl := Path.nil_iff.1 path
        exact ⟨[], s, rfl, ⟨rfl, rfl⟩, .refl s⟩
      · cases checked
  | shift field =>
      obtain ⟨q, case, matched⟩ := matched.exists_case
      have checked := List.all_eq_true.1 checked q case
      -- The phrase describes one token, by its kind or by its spelling.
      have single : ∃ token, children = [(field, .leaf token)] := by
        split at checked
        · exact absurd matched Matches.never_iff
        · simp only [decide_eq_true_eq] at checked
          subst checked
          obtain ⟨token, -, rfl⟩ := Matches.leaf_iff.1 matched
          exact ⟨token, rfl⟩
        · simp only [decide_eq_true_eq] at checked
          subst checked
          obtain ⟨token, -, rfl⟩ := Matches.word_iff.1 matched
          exact ⟨token, rfl⟩
        · cases checked
      obtain ⟨token, rfl⟩ := single
      obtain ⟨t, taken, arrived⟩ := exists_takes path
      exact ⟨_, t, rfl, ⟨token, taken, rfl⟩, arrived⟩
  | call name field =>
      obtain ⟨q, case, matched⟩ := matched.exists_case
      have checked := List.all_eq_true.1 checked q case
      split at checked
      · exact absurd matched Matches.never_iff
      · simp only [Bool.and_eq_true, decide_eq_true_eq] at checked
        obtain ⟨⟨rfl, rfl⟩, subset⟩ := checked
        obtain ⟨tree, readable, rfl⟩ := Matches.part_iff.1 matched
        obtain ⟨field', read, t, called, bare, arrived⟩ :=
          readable.read s c rfl (by simpa using path) (KindSet.mem_of_subset subset next)
        exact ⟨[(field, read)], t, by simp [bare], ⟨_, called, rfl⟩, arrived⟩
      · cases checked
  | seq first second ih ih' =>
      obtain ⟨q, case, matched⟩ := matched.exists_case
      have checked := List.all_eq_true.1 checked q case
      split at checked
      · exact absurd matched Matches.never_iff
      · simp only [Bool.and_eq_true] at checked
        obtain ⟨front, back, one, two, rfl⟩ := Matches.seq_iff.1 matched
        rw [Tree.tokensOf_append] at path
        obtain ⟨middle, before, behind⟩ := Path.append_iff.1 path
        obtain ⟨added, t, bare, followed, arrived⟩ := ih _ checked.1 _ frame _ _ one before
          (two.starts (fun _ _ _ readable => readable.derived.begins) behind next)
        obtain ⟨more, u, bare', followed', arrived'⟩ :=
          ih' _ checked.2 _ (added.reverse ++ frame) _ _
          (arrived.flow ▸ two) (arrived.cursor ▸ behind) next
        refine ⟨added ++ more, u, by simp [bare, bare'], ⟨_, t, followed, ?_⟩,
          arrived.trans arrived'⟩
        rw [List.reverse_append, List.append_assoc]
        exact followed'
      · cases checked
  | branch test yes no ih ih' =>
      obtain ⟨q, case, matched⟩ := matched.exists_case
      have checked := List.all_eq_true.1 checked q case
      split at checked
      · rename_i set eq
        obtain ⟨goes, passes⟩ := answers_of_starts _ eq frame matched path next
        simp only [Bool.or_eq_true, Bool.and_eq_true] at checked
        rcases checked with ⟨subset, checked⟩ | ⟨disjoint, checked⟩
        · obtain ⟨added, t, bare, followed, arrived⟩ := ih _ checked _ frame _ _ matched path next
          exact ⟨added, t, bare, Or.inl ⟨goes subset, followed⟩, arrived⟩
        · obtain ⟨added, t, bare, followed, arrived⟩ := ih' _ checked _ frame _ _ matched path next
          exact ⟨added, t, bare, Or.inr ⟨passes disjoint, followed⟩, arrived⟩
      · exact follows_of_allows checked frame matched path
  | loop test body ih =>
      unfold Rule.completes at checked
      split at checked
      · rename_i set eq
        simp only [Bool.and_eq_true] at checked
        obtain ⟨stops, checked⟩ := checked
        obtain ⟨q, case, matched⟩ := matched.exists_case
        have checked := List.all_eq_true.1 checked q case
        split at checked
        · exact absurd matched Matches.never_iff
        · simp only [Bool.and_eq_true, Bool.not_eq_true'] at checked
          exact loops_many eq (fun _ _ _ _ => ih _ checked.2 _ _ _ _) checked.1.1 checked.1.2 stops
            frame matched path next
        · simp only [Bool.and_eq_true, Bool.not_eq_true'] at checked
          obtain ⟨front, back, one, two, rfl⟩ := Matches.atLeastOne_iff.1 matched
          exact loops_many eq (fun _ _ _ _ => ih _ checked.2 _ _ _ _) checked.1.1 checked.1.2 stops
            frame (.more one two) path next
        · simp only [Bool.and_eq_true] at checked
          exact loops_further eq (fun _ _ _ _ => ih _ checked.1.2 _ _ _ _)
            (fun _ _ _ _ => ih _ checked.2 _ _ _ _) checked.1.1 stops frame matched path next
        · cases checked
      · cases checked
  | within scope body ih =>
      obtain ⟨q, case, matched⟩ := matched.exists_case
      have checked := List.all_eq_true.1 checked q case
      split at checked
      · exact absurd matched Matches.never_iff
      · simp only [Bool.and_eq_true, decide_eq_true_eq] at checked
        obtain ⟨rfl, checked⟩ := checked
        obtain ⟨added, t, bare, followed, arrived⟩ := ih _ checked _ frame
          (s.withFlow (s.flow.enter _)) _ (Matches.inside_iff.1 matched) path next
        exact ⟨added, t.withFlow s.flow, bare, ⟨t, followed, rfl⟩, arrived.cursor, rfl⟩
      · cases checked
  | _ => cases checked

/-- **A rule that is found complete for trees completes whatever node the phrase describes.** -/
theorem completesTrees_of_completesTrees {rule : Rule}
    (checked : rule.completesTrees after p = true) : CompletesTrees C rule after p := by
  intro kind inner children before s c case matched path next
  induction rule generalizing after p inner children before s c with
  | branch test yes no ih ih' =>
      unfold Rule.completesTrees at checked
      split at checked
      · rename_i set eq
        have checked := List.all_eq_true.1 checked _ case
        have whole : (Phrase.tree .left kind inner).Matches (Readable C) s.flow
          [(.left, .node kind 0 0 children)] := .tree 0 0 matched
        obtain ⟨goes, passes⟩ := answers_of_starts _ eq before whole (by simpa using path) next
        simp only [Bool.or_eq_true, Bool.and_eq_true] at checked
        have self : Phrase.tree .left kind inner ∈ (Phrase.tree .left kind inner).cases :=
          List.mem_singleton_self _
        rcases checked with ⟨subset, checked⟩ | ⟨disjoint, checked⟩
        · obtain ⟨start, stop, added, t, bare, followed, arrived⟩ :=
            ih checked _ _ before _ _ self matched path next
          exact ⟨start, stop, added, t, bare, Or.inl ⟨goes subset, followed⟩, arrived⟩
        · obtain ⟨start, stop, added, t, bare, followed, arrived⟩ :=
            ih' checked _ _ before _ _ self matched path next
          exact ⟨start, stop, added, t, bare, Or.inr ⟨passes disjoint, followed⟩, arrived⟩
      · cases checked
  | seq first second ih ih' =>
      have checked := List.all_eq_true.1 checked _ case
      split at checked
      · rename_i eq
        cases eq
      · rename_i eq
        cases eq
        simp only [Bool.and_eq_true, decide_eq_true_eq] at checked
        obtain ⟨rfl, rfl⟩ := checked
        obtain rfl := Matches.nil_iff.1 matched
        obtain rfl := Path.nil_iff.1 path
        exact ⟨_, _, [], s, rfl, ⟨_, s, ⟨rfl, rfl⟩, by rw [List.append_nil]; rfl, rfl⟩, .refl s⟩
      · rename_i q q' eq
        cases eq
        simp only [Bool.and_eq_true] at checked
        obtain ⟨front, back, one, two, rfl⟩ := Matches.seq_iff.1 matched
        rw [Tree.tokensOf_append] at path
        obtain ⟨middle, here, behind⟩ := Path.append_iff.1 path
        obtain ⟨added, t, bare, followed, arrived⟩ :=
          completes_of_completes _ _ checked.1 _ before _ _ one here
            (two.starts (fun _ _ _ readable => readable.derived.begins) behind next)
        obtain ⟨start, stop, more, u, bare', followed', arrived'⟩ :=
          ih' checked.2 _ _ (added.reverse ++ before) _ _ (List.mem_singleton_self _)
            (arrived.flow ▸ two) (arrived.cursor ▸ behind) next
        refine ⟨start, stop, added ++ more, u, by simp [bare, bare'], ⟨_, t, followed, ?_⟩,
          arrived.trans arrived'⟩
        simpa using followed'
      · cases checked
  | _ =>
      have checked := List.all_eq_true.1 checked _ case
      cases checked

/-- A call that is found complete reads the part that the phrase describes. -/
theorem follows_call {piece : Child} (name : Nonterminal) (field : Field)
    (checked : (Rule.call name field).completes after p = true)
    (matched : p.Matches (Readable C) s.flow [piece]) (path : Path s.cursor piece.2.tokens c)
    (next : after.mem (Cursor.current c).kind = true) :
    ∃ read t, Follows C (.call name field) [] s [(field, read)] t ∧ read.bare = piece.2.bare ∧
      s.Arrives c t := by
  obtain ⟨added, t, bare, followed, arrived⟩ :=
    completes_of_completes _ _ checked _ [] _ _ matched (by simpa using path) next
  obtain ⟨pieces, called, eq⟩ := followed
  obtain ⟨⟨field', read⟩, rfl⟩ : ∃ child, added = [child] := by
    refine List.length_eq_one_iff.1 ?_
    rw [← Tree.length_bareOf, bare]
    rfl
  have same : read.bare = piece.2.bare := by simpa using congrArg (·.map Prod.snd) bare
  obtain ⟨child, rfl⟩ : ∃ child, pieces = [child] := by
    refine List.length_eq_one_iff.1 ?_
    simpa using congrArg List.length eq.symm
  simp only [List.map_cons, List.map_nil, List.reverse_cons, List.reverse_nil, List.nil_append,
    List.append_nil, List.cons.injEq, Prod.mk.injEq, and_true] at eq
  exact ⟨read, t, ⟨[child], called, by simp [eq.2]⟩, same, arrived⟩

/-- **A rule that is found complete as a whole reads whatever tree the phrase describes.** -/
theorem completesWhole_of_completesWhole {rule : Rule}
    (checked : rule.completesWhole after p = true) : CompletesWhole C rule after p := by
  intro piece s c matched path next
  induction rule generalizing after p s c with
  | branch test yes no ih ih' =>
      unfold Rule.completesWhole at checked
      split at checked
      · rename_i set eq
        obtain ⟨q, case, matched⟩ := matched.exists_case
        have checked := List.all_eq_true.1 checked q case
        obtain ⟨goes, passes⟩ := answers_of_starts _ eq [] matched (by simpa using path) next
        simp only [Bool.or_eq_true, Bool.and_eq_true] at checked
        rcases checked with ⟨subset, checked⟩ | ⟨disjoint, checked⟩
        · obtain ⟨field, read, t, followed, rest⟩ := ih checked _ _ matched path next
          exact ⟨field, read, t, Or.inl ⟨goes subset, followed⟩, rest⟩
        · obtain ⟨field, read, t, followed, rest⟩ := ih' checked _ _ matched path next
          exact ⟨field, read, t, Or.inr ⟨passes disjoint, followed⟩, rest⟩
      · cases checked
  | call name field =>
      obtain ⟨read, t, followed, rest⟩ := follows_call _ _ checked matched path next
      exact ⟨field, read, t, followed, rest⟩
  | seq first second _ _ =>
      obtain ⟨q, case, found⟩ := matched.exists_case
      unfold Rule.completesWhole at checked
      split at checked
      · contradiction
      · contradiction
      · rename_i name field test tail eq
        cases eq
        split at checked
        · rename_i set eq
          have checked := List.all_eq_true.1 checked q case
          split at checked
          · -- The part is there, and more is to come.
            simp only [Bool.and_eq_true, decide_eq_true_eq] at checked
            obtain ⟨⟨⟨⟨rfl, rfl⟩, follow⟩, goes⟩, trees⟩ := checked
            obtain ⟨start, stop, children, inner, whole⟩ := Matches.tree_iff.1 found
            cases whole
            obtain ⟨front, back, one, two, rfl⟩ := Matches.seq_iff.1 inner
            obtain ⟨tree, readable, rfl⟩ := Matches.part_iff.1 one
            rw [Tree.tokens_node, Tree.tokensOf_append] at path
            obtain ⟨middle, before, behind⟩ := Path.append_iff.1 path
            have starts := two.starts (fun _ _ _ readable => readable.derived.begins) behind next
            obtain ⟨field', read, t, called, bare, arrived⟩ := readable.read s middle rfl
              (by simpa using before) (KindSet.mem_of_subset follow starts)
            obtain ⟨start', stop', added, u, bare', followed, arrived'⟩ :=
              completesTrees_of_completesTrees trees _ _ _ [(_, read)] t c
                (List.mem_singleton_self _) (arrived.flow ▸ two) (arrived.cursor ▸ behind) next
            refine ⟨_, _, u, ⟨_, t, ⟨_, called, rfl⟩, _, u, Or.inl ⟨?_, followed⟩, rfl, rfl⟩,
              by simp [bare, bare'], arrived.trans arrived'⟩
            rw [answers_of_kinds? eq, current, arrived.cursor]
            exact KindSet.mem_of_subset goes starts
          · simp only [Bool.and_eq_true] at checked
            obtain ⟨read, t, followed, bare, arrived⟩ := follows_call _ _ checked.2 found path next
            refine ⟨field, read, t, ⟨_, t, followed, _, t, Or.inr ⟨?_, rfl, rfl⟩, rfl, rfl⟩, bare,
              arrived⟩
            refine answers_of_disjoint _ eq _ checked.1 ?_
            rw [current, arrived.cursor]
            exact next
        · cases checked
      · rename_i eq
        cases eq
        simp only [Bool.and_eq_true] at checked
        have shape := List.all_eq_true.1 checked.1 q case
        split at shape
        · exact absurd found Matches.never_iff
        · obtain ⟨start, stop, children, inner, whole⟩ := Matches.tree_iff.1 found
          cases whole
          obtain ⟨start', stop', added, t, bare, followed, arrived⟩ :=
            completesTrees_of_completesTrees checked.2 _ _ _ [] s c case inner path next
          exact ⟨_, _, t, followed, by simp [bare], arrived⟩
        · cases shape
      · contradiction
  | _ => cases checked

/-! ### Operands and operators -/

/-- **Whatever the phrase of a chain describes is come to from its first operand**, before a token
that may follow an operand: what is left of an operator is, up to the operator, a chain itself. -/
theorem climbs_of_trees {self operand : Nonterminal} {body : Rule} {piece : Child}
    (eq : test.kinds? = some set) (follow : set.subset operand.follow = true)
    (chained : (ebnf self).chained self operand set = true)
    (rule : Grammar.python self = steps [.call operand .left, .loop test body])
    (trees : CompletesTrees C body operand.follow ((ebnf self).tails .left self))
    (matched : (ebnf self).Matches (Readable C) s.flow [piece])
    (path : Path s.cursor piece.2.tokens c)
    (next : operand.follow.mem (Cursor.current c).kind = true) :
    Climbs C operand test body s piece.2 c := by
  obtain ⟨q, case, found⟩ := matched.exists_case
  have chained := List.all_eq_true.1 chained q case
  split at chained
  · exact absurd found Matches.never_iff
  · simp only [decide_eq_true_eq] at chained
    subst chained
    obtain ⟨tree, readable, whole⟩ := Matches.part_iff.1 found
    cases whole
    obtain ⟨field, read, t, called, bare, arrived⟩ := readable.read s c rfl path next
    exact ⟨field, read, t, read, t, called, bare, arrived, fun _ _ looped => looped⟩
  · rename_i kind _ rest
    simp only [Bool.and_eq_true, decide_eq_true_eq] at chained
    obtain ⟨rfl, goes⟩ := chained
    obtain ⟨start, stop, children, inner, whole⟩ := Matches.tree_iff.1 found
    cases whole
    obtain ⟨front, back, one, two, rfl⟩ := Matches.seq_iff.1 inner
    obtain ⟨tree, readable, rfl⟩ := Matches.part_iff.1 one
    rw [Tree.tokens_node, Tree.tokensOf_append] at path
    obtain ⟨middle, before, behind⟩ := Path.append_iff.1 path
    have starts := KindSet.mem_of_subset goes
      (two.starts (fun _ _ _ readable => readable.derived.begins) behind next)
    obtain ⟨field, first, t, read, u, called, bare, arrived, leads⟩ := readable.climb _ _ _ rule s
      middle rfl (by simpa using before) (KindSet.mem_of_subset follow starts)
    obtain ⟨start', stop', added, v, bare', followed, arrived'⟩ := trees _ _ _ [(.left, read)] u c
      (mem_tails case) (arrived.flow ▸ two) (arrived.cursor ▸ behind) next
    have going : u.answers [(.left, read)] test = true := by
      rw [answers_of_kinds? eq, current, arrived.cursor]
      exact starts
    refine ⟨field, first, t, .node kind start' stop' ([(.left, read)] ++ added), v, called, ?_,
      arrived.trans arrived', ?_⟩
    · simp [bare, bare']
    · exact fun frame' s' looped => leads _ _ (.round going followed looped)
  · cases chained

/-- A chain is read as a whole if its loop stops at the tokens that may follow. -/
theorem completesWhole_of_climbs {operand : Nonterminal} {body : Rule}
    (eq : test.kinds? = some set) (subset : after.subset operand.follow = true)
    (stops : after.disjoint set = true)
    (climbs : ∀ piece s c, p.Matches (Readable C) s.flow [piece] → Path s.cursor piece.2.tokens c →
      operand.follow.mem (Cursor.current c).kind = true → Climbs C operand test body s piece.2 c) :
    CompletesWhole C (steps [.call operand .left, .loop test body]) after p := by
  intro piece s c matched path next
  obtain ⟨field, first, t, read, u, called, bare, arrived, leads⟩ :=
    climbs piece s c matched path (KindSet.mem_of_subset subset next)
  refine ⟨.left, read, u, ⟨_, t, ⟨_, called, rfl⟩, _, u, leads _ _ (.stop ?_), rfl, rfl⟩, bare,
    arrived⟩
  refine answers_of_disjoint _ eq _ stops ?_
  rw [current, arrived.cursor]
  exact next

/-! ### Reading what is derived -/

variable (C) in
/-- What can be followed is a call, if it takes a token. -/
def Closed : Prop :=
  ∀ name s pieces t, Follows C (Grammar.python name) [] s pieces t → pieces.tokens ≠ [] →
    C name s pieces t

variable {flow : Flow} {name : Nonterminal} {field : Field} {tree : Tree}

/-- A tree is readable if the rule of the name reads it. -/
theorem readable_of_read (closed : Closed C)
    (whole : ∀ s c, s.flow = flow → Path s.cursor tree.tokens c →
      name.follow.mem (Cursor.current c).kind = true →
        ∃ field read t, Follows C (Grammar.python name) [] s [(field, read)] t ∧
          read.bare = tree.bare ∧ s.Arrives c t)
    (climb : ∀ operand test body,
      Grammar.python name = steps [.call operand .left, .loop test body] →
        ∀ s c, s.flow = flow → Path s.cursor tree.tokens c →
          operand.follow.mem (Cursor.current c).kind = true → Climbs C operand test body s tree c)
    (first : name.inCurly = true →
      CompletesWhole C Grammar.curlyFirst Nonterminal.curlyFollow (ebnf name))
    (matched : (ebnf name).Matches (Readable C) flow [(field, tree)]) :
    Readable C flow name tree := by
  have derived : Derives ebnf flow name tree :=
    .intro (matched.mono fun _ _ _ readable => readable.derived)
  refine ⟨derived, ?_, climb, ?_⟩
  · intro s c same path next
    obtain ⟨field', read, t, followed, bare, arrived⟩ := whole s c same path next
    refine ⟨field', read, t, closed _ _ _ _ followed ?_, bare, arrived⟩
    obtain ⟨token, rest, eq, -⟩ := derived.begins
    have same : read.tokens = tree.tokens := by rw [← read.tokens_bare, bare, tree.tokens_bare]
    simp [same, eq]
  · rintro inCurly s c rfl path next
    exact first inCurly _ s c matched path next

/-- A tree is readable if the rule of the name reads whatever its phrase describes. -/
theorem readable_of_whole (closed : Closed C)
    (whole : CompletesWhole C (Grammar.python name) name.follow (ebnf name))
    (climb : ∀ operand test body,
      Grammar.python name = steps [.call operand .left, .loop test body] →
        ∀ s c, s.flow = flow → Path s.cursor tree.tokens c →
          operand.follow.mem (Cursor.current c).kind = true → Climbs C operand test body s tree c)
    (first : name.inCurly = true →
      CompletesWhole C Grammar.curlyFirst Nonterminal.curlyFollow (ebnf name))
    (matched : (ebnf name).Matches (Readable C) flow [(field, tree)]) :
    Readable C flow name tree := by
  refine readable_of_read closed ?_ climb first matched
  rintro s c rfl path next
  exact whole _ s c matched path next

/-- A rule of another form than a chain. -/
theorem readable_of_completesWhole (closed : Closed C)
    (single : (Grammar.python name).isChain = false)
    (whole : CompletesWhole C (Grammar.python name) name.follow (ebnf name))
    (first : name.inCurly = true →
      CompletesWhole C Grammar.curlyFirst Nonterminal.curlyFollow (ebnf name))
    (matched : (ebnf name).Matches (Readable C) flow [(field, tree)]) :
    Readable C flow name tree := by
  refine readable_of_whole closed whole ?_ first matched
  intro operand test body rule
  rw [rule] at single
  cases single

/-- A chain of operands and operators. -/
theorem readable_of_chain (closed : Closed C) {operand : Nonterminal} {body : Rule}
    (rule : Grammar.python name = steps [.call operand .left, .loop test body])
    (eq : test.kinds? = some set) (follow : set.subset operand.follow = true)
    (subset : name.follow.subset operand.follow = true) (stops : name.follow.disjoint set = true)
    (chained : (ebnf name).chained name operand set = true)
    (trees : CompletesTrees C body operand.follow ((ebnf name).tails .left name))
    (outside : name.inCurly = false)
    (matched : (ebnf name).Matches (Readable C) flow [(field, tree)]) :
    Readable C flow name tree := by
  have climbs : ∀ piece (s : Session σ) c, (ebnf name).Matches (Readable C) s.flow [piece] →
      Path s.cursor piece.2.tokens c → operand.follow.mem (Cursor.current c).kind = true →
        Climbs C operand test body s piece.2 c :=
    fun _ _ _ => climbs_of_trees eq follow chained rule trees
  refine readable_of_whole closed ?_ ?_ (fun inCurly => ?_) matched
  · rw [rule]
    exact completesWhole_of_climbs eq subset stops climbs
  · rintro operand' test' body' rule' s c rfl path next
    rw [rule] at rule'
    simp only [steps, Rule.seq.injEq, Rule.call.injEq, Rule.loop.injEq, and_true] at rule'
    obtain ⟨rfl, rfl, rfl⟩ := rule'
    exact climbs _ s c matched path next
  · rw [outside] at inCurly
    cases inCurly

/-- **A chain that is found complete reads what is derived from its name.** -/
theorem readable_of_completesChain (closed : Closed C)
    (checked : (Grammar.python name).completesChain name = true) (outside : name.inCurly = false)
    (matched : (ebnf name).Matches (Readable C) flow [(field, tree)]) :
    Readable C flow name tree := by
  generalize rule : Grammar.python name = r at checked
  unfold Rule.completesChain at checked
  split at checked
  · split at checked
    · rename_i set eq
      simp only [Bool.and_eq_true] at checked
      obtain ⟨⟨⟨⟨follow, subset⟩, stops⟩, chained⟩, trees⟩ := checked
      exact readable_of_chain closed rule eq follow subset stops chained
        (completesTrees_of_completesTrees trees) outside matched
    · cases checked
  · cases checked

end Session

end PythonSyntax
