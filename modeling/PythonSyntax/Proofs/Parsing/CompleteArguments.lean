/-
**Arguments and parameters that are read in full.**

Main results:

* `PythonSyntax.Session.completesWhole_argList`, `PythonSyntax.Session.completesWhole_argument` —
  arguments;
* `PythonSyntax.Session.exists_nextParameter` — a parameter is read where it may stand;
* `PythonSyntax.Session.completesWhole_parameters` — parameters in an allowed order.
-/

import PythonSyntax.Proofs.Parsing.CompleteExpressions
import PythonSyntax.Proofs.Syntax.ParameterOrder

set_option autoImplicit false

namespace PythonSyntax

namespace Session

open Phrase Rule

variable {σ : Type} [Cursor σ] {C : Nonterminal → Session σ → Frame → Session σ → Prop}
  {s : Session σ} {c : σ} {after : KindSet} {children : List Child}

/-! ### Arguments -/

/-- A comprehension that is the only argument is not refused. -/
theorem answer_of_loneComprehension (s : Session σ) {arguments : List Child}
    (lone : Ebnf.loneComprehension arguments = true) :
    s.answers arguments.reverse
      (.both (.collected .several) (.collected (.someIs .comprehension))) = false := by
  simp only [Ebnf.loneComprehension, Bool.or_eq_true, decide_eq_true_eq] at lone
  simp only [answers, Frame.satisfies, List.length_reverse, List.any_reverse,
    Bool.and_eq_false_iff, decide_eq_false_iff_not]
  rcases lone with one | none
  · left
    omega
  · right
    rw [List.all_eq_not_any_not] at none
    simpa using none

/-- **Arguments are read.** -/
theorem completesWhole_argList :
    CompletesWhole C Grammar.argList (Nonterminal.follow .argList) (ebnf .argList) := by
  intro piece s c matched path next
  obtain ⟨start, stop, children, inner, eq⟩ := Matches.tree_iff.1 matched
  cases eq
  obtain ⟨parts, lone⟩ := Matches.such_iff.1 inner
  obtain ⟨front, back, first, more, rfl⟩ := Matches.seq_iff.1 parts
  obtain ⟨added, t, bare, followed, arrived⟩ :=
    completes_of_completes (separated .argument .arguments
      (.either Grammar.startsExpression (.on [.symbol .mul, .symbol .power]))) _
    (p := elements .arguments .argument) (by decide)
    (front ++ back) [] s c (.seq first (Matches.last_iff.2 more)) path next
  rw [List.append_nil] at followed
  have lone' : Ebnf.loneComprehension added = true := by
    rw [← Ebnf.loneComprehension_bareOf, bare, Ebnf.loneComprehension_bareOf]
    exact lone
  refine ⟨_, _, t, ⟨_, t, followed, _, t, Or.inr ⟨answer_of_loneComprehension t lone', rfl, rfl⟩, _,
    t, ⟨rfl, rfl⟩, rfl, rfl⟩, ?_, arrived⟩
  rw [build_reverse, Tree.bare_node, bare, Tree.bare_node]

/-- **An argument is read.** -/
theorem completesWhole_argument (closed : Closed C) :
    CompletesWhole C Grammar.argument (Nonterminal.follow .argument) (ebnf .argument) := by
  intro piece s c matched path next
  have path' : Path s.cursor (Tree.tokensOf [piece]) c := by simpa using path
  -- What begins with no star is read from an expression on.
  have plain : ∀ {q : Phrase}, q.Matches (Readable C) s.flow [piece] →
      (q.starts Nonterminal.heads (Nonterminal.follow .argument)).subset
        Nonterminal.expressionHeads = true →
      ∀ {frame' t}, Follows C (steps [.call .test .target, choose [
        (Grammar.startsCompFor, Grammar.finishComprehension),
        (.onSymbol .colonAssign, Grammar.namedValue),
        (.onSymbol .assign, steps [
          .branch (.collected (.latestIs [.name])) .done (object .assignedArgument),
          .unwrap .name,
          .shift .assign,
          .call .test .value,
          .reduce .keywordArgument])] .done]) [] s frame' t →
        Follows C Grammar.argument [] s frame' t := by
    intro q found subset frame' t followed
    have heads := KindSet.mem_of_subset subset (Readable.starts found path' next)
    refine Or.inr ⟨?_, Or.inr ⟨?_, followed⟩⟩
    · rw [answers_of_kinds? rfl]
      exact KindSet.not_mem_of_disjoint (by decide) heads
    · rw [answers_of_kinds? rfl]
      exact KindSet.not_mem_of_disjoint (by decide) heads
  rcases Matches.alt_iff.1 matched with star | matched
  · obtain ⟨start, stop, children, inner, eq⟩ := Matches.tree_iff.1 star
    cases eq
    obtain ⟨start', stop', added, t, bare, followed, arrived⟩ := completes_tree
      (steps [.shift .op, .call .test .value, .reduce .starArgument]) .starArgument
      (by decide) [] inner path next
    exact ⟨_, _, t, Or.inl
      ⟨(answers_of_starts _ rfl _ star path' next).1 (by decide), followed⟩,
      by simp [bare], arrived⟩
  rcases Matches.alt_iff.1 matched with stars | matched
  · obtain ⟨start, stop, children, inner, eq⟩ := Matches.tree_iff.1 stars
    cases eq
    obtain ⟨start', stop', added, t, bare, followed, arrived⟩ := completes_tree
      (steps [.shift .op, .call .test .value, .reduce .doubleStarArgument]) .doubleStarArgument
      (by decide) [] inner path next
    obtain ⟨goes, passes⟩ := answers_of_starts (.onSymbol .power) rfl [] stars path' next
    obtain ⟨-, passes⟩ := answers_of_starts (.onSymbol .mul) rfl [] stars path' next
    exact ⟨_, _, t, Or.inr
      ⟨passes (by decide), Or.inl ⟨goes (by decide), followed⟩⟩,
      by simp [bare], arrived⟩
  rcases Matches.alt_iff.1 matched with test | matched
  · obtain ⟨read, t, called, bare, arrived⟩ := follows_call .test .target
      (by decide) test path next
    have stops : ∀ {test : Test} {set : KindSet}, test.kinds? = some set →
        (Nonterminal.follow .argument).disjoint set = true →
          t.answers [(.target, read)] test = false := by
      intro test set eq disjoint
      refine answers_of_disjoint _ eq _ disjoint ?_
      rw [current, arrived.cursor]
      exact next
    exact ⟨_, read, t, plain test (by decide) ⟨_, t, called, _, t,
      Or.inr ⟨stops rfl (by decide), Or.inr ⟨stops rfl (by decide),
        Or.inr ⟨stops rfl (by decide), rfl, rfl⟩⟩⟩, rfl, rfl⟩, bare, arrived⟩
  rcases Matches.alt_iff.1 matched with clauses | matched
  · obtain ⟨start, stop, children, inner, eq⟩ := Matches.tree_iff.1 clauses
    cases eq
    obtain ⟨tree, others, read, t, rfl, -, called, bare, arrived, rest, behind⟩ :=
      exists_call inner path (by decide) next
    have goes : t.answers [(.target, read)] Grammar.startsCompFor = true :=
      (answers_of_starts _ rfl _ rest behind next).1 (by decide)
    obtain ⟨result, u, followed, bare', arrived'⟩ :=
      follows_comprehension (by decide) bare rest behind next start stop
    exact ⟨_, result, u, plain clauses (by decide) ⟨_, t, called _ _, _, u,
      Or.inl ⟨goes, followed⟩, rfl, rfl⟩, bare', arrived.trans arrived'⟩
  rcases Matches.alt_iff.1 matched with named | keyword
  · obtain ⟨read, t, result, u, called, colonAssign, followed, bare, arrived⟩ :=
      exists_namedExpr closed (by decide) named path next
    have passes : t.answers [(.target, read)] Grammar.startsCompFor = false := by
      rw [answers_of_kinds? rfl]
      exact KindSet.not_mem_of_disjoint (by decide) colonAssign
    have goes : t.answers [(.target, read)] (.onSymbol .colonAssign) = true := by
      rw [answers_of_kinds? rfl]
      exact colonAssign
    exact ⟨_, result, u, plain named (by decide) ⟨_, t, called, _, u,
      Or.inr ⟨passes, Or.inl ⟨goes, followed⟩⟩, rfl, rfl⟩, bare, arrived⟩
  · -- The name of a keyword argument is read as an expression, and then taken apart.
    obtain ⟨start, stop, children, inner, eq⟩ := Matches.tree_iff.1 keyword
    cases eq
    obtain ⟨front, back, word, value, rfl⟩ := Matches.seq_iff.1 inner
    obtain ⟨token, isName, rfl⟩ := Matches.leaf_iff.1 word
    have target := readable_name closed (by simpa using isName) s.flow 0 0
    have whole :
      (seq (.part .target .test) (row [sign .assign .assign, .part .value .test])).Matches
        (Readable C) s.flow _ := .seq (.part target) value
    obtain ⟨_, _, read, t, eq, -, called, bare, arrived, rest, behind⟩ :=
      exists_call whole path (by decide) (KindSet.mem_full _)
    cases eq
    obtain ⟨start', stop', rfl⟩ : ∃ start stop,
        read = .node .name start stop [(.token, .leaf token)] := by
      cases read with
      | leaf _ => cases bare
      | node kind start stop inner =>
          simp only [Tree.bare_node, Tree.node.injEq, true_and] at bare
          obtain ⟨rfl, same⟩ := bare
          obtain ⟨leaf, others, rfl, isLeaf, none⟩ := Tree.bareOf_eq_cons same
          rw [Tree.eq_leaf_of_bare isLeaf, Tree.bareOf_eq_nil none]
          exact ⟨start, stop, rfl⟩
    obtain ⟨start'', stop'', added, u, bare', followed, arrived'⟩ := completes_tree
      (steps [.shift .assign, .call .test .value, .reduce .keywordArgument]) .keywordArgument
      (by decide) [(.name, .leaf token)] rest behind next
    have assign := Readable.starts rest behind (KindSet.mem_full _)
    have passes : ∀ {test : Test} {set : KindSet}, test.kinds? = some set →
        (KindSet.ofList [.symbol .assign]).disjoint set = true →
          ∀ frame, t.answers frame test = false := by
      intro test set eq disjoint frame
      rw [answers_of_kinds? eq]
      exact KindSet.not_mem_of_disjoint disjoint assign
    have goes : ∀ frame, t.answers frame (.onSymbol .assign) = true := by
      intro frame
      rw [answers_of_kinds? rfl]
      exact assign
    refine ⟨_, _, u, plain keyword (by decide) ⟨_, t, called _ _, _, u,
      Or.inr ⟨passes rfl (by decide) _, Or.inr ⟨passes rfl (by decide) _,
        Or.inl ⟨goes _, _, t, Or.inl ⟨rfl, rfl, rfl⟩, _, t, ⟨rfl, rfl⟩, followed⟩⟩⟩, rfl, rfl⟩, ?_,
      arrived.trans arrived'⟩
    simp [bare']

/-! ### Parameters -/

/-- A parameter of any sort is one piece. -/
theorem anyParameter_single {D : Flow → Nonterminal → Tree → Prop} {flow : Flow} {typed : Bool}
    (h : (Ebnf.anyParameter typed).Matches D flow children) : ∃ item, children = [item] := by
  obtain ⟨-, -, tree, -, rfl⟩ := Ebnf.exists_parameter h
  exact ⟨_, rfl⟩

/-- What stands after no parameter of the kind is not refused. -/
theorem follows_unrefusedAfter {kind : NodeKind} {complaint : Complaint} {before : List Child}
    (none : Ebnf.holds kind before = false) (s : Session σ) :
    Follows C (Grammar.refuseAfter kind complaint) before.reverse s before.reverse s := by
  refine Or.inr ⟨?_, rfl, rfl⟩
  simp only [answers, Frame.satisfies, List.any_reverse]
  exact none

/-- The tokens at which parameters stop. -/
def afterParameter (typed : Bool) : KindSet :=
  .ofList [.symbol .comma, Nonterminal.closing typed]

/-- A comma or the closing sign stands before further parameters. -/
theorem next_of_further {flow : Flow} {c' : σ} {typed : Bool}
    (matched : (further .separators [.symbol .comma] (Ebnf.anyParameter typed)).Matches
      (Readable C) flow children)
    (path : Path c (Tree.tokensOf children) c')
    (next : (KindSet.ofList [Nonterminal.closing typed]).mem (Cursor.current c').kind = true) :
    (afterParameter typed).mem (Cursor.current c).kind = true := by
  refine KindSet.mem_of_subset ?_
    (matched.starts (fun _ _ _ part => part.derived.begins) path next)
  cases typed <;> decide

/-- The sort of a parameter is told by its first token. -/
theorem answers_parameter {name : Nonterminal} {typed : Bool} {tree : Tree} (field : Field)
    (kinds : KindSet) (heads : name.heads = kinds) (readable : Readable C s.flow name tree)
    (path : Path s.cursor tree.tokens c)
    (next : (afterParameter typed).mem (Cursor.current c).kind = true) (test : Test) (set : KindSet)
    (eq : test.kinds? = some set) (frame : Frame) :
    (kinds.subset set = true → s.answers frame test = true) ∧
      (kinds.disjoint set = true → s.answers frame test = false) :=
  heads ▸ answers_of_starts _ (p := .part field name) eq frame (.part readable)
    (by simpa using path) next

/-- **A parameter is read where it may stand after those before it.** -/
theorem exists_nextParameter {typed : Bool} {before : List Child} {item : Child}
    (matched : (Ebnf.anyParameter typed).Matches (Readable C) s.flow [item])
    (admits : Ebnf.admits before item = true) (path : Path s.cursor item.2.tokens c)
    (next : (afterParameter typed).mem (Cursor.current c).kind = true) :
    ∃ read t, Follows C (Grammar.nextParameter typed) before.reverse s
        ((item.1, read) :: before.reverse) t ∧ read.bare = item.2.bare ∧ s.Arrives c t := by
  rcases Matches.alt_iff.1 matched with slash | matched
  · obtain ⟨tree, readable, eq⟩ := Matches.part_iff.1 slash
    cases eq
    obtain ⟨start, stop, inner, -, rfl⟩ := readable.derived.node rfl
    simp only [Ebnf.admits, Tree.kind?, Bool.and_eq_true, Bool.not_eq_true'] at admits
    obtain ⟨⟨⟨noKeywords, some⟩, noSlash⟩, noStar⟩ := admits
    obtain ⟨field, read, t, called, bare, arrived⟩ :=
      readable.read s c rfl path (KindSet.mem_full _)
    have isSlash := (answers_parameter .parameters _ rfl readable path next (.onSymbol .div) _
      rfl before.reverse).1 (by decide)
    have notFirst : Follows C (when (.collected .nothing) (object .leadingSlash)) before.reverse s
        before.reverse s := by
      refine Or.inr ⟨?_, rfl, rfl⟩
      simpa [answers, Frame.satisfies] using some
    exact ⟨read, t,
      ⟨_, s, follows_unrefusedAfter noKeywords s, _, t, Or.inl ⟨isSlash, _, s, notFirst,
      _, s, follows_unrefusedAfter noSlash s, _, s, follows_unrefusedAfter noStar s, _, t,
      ⟨_, called, rfl⟩, rfl, rfl⟩, rfl, rfl⟩, bare, arrived⟩
  rcases Matches.alt_iff.1 matched with star | matched
  · obtain ⟨tree, readable, eq⟩ := Matches.part_iff.1 star
    cases eq
    obtain ⟨start, stop, inner, -, rfl⟩ := readable.derived.node rfl
    simp only [Ebnf.admits, Tree.kind?, Bool.and_eq_true, Bool.not_eq_true'] at admits
    obtain ⟨noKeywords, noStar⟩ := admits
    obtain ⟨field, read, t, called, bare, arrived⟩ := readable.read s c rfl path next
    have sort := answers_parameter .parameters (.ofList [.symbol .mul]) rfl readable path
      next
    have noSlash := (sort (.onSymbol .div) _ rfl before.reverse).2 (by decide)
    have isStar := (sort (.onSymbol .mul) _ rfl before.reverse).1 (by decide)
    exact ⟨read, t, ⟨_, s, follows_unrefusedAfter noKeywords s, _, t, Or.inr ⟨noSlash,
      Or.inl ⟨isStar, _, s, follows_unrefusedAfter noStar s, _, t, ⟨_, called, rfl⟩, rfl, rfl⟩⟩,
        rfl, rfl⟩, bare, arrived⟩
  rcases Matches.alt_iff.1 matched with stars | named
  · obtain ⟨tree, readable, eq⟩ := Matches.part_iff.1 stars
    cases eq
    obtain ⟨start, stop, inner, -, rfl⟩ := readable.derived.node rfl
    simp only [Ebnf.admits, Tree.kind?, Bool.not_eq_true'] at admits
    obtain ⟨field, read, t, called, bare, arrived⟩ := readable.read s c rfl path next
    have sort := answers_parameter .parameters (.ofList [.symbol .power]) rfl readable path
      next
    have noSlash := (sort (.onSymbol .div) _ rfl before.reverse).2 (by decide)
    have noStar := (sort (.onSymbol .mul) _ rfl before.reverse).2 (by decide)
    have isStars := (sort (.onSymbol .power) _ rfl before.reverse).1 (by decide)
    exact ⟨read, t, ⟨_, s, follows_unrefusedAfter admits s, _, t, Or.inr ⟨noSlash,
      Or.inr ⟨noStar, Or.inl ⟨isStars, _, called, rfl⟩⟩⟩, rfl, rfl⟩, bare, arrived⟩
  · obtain ⟨tree, readable, eq⟩ := Matches.part_iff.1 named
    cases eq
    obtain ⟨start, stop, inner, -, rfl⟩ := readable.derived.node rfl
    simp only [Ebnf.admits, Tree.kind?, Bool.and_eq_true, Bool.not_eq_true'] at admits
    obtain ⟨noKeywords, answered⟩ := admits
    obtain ⟨field, read, t, called, bare, arrived⟩ := readable.read s c rfl path next
    have sort := answers_parameter .parameters (.ofList [.name]) rfl readable path
      next
    have noSlash := (sort (.onSymbol .div) _ rfl before.reverse).2 (by decide)
    have noStar := (sort (.onSymbol .mul) _ rfl before.reverse).2 (by decide)
    have noStars := (sort (.onSymbol .power) _ rfl before.reverse).2 (by decide)
    have isName := (sort (.on [.name]) _ rfl before.reverse).1 (by decide)
    have unmissed : t.answers ((.parameters, read) :: before.reverse) Grammar.missesDefault =
        false := by
      rw [answers_missesDefault (by rw [← Tree.kind?_bare, bare]; rfl), ← Frame.hasField_bare, bare,
        Frame.hasField_bare, answered]
      rfl
    exact ⟨read, t, ⟨_, s, follows_unrefusedAfter noKeywords s, _, t, Or.inr ⟨noSlash,
      Or.inr ⟨noStar, Or.inr ⟨noStars, Or.inl ⟨isName, _, t, ⟨_, called, rfl⟩, _, t,
        Or.inr ⟨unmissed, rfl, rfl⟩, rfl, rfl⟩⟩⟩⟩, rfl, rfl⟩, bare, arrived⟩

/-- A parameter follows a comma, and begins with neither a comma nor the closing sign. -/
theorem starts_anyParameter (typed : Bool) (after : KindSet) {kinds : KindSet}
    (checked : kinds = .ofList [.symbol .comma] ∨ kinds = .ofList [Nonterminal.closing typed]) :
    ((Ebnf.anyParameter typed).starts Nonterminal.heads after).disjoint kinds = true := by
  have heads : ((Ebnf.anyParameter typed).heads Nonterminal.heads).disjoint kinds = true := by
    rcases checked with rfl | rfl <;> cases typed <;> decide
  exact heads

/-- What the loop of parameters repeats. -/
def parameterRound (typed : Bool) : Rule :=
  steps [
    .shift .separators,
    .branch (.onSymbol .comma) (object .doubledComma)
      (.branch (.onSymbol (if typed then .rightParen else .colon)) .done
        (Grammar.nextParameter typed))]

/-- The kind of the current token tells whether it is a symbol. -/
theorem answers_onSymbol {sign : Symbol} {kinds : KindSet} (frame : Frame)
    (mem : kinds.mem s.current.kind = true) :
    (kinds = .ofList [.symbol sign] → s.answers frame (.onSymbol sign) = true) ∧
      (kinds.disjoint (.ofList [.symbol sign]) = true →
        s.answers frame (.onSymbol sign) = false) := by
  rw [answers_of_kinds? rfl]
  exact ⟨fun eq => eq ▸ mem, fun disjoint => KindSet.not_mem_of_disjoint disjoint mem⟩

/-- Further parameters are read, each where it may stand. -/
theorem loops_ordered {typed : Bool} {before read : List Child}
    (bare : Tree.bareOf read = Tree.bareOf before)
    (matched : (further .separators [.symbol .comma] (Ebnf.anyParameter typed)).Matches (Readable C)
      s.flow children)
    (admitted : Ebnf.allAdmitted before children = true)
    (path : Path s.cursor (Tree.tokensOf children) c)
    (next : (KindSet.ofList [Nonterminal.closing typed]).mem (Cursor.current c).kind = true) :
    ∃ added t, Tree.bareOf added = Tree.bareOf children ∧
      Loops (fun frame s => s.answers frame (.onSymbol .comma)) (Follows C (parameterRound typed))
        read.reverse s (read ++ added).reverse t ∧ s.Arrives c t := by
  have stops : ∀ {frame : Frame} {t : Session σ}, t.cursor = c →
      t.answers frame (.onSymbol .comma) = false := by
    rintro frame t rfl
    exact (answers_onSymbol frame next).2 (by cases typed <;> decide)
  generalize eq : further .separators [.symbol .comma] (Ebnf.anyParameter typed) = phrase at matched
  generalize flows : s.flow = flow at matched
  induction matched generalizing s before read with
  | noFurther =>
      obtain rfl := Path.nil_iff.1 path
      exact ⟨[], s, rfl, by rw [List.append_nil]; exact .stop (stops rfl), .refl s⟩
  | @lastSeparator _ _ _ _ token mem =>
      cases eq
      obtain ⟨t, taken, arrived⟩ := exists_takes path
      have comma : s.answers read.reverse (.onSymbol .comma) = true := by
        rw [answers_of_kinds? rfl, taken.1, KindSet.mem_ofList]
        exact mem
      have closes : t.answers ((.separators, .leaf token) :: read.reverse)
          (.onSymbol (if typed then .rightParen else .colon)) = true := by
        refine (answers_onSymbol _ ?_).1 rfl
        rw [current, arrived.cursor]
        exact next
      refine ⟨[(.separators, .leaf token)], t, rfl, .round comma ⟨_, t, ⟨token, taken, rfl⟩, _, t,
        Or.inr ⟨stops arrived.cursor, Or.inl ⟨closes, rfl, rfl⟩⟩, rfl, rfl⟩ ?_, arrived⟩
      rw [List.reverse_append]
      exact .stop (stops arrived.cursor)
  | @further _ _ _ _ token front back mem first rest _ ih =>
      cases eq
      subst flows
      obtain ⟨item, rfl⟩ := anyParameter_single first
      have whole : Tree.tokensOf ((.separators, Tree.leaf token) :: ([item] ++ back)) =
          [token] ++ (item.2.tokens ++ Tree.tokensOf back) := by simp
      rw [whole] at path
      obtain ⟨here, before', behind⟩ := Path.append_iff.1 path
      obtain ⟨middle, item', rest'⟩ := Path.append_iff.1 behind
      obtain ⟨t, taken, rfl, same⟩ := exists_takes before'
      have comma : s.answers read.reverse (.onSymbol .comma) = true := by
        rw [answers_of_kinds? rfl, taken.1, KindSet.mem_ofList]
        exact mem
      have item'' : Path t.cursor (Tree.tokensOf [item]) middle := by simpa using item'
      have starts := Readable.starts (same ▸ first) item'' (KindSet.mem_full _)
      have another : ∀ frame, t.answers frame (.onSymbol .comma) = false := fun frame =>
        (answers_onSymbol frame starts).2 (starts_anyParameter typed _ (Or.inl rfl))
      have goes : ∀ frame, t.answers frame
          (.onSymbol (if typed then .rightParen else .colon)) = false := fun frame =>
        (answers_onSymbol frame starts).2 (starts_anyParameter typed _ (Or.inr rfl))
      have between := next_of_further rest rest' next
      simp only [List.singleton_append, Ebnf.allAdmitted, Bool.and_eq_true] at admitted
      have admits : Ebnf.admits (read ++ [(.separators, .leaf token)]) item = true := by
        rw [← Ebnf.admits_bareOf, Tree.bareOf_append, bare, ← Tree.bareOf_append,
          Ebnf.admits_bareOf]
        exact admitted.2.1
      obtain ⟨one, u, followed, bare', arrived⟩ :=
        exists_nextParameter (same ▸ first) admits item' between
      obtain ⟨more, v, bare'', looped, arrived'⟩ := ih
        (show Tree.bareOf (read ++ [(.separators, .leaf token), (item.1, one)]) = _ by
          simp [bare, bare']) admitted.2.2 (arrived.cursor ▸ rest') rfl (arrived.flow.trans same)
      rw [List.reverse_append] at followed
      refine ⟨(.separators, .leaf token) :: (item.1, one) :: more, v, by simp [bare', bare''],
        .round comma
          ⟨_, t, ⟨token, taken, rfl⟩, _, u, Or.inr ⟨another _, Or.inr ⟨goes _, followed⟩⟩, rfl, rfl⟩
          ?_, ((Arrives.mk rfl same : s.Arrives t.cursor t).trans arrived).trans arrived'⟩
      simpa using looped
  | _ => cases eq

/-- **Parameters in an allowed order are read.** -/
theorem completesWhole_parameters (typed : Bool) :
    CompletesWhole C (Grammar.parameters typed) (Nonterminal.follow (.parameters typed))
      (ebnf (.parameters typed)) := by
  intro piece s c matched path next
  obtain ⟨start, stop, children, inner, eq⟩ := Matches.tree_iff.1 matched
  cases eq
  obtain ⟨parts, ordered⟩ := Matches.such_iff.1 inner
  obtain ⟨front, back, first, more, rfl⟩ := Matches.seq_iff.1 parts
  obtain ⟨item, rfl⟩ := anyParameter_single first
  simp only [Ebnf.ordered, List.singleton_append, Ebnf.allAdmitted, Bool.and_eq_true,
    List.nil_append] at ordered
  obtain ⟨⟨admits, admitted⟩, answered⟩ := ordered
  rw [Tree.tokens_node, Tree.tokensOf_append] at path
  obtain ⟨middle, before, behind⟩ := Path.append_iff.1 path
  have between := next_of_further more behind next
  obtain ⟨one, t, followed, bare, arrived⟩ :=
    exists_nextParameter first admits (by simpa using before) between
  obtain ⟨added, u, bare', looped, arrived'⟩ := loops_ordered
    (show Tree.bareOf [(item.1, one)] = Tree.bareOf [item] by simp [bare]) (arrived.flow ▸ more)
      admitted
    (arrived.cursor ▸ behind) next
  have unanswered : u.answers ([(item.1, one)] ++ added).reverse
      (.collected (.unanswered .starParameter .parameter .parameter)) = false := by
    rw [answers, satisfies_unanswered, ← Ebnf.starsAnswered_bareOf, Tree.bareOf_append, bare']
    have same : Tree.bareOf [(item.1, one)] ++ Tree.bareOf back = Tree.bareOf (item :: back) := by
      simp [bare]
    rw [same, Ebnf.starsAnswered_bareOf, answered]
    rfl
  refine ⟨_, _, u, ⟨_, t, followed, _, u, looped, _, u, Or.inr ⟨unanswered, rfl, rfl⟩, _, u,
    ⟨rfl, rfl⟩, rfl, rfl⟩, ?_, arrived.trans arrived'⟩
  rw [build_reverse]
  cases typed <;> simp [bare, bare']

end Session

end PythonSyntax
