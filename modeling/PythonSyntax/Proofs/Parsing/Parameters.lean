/-
**Parameters are read just in an allowed order.**

Given parameters that are each as the grammar says, with single commas between them, the rule of
parameters reads them to the end or objects.  Which of the two it does depends on their order alone:
it objects just if the order breaks one of the rules.

In an allowed order the parameters are derived as a whole, and what is derived is read.  The other
way round, the rule can read nothing but the given parameters: the first token of each tells which
rule reads it, and what that rule reads from a place is one thing only.  So what the rule reads is
what was given, and what it reads is in an allowed order.

Main definitions:

* `PythonSyntax.Session.Settled` — what a call comes to is one thing only;
* `PythonSyntax.Session.parametersKind` — the kind of a row of parameters.

Main results:

* `PythonSyntax.Session.readable_of_untyped` — expressions and parameters are readable, whatever the
  cursor knows of statements;
* `PythonSyntax.Session.settled_reads` — what a call reads from a place is one thing only;
* `PythonSyntax.Session.eq_of_follows_parameters` — the rule reads nothing but what was given;
* `PythonSyntax.Session.ordered_of_follows`, `PythonSyntax.Session.exists_run_of_ordered` — what is
  read stands in an allowed order, and what stands in one is read;
* `PythonSyntax.Session.parameters_ordered` — **parameters are read just in an allowed order**.
-/

import PythonSyntax.Proofs.Parsing.Lossless
import PythonSyntax.Proofs.Parsing.Progress
import PythonSyntax.Proofs.Parsing.CompleteStatements
import PythonSyntax.Proofs.Parsing.Soundness
import PythonSyntax.Proofs.Syntax.ParameterOrder
import PythonSyntax.Proofs.Syntax.Uncommented

set_option autoImplicit false

namespace PythonSyntax

open Phrase

namespace Session

variable {σ : Type} [Cursor σ] {C : Nonterminal → Session σ → Frame → Session σ → Prop}
  {s t : Session σ} {c : σ} {typed : Bool} {children before : List Child} {frame' : Frame}

/-! ### Expressions -/

/-- **What is derived is readable if it can hold no statement**, whatever the cursor knows of lines
that begin with `match`. -/
theorem readable_of_untyped (closed : Closed C) {flow : Flow} {name : Nonterminal} {tree : Tree}
    (h : Derives ebnf flow name tree) (untyped : name.typed = false) :
    Readable C flow name tree := by
  refine h.rule_induction (P := fun flow name tree => name.typed = false →
    Readable C flow name tree) ?_ untyped
  intro flow name field tree matched untyped
  have checked := name.untyped_ebnf
  rw [untyped, Bool.false_or] at checked
  refine readable_of_matches closed ?_ (matched.mono_untyped (fun _ _ _ part => part.2) checked)
  rintro rfl
  cases untyped

/-! ### Reading from a place -/

variable (C) in
/-- What a call comes to is one thing only. -/
def Settled : Prop :=
  ∀ name s pieces pieces' t t', C name s pieces t → C name s pieces' t' → pieces = pieces' ∧ t = t'

/-- What a call reads is settled, since more depth changes nothing. -/
theorem settled_reads (grammar : Grammar) : Settled (σ := σ) (Reads grammar) := by
  rintro name s pieces pieces' t t' ⟨fuel, ran⟩ ⟨fuel', ran'⟩
  have same := run_done_mono (Nat.le_max_left fuel fuel') ran
  rw [run_done_mono (Nat.le_max_right fuel fuel') ran'] at same
  cases same
  exact ⟨rfl, rfl⟩

theorem Takes.unique {token token' : Token} {t' : Session σ} (h : s.Takes token t)
    (h' : s.Takes token' t') : token = token' ∧ t = t' := by
  obtain ⟨cursor, lastStop, flow⟩ := t
  obtain ⟨cursor', lastStop', flow'⟩ := t'
  obtain ⟨rfl, moved, stop, same⟩ := h
  obtain ⟨rfl, moved', stop', same'⟩ := h'
  dsimp only at moved moved' stop stop' same same'
  rw [moved] at moved'
  cases moved'
  rw [stop, stop', same, same']
  exact ⟨rfl, rfl⟩

/-! ### One parameter -/

open Ebnf

/-- The first token of a parameter tells its name. -/
theorem eq_of_heads {name name' : Nonterminal} {kind : TokenKind}
    (mem : name ∈ parameterNames typed) (mem' : name' ∈ parameterNames typed)
    (head : name.heads.mem kind = true) (head' : name'.heads.mem kind = true) : name = name' := by
  have apart : ∀ typed, ∀ one ∈ parameterNames typed, ∀ other ∈ parameterNames typed,
      one = other ∨ one.heads.disjoint other.heads = true := by
    decide
  rcases apart typed name mem name' mem' with same | disjoint
  · exact same
  · rw [KindSet.not_mem_of_disjoint disjoint head] at head'
    cases head'

/-- The next parameter is read by one call, and the current token tells which. -/
theorem exists_call_of_nextParameter
    (h : Follows C (Grammar.nextParameter typed) before.reverse s frame' t) :
    ∃ name ∈ parameterNames typed, name.heads.mem s.current.kind = true ∧
      ∃ pieces, C name s pieces t ∧
        frame' = pieces.map (fun child => (.parameters, child.2)) ++ before.reverse := by
  obtain ⟨_, u, one, _, v, two, rfl, rfl⟩ := h
  obtain ⟨-, rfl, rfl⟩ := follows_refuseAfter one
  rcases two with ⟨slash, _, v, leading, _, w, repeated, _, x, starred, _, y, called, rfl, rfl⟩ |
    ⟨-, ⟨star, _, v, repeated, _, w, called, rfl, rfl⟩ | ⟨-, ⟨stars, called⟩ |
      ⟨-, ⟨isName, _, v, called, _, w, unmissed, rfl, rfl⟩ | ⟨-, refused⟩⟩⟩⟩
  · rcases leading with ⟨-, refused⟩ | ⟨-, rfl, rfl⟩
    · exact refused.elim
    obtain ⟨-, rfl, rfl⟩ := follows_refuseAfter repeated
    obtain ⟨-, rfl, rfl⟩ := follows_refuseAfter starred
    exact ⟨.positionalOnly, by simp [parameterNames], by
      simpa [answers, Test.onSymbol, Nonterminal.heads] using slash, called⟩
  · obtain ⟨-, rfl, rfl⟩ := follows_refuseAfter repeated
    exact ⟨.starParameter typed, by simp [parameterNames], by
      simpa [answers, Test.onSymbol, Nonterminal.heads] using star, called⟩
  · exact ⟨.doubleStarParameter typed, by simp [parameterNames], by
      simpa [answers, Test.onSymbol, Nonterminal.heads] using stars, called⟩
  · rcases unmissed with ⟨-, refused⟩ | ⟨-, rfl, rfl⟩
    · exact refused.elim
    exact ⟨.parameter typed true, by simp [parameterNames], by
      simpa [answers, Test.onSymbol, Nonterminal.heads] using isName, called⟩
  · exact refused.elim

/-- **Where a parameter stands, the rule reads no other.** -/
theorem eq_of_follows_nextParameter (settled : Settled C) (before : List Child) {item : Child}
    (matched : (anyParameter typed).Matches (Readable C) s.flow [item])
    (path : Path s.cursor item.2.tokens c)
    (next : (afterParameter typed).mem (Cursor.current c).kind = true)
    (h : Follows C (Grammar.nextParameter typed) before.reverse s frame' t) :
    ∃ read, frame' = (item.1, read) :: before.reverse ∧ read.bare = item.2.bare ∧
      s.Arrives c t := by
  obtain ⟨name, mem, head, pieces, called, rfl⟩ := exists_call_of_nextParameter h
  obtain ⟨name', mem', tree, readable, eq⟩ := exists_parameter matched
  cases eq
  obtain ⟨first, rest, begins, head'⟩ := readable.derived.begins
  have here : s.current = first := by
    rw [begins] at path
    exact (Path.cons_iff.1 path).1
  obtain rfl := eq_of_heads mem mem' head (here ▸ head')
  have follow : (afterParameter typed).subset name.follow = true := by
    have all : ∀ typed, ∀ name ∈ parameterNames typed,
        (afterParameter typed).subset name.follow = true := by
      decide
    exact all typed name mem
  obtain ⟨field, read, t', called', bare, arrived⟩ :=
    readable.read s c rfl path (KindSet.mem_of_subset follow next)
  obtain ⟨rfl, rfl⟩ := settled _ _ _ _ _ _ called called'
  exact ⟨read, rfl, bare, arrived⟩

/-! ### A row of parameters -/

/-- Taking the token that stands at the cursor. -/
theorem Takes.arrives {token token' : Token} (taken : s.Takes token' t)
    (path : Path s.cursor [token] c) : token' = token ∧ s.Arrives c t := by
  obtain ⟨t', taken', arrived⟩ := exists_takes path
  obtain ⟨rfl, rfl⟩ := taken.unique taken'
  exact ⟨rfl, arrived⟩

section

variable {body : Frame → Session σ → Frame → Session σ → Prop} {frame : Frame}

/-- Before the closing sign nothing is repeated. -/
theorem eq_of_loops_closing (closes : s.current.kind = Nonterminal.closing typed)
    (h : Loops (fun frame s => s.answers frame (.onSymbol .comma)) body frame s frame' t) :
    frame' = frame ∧ t = s := by
  cases h with
  | stop _ => exact ⟨rfl, rfl⟩
  | round holds _ _ =>
      simp only [answers, Test.onSymbol, closes] at holds
      cases typed <;> cases holds

/-- Before a comma there is another round. -/
theorem exists_round {token : Token} {rest : List Token}
    (isComma : [TokenKind.symbol .comma].contains token.kind = true)
    (path : Path s.cursor (token :: rest) c)
    (h : Loops (fun frame s => s.answers frame (.onSymbol .comma)) body frame s frame' t) :
    ∃ middle u, body frame s middle u ∧
      Loops (fun frame s => s.answers frame (.onSymbol .comma)) body middle u frame' t := by
  cases h with
  | stop fails =>
      have here : s.current = token := (Path.cons_iff.1 path).1
      simp only [answers, Test.onSymbol, here, isComma] at fails
      cases fails
  | round _ once rest => exact ⟨_, _, once, rest⟩

end

/-- Where further parameters stand, the rule reads no others. -/
theorem eq_of_loops (settled : Settled C) (before : List Child)
    (matched : (further .separators [.symbol .comma] (anyParameter typed)).Matches (Readable C)
      s.flow children)
    (path : Path s.cursor (Tree.tokensOf children) c)
    (closes : (Cursor.current c).kind = Nonterminal.closing typed)
    (h : Loops (fun frame s => s.answers frame (.onSymbol .comma))
      (Follows C (parameterRound typed)) before.reverse s frame' t) :
    ∃ added, frame' = (before ++ added).reverse ∧ Tree.bareOf added = Tree.bareOf children ∧
      t.cursor = c := by
  have next : (KindSet.ofList [Nonterminal.closing typed]).mem (Cursor.current c).kind = true := by
    simp [closes]
  generalize eq : further .separators [.symbol .comma] (anyParameter typed) = phrase at matched
  generalize flows : s.flow = flow at matched
  induction matched generalizing s before with
  | noFurther =>
      obtain rfl := Path.nil_iff.1 path
      obtain ⟨rfl, rfl⟩ := eq_of_loops_closing closes h
      exact ⟨[], by rw [List.append_nil], rfl, rfl⟩
  | @lastSeparator _ _ _ _ token mem =>
      cases eq
      obtain ⟨_, u, once, rest⟩ := exists_round mem path h
      obtain ⟨_, u, ⟨token, taken, rfl⟩, _, v, ⟨-, refused⟩ | ⟨-, two⟩, rfl, rfl⟩ := once
      · exact refused.elim
      obtain ⟨rfl, rfl, -⟩ := taken.arrives path
      rcases two with ⟨-, rfl, rfl⟩ | ⟨fails, -⟩
      · obtain ⟨rfl, rfl⟩ := eq_of_loops_closing closes rest
        exact ⟨[(.separators, .leaf token)], by simp, rfl, rfl⟩
      · -- After the last comma the closing sign stands.
        simp only [answers, Test.onSymbol, current, closes] at fails
        cases typed <;> cases fails
  | @further _ _ _ _ token front back mem first rest _ ih =>
      cases eq
      subst flows
      obtain ⟨item, rfl⟩ := anyParameter_single first
      have whole : Tree.tokensOf ((.separators, Tree.leaf token) :: ([item] ++ back)) =
          [token] ++ (item.2.tokens ++ Tree.tokensOf back) := by simp
      rw [whole] at path
      obtain ⟨here, before', behind⟩ := Path.append_iff.1 path
      obtain ⟨middle, item', rest'⟩ := Path.append_iff.1 behind
      obtain ⟨_, u, once, more⟩ := exists_round mem before' h
      obtain ⟨_, u, ⟨token, taken, rfl⟩, _, v, ⟨-, refused⟩ | ⟨-, two⟩, rfl, rfl⟩ := once
      · exact refused.elim
      obtain ⟨rfl, rfl, same⟩ := taken.arrives before'
      have first' : (anyParameter typed).Matches (Readable C) u.flow [item] := same ▸ first
      have between := next_of_further rest rest' next
      rcases two with ⟨stops, -⟩ | ⟨-, followed⟩
      · -- No parameter begins with the closing sign.
        have starts := Readable.starts first' (by simpa using item') between
        rw [(answers_onSymbol _ starts).2 (starts_anyParameter typed _ (Or.inr rfl))] at stops
        cases stops
      · obtain ⟨read, rfl, bare, arrived⟩ := eq_of_follows_nextParameter settled
          (before ++ [(.separators, .leaf token)]) first' item' between (by simpa using followed)
        obtain ⟨added, rfl, bare', arrived'⟩ := ih
          (before ++ [(.separators, .leaf token), (item.1, read)]) (arrived.cursor ▸ rest')
          (by simpa using more) rfl (arrived.flow.trans same)
        exact ⟨(.separators, .leaf token) :: (item.1, read) :: added, by simp,
          by simp [bare, bare'], arrived'⟩
  | _ => cases eq

/-- The kind of a row of parameters. -/
def parametersKind (typed : Bool) : NodeKind := if typed then .typedArgsList else .varArgsList

/-- **Where parameters stand, the rule reads no others.** -/
theorem eq_of_follows_parameters (settled : Settled C)
    (row : (parameterRow typed).Matches (Readable C) s.flow children)
    (path : Path s.cursor (Tree.tokensOf children) c)
    (closes : (Cursor.current c).kind = Nonterminal.closing typed)
    (h : Follows C (Grammar.parameters typed) [] s frame' t) :
    ∃ start stop added, frame' = [(.left, .node (parametersKind typed) start stop added)] ∧
      Tree.bareOf added = Tree.bareOf children ∧ t.cursor = c := by
  obtain ⟨_, u, one, _, v, two, _, w, three, _, x, ⟨rfl, rfl⟩, rfl, rfl⟩ := h
  obtain ⟨front, back, first, more, rfl⟩ := Matches.seq_iff.1 row
  obtain ⟨item, rfl⟩ := anyParameter_single first
  rw [Tree.tokensOf_append] at path
  obtain ⟨middle, before, behind⟩ := Path.append_iff.1 path
  obtain ⟨read, rfl, bare, arrived⟩ := eq_of_follows_nextParameter settled [] first
    (by simpa using before) (next_of_further more behind (by simp [closes])) one
  obtain ⟨added, rfl, bare', arrived'⟩ := eq_of_loops settled [(item.1, read)]
    (arrived.flow ▸ more) (arrived.cursor ▸ behind) closes two
  rcases three with ⟨-, refused⟩ | ⟨-, rfl, rfl⟩
  · exact refused.elim
  · rw [build_reverse]
    exact ⟨_, _, [(item.1, read)] ++ added, rfl, by simp [bare, bare'], arrived'⟩

/-! ### All parameters -/

theorem closed_reads : Closed (σ := σ) (Reads Grammar.python) :=
  fun _ _ _ _ followed _ => reads_iff.2 followed

theorem readable_of_row (closed : Closed C)
    (row : (parameterRow typed).Matches (Derives ebnf) s.flow children) :
    (parameterRow typed).Matches (Readable C) s.flow children :=
  row.mono_untyped (fun _ _ _ derived => readable_of_untyped closed derived)
    (by cases typed <;> decide)

/-- Parameters that are read stand in an allowed order. -/
theorem ordered_of_follows (row : (parameterRow typed).Matches (Derives ebnf) s.flow children)
    (path : Path s.cursor (Tree.tokensOf children) c)
    (closes : (Cursor.current c).kind = Nonterminal.closing typed)
    (h : Follows (Reads Grammar.python) (Grammar.parameters typed) [] s frame' t) :
    ordered children = true := by
  obtain ⟨start, stop, added, rfl, bare, -⟩ :=
    eq_of_follows_parameters (settled_reads _) (readable_of_row closed_reads row) path closes h
  obtain ⟨piece, matched, eq⟩ :=
    soundWhole_parameters callsSound_reads typed s _ t (KindSet.mem_full _) h
  cases eq
  obtain ⟨start', stop', inner, such, eq⟩ := Matches.tree_iff.1 matched
  cases eq
  rw [← ordered_bareOf, ← bare, ordered_bareOf]
  exact (Matches.such_iff.1 such).2

/-- Parameters in an allowed order are read, if there is depth for their tokens. -/
theorem exists_run_of_ordered {fuel : Nat}
    (enough : (Nonterminal.parameters typed).rank + 64 * (Tree.tokensOf children).length ≤ fuel)
    (row : (parameterRow typed).Matches (Derives ebnf) s.flow children)
    (path : Path s.cursor (Tree.tokensOf children) c)
    (closes : (Cursor.current c).kind = Nonterminal.closing typed)
    (allowed : ordered children = true) :
    ∃ pieces t, run Grammar.python fuel (Grammar.python (.parameters typed)) [] s =
      .done pieces t := by
  have whole : (ebnf (.parameters typed)).Matches (Readable (Bounded (σ := σ))) s.flow
      [(.left, .node (parametersKind typed) 0 0 children)] :=
    .tree 0 0 (.such (readable_of_row closed_bounded row) allowed)
  obtain ⟨field, read, t, followed, bare, -⟩ :=
    completesWhole_parameters typed _ s c whole path (by simp [Nonterminal.follow, closes])
  have tokens : Frame.tokens [(field, read)] = Tree.tokensOf children := by
    simp [← read.tokens_bare, bare]
  have some : Frame.tokens [(field, read)] ≠ [] := by
    have derived : Derives ebnf s.flow (.parameters typed)
        (.node (parametersKind typed) 0 0 children) := .intro (.tree 0 0 (.such row allowed))
    obtain ⟨first, rest, begins, -⟩ := derived.begins
    rw [tokens, ← Tree.tokens_node, begins]
    exact List.cons_ne_nil _ _
  have ran := (closed_bounded (.parameters typed) _ _ _ followed some).runs
  rw [tokens] at ran
  exact ⟨_, t, run_done_mono enough ran⟩

/-- **Parameters are read just in an allowed order.**  Whatever parameters are given, with single
commas between them, the rule reads them to the end if their order breaks no rule, and only then;
and what it reads are those parameters and those commas. -/
theorem parameters_ordered (down : Countdown σ) {fuel : Nat} (good : down.good s.cursor)
    (enough : (Nonterminal.parameters typed).rank + 64 * down.left s.cursor ≤ fuel)
    (row : (parameterRow typed).Matches (Derives ebnf) s.flow children)
    (path : Path s.cursor (Tree.tokensOf children) c)
    (closes : (Cursor.current c).kind = Nonterminal.closing typed) :
    ((∃ pieces t, run Grammar.python fuel (Grammar.python (.parameters typed)) [] s =
        .done pieces t) ↔ ParameterSort.Allowed (ParameterSort.ofAll children)) ∧
      ∀ pieces t, run Grammar.python fuel (Grammar.python (.parameters typed)) [] s =
        .done pieces t → ∃ read, pieces = [(.left, read)] ∧
          read.bare = .node (parametersKind typed) 0 0 (Tree.bareOf children) ∧ t.cursor = c := by
  have room := down.length_le_left good path (row.ne_eof (by cases typed <;> decide))
  rw [← ordered_iff row]
  refine ⟨⟨?_, exists_run_of_ordered (by omega) row path closes⟩, fun pieces t ran => ?_⟩
  · rintro ⟨pieces, t, ran⟩
    exact ordered_of_follows row path closes (follows_reads_of_run ran)
  · obtain ⟨start, stop, added, rfl, bare, arrived⟩ :=
      eq_of_follows_parameters (settled_reads _) (readable_of_row closed_reads row) path closes
        (follows_reads_of_run ran)
    exact ⟨_, rfl, by simp [bare], arrived⟩

/-- The tree that a call reads is derived from its name. -/
theorem derives_of_reads {name : Nonterminal} {field : Field} {tree : Tree}
    (read : Reads Grammar.python name s [(field, tree)] t) (enters : name.enters s.current = true) :
    Derives ebnf s.flow name tree := by
  obtain ⟨_, _, eq, derived⟩ := reads_derived read enters
  cases eq
  exact derived

/-- A name with a default. -/
theorem derives_defaulted : Derives ebnf .outside (.parameter false true)
    (.node .parameter 0 3 [(.name, .leaf (.literal 0 1 .name "a")),
      (.assign, .leaf (.mark 1 2 (.symbol .assign))),
      (.defaultValue, .node .number 2 3 [(.token, .leaf (.literal 2 3 .number "1"))])]) :=
  derives_of_reads
    (s := start (TokenList.ofList [.literal 0 1 .name "a", .mark 1 2 (.symbol .assign),
      .literal 2 3 .number "1", .mark 3 4 (.symbol .comma)]))
    ⟨40, rfl⟩ (by decide)

/-- A star without a name is read before a name, also with a comma at the end, and refused before
two stars; a star with a name is read alone.  Behind a name with a default, a name without one is
refused, unless a star stands between. -/
theorem parameters_ordered_instances :
    (∀ tokens ∈ [
        [.mark 0 1 (.symbol .mul), .mark 1 2 (.symbol .comma), .literal 3 4 .name "k",
          .mark 4 5 (.symbol .comma), .mark 5 6 (.symbol .colon)],
        [.mark 0 1 (.symbol .mul), .literal 1 5 .name "args", .mark 5 6 (.symbol .colon)],
        [.literal 0 1 .name "a", .mark 1 2 (.symbol .assign), .literal 2 3 .number "1",
          .mark 3 4 (.symbol .comma), .mark 5 6 (.symbol .mul), .mark 6 7 (.symbol .comma),
          .literal 8 9 .name "b", .mark 9 10 (.symbol .colon)]],
      ∃ pieces t, run Grammar.python 600 (Grammar.python (.parameters false)) []
        (start (TokenList.ofList tokens)) = .done pieces t) ∧
      ∀ tokens ∈ [
          [.mark 0 1 (.symbol .mul), .mark 1 2 (.symbol .comma), .mark 3 5 (.symbol .power),
            .literal 5 6 .name "k", .mark 6 7 (.symbol .colon)],
          [.literal 0 1 .name "a", .mark 1 2 (.symbol .assign), .literal 2 3 .number "1",
            .mark 3 4 (.symbol .comma), .literal 5 6 .name "b", .mark 6 7 (.symbol .colon)]],
        ¬ ∃ pieces t, run Grammar.python 600 (Grammar.python (.parameters false)) []
          (start (TokenList.ofList tokens)) = .done pieces t := by
  have bare : ∀ start stop, Derives ebnf .outside (.starParameter false)
      (.node .starParameter start stop [(.op, .leaf (.mark start stop (.symbol .mul)))]) :=
    fun start stop =>
      .intro (.tree start stop (.cons (.leaf rfl) (Matches.last_iff.2 (.right .nil))))
  have name : ∀ withDefault start stop text, Derives ebnf .outside (.parameter false withDefault)
      (.node .parameter start stop [(.name, .leaf (.literal start stop .name text))]) := by
    intro withDefault start stop text
    refine .intro (.tree start stop (.cons (.leaf rfl) ?_))
    cases withDefault <;> simp [row, opt]
  have named : Derives ebnf .outside (.starParameter false)
      (.node .starParameter 0 5 [(.op, .leaf (.mark 0 1 (.symbol .mul))),
        (.parameter, .node .parameter 1 5 [(.name, .leaf (.literal 1 5 .name "args"))])]) :=
    .intro (.tree 0 5 (.cons (.leaf rfl)
      (Matches.last_iff.2 (.left (.part (name false 1 5 "args"))))))
  have stars : Derives ebnf .outside (.doubleStarParameter false)
      (.node .doubleStarParameter 3 6 [(.op, .leaf (.mark 3 5 (.symbol .power))),
        (.parameter, .node .parameter 5 6 [(.name, .leaf (.literal 5 6 .name "k"))])]) :=
    .intro (.tree 3 6 (.cons (.leaf rfl) (Matches.last_iff.2 (.part (name false 5 6 "k")))))
  have comma : ∀ start stop, [TokenKind.symbol .comma].contains
      (Token.mark start stop (.symbol .comma)).kind = true := fun _ _ => rfl
  constructor
  · intro tokens mem
    simp only [List.mem_cons, List.not_mem_nil, or_false] at mem
    rcases mem with rfl | rfl | rfl
    · have read : (parameterRow false).Matches (Derives ebnf) .outside _ :=
        .cons (.right (.left (.part (bare 0 1))))
          (.further (comma 1 2) (.right (.right (.right (.part (name true 3 4 "k")))))
            (.lastSeparator (comma 4 5)))
      refine (parameters_ordered (c := ⟨.mark 5 6 (.symbol .colon), [.eof 6]⟩) TokenList.countdown
        (TokenList.countdown_good_ofList _) (by decide) read ?_ rfl).1.2
        ((ordered_iff read).1 (by decide))
      simpa using .cons rfl rfl (.cons rfl rfl (.cons rfl rfl (.cons rfl rfl (.nil _))))
    · have read : (parameterRow false).Matches (Derives ebnf) .outside _ :=
        .cons (.right (.left (.part named))) .noFurther
      refine (parameters_ordered (c := ⟨.mark 5 6 (.symbol .colon), [.eof 6]⟩) TokenList.countdown
        (TokenList.countdown_good_ofList _) (by decide) read ?_ rfl).1.2
        ((ordered_iff read).1 (by decide))
      simpa using .cons rfl rfl (.cons rfl rfl (.nil _))
    · have read : (parameterRow false).Matches (Derives ebnf) .outside _ :=
        .cons (.right (.right (.right (.part derives_defaulted))))
          (.further (comma 3 4) (.right (.left (.part (bare 5 6))))
            (.further (comma 6 7) (.right (.right (.right (.part (name true 8 9 "b")))))
              .noFurther))
      refine (parameters_ordered (c := ⟨.mark 9 10 (.symbol .colon), [.eof 10]⟩)
        TokenList.countdown (TokenList.countdown_good_ofList _) (by decide) read ?_ rfl).1.2
        ((ordered_iff read).1 (by decide))
      simpa using .cons rfl rfl (.cons rfl rfl (.cons rfl rfl (.cons rfl rfl (.cons rfl rfl
        (.cons rfl rfl (.cons rfl rfl (.nil _)))))))
  · intro tokens mem done
    simp only [List.mem_cons, List.not_mem_nil, or_false] at mem
    rcases mem with rfl | rfl
    · have refused : (parameterRow false).Matches (Derives ebnf) .outside _ :=
        .cons (.right (.left (.part (bare 0 1))))
          (.further (comma 1 2) (.right (.right (.left (.part stars)))) .noFurther)
      have allowed := (parameters_ordered (c := ⟨.mark 6 7 (.symbol .colon), [.eof 7]⟩)
        TokenList.countdown (TokenList.countdown_good_ofList _) (by decide) refused
        (by simpa using .cons rfl rfl (.cons rfl rfl (.cons rfl rfl (.cons rfl rfl (.nil _)))))
        rfl).1.1 done
      exact absurd ((ordered_iff refused).2 allowed) (by decide)
    · have refused : (parameterRow false).Matches (Derives ebnf) .outside _ :=
        .cons (.right (.right (.right (.part derives_defaulted))))
          (.further (comma 3 4) (.right (.right (.right (.part (name true 5 6 "b"))))) .noFurther)
      have allowed := (parameters_ordered (c := ⟨.mark 6 7 (.symbol .colon), [.eof 7]⟩)
        TokenList.countdown (TokenList.countdown_good_ofList _) (by decide) refused
        (by simpa using .cons rfl rfl (.cons rfl rfl (.cons rfl rfl (.cons rfl rfl (.cons rfl rfl
          (.nil _)))))) rfl).1.1 done
      exact absurd ((ordered_iff refused).2 allowed) (by decide)

end Session

end PythonSyntax
