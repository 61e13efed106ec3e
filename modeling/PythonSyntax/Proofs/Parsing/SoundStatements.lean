/-
**Statements that are read with a look at the pieces.**

What begins a statement is an expression until a sign after it says otherwise; imports and `with`
refuse a comma at the end; a `try` statement needs something after its body; and a name `match`
begins a statement only if a block follows.

Main results:

* `PythonSyntax.Session.closed_of_elements` — elements without a comma at the end;
* `PythonSyntax.Session.soundWhole_exprStatement` — expressions and assignments;
* `PythonSyntax.Session.soundWhole_importName`, `PythonSyntax.Session.soundWhole_importFrom` —
  imports;
* `PythonSyntax.Session.soundWhole_tryStatement`, `PythonSyntax.Session.soundWhole_withStatement`,
  `PythonSyntax.Session.soundWhole_decorated` — compound statements;
* `PythonSyntax.Session.soundWhole_statement`, `PythonSyntax.Session.derived_matchStatement` —
  the word `match`.
-/

import PythonSyntax.Proofs.Parsing.SoundExpressions

set_option autoImplicit false

namespace PythonSyntax

namespace Session

open Phrase Rule

variable {σ : Type} [Cursor σ] {C : Nonterminal → Session σ → Frame → Session σ → Prop}

/-! ### Elements without a comma at the end -/

/-- Elements whose last child is no separator alternate with separators. -/
theorem closed_of_further {D : Flow → Nonterminal → Tree → Prop} {flow : Flow} {field : Field}
    {element : Nonterminal} {children : List Child}
    (h : (Ebnf.furtherElements field element).Matches D flow children)
    (closed : children.getLast?.any (fun child => child.1 = .separators) = false) :
    (Phrase.many (seq Ebnf.comma (.part field element))).Matches D flow children := by
  generalize eq : Ebnf.furtherElements field element = phrase at h
  induction h with
  | noFurther => exact .stop
  | lastSeparator mem =>
      cases eq
      simp at closed
  | @further _ _ _ _ token front back mem first more ih ih' =>
      cases eq
      obtain ⟨tree, derived, rfl⟩ := Matches.part_iff.1 first
      have one : (seq Ebnf.comma (.part field element)).Matches D _
          [(.separators, .leaf token), (field, tree)] := .cons (.leaf mem) (.part derived)
      refine .more one ?_
      by_cases none : back = []
      · rw [none]
        exact .stop
      · refine ih' ?_ rfl
        rw [← closed]
        simp [List.getLast?_cons, List.getLast?_eq_some_getLast none]
  | _ => cases eq

/-- What is read as elements, and not refused for a comma at the end. -/
theorem follows_closed (calls : CallsSound C) {field : Field} {element : Nonterminal}
    {continues : Test} {complaint : Complaint} {before middle frame' : Frame} {s t s' : Session σ}
    (checked : (separated element field continues).sounds .full (elements field element) = true)
    (one : Follows C (separated element field continues) before s middle t)
    (two : Follows C (Grammar.refuseTrailingComma complaint) middle t frame' s') :
    ∃ children, (row [.part field element, .many (seq Ebnf.comma (.part field element))]).Matches
        (Derives ebnf) s.flow children ∧
      frame' = children.reverse ++ before ∧ s' = t := by
  obtain ⟨children, matched, rfl⟩ := sound_of_sounds calls checked _ _ _ _ (KindSet.mem_full _) one
  obtain ⟨front, back, first, more, rfl⟩ := Matches.seq_iff.1 matched
  obtain ⟨tree, derived, rfl⟩ := Matches.part_iff.1 first
  rcases two with ⟨-, refused⟩ | ⟨closed, rfl, rfl⟩
  · exact refused.elim
  · have rest : (Phrase.many (seq Ebnf.comma (.part field element))).Matches (Derives ebnf) s.flow
        back := by
      refine closed_of_further (Matches.last_iff.1 more) ?_
      cases eq : back.getLast? with
      | none => rfl
      | some child =>
          simpa [answers, Frame.satisfies, eq] using closed
    exact ⟨_, .cons (.part derived) (Matches.last_iff.2 rest), rfl, rfl⟩

/-! ### Imports -/

theorem soundWhole_importName (calls : CallsSound C) :
    SoundWhole C Grammar.importName (Nonterminal.entry .importName) (ebnf .importName) := by
  rintro s frame' s' mem ⟨_, t, one, _, u, two, _, v, three, _, w, ⟨rfl, rfl⟩, rfl, rfl⟩
  obtain ⟨front, word, rfl⟩ := sound_of_sounds (p := keyword .importToken .importKw) calls
    (by decide) _ _ _ _ mem one
  obtain ⟨names, matched, rfl, rfl⟩ := follows_closed calls (by decide) two three
  rw [calls.flow_eq one] at matched
  rw [List.append_nil, ← List.reverse_append, build_reverse]
  exact ⟨_, .tree _ _ (.seq word (Matches.last_iff.2 matched)), rfl⟩

/-- What stands before the word `import`: dots and a name, or dots alone. -/
theorem follows_source (calls : CallsSound C) {before middle frame' : Frame} {s t s' : Session σ}
    (undotted : before.head?.any (fun child => child.1 = .dots) = false)
    (one : Follows C (.loop (.on [.symbol .dot, .symbol .ellipsis]) (.shift .dots)) before s
      middle t)
    (two : Follows C (when (.either (.on [.name]) (.not (.collected (.latestAt .dots))))
      (.call .dottedName .moduleName)) middle t frame' s') :
    ∃ children, (Phrase.alt
        (row [.many (.leaf .dots [.symbol .dot, .symbol .ellipsis]),
          .part .moduleName .dottedName])
        (.atLeastOne (.leaf .dots [.symbol .dot, .symbol .ellipsis]))).Matches (Derives ebnf) s.flow
          children ∧
      frame' = children.reverse ++ before := by
  obtain ⟨dots, matched, rfl⟩ := calls.many rfl
    (sound_of_sounds (p := .leaf .dots [.symbol .dot, .symbol .ellipsis]) calls
      (by decide)) one
  rcases two with ⟨-, two⟩ | ⟨fails, rfl, -⟩
  · obtain ⟨tree, derived, -, rfl⟩ := calls.call (p := .part .moduleName .dottedName)
      (by decide) (KindSet.mem_full _) two
    rw [calls.flow_eq one] at derived
    exact ⟨_, .left (.seq matched (.cons (.part derived) .nil)), by simp⟩
  · -- Without a name the latest piece is a dot.
    rcases Matches.many_iff.1 matched with rfl | ⟨front, back, first, more, rfl⟩
    · simp only [answers, Frame.satisfies, List.reverse_nil, List.nil_append, undotted,
        Bool.not_false, Bool.or_true] at fails
      cases fails
    · exact ⟨_, .right (.atLeastOne first more), rfl⟩

/-- What stands after the word `import`: a star, or names, in parentheses or not. -/
theorem follows_imported (calls : CallsSound C) {before frame' : Frame} {s s' : Session σ}
    (h : Follows C (choose [
      (.onSymbol .mul, .shift .star),
      (.onSymbol .leftParen, steps [
        .shift .lparen,
        separated .importAsName .names (.on [.name]),
        expectSymbol .rightParen .rparen "')' after imported names"])]
      (steps [
        separated .importAsName .names (.on [.name]),
        Grammar.refuseTrailingComma .trailingImportComma])) before s frame' s') :
    ∃ children, (choice [
        sign .star .mul,
        row [
          sign .lparen .leftParen,
          row [.part .names .importAsName, Ebnf.furtherElements .names .importAsName],
          sign .rparen .rightParen]]
        (Ebnf.closedNames .importAsName)).Matches (Derives ebnf) s.flow children ∧
      frame' = children.reverse ++ before := by
  rcases h with ⟨holds, one⟩ | ⟨-, ⟨holds, two⟩ | ⟨-, _, t, three, _, u, four, rfl, rfl⟩⟩
  · have star : (KindSet.ofList [.symbol .mul]).mem s.current.kind = true := by
      simpa [answers, Test.onSymbol] using holds
    obtain ⟨children, matched, rfl⟩ := sound_of_sounds (p := sign .star .mul) calls
      (by decide) _ _ _ _ star one
    exact ⟨children, .left matched, rfl⟩
  · have opens : (KindSet.ofList [.symbol .leftParen]).mem s.current.kind = true := by
      simpa [answers, Test.onSymbol] using holds
    obtain ⟨children, matched, rfl⟩ := sound_of_sounds (p := row [
      sign .lparen .leftParen, elements .names .importAsName, sign .rparen .rightParen]) calls
      (by decide) _ _ _ _ opens two
    exact ⟨children, .right (.left matched), rfl⟩
  · obtain ⟨children, matched, rfl, -⟩ := follows_closed calls (by decide) three four
    exact ⟨children, .right (.right matched), rfl⟩

theorem soundWhole_importFrom (calls : CallsSound C) :
    SoundWhole C Grammar.importFrom (Nonterminal.entry .importFrom) (ebnf .importFrom) := by
  rintro s frame' s' mem ⟨_, t, one, _, u, two, _, v, three, _, w, four, _, x, five, _, y,
    ⟨rfl, rfl⟩, rfl, rfl⟩
  obtain ⟨front, word, rfl⟩ := sound_of_sounds (p := keyword .fromToken .fromKw) calls
    (by decide) _ _ _ _ mem one
  have undotted : (front.reverse ++ []).head?.any (fun child : Child => child.1 = Field.dots) = false := by
    obtain ⟨token, -, rfl⟩ := Matches.leaf_iff.1 word
    rfl
  obtain ⟨source, sourced, rfl⟩ := follows_source calls undotted two three
  obtain ⟨middle, word', rfl⟩ := sound_of_sounds (p := keyword .importToken .importKw) calls
    (by decide) _ _ _ _ (KindSet.mem_full _) four
  obtain ⟨names, imported, rfl⟩ := follows_imported calls five
  rw [calls.flow_eq four, calls.flow_eq three, calls.flow_eq two, calls.flow_eq one] at imported
  rw [calls.flow_eq three, calls.flow_eq two, calls.flow_eq one] at word'
  rw [calls.flow_eq one] at sourced
  have children : (names.reverse ++ (middle.reverse ++ (source.reverse ++
      (front.reverse ++ [])))).reverse = front ++ (source ++ (middle ++ (names ++ []))) := by simp
  refine ⟨(.left, .node .importFrom _ _ _), ?_, rfl⟩
  rw [children]
  exact .tree _ _ (.seq word (.seq sourced (.seq word' (.seq imported .nil))))

/-- Whether a name has to follow depends on the dots: computation alone does not see that. -/
example : Grammar.importFrom.soundsWhole (Nonterminal.entry .importFrom)
    (ebnf .importFrom) = false := by decide

/-! ### Assignments -/

/-- An operator that assigns, among all of them. -/
theorem follows_choose_append {front more : List (Test × Rule)} {otherwise : Rule}
    {frame frame' : Frame} {s s' : Session σ}
    (h : Follows C (choose (front ++ more) otherwise) frame s frame' s') :
    (∃ way ∈ front, s.answers frame way.1 = true ∧ Follows C way.2 frame s frame' s') ∨
      Follows C (choose more otherwise) frame s frame' s' := by
  induction front with
  | nil => exact Or.inr h
  | cons way front ih =>
      rcases h with ⟨holds, one⟩ | ⟨-, two⟩
      · exact Or.inl ⟨way, List.mem_cons_self, holds, one⟩
      · rcases ih two with ⟨other, mem, found⟩ | rest
        · exact Or.inl ⟨other, List.mem_cons_of_mem _ mem, found⟩
        · exact Or.inr rest

/-- A list is its only element if it is no node of its own. -/
theorem derives_of_list {flow : Flow} {name element : Nonterminal} {tree : Tree}
    (phrase : ebnf name = Ebnf.list element) (h : Derives ebnf flow name tree)
    (alone : tree.kind? ≠ some .testList) : Derives ebnf flow element tree := by
  obtain ⟨field, matched⟩ := Derives.iff_matches.1 h
  rw [phrase] at matched
  rcases Matches.alt_iff.1 matched with matched | several
  · obtain ⟨_, derived, eq⟩ := Matches.part_iff.1 matched
    cases eq
    exact derived
  · obtain ⟨start, stop, children, -, eq⟩ := Matches.tree_iff.1 several
    cases eq
    exact absurd rfl alone

/-- The latest piece becomes a target, and a value follows the sign after it. -/
theorem follows_assignLatest (calls : CallsSound C) {name : Nonterminal} {field : Field}
    {tree : Tree} {before frame' : Frame} {s s' : Session σ} (derived : Derives ebnf s.flow name tree)
    (assigns : (KindSet.ofList [.symbol .assign]).mem s.current.kind = true)
    (h : Follows C Grammar.assignLatest ((field, tree) :: before) s frame' s') :
    ∃ piece value, (Ebnf.assignTarget name).Matches (Derives ebnf) s.flow [piece] ∧
      Derives ebnf s.flow .assignmentValue value ∧ frame' = (.value, value) :: piece :: before := by
  obtain ⟨_, t, ⟨rfl, rfl⟩, _, u, one, _, v, ⟨rfl, rfl⟩, _, w, two, rfl, rfl⟩ := h
  obtain ⟨children, signed, rfl⟩ := sound_of_sounds (p := sign .op .assign) calls
    (by decide) _ _ _ _ assigns one
  obtain ⟨value, valued, -, rfl⟩ := calls.call (p := .part .value .assignmentValue)
    (by decide) (KindSet.mem_full _) two
  rw [calls.flow_eq one] at valued
  obtain ⟨token, isSign, rfl⟩ := Matches.leaf_iff.1 signed
  exact ⟨_, value, .tree _ _ (.cons (.part derived) (.cons (.leaf isSign) .nil)), valued, rfl⟩

/-- Every value but the last becomes a target. -/
theorem loops_assignLatest (calls : CallsSound C) {value : Tree} {before frame' : Frame}
    {s s' : Session σ} (derived : Derives ebnf s.flow .assignmentValue value)
    (h : Loops (fun frame s => s.answers frame (.onSymbol .assign))
      (Follows C Grammar.assignLatest) ((.value, value) :: before) s frame' s') :
    ∃ targets last, (Phrase.many (Ebnf.assignTarget .assignmentValue)).Matches (Derives ebnf) s.flow
        targets ∧
      Derives ebnf s.flow .assignmentValue last ∧
      frame' = (.value, last) :: (targets.reverse ++ before) := by
  generalize eq : (Field.value, value) :: before = frame at h
  induction h generalizing value before with
  | stop _ => exact ⟨[], value, .stop, derived, eq.symm⟩
  | round holds once _ ih =>
      subst eq
      obtain ⟨piece, next, matched, derived, rfl⟩ := follows_assignLatest calls derived
        (by simpa [answers, Test.onSymbol] using holds) once
      rw [← calls.flow_eq once] at derived
      obtain ⟨targets, last, more, derived, rfl⟩ := ih derived rfl
      rw [calls.flow_eq once] at more derived
      exact ⟨_, last, .more matched more, derived, by simp⟩

/-- An operator that assigns and its right operand, after the left one. -/
theorem follows_augmented (calls : CallsSound C) {op : AugmentedOperator} {tree : Tree}
    {s s' : Session σ} {frame' : Frame} (derived : Derives ebnf s.flow .testListStarExpr tree)
    (holds : s.answers [(.left, tree)] (Grammar.augmentedOperation op).1 = true)
    (h : Follows C (Grammar.augmentedOperation op).2 [(.left, tree)] s frame' s') :
    ∃ piece, (ebnf .exprStatement).Matches (Derives ebnf) s.flow [piece] ∧ frame' = [piece] := by
  have assigns : (KindSet.ofList [op.token]).mem s.current.kind = true := by
    rw [KindSet.mem_ofList]
    exact holds
  obtain ⟨start, stop, children, matched, rfl⟩ := calls.tree _ (.augmented op)
    (row [.leaf .op [op.token], .alt (.part .right .yieldExpr) (.part .right .testList)])
    (by cases op <;> decide) assigns h
  have whole : (Ebnf.augmentedOperation op).Matches (Derives ebnf) s.flow
      [(.left, .node (.augmented op) start stop ([(.left, tree)] ++ children))] :=
    .tree _ _ (.cons (.part derived) matched)
  refine ⟨_, Matches.of_choice (List.mem_append_left _ (List.mem_map_of_mem ?_)) whole, rfl⟩
  cases op <;> decide

/-- The annotation of a target, and a value for it. -/
theorem follows_annotation (calls : CallsSound C) {tree : Tree} {s s' : Session σ}
    {frame' : Frame} (derived : Derives ebnf s.flow .testListStarExpr tree)
    (annotates : (KindSet.ofList [.symbol .colon]).mem s.current.kind = true)
    (h : Follows C (steps [
      when (.collected (.latestIs [.testList])) (object .annotatedTuple),
      .shift .colon,
      .call .test .annotated,
      when (.onSymbol .assign) (steps [.shift .assign, .call .assignmentValue .value]),
      .reduce .annAssign]) [(.left, tree)] s frame' s') :
    ∃ piece, (Phrase.tree .left .annAssign (row [
        .part .left .starOrTest,
        sign .colon .colon,
        .part .annotated .test,
        opt (row [sign .assign .assign, .part .value .assignmentValue])])).Matches (Derives ebnf)
          s.flow [piece] ∧ frame' = [piece] := by
  obtain ⟨_, t, ⟨-, refused⟩ | ⟨fails, rfl, rfl⟩, rest⟩ := h
  · exact refused.elim
  · have single : tree.kind? ≠ some .testList := by
      intro several
      rw [← Frame.isOneOf_singleton] at several
      simp [answers, Frame.satisfies, Frame.latest?, several] at fails
    obtain ⟨start, stop, children, matched, rfl⟩ := calls.tree _ .annAssign
      (row [
        sign .colon .colon,
        .part .annotated .test,
        opt (row [sign .assign .assign, .part .value .assignmentValue])])
      (by decide) annotates rest
    exact ⟨_, .tree _ _ (.cons (.part (derives_of_list rfl derived single)) matched), rfl⟩

/-- Targets with the signs after them, the last value, and a type comment if there is one. -/
theorem follows_assignment (calls : CallsSound C) {tree : Tree} {s s' : Session σ}
    {frame' : Frame} (derived : Derives ebnf s.flow .testListStarExpr tree)
    (assigns : (KindSet.ofList [.symbol .assign]).mem s.current.kind = true)
    (h : Follows C (steps [
      Grammar.assignLatest,
      .loop (.onSymbol .assign) Grammar.assignLatest,
      accept .typeComment .typeComment,
      .reduce .assignment]) [(.left, tree)] s frame' s') :
    ∃ piece, (Phrase.tree .left .assignment (row [
        Ebnf.assignTarget .testListStarExpr,
        .many (Ebnf.assignTarget .assignmentValue),
        .part .value .assignmentValue,
        opt (.leaf .typeComment [.typeComment])])).Matches (Derives ebnf) s.flow [piece] ∧
      frame' = [piece] := by
  obtain ⟨_, t, one, _, u, two, _, v, three, _, w, ⟨rfl, rfl⟩, rfl, rfl⟩ := h
  obtain ⟨target, value, first, valued, rfl⟩ := follows_assignLatest calls derived assigns one
  rw [← calls.flow_eq one] at valued
  obtain ⟨targets, last, more, valued, rfl⟩ := loops_assignLatest calls valued two
  obtain ⟨comment, noted, rfl⟩ := sound_of_sounds
    (p := opt (.leaf .typeComment [.typeComment])) calls (by decide) _ _ _ _
    (KindSet.mem_full _) three
  rw [calls.flow_eq two, calls.flow_eq one] at noted
  rw [calls.flow_eq one] at more valued
  have children : (comment.reverse ++ (Field.value, last) :: (targets.reverse ++ [target])).reverse =
      target :: (targets ++ ((.value, last) :: (comment ++ []))) := by simp
  refine ⟨(.left, .node .assignment _ _ _), ?_, rfl⟩
  rw [children]
  exact .tree _ _ (.cons first (.seq more (.cons (.part valued) (.seq noted .nil))))

theorem soundWhole_exprStatement (calls : CallsSound C) :
    SoundWhole C Grammar.exprStatement .full (ebnf .exprStatement) := by
  rintro s frame' s' mem ⟨_, t, one, _, u, two, rfl, rfl⟩
  obtain ⟨tree, derived, -, rfl⟩ := calls.call (p := .part .left .testListStarExpr)
    (by decide) mem one
  rw [← calls.flow_eq one] at derived ⊢
  rcases follows_choose_append two with ⟨way, mem, holds, followed⟩ | ⟨holds, two⟩ |
    ⟨-, ⟨holds, two⟩ | ⟨-, _, v, ⟨rfl, rfl⟩, rest⟩⟩
  · obtain ⟨op, -, rfl⟩ := List.mem_map.1 mem
    exact follows_augmented calls derived holds followed
  · obtain ⟨piece, matched, rfl⟩ := follows_annotation calls derived
      (by simpa [answers, Test.onSymbol] using holds) two
    exact ⟨piece, .of_choice (List.mem_append_right _ List.mem_cons_self) matched, rfl⟩
  · obtain ⟨piece, matched, rfl⟩ := follows_assignment calls derived
      (by simpa [answers, Test.onSymbol] using holds) two
    exact ⟨piece, .of_choice (List.mem_append_right _ (List.mem_cons_of_mem _
      List.mem_cons_self)) matched, rfl⟩
  · obtain ⟨start, stop, children, matched, rfl⟩ := calls.tree .full .exprStatement .nil
      (by decide) (KindSet.mem_full _) rest
    obtain rfl := Matches.nil_iff.1 matched
    exact ⟨_, .of_otherwise (.tree _ _ (.cons (.part derived) .nil)), rfl⟩

/-- The first expression gets its place only behind it: computation alone does not see that. -/
example : Grammar.exprStatement.soundsWhole .full (ebnf .exprStatement) = false := by
  decide

/-! ### Compound statements -/

/-- An `else` clause is read only after handlers. -/
theorem follows_elseAfterHandlers (calls : CallsSound C) {body : Tree} {handlers : List Child}
    {before frame' : Frame} {s s' : Session σ}
    (h : Follows C (when (.collected (.latestAt .handlers)) Grammar.acceptElse)
      (handlers.reverse ++ (.body, body) :: before) s frame' s') :
    ∃ children, Ebnf.acceptElse.Matches (Derives ebnf) s.flow children ∧
      (handlers = [] → children = []) ∧
      frame' = children.reverse ++ (handlers.reverse ++ (.body, body) :: before) := by
  rcases h with ⟨holds, one⟩ | ⟨-, rfl, -⟩
  · obtain ⟨children, matched, rfl⟩ := sound_of_sounds (p := Ebnf.acceptElse) calls
      (by decide) _ _ _ _ (KindSet.mem_full _) one
    refine ⟨children, matched, ?_, rfl⟩
    rintro rfl
    simp [answers, Frame.satisfies] at holds
  · exact ⟨[], .right .nil, fun _ => rfl, rfl⟩

theorem soundWhole_tryStatement (calls : CallsSound C) :
    SoundWhole C Grammar.tryStatement (Nonterminal.entry .tryStatement) (ebnf .tryStatement) := by
  rintro s frame' s' mem ⟨_, t, one, _, u, ⟨_, u₀, two, _, u₁, three, rfl, rfl⟩, _, v, four,
    _, w, five, _, x, six, _, y, seven, _, z, ⟨rfl, rfl⟩, rfl, rfl⟩
  obtain ⟨word, tried, rfl⟩ := sound_of_sounds (p := keyword .tryToken .tryKw) calls
    (by decide) _ _ _ _ mem one
  obtain ⟨colon, signed, rfl⟩ := sound_of_sounds (p := sign .colon .colon) calls
    (by decide) _ _ _ _ (KindSet.mem_full _) two
  obtain ⟨body, bodied, -, rfl⟩ := calls.call (p := .part .body .suite)
    (by decide) (KindSet.mem_full _) three
  obtain ⟨handlers, handled, rfl⟩ := calls.many rfl
    (sound_of_sounds (p := .part .handlers .exceptClause) calls (by decide)) four
  obtain ⟨other, elsed, only, rfl⟩ := follows_elseAfterHandlers calls five
  obtain ⟨final, finished, rfl⟩ := sound_of_sounds
    (p := opt (.part .finallyClause .finallyClause)) calls (by decide) _ _ _ _
    (KindSet.mem_full _) six
  rw [calls.flow_eq five, calls.flow_eq four, calls.flow_eq three, calls.flow_eq two,
    calls.flow_eq one] at finished
  rw [calls.flow_eq four, calls.flow_eq three, calls.flow_eq two, calls.flow_eq one] at elsed
  rw [calls.flow_eq three, calls.flow_eq two, calls.flow_eq one] at handled
  rw [calls.flow_eq two, calls.flow_eq one] at bodied
  rw [calls.flow_eq one] at signed
  have suite : Ebnf.colonSuite.Matches (Derives ebnf) s.flow (colon ++ [(.body, body)]) :=
    .seq signed (.cons (.part bodied) .nil)
  rcases seven with ⟨-, refused⟩ | ⟨ended, rfl, rfl⟩
  · exact refused.elim
  have children : (final.reverse ++ (other.reverse ++ (handlers.reverse ++ (Field.body, body) ::
      (colon.reverse ++ (word.reverse ++ []))))).reverse =
      word ++ ((colon ++ [(.body, body)]) ++ ((handlers ++ (other ++ (final ++ []))) ++ [])) := by
    simp
  refine ⟨(.left, .node .tryStatement _ _ _), ?_, rfl⟩
  rw [children]
  refine .tree _ _ (.seq tried (.seq suite (.seq ?_ .nil)))
  rcases Matches.many_iff.1 handled with rfl | ⟨first, more, single, several, rfl⟩
  · -- Without handlers there is a `finally` clause.
    obtain rfl := only rfl
    rcases Matches.alt_iff.1 finished with finished | none
    · simpa using Matches.right finished
    · obtain rfl := Matches.nil_iff.1 none
      simp [answers, Frame.satisfies] at ended
  · exact .left (.seq (.atLeastOne single several) (.seq elsed (.seq finished .nil)))

theorem soundWhole_withStatement (calls : CallsSound C) :
    SoundWhole C Grammar.withStatement (Nonterminal.entry .withStatement)
      (ebnf .withStatement) := by
  rintro s frame' s' mem ⟨_, t, one, _, u, two, _, v, three, _, w, four, _, x, ⟨rfl, rfl⟩, rfl,
    rfl⟩
  obtain ⟨word, withed, rfl⟩ := sound_of_sounds (p := keyword .withToken .withKw) calls
    (by decide) _ _ _ _ mem one
  obtain ⟨items, matched, rfl, rfl⟩ := follows_closed calls (by decide) two three
  obtain ⟨rest, bodied, rfl⟩ := sound_of_sounds
    (p := Ebnf.colonCommentSuite (.part .body .suite)) calls (by decide) _ _ _ _
    (KindSet.mem_full _) four
  rw [calls.flow_eq two, calls.flow_eq one] at bodied
  rw [calls.flow_eq one] at matched
  have children : (rest.reverse ++ (items.reverse ++ (word.reverse ++ []))).reverse =
      word ++ (items ++ (rest ++ [])) := by simp
  refine ⟨(.left, .node .withStatement _ _ _), ?_, rfl⟩
  rw [children]
  exact .tree _ _ (.seq withed (.seq matched (.seq bodied .nil)))

/-- That something follows the suite is asked at the end: computation alone does not see that. -/
example : Grammar.tryStatement.soundsWhole (Nonterminal.entry .tryStatement)
    (ebnf .tryStatement) = false := by decide

/-- A function, a class, or a statement with `async`. -/
theorem follows_decorable (calls : CallsSound C) {before frame' : Frame} {s s' : Session σ}
    (h : Follows C (choose [
      (.onKeyword .defKw, .call .functionDef .definition),
      (.onKeyword .classKw, .call .classDef .definition),
      (.onKeyword .asyncKw, .call .asyncStatement .definition)]
      (object (.expected "'def' or 'class' after decorator"))) before s frame' s') :
    ∃ tree, (Derives ebnf s.flow .functionDef tree ∨ Derives ebnf s.flow .classDef tree ∨
        Derives ebnf s.flow .asyncStatement tree) ∧ frame' = (.definition, tree) :: before := by
  obtain ⟨children, matched, rfl⟩ := sound_of_sounds
    (p := choice [.part .definition .functionDef, .part .definition .classDef]
      (.part .definition .asyncStatement)) calls (by decide) _ _ _ _ (KindSet.mem_full _) h
  rcases Matches.alt_iff.1 matched with matched | matched
  · obtain ⟨tree, derived, rfl⟩ := Matches.part_iff.1 matched
    exact ⟨tree, Or.inl derived, rfl⟩
  rcases Matches.alt_iff.1 matched with matched | matched
  · obtain ⟨tree, derived, rfl⟩ := Matches.part_iff.1 matched
    exact ⟨tree, Or.inr (Or.inl derived), rfl⟩
  · obtain ⟨tree, derived, rfl⟩ := Matches.part_iff.1 matched
    exact ⟨tree, Or.inr (Or.inr derived), rfl⟩

/-- A statement with `async` that holds a function. -/
theorem matches_of_asyncFunction {flow : Flow} {tree : Tree}
    (derived : Derives ebnf flow .asyncStatement tree)
    (holds : (tree.children.any fun child => Frame.isOneOf [.functionDef] child.2) = true) :
    (Phrase.tree .definition .asyncStatement
      (row [keyword .asyncToken .asyncKw, .part .statement .functionDef])).Matches (Derives ebnf)
        flow [(.definition, tree)] := by
  obtain ⟨start, stop, children, matched, rfl⟩ := derived.node rfl
  obtain ⟨front, back, word, following, rfl⟩ := Matches.seq_iff.1 matched
  rcases Matches.alt_iff.1 (Matches.last_iff.1 following) with isDef | other
  · exact .tree _ _ (.seq word (Matches.last_iff.2 isDef))
  -- The roots of the others are of other kinds.
  exfalso
  obtain ⟨token, -, rfl⟩ := Matches.leaf_iff.1 word
  rcases Matches.alt_iff.1 other with isWith | other
  · obtain ⟨_, statement, rfl⟩ := Matches.part_iff.1 isWith
    obtain ⟨_, _, _, -, rfl⟩ := statement.node rfl
    cases holds
  rcases Matches.alt_iff.1 other with isFor | none
  · obtain ⟨_, statement, rfl⟩ := Matches.part_iff.1 isFor
    obtain ⟨_, _, _, -, rfl⟩ := statement.node rfl
    cases holds
  · exact Matches.never_iff none

/-- Only functions can be decorated among the statements with `async`. -/
theorem soundWhole_decorated (calls : CallsSound C) :
    SoundWhole C Grammar.decorated (Nonterminal.entry .decorated) (ebnf .decorated) := by
  rintro s frame' s' mem ⟨_, t, one, _, u, two, _, v, three, _, w, ⟨rfl, rfl⟩, rfl, rfl⟩
  obtain ⟨decorators, derived, -, rfl⟩ := calls.call (p := .part .decorators .decorators)
    (by decide) mem one
  rw [← calls.flow_eq one] at derived ⊢
  obtain ⟨tree, defined, rfl⟩ := follows_decorable calls two
  rcases three with ⟨-, refused⟩ | ⟨decorable, rfl, rfl⟩
  · exact refused.elim
  refine ⟨_, .tree _ _ (.cons (.part derived) (Matches.last_iff.2 ?_)), rfl⟩
  rcases defined with derived | derived | derived
  · exact .left (.part derived)
  · exact .right (.left (.part derived))
  · refine .right (.right (matches_of_asyncFunction derived ?_))
    obtain ⟨start, stop, children, -, rfl⟩ := derived.node rfl
    simpa [answers, Frame.satisfies, Frame.latest?, Frame.isOneOf, Tree.kind?] using decorable

theorem soundWhole_asPattern (calls : CallsSound C) :
    SoundWhole C Grammar.asPattern .full (ebnf .asPattern) := by
  rintro s frame' s' mem ⟨_, t, one, _, u, two, rfl, rfl⟩
  obtain ⟨front, pattern, rfl⟩ := sound_of_sounds
    (p := .alt (.part .pattern .starExpr) (.part .pattern .expr)) calls (by decide) _ _ _ _
    mem one
  obtain ⟨tree, rfl⟩ : ∃ tree, front = [(.pattern, tree)] := by
    rcases Matches.alt_iff.1 pattern with pattern | pattern
    · obtain ⟨tree, -, rfl⟩ := Matches.part_iff.1 pattern
      exact ⟨tree, rfl⟩
    · obtain ⟨tree, -, rfl⟩ := Matches.part_iff.1 pattern
      exact ⟨tree, rfl⟩
  rw [← calls.flow_eq one] at pattern ⊢
  rcases two with ⟨holds, two⟩ | ⟨-, rfl, -⟩
  · obtain ⟨start, stop, children, matched, rfl⟩ := calls.tree (.ofList [.keyword .asKw]) .asPattern
      (row [keyword .asToken .asKw, name .name]) (by decide)
      (by simpa [answers, Test.onKeyword] using holds) two
    exact ⟨_, .right (.tree _ _ (.cons pattern matched)), rfl⟩
  · exact ⟨_, .left pattern, rfl⟩

/-! ### The word `match` -/

/-- A name `match` begins a statement of its own only if a block follows. -/
theorem soundWhole_statement (calls : CallsSound C) :
    SoundWhole C Grammar.statement .full (ebnf .statement) := by
  -- Nine statements are told apart by their first word or sign.
  iterate 9 refine .branch rfl (soundWhole_of_soundsWhole calls (by decide)) ?_
  rintro s frame' s' mem (⟨holds, one⟩ | ⟨-, two⟩)
  · obtain ⟨pieces, called, rfl⟩ := one
    have isMatch : s.current.spells "match" = true := by
      simp only [answers, Grammar.startsMatch, Bool.and_eq_true] at holds
      exact holds.1
    have enters : Nonterminal.enters .matchStatement s.current = true := by
      have isName : s.current.kind = .name := by
        simp only [Token.spells, Bool.and_eq_true, decide_eq_true_eq] at isMatch
        exact isMatch.1
      rw [Nonterminal.enters, isName, isMatch]
      decide
    obtain ⟨_, tree, rfl, derived⟩ := calls.derived _ _ _ _ called enters
    exact ⟨_, .of_choice (p := .part .left .matchStatement) (by simp) (.part derived), rfl⟩
  · exact soundWhole_of_soundsWhole calls (by decide) _ _ _ mem two

/-- The rule of `match` statements is called at a name `match`. -/
theorem derived_matchStatement (calls : CallsSound C) {s s' : Session σ} {pieces : Frame}
    (h : Follows C Grammar.matchStatement [] s pieces s') :
    Derived .matchStatement s pieces := by
  intro enters
  simp only [Nonterminal.enters, Bool.and_eq_true, bne_self_eq_false, Bool.false_or] at enters
  obtain ⟨_, t, ⟨token, taken, rfl⟩, rest⟩ := h
  have word : token.spells "match" = true := by
    rw [← taken.1]
    exact enters.2
  obtain ⟨start, stop, children, matched, rfl⟩ := calls.tree .full .matchStatement
    (row [
      .part .subject .namedExprList,
      sign .colon .colon,
      .leaf .newline [.newline],
      .leaf .indent [.indent],
      row [.part .cases .caseBlock, .many (.part .cases .caseBlock)],
      .leaf .dedent [.dedent]]) (by decide) (KindSet.mem_full _) rest
  rw [taken.2.2.2] at matched
  exact ⟨.left, _, rfl, .of_matches .left (.tree _ _ (.cons (.word word) matched))⟩

/-- The kind of the token does not tell a `match` statement: computation alone does not see it. -/
example : Grammar.matchStatement.soundsWhole (Nonterminal.entry .matchStatement)
    (ebnf .matchStatement) = false := by decide

end Session

end PythonSyntax
