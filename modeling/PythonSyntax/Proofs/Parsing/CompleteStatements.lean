/-
**Statements that are read in full.**

Whether a name `match` begins a statement with a block is a question about its whole line.  It is
taken here as known that the cursor answers it rightly; for a list of tokens that is proved
elsewhere.

Main definitions:

* `PythonSyntax.Foresight` — the cursor tells lines that begin with the word `match` apart;
* `PythonSyntax.Foreseen` — it does so for the line of a given statement.

Main results:

* `PythonSyntax.Session.completesWhole_exprStatement` — expressions and assignments;
* `PythonSyntax.Session.completesWhole_importName`,
  `PythonSyntax.Session.completesWhole_importFrom` — imports;
* `PythonSyntax.Session.completesWhole_tryStatement`,
  `PythonSyntax.Session.completesWhole_withStatement`,
  `PythonSyntax.Session.completesWhole_decorated` — compound statements;
* `PythonSyntax.Session.follows_statement` — statements of any sort;
* `PythonSyntax.Session.readable_of_matches`, `PythonSyntax.Session.readable_of_derives` — **all that
  is derived is readable**.
-/

import PythonSyntax.Proofs.Parsing.CompleteArguments

set_option autoImplicit false

namespace PythonSyntax

/-- The cursor tells lines that begin with the word `match` apart: those of a `match` statement open
a block, and those of a simple statement do not. -/
structure Foresight (σ : Type) [Cursor σ] : Prop where
  opens : ∀ flow tree (c c' : σ), Derives ebnf flow .matchStatement tree → Path c tree.tokens c' →
    Cursor.opensBlock c = true
  stays : ∀ flow tree (c c' : σ), Derives ebnf flow .simpleStatement tree → Path c tree.tokens c' →
    (Cursor.current c).spells "match" = true → Cursor.opensBlock c = false

/-- Wherever the tokens of the statement stand, the cursor tells what its line is if it begins with
the word `match`. -/
def Foreseen (σ : Type) [Cursor σ] (tree : Tree) : Prop :=
  ∀ c c' : σ, Path c tree.tokens c' →
    (tree.kind? = some .matchStatement → Cursor.opensBlock c = true) ∧
      (tree.kind? = some .simpleStatement → (Cursor.current c).spells "match" = true →
        Cursor.opensBlock c = false)

/-- The trees of the name are no lists of elements. -/
def Nonterminal.unlisted : Nonterminal → Bool
  | namedExprList | exprList | testList | testListStarExpr | patterns | subscriptList
  | displayItems | curlyItems | assignmentValue => false
  | _ => true

theorem Nonterminal.unlisted_ebnf (name : Nonterminal) (isUnlisted : name.unlisted = true) :
    (ebnf name).rootsPass unlisted (fun kind _ => kind != .testList) = true :=
  rootsPass_of_all (by decide) name isUnlisted

/-- What is derived from a name without lists is no list. -/
theorem Derives.kind_ne_testList {flow : Flow} {name : Nonterminal} {tree : Tree}
    (h : Derives ebnf flow name tree) (unlisted : name.unlisted = true) :
    tree.kind? ≠ some .testList := by
  obtain ⟨kind, _, _, _, _, other, -, rfl⟩ := h.root_passes Nonterminal.unlisted_ebnf unlisted
  simpa [Tree.kind?] using other

namespace Session

open Phrase Rule

variable {σ : Type} [Cursor σ] {C : Nonterminal → Session σ → Frame → Session σ → Prop}
  {s : Session σ} {c : σ} {after : KindSet} {children : List Child}

/-! ### Ways to go -/

/-- The way whose test alone holds is taken. -/
theorem follows_choose_of_mem {front more : List (Test × Rule)} {otherwise : Rule}
    {frame frame' : Frame} {s' : Session σ} {way : Test × Rule} (mem : way ∈ front)
    (holds : s.answers frame way.1 = true)
    (others : ∀ other ∈ front, other ≠ way → s.answers frame other.1 = false)
    (h : Follows C way.2 frame s frame' s') :
    Follows C (choose (front ++ more) otherwise) frame s frame' s' := by
  induction front with
  | nil => cases mem
  | cons first rest ih =>
      by_cases same : first = way
      · subst same
        exact Or.inl ⟨holds, h⟩
      · refine Or.inr ⟨others _ List.mem_cons_self same, ih ?_ ?_⟩
        · exact (List.mem_cons.1 mem).resolve_left (Ne.symm same)
        · exact fun other mem => others other (List.mem_cons_of_mem _ mem)

/-- Where no test of the first ways holds, one of the others is taken. -/
theorem follows_choose_of_none {front more : List (Test × Rule)} {otherwise : Rule}
    {frame frame' : Frame} {s' : Session σ}
    (none : ∀ other ∈ front, s.answers frame other.1 = false)
    (h : Follows C (choose more otherwise) frame s frame' s') :
    Follows C (choose (front ++ more) otherwise) frame s frame' s' := by
  induction front with
  | nil => exact h
  | cons first rest ih =>
      exact Or.inr ⟨none _ List.mem_cons_self,
        ih fun other mem => none other (List.mem_cons_of_mem _ mem)⟩

/-! ### Expressions and assignments -/

/-- A list that is only an element is read as a list. -/
theorem readable_of_element (closed : Closed C) {flow : Flow} {tree : Tree}
    (readable : Readable C flow .starOrTest tree) : Readable C flow .testListStarExpr tree :=
  readable_of_completesWhole closed rfl
    (completesWhole_listOf (by decide)) nofun (.left (.part readable))

/-- **Targets and the value after them are read**, each but the last as a value that becomes a
target. -/
theorem exists_assignments {targets : List Child} {value : Tree}
    (matched :
      (Phrase.many (Ebnf.assignTarget .assignmentValue)).Matches (Readable C) s.flow targets)
    (valued : Readable C s.flow .assignmentValue value) {middle : σ}
    (path : Path s.cursor (Tree.tokensOf targets) middle) (path' : Path middle value.tokens c)
    (next :
      (KindSet.ofList (.typeComment :: Nonterminal.lineEnds)).mem (Cursor.current c).kind = true)
    (frame : Frame) :
    ∃ first t added read u, Follows C (.call .assignmentValue .value) frame s
        ((.value, first) :: frame) t ∧
      Loops (fun frame s => s.answers frame (.onSymbol .assign)) (Follows C Grammar.assignLatest)
        ((.value, first) :: frame) t ((.value, read) :: (added.reverse ++ frame)) u ∧
      Tree.bareOf added = Tree.bareOf targets ∧ read.bare = value.bare ∧ s.Arrives c u := by
  generalize eq : Phrase.many (Ebnf.assignTarget .assignmentValue) = phrase at matched
  generalize flows : s.flow = flow at matched valued
  induction matched generalizing s frame with
  | stop =>
      subst flows
      obtain rfl := Path.nil_iff.1 path
      obtain ⟨field, read, t, called, bare, arrived⟩ :=
        valued.read s c rfl path' (KindSet.mem_of_subset (by decide) next)
      refine ⟨read, t, [], read, t, ⟨_, called, rfl⟩, .stop ?_, rfl, bare, arrived⟩
      refine answers_of_disjoint (.ofList (.typeComment :: Nonterminal.lineEnds)) rfl _
        (by decide) ?_
      rw [current, arrived.cursor]
      exact next
  | @more flow p front back one rest _ ih =>
      cases eq
      subst flows
      obtain ⟨start, stop, inner, made, rfl⟩ := Matches.tree_iff.1 one
      rw [Tree.tokensOf_append] at path
      obtain ⟨here, before, behind⟩ := Path.append_iff.1 path
      obtain ⟨tree, others, read, t, rfl, -, called, bare, arrived, signed, behind'⟩ :=
        exists_call made (by simpa using before) (by decide) (KindSet.mem_full _)
      obtain ⟨op, others, u, rfl, taken, arrived', done, behind''⟩ := exists_shift signed behind'
      obtain rfl := Matches.nil_iff.1 done
      obtain rfl := Path.nil_iff.1 behind''
      have assigns : t.answers ((.value, read) :: frame) (.onSymbol .assign) = true :=
        (answers_of_starts _ rfl _ signed behind' (KindSet.mem_full _)).1 (by decide)
      have same : u.flow = s.flow := (arrived.trans arrived').flow
      obtain ⟨first, v, added, last, w, followed, looped, bare', bare'', arrived''⟩ :=
        ih (s := u) behind ((.targets, Frame.build [(.op, .leaf op), (.target, read)] .assignTarget
          u.position u.lastStop) :: frame) rfl same valued
      refine ⟨read, t, (.targets, Frame.build [(.op, .leaf op), (.target, read)] .assignTarget
        u.position u.lastStop) :: added, last, w, called _ _, .round assigns
          ⟨_, t, ⟨rfl, rfl⟩, _, u, ⟨op, taken, rfl⟩, _, u, ⟨rfl, rfl⟩, _, v, followed, rfl, rfl⟩ ?_,
        ?_, bare'', (arrived.trans arrived').trans arrived''⟩
      · simpa using looped
      · simp [Frame.build, bare, bare']
  | _ => cases eq

/-- An operator that assigns is told by its token. -/
theorem answers_augmented {op : AugmentedOperator} (frame : Frame)
    (mem : (KindSet.ofList [op.token]).mem s.current.kind = true) :
    ∀ other ∈ AugmentedOperator.all.map Grammar.augmentedOperation,
      other ≠ Grammar.augmentedOperation op → s.answers frame other.1 = false := by
  intro other found ne
  obtain ⟨op', -, rfl⟩ := List.mem_map.1 found
  have ne : op' ≠ op := fun same => ne (by rw [same])
  refine (answers_of_kinds? rfl).trans (KindSet.not_mem_of_disjoint ?_ mem)
  revert ne
  cases op <;> cases op' <;> decide

/-- Where the current token is no such operator, none of them is told. -/
theorem answers_unaugmented {kinds : KindSet} (frame : Frame)
    (mem : kinds.mem s.current.kind = true)
    (disjoint :
      kinds.disjoint (.ofList (AugmentedOperator.all.map AugmentedOperator.token)) = true) :
    ∀ other ∈ AugmentedOperator.all.map Grammar.augmentedOperation,
      s.answers frame other.1 = false := by
  intro other found
  obtain ⟨op, -, rfl⟩ := List.mem_map.1 found
  refine (answers_of_kinds? rfl).trans (Bool.eq_false_iff.2 fun assigns => ?_)
  have subset : (KindSet.ofList [op.token]).subset
      (.ofList (AugmentedOperator.all.map AugmentedOperator.token)) = true := by
    cases op <;> decide
  have never := KindSet.not_mem_of_disjoint disjoint mem
  rw [KindSet.mem_of_subset subset assigns] at never
  cases never

/-- An annotated target, and perhaps a value. -/
def annotatedTarget : Phrase :=
  tree .left .annAssign (row [
    .part .left .starOrTest,
    sign .colon .colon,
    .part .annotated .test,
    opt (row [sign .assign .assign, .part .value .assignmentValue])])

/-- Targets and a value. -/
def assignment : Phrase :=
  tree .left .assignment (row [
    Ebnf.assignTarget .testListStarExpr,
    .many (Ebnf.assignTarget .assignmentValue),
    .part .value .assignmentValue,
    opt (.leaf .typeComment [.typeComment])])

variable {piece : Child}

/-- An operator that assigns is read between its operands. -/
theorem exists_augmented {op : AugmentedOperator} (found : op ∈ AugmentedOperator.all)
    (matched : (Ebnf.augmentedOperation op).Matches (Readable C) s.flow [piece])
    (path : Path s.cursor piece.2.tokens c)
    (next : (Nonterminal.follow .exprStatement).mem (Cursor.current c).kind = true) :
    ∃ field read t, Follows C Grammar.exprStatement [] s [(field, read)] t ∧
      read.bare = piece.2.bare ∧ s.Arrives c t := by
  obtain ⟨start, stop, children, inner, eq⟩ := Matches.tree_iff.1 matched
  cases eq
  obtain ⟨tree, others, read, t, rfl, -, called, bare, arrived, rest, behind⟩ :=
    exists_call inner path (by cases op <;> decide) next
  have mem : (KindSet.ofList [op.token]).mem t.current.kind = true :=
    Readable.starts rest behind next
  obtain ⟨start', stop', added, u, bare', followed, arrived'⟩ := completes_tree
    (Grammar.augmentedOperation op).2 (.augmented op) (by cases op <;> decide)
    [(.left, read)] rest behind next
  exact ⟨_, _, u, ⟨_, t, called _ _, _, u, follows_choose_of_mem (List.mem_map_of_mem found)
    ((answers_of_kinds? rfl).trans mem) (answers_augmented _ mem) followed, rfl, rfl⟩,
    by simp [bare, bare'], arrived.trans arrived'⟩

/-- An annotated target is read. -/
theorem exists_annotated (closed : Closed C)
    (matched : annotatedTarget.Matches (Readable C) s.flow [piece])
    (path : Path s.cursor piece.2.tokens c)
    (next : (Nonterminal.follow .exprStatement).mem (Cursor.current c).kind = true) :
    ∃ field read t, Follows C Grammar.exprStatement [] s [(field, read)] t ∧
      read.bare = piece.2.bare ∧ s.Arrives c t := by
  obtain ⟨start, stop, children, inner, eq⟩ := Matches.tree_iff.1 matched
  cases eq
  obtain ⟨front, back, first, more, rfl⟩ := Matches.seq_iff.1 inner
  obtain ⟨target, readable, rfl⟩ := Matches.part_iff.1 first
  have whole : (seq (.part .left .testListStarExpr) (row [
      sign .colon .colon,
      .part .annotated .test,
      opt (row [sign .assign .assign, .part .value .assignmentValue])])).Matches
      (Readable C) s.flow _ := .seq (.part (readable_of_element closed readable)) more
  obtain ⟨tree, others, read, t, eq, -, called, bare, arrived, rest, behind⟩ :=
    exists_call whole path (by decide) next
  cases eq
  have mem : (KindSet.ofList [.symbol .colon]).mem t.current.kind = true :=
    Readable.starts rest behind next
  have single : Follows C (Grammar.refuseElement .testList .annotatedTuple) [(.left, read)] t
      [(.left, read)] t := follows_unrefused bare (readable.derived.kind_ne_testList rfl) t
  obtain ⟨start', stop', added, u, bare', followed, arrived'⟩ := completes_tree
    (steps [
      .shift .colon,
      .call .test .annotated,
      when (.onSymbol .assign) (steps [.shift .assign, .call .assignmentValue .value]),
      .reduce .annAssign]) .annAssign (by decide) [(.left, read)] rest behind next
  exact ⟨_, _, u, ⟨_, t, called _ _, _, u,
    follows_choose_of_none (answers_unaugmented _ mem (by decide))
      (Or.inl ⟨(answers_of_kinds? rfl).trans mem, _, t, single, followed⟩),
    rfl, rfl⟩, by simp [bare, bare'], arrived.trans arrived'⟩

/-- An assignment is read. -/
theorem exists_assignment (matched : assignment.Matches (Readable C) s.flow [piece])
    (path : Path s.cursor piece.2.tokens c)
    (next : (Nonterminal.follow .exprStatement).mem (Cursor.current c).kind = true) :
    ∃ field read t, Follows C Grammar.exprStatement [] s [(field, read)] t ∧
      read.bare = piece.2.bare ∧ s.Arrives c t := by
  obtain ⟨start, stop, children, inner, eq⟩ := Matches.tree_iff.1 matched
  cases eq
  obtain ⟨first, _, target, rest, rfl⟩ := Matches.seq_iff.1 inner
  obtain ⟨targets, _, many, rest', rfl⟩ := Matches.seq_iff.1 rest
  obtain ⟨value, comment, valued, commented, rfl⟩ := Matches.seq_iff.1 rest'
  obtain ⟨tree, readable, rfl⟩ := Matches.part_iff.1 valued
  obtain ⟨start', stop', parts, made, rfl⟩ := Matches.tree_iff.1 target
  have tokens : Tree.tokensOf ([(.targets, Tree.node .assignTarget start' stop' parts)] ++
      (targets ++ ([(.value, tree)] ++ comment))) = Tree.tokensOf parts ++
        (Tree.tokensOf targets ++ (tree.tokens ++ Tree.tokensOf comment)) := by
    simp [Tree.tokensOf_append]
  rw [Tree.tokens_node, tokens] at path
  obtain ⟨_, before, path⟩ := Path.append_iff.1 path
  obtain ⟨_, others, path⟩ := Path.append_iff.1 path
  obtain ⟨_, last, ended⟩ := Path.append_iff.1 path
  obtain ⟨_, back, read, t, rfl, -, called, bare, arrived, rest, behind⟩ :=
    exists_call made before (by decide) (KindSet.mem_full _)
  have mem : (KindSet.ofList [.symbol .assign]).mem t.current.kind = true :=
    Readable.starts rest behind (KindSet.mem_full _)
  obtain ⟨op, back, u, rfl, taken, arrived', done, behind⟩ := exists_shift rest behind
  obtain rfl := Matches.nil_iff.1 done
  obtain rfl := Path.nil_iff.1 behind
  have same : u.flow = s.flow := (arrived.trans arrived').flow
  have between : (KindSet.ofList (.typeComment :: Nonterminal.lineEnds)).mem _ = true :=
    KindSet.mem_of_subset (by decide)
      (commented.starts (fun _ _ _ part => part.derived.begins) ended next)
  obtain ⟨value, v, added, final, w, followed, looped, bare', bare'', arrived''⟩ :=
    exists_assignments (same ▸ many) (same ▸ readable) others last between
      [(.targets, Frame.build [(.op, .leaf op), (.target, read)] .assignTarget u.position
        u.lastStop)]
  have back : w.flow = s.flow := arrived''.flow.trans same
  obtain ⟨start'', stop'', accepted, x, bareLast, finished, arrivedLast⟩ := completes_tree
    (steps [accept .typeComment .typeComment, .reduce .assignment]) .assignment
    (by decide) _ (back ▸ commented) (arrived''.cursor ▸ ended) next
  refine ⟨_, _, x, ⟨_, t, called _ _, _, x,
    follows_choose_of_none (answers_unaugmented _ mem (by decide))
      (Or.inr ⟨?_, Or.inl ⟨(answers_of_kinds? rfl).trans mem, _, v, ⟨_, t, ⟨rfl, rfl⟩, _, u,
        ⟨op, taken, rfl⟩, _, u, ⟨rfl, rfl⟩, _, v, followed, rfl, rfl⟩, _, w, looped, finished⟩⟩),
    rfl, rfl⟩, ?_, ?_⟩
  · exact (answers_of_kinds? rfl).trans (KindSet.not_mem_of_disjoint (by decide) mem)
  · simp [Frame.build, bare, bare', bare'', bareLast]
  · exact ((arrived.trans arrived').trans arrived'').trans arrivedLast

/-- **Expressions, annotations and assignments are read.** -/
theorem completesWhole_exprStatement (closed : Closed C) :
    CompletesWhole C Grammar.exprStatement (Nonterminal.follow .exprStatement)
      (ebnf .exprStatement) := by
  intro piece s c matched path next
  rcases Matches.choice_iff.1 matched with ⟨q, mem, matched⟩ | plain
  · rcases List.mem_append.1 mem with augmented | mem
    · obtain ⟨op, found, rfl⟩ := List.mem_map.1 augmented
      exact exists_augmented found matched path next
    rcases List.mem_cons.1 mem with rfl | mem
    · exact exists_annotated closed matched path next
    · obtain rfl := List.mem_singleton.1 mem
      exact exists_assignment matched path next
  · obtain ⟨start, stop, children, inner, eq⟩ := Matches.tree_iff.1 plain
    cases eq
    obtain ⟨tree, others, read, t, rfl, -, called, bare, arrived, done, behind⟩ :=
      exists_call inner path (by decide) next
    obtain rfl := Matches.nil_iff.1 done
    obtain rfl := Path.nil_iff.1 behind
    have ends : (Nonterminal.follow .exprStatement).mem t.current.kind = true := next
    have passes : ∀ {test : Test} {set : KindSet}, test.kinds? = some set →
        (Nonterminal.follow .exprStatement).disjoint set = true →
          t.answers [(.left, read)] test = false :=
      fun eq disjoint => answers_of_disjoint _ eq _ disjoint ends
    exact ⟨_, _, t, ⟨_, t, called _ _, _, t,
      follows_choose_of_none (answers_unaugmented _ ends (by decide))
        (Or.inr ⟨passes rfl (by decide), Or.inr ⟨passes rfl (by decide), _, t,
          ⟨rfl, rfl⟩, _, t, ⟨rfl, rfl⟩, rfl, rfl⟩⟩), rfl, rfl⟩,
      by simp [Frame.build, Frame.relabel, bare], arrived⟩

/-! ### Elements without a comma at the end -/

/-- What follows the first of such elements, if anything does, ends with an element. -/
theorem further_of_closed {D : Flow → Nonterminal → Tree → Prop} {flow : Flow} {field : Field}
    {element : Nonterminal}
    (h : (Phrase.many (seq Ebnf.comma (.part field element))).Matches D flow children) :
    (Ebnf.furtherElements field element).Matches D flow children ∧
      ∀ child ∈ children.getLast?, child.1 = field := by
  generalize eq : Phrase.many (seq Ebnf.comma (.part field element)) = phrase at h
  induction h with
  | stop => exact ⟨.noFurther, nofun⟩
  | @more _ _ front back one _ _ ih =>
      cases eq
      obtain ⟨_, _, comma, part, rfl⟩ := Matches.seq_iff.1 one
      obtain ⟨token, mem, rfl⟩ := Matches.leaf_iff.1 comma
      obtain ⟨further, last⟩ := ih rfl
      refine ⟨.further mem part further, ?_⟩
      obtain ⟨tree, -, rfl⟩ := Matches.part_iff.1 part
      cases back with
      | nil =>
          rintro child ⟨⟩
          rfl
      | cons first rest =>
          intro child mem
          refine last child ?_
          simpa [List.getLast?_append, List.getLast?_cons] using mem
  | _ => cases eq

/-- The latest piece is the last that was added. -/
theorem answers_latestAt (added children : List Child)
    (bare : Tree.bareOf added = Tree.bareOf children) (some : children ≠ []) (s : Session σ)
    (frame : Frame) (field : Field) :
    s.answers (added.reverse ++ frame) (.collected (.latestAt field)) =
      children.getLast?.any fun child => child.1 = field := by
  have same : Tree.bareOf (added.reverse ++ frame) = Tree.bareOf (children.reverse ++ frame) := by
    simp [bare]
  rw [answers, Frame.satisfies_congr same, Frame.satisfies, List.head?_append, List.head?_reverse,
    List.getLast?_eq_some_getLast some]
  rfl

/-- **Elements without a comma at the end are read**, and not refused. -/
theorem exists_closed {element : Nonterminal} (field : Field) (continues : Test) (after : KindSet)
    (checked : (separated element field continues).completes after (elements field element) = true)
    (other : field ≠ .separators)
    (matched : (row [.part field element, .many (seq Ebnf.comma (.part field element))]).Matches
      (Readable C) s.flow children) (path : Path s.cursor (Tree.tokensOf children) c)
    (next : after.mem (Cursor.current c).kind = true) (frame : Frame) (complaint : Complaint) :
    ∃ added t, Tree.bareOf added = Tree.bareOf children ∧
      Follows C (separated element field continues) frame s (added.reverse ++ frame) t ∧
      Follows C (Grammar.refuseTrailingComma complaint) (added.reverse ++ frame) t
        (added.reverse ++ frame) t ∧ s.Arrives c t := by
  obtain ⟨front, back, first, more, rfl⟩ := Matches.seq_iff.1 matched
  obtain ⟨further, last⟩ := further_of_closed (Matches.last_iff.1 more)
  obtain ⟨added, t, bare, followed, arrived⟩ := completes_of_completes _ _ checked _ frame _ _
    (.seq first (Matches.last_iff.2 further)) path next
  refine ⟨added, t, bare, followed, Or.inr ⟨?_, rfl, rfl⟩, arrived⟩
  obtain ⟨tree, -, rfl⟩ := Matches.part_iff.1 first
  rw [answers_latestAt _ _ bare (List.cons_ne_nil _ _), List.getLast?_append]
  cases eq : back.getLast? with
  | none => exact decide_eq_false other
  | some child => exact decide_eq_false (last child eq ▸ other)

/-! ### Imports -/

/-- **Imports of modules are read.** -/
theorem completesWhole_importName :
    CompletesWhole C Grammar.importName (Nonterminal.follow .importName) (ebnf .importName) := by
  intro piece s c matched path next
  obtain ⟨start, stop, children, inner, eq⟩ := Matches.tree_iff.1 matched
  cases eq
  obtain ⟨token, back, t, rfl, taken, arrived, rest, behind⟩ := exists_shift inner path
  obtain ⟨added, u, bare, followed, unrefused, arrived'⟩ :=
    exists_closed .names (.on [.name]) _ (by decide) nofun
    (Matches.last_iff.1 rest) behind next [(.importToken, .leaf token)] .trailingImportComma
  exact ⟨_, _, u,
    ⟨_, t, ⟨token, taken, rfl⟩, _, u, followed, _, u, unrefused, _, u, ⟨rfl, rfl⟩, rfl,
    rfl⟩, by simp [Frame.build, bare], arrived.trans arrived'⟩

/-- All names, names in brackets, or names alone. -/
def importedNames : Phrase :=
  choice [
    sign .star .mul,
    row [
      sign .lparen .leftParen,
      row [.part .names .importAsName, Ebnf.furtherElements .names .importAsName],
      sign .rparen .rightParen]]
    (Ebnf.closedNames .importAsName)

/-- What is imported is read. -/
theorem completes_importedNames :
    Completes C (choose [
      (.onSymbol .mul, .shift .star),
      (.onSymbol .leftParen, steps [
        .shift .lparen,
        separated .importAsName .names (.on [.name]),
        expectSymbol .rightParen .rparen "')' after imported names"])]
      (steps [
        separated .importAsName .names (.on [.name]),
        Grammar.refuseTrailingComma .trailingImportComma]))
      (Nonterminal.follow .importFrom) importedNames := by
  intro children frame s c matched path next
  rcases Matches.alt_iff.1 matched with star | matched
  · obtain ⟨added, t, bare, followed, arrived⟩ := completes_of_completes (.shift .star) _
      (by decide) _ frame _ _ star path next
    have goes := (answers_of_starts (.onSymbol .mul) rfl frame star path next).1
      (by decide)
    exact ⟨added, t, bare, Or.inl ⟨goes, followed⟩, arrived⟩
  rcases Matches.alt_iff.1 matched with closed | names
  · obtain ⟨added, t, bare, followed, arrived⟩ := completes_of_completes (steps [
        .shift .lparen,
        separated .importAsName .names (.on [.name]),
        expectSymbol .rightParen .rparen "')' after imported names"]) _
      (by decide) _ frame _ _ closed path next
    have passes := (answers_of_starts (.onSymbol .mul) rfl frame closed path next).2
      (by decide)
    have goes := (answers_of_starts (.onSymbol .leftParen) rfl frame closed path next).1
      (by decide)
    exact ⟨added, t, bare, Or.inr ⟨passes, Or.inl ⟨goes, followed⟩⟩, arrived⟩
  · obtain ⟨added, t, bare, followed, unrefused, arrived⟩ :=
      exists_closed .names (.on [.name]) _ (by decide) nofun names path next
      frame .trailingImportComma
    have passes := (answers_of_starts (.onSymbol .mul) rfl frame names path next).2
      (by decide)
    have passes' := (answers_of_starts (.onSymbol .leftParen) rfl frame names path next).2
      (by decide)
    exact ⟨added, t, bare, Or.inr ⟨passes, Or.inr ⟨passes', _, t, followed, _, t, unrefused, rfl,
      rfl⟩⟩, arrived⟩

/-- Where all that is repeated is one child with a field, the last child has that field. -/
theorem last_of_atLeastOne {D : Flow → Nonterminal → Tree → Prop} {flow : Flow} {p : Phrase}
    {field : Field}
    (single :
      ∀ {children : List Child}, p.Matches D flow children → ∃ tree, children = [(field, tree)])
    (h : (Phrase.atLeastOne p).Matches D flow children) :
    ∃ front tree, children = front ++ [(field, tree)] := by
  obtain ⟨front, back, one, more, rfl⟩ := Matches.atLeastOne_iff.1 h
  obtain ⟨tree, rfl⟩ := single one
  generalize eq : Phrase.many p = phrase at more
  clear h one
  induction more generalizing tree with
  | stop => exact ⟨[], tree, rfl⟩
  | more one _ _ ih =>
      cases eq
      obtain ⟨tree', rfl⟩ := single one
      obtain ⟨front, last, eq⟩ := ih single tree' rfl
      exact ⟨(field, tree) :: front, last, by simpa using eq⟩
  | _ => cases eq

/-- Dots. -/
def dots : Phrase := .leaf .dots [.symbol .dot, .symbol .ellipsis]

/-- A module: dots and a name, or dots alone. -/
def importSource : Phrase :=
  .alt (row [.many dots, .part .moduleName .dottedName]) (.atLeastOne dots)

/-- The module from which something is imported is read. -/
theorem completes_importSource :
    Completes C (steps [
      .loop (.on [.symbol .dot, .symbol .ellipsis]) (.shift .dots),
      when (.either (.on [.name]) (.not (.collected (.latestAt .dots))))
        (.call .dottedName .moduleName)])
      (.ofList [.keyword .importKw]) importSource := by
  intro children frame s c matched path next
  rcases Matches.alt_iff.1 matched with named | dotted
  · obtain ⟨front, back, many, rest, rfl⟩ := Matches.seq_iff.1 named
    obtain ⟨middle, before, behind⟩ := Path.append_iff.1 (Tree.tokensOf_append _ _ ▸ path)
    obtain ⟨added, t, bare, followed, arrived⟩ := completes_of_completes
      (.loop (.on [.symbol .dot, .symbol .ellipsis]) (.shift .dots)) (.ofList [.name])
        (by decide) _ frame _ _ many before
      (KindSet.mem_of_subset (by decide)
        (rest.starts (fun _ _ _ part => part.derived.begins) behind next))
    obtain ⟨more, u, bare', followed', arrived'⟩ :=
      completes_of_completes (.call .dottedName .moduleName) _
      (by decide) _ (added.reverse ++ frame) t _ (arrived.flow ▸ Matches.last_iff.1 rest)
      (arrived.cursor ▸ behind) next
    have goes : t.answers (added.reverse ++ frame) (.on [.name]) = true :=
      (answers_of_starts _ rfl _ (arrived.flow ▸ rest) (arrived.cursor ▸ behind) next).1
        (by decide)
    refine ⟨added ++ more, u, by simp [bare, bare'], ⟨_, t, followed, _, u, Or.inl ⟨?_, followed'⟩,
      by simp, rfl⟩, arrived.trans arrived'⟩
    rw [answers, goes]
    rfl
  · obtain ⟨added, t, bare, followed, arrived⟩ :=
      completes_of_completes (.loop (.on [.symbol .dot, .symbol .ellipsis]) (.shift .dots)) _
      (by decide) _ frame _ _ dotted path next
    have unnamed : t.answers (added.reverse ++ frame) (.on [.name]) = false := by
      refine answers_of_disjoint (.ofList [.keyword .importKw]) rfl _ (by decide) ?_
      rw [current, arrived.cursor]
      exact next
    have single : ∀ {children : List Child}, dots.Matches (Readable C) s.flow children →
        ∃ tree, children = [(.dots, tree)] := by
      intro children h
      obtain ⟨token, -, rfl⟩ := Matches.leaf_iff.1 h
      exact ⟨_, rfl⟩
    have dots : t.answers (added.reverse ++ frame) (.collected (.latestAt .dots)) = true := by
      obtain ⟨front, last, rfl⟩ := last_of_atLeastOne single dotted
      rw [answers_latestAt _ _ bare (by simp), List.getLast?_append]
      rfl
    refine ⟨added, t, bare, ⟨_, t, followed, _, t, Or.inr ⟨?_, rfl, rfl⟩, rfl, rfl⟩, arrived⟩
    rw [answers, unnamed, answers, dots]
    rfl

/-- **Imports from modules are read.** -/
theorem completesWhole_importFrom :
    CompletesWhole C Grammar.importFrom (Nonterminal.follow .importFrom) (ebnf .importFrom) := by
  intro piece s c matched path next
  obtain ⟨start, stop, children, inner, eq⟩ := Matches.tree_iff.1 matched
  cases eq
  obtain ⟨token, _, t, rfl, taken, arrived, rest, behind⟩ := exists_shift inner path
  obtain ⟨source, _, added, u, rfl, bare, ⟨_, v, looped, _, _, named, rfl, rfl⟩, arrived', -, rest',
    behind'⟩ := exists_first _ _ completes_importSource rest behind (by decide) next
      [(.fromToken, .leaf token)]
  have word : (KindSet.ofList [.keyword .importKw]).mem u.current.kind = true :=
    Readable.starts rest' behind' next
  obtain ⟨token', names, w, rfl, taken', arrived'', rest'', behind''⟩ := exists_shift rest' behind'
  obtain ⟨more, x, bare', imported, arrivedLast⟩ :=
    completes_importedNames _ _ _ _ (Matches.last_iff.1 rest'') behind'' next
  refine ⟨_, _, x, ⟨_, t, ⟨token, taken, rfl⟩, _, v, looped, _, u, named, _, w,
    Or.inl ⟨(answers_of_kinds? rfl).trans word, token', taken', rfl⟩, _, x, imported, _, x,
    ⟨rfl, rfl⟩, rfl, rfl⟩, ?_, ((arrived.trans arrived').trans arrived'').trans arrivedLast⟩
  simp [Frame.build, bare, bare']

/-! ### Handlers and contexts -/

/-- **`with` statements are read.** -/
theorem completesWhole_withStatement :
    CompletesWhole C Grammar.withStatement (Nonterminal.follow .withStatement)
      (ebnf .withStatement) := by
  intro piece s c matched path next
  obtain ⟨start, stop, children, inner, eq⟩ := Matches.tree_iff.1 matched
  cases eq
  obtain ⟨token, _, t, rfl, taken, arrived, rest, behind⟩ := exists_shift inner path
  obtain ⟨items, body, listed, rest', rfl⟩ := Matches.seq_iff.1 rest
  obtain ⟨middle, before, behind'⟩ := Path.append_iff.1 (Tree.tokensOf_append _ _ ▸ behind)
  obtain ⟨added, u, bare, followed, unrefused, arrived'⟩ :=
    exists_closed .items Grammar.startsExpression (.ofList [.symbol .colon])
    (by decide) nofun listed before (KindSet.mem_of_subset (by decide)
      (rest'.starts (fun _ _ _ part => part.derived.begins) behind' next))
    [(.withToken, .leaf token)] .trailingItemComma
  obtain ⟨start', stop', more, v, bare', finished, arrived''⟩ := completes_tree (steps [
      Grammar.colonCommentSuite "':' after 'with' items" (.call .suite .body),
      .reduce .withStatement]) .withStatement (by decide) _ (arrived'.flow ▸ rest')
    (arrived'.cursor ▸ behind') next
  exact ⟨_, _, v, ⟨_, t, ⟨token, taken, rfl⟩, _, u, followed, _, u, unrefused, finished⟩,
    by simp [bare, bare'], (arrived.trans arrived').trans arrived''⟩

/-- A part that may be left out is one child or none. -/
theorem clause_or_nil {D : Flow → Nonterminal → Tree → Prop} {flow : Flow} {field : Field}
    {name : Nonterminal} (h : (opt (.part field name)).Matches D flow children) :
    children = [] ∨ ∃ tree, children = [(field, tree)] := by
  rcases Matches.alt_iff.1 h with part | none
  · exact Or.inr ((Matches.part_iff.1 part).imp fun _ part => part.2)
  · exact Or.inl (Matches.nil_iff.1 none)

/-- **`try` statements are read**, with handlers or without. -/
theorem completesWhole_tryStatement :
    CompletesWhole C Grammar.tryStatement (Nonterminal.follow .tryStatement)
      (ebnf .tryStatement) := by
  intro piece s c matched path next
  obtain ⟨start, stop, children, inner, eq⟩ := Matches.tree_iff.1 matched
  cases eq
  obtain ⟨token, _, t, rfl, taken, arrived, rest, behind⟩ := exists_shift inner path
  obtain ⟨body, _, added, u, rfl, bare, followed, arrived', suite, rest', behind'⟩ :=
    exists_first (Grammar.colonSuite "':' after 'try'") .full
      (completes_of_completes _ _ (by decide)) rest behind (by decide) next
      [(.tryToken, .leaf token)]
  rcases Matches.alt_iff.1 (Matches.last_iff.1 rest') with handled | final
  · obtain ⟨handlers, _, added', v, rfl, bare', looped, arrived'', several, rest'', behind''⟩ :=
      exists_first (.loop (.onKeyword .exceptKw) (.call .exceptClause .handlers))
        (Nonterminal.except [.keyword .exceptKw])
        (completes_of_completes _ _ (by decide)) handled behind' (by decide) next
        (added.reverse ++ [(.tryToken, .leaf token)])
    obtain ⟨others, ended, added'', w, rfl, bare'', accepted, arrivedElse, other, restLast,
      behindLast⟩ :=
      exists_first Grammar.acceptElse (Nonterminal.except [.keyword .elseKw])
        (completes_of_completes _ _ (by decide)) rest'' behind'' (by decide) next
        (added'.reverse ++ (added.reverse ++ [(.tryToken, .leaf token)]))
    obtain ⟨addedLast, x, bareLast, finished, arrivedLast⟩ :=
      completes_of_completes (when (.onKeyword .finallyKw) (.call .finallyClause .finallyClause)) _
      (by decide) _ (added''.reverse ++ (added'.reverse ++ (added.reverse ++
        [(.tryToken, .leaf token)]))) _ _ (Matches.last_iff.1 restLast) behindLast next
    obtain ⟨front, last, rfl⟩ := last_of_atLeastOne
      (fun h => (Matches.part_iff.1 h).imp fun _ part => part.2) several
    have handles : v.answers (added'.reverse ++ (added.reverse ++ [(.tryToken, .leaf token)]))
        (.collected (.latestAt .handlers)) = true := by
      rw [answers_latestAt _ _ bare' (by simp), List.getLast?_append]
      rfl
    have clauses := answers_latestAt (added' ++ (added'' ++ addedLast))
      (front ++ [(.handlers, last)] ++ (others ++ ended)) (by simp [bare', bare'', bareLast])
      (by simp) x (added.reverse ++ [(.tryToken, .leaf token)]) .body
    refine ⟨_, _, x, ⟨_, t, ⟨token, taken, rfl⟩, _, u, followed, _, v, looped, _, w,
      Or.inl ⟨handles, accepted⟩, _, x, finished, _, x, Or.inr ⟨?_, rfl, rfl⟩, _, x, ⟨rfl, rfl⟩,
        rfl, rfl⟩, by simp [Frame.build, bare, bare', bare'', bareLast], ?_⟩
    · simp only [List.reverse_append, List.append_assoc] at clauses
      rw [clauses]
      rcases clause_or_nil other with rfl | ⟨_, rfl⟩ <;>
        rcases clause_or_nil (Matches.last_iff.1 restLast) with rfl | ⟨_, rfl⟩ <;>
          simp [List.getLast?_cons]
    · exact ((((arrived.trans arrived').trans arrived'').trans arrivedElse).trans arrivedLast)
  · -- With no handler there is no `else` clause.
    have word : (KindSet.ofList [.keyword .finallyKw]).mem u.current.kind = true :=
      Readable.starts final behind' next
    have passes : ∀ {test : Test} {set : KindSet}, test.kinds? = some set →
        (KindSet.ofList [.keyword .finallyKw]).disjoint set = true → ∀ frame,
          u.answers frame test = false :=
      fun eq disjoint frame => answers_of_disjoint _ eq frame disjoint word
    have unhandled : u.answers (added.reverse ++ [(.tryToken, .leaf token)])
        (.collected (.latestAt .handlers)) = false := by
      obtain ⟨_, _, -, part, rfl⟩ := Matches.seq_iff.1 suite
      obtain ⟨_, -, rfl⟩ := Matches.part_iff.1 (Matches.last_iff.1 part)
      rw [answers_latestAt _ _ bare (by simp), List.getLast?_append]
      rfl
    obtain ⟨tree, part, rfl⟩ := Matches.part_iff.1 final
    obtain ⟨more, v, bare', called, arrived''⟩ :=
      completes_of_completes (.call .finallyClause .finallyClause) _ (by decide) _
      (added.reverse ++ [(.tryToken, .leaf token)]) _ _ final behind' next
    have ended : v.answers (more.reverse ++ (added.reverse ++ [(.tryToken, .leaf token)]))
        (.collected (.latestAt .body)) = false := by
      rw [answers_latestAt _ _ bare' (by simp)]
      rfl
    exact ⟨_, _, v, ⟨_, t, ⟨token, taken, rfl⟩, _, u, followed, _, u,
      .stop (passes rfl (by decide) _), _, u, Or.inr ⟨unhandled, rfl, rfl⟩, _, v,
      Or.inl ⟨(answers_of_kinds? rfl).trans word, called⟩, _, v, Or.inr ⟨ended, rfl, rfl⟩, _, v,
      ⟨rfl, rfl⟩, rfl, rfl⟩, by simp [Frame.build, bare, bare'],
      (arrived.trans arrived').trans arrived''⟩

/-! ### Patterns and decorators -/

/-- A starred expression or another one. -/
def pattern : Phrase := .alt (.part .pattern .starExpr) (.part .pattern .expr)

/-- **Patterns are read**, with a name or without. -/
theorem completesWhole_asPattern :
    CompletesWhole C Grammar.asPattern (Nonterminal.follow .asPattern) (ebnf .asPattern) := by
  intro piece s c matched path next
  have completes : Completes C (.branch (.onSymbol .mul) (.call .starExpr .pattern)
      (.call .expr .pattern)) (Nonterminal.follow .expr) pattern :=
    completes_of_completes _ _ (by decide)
  rcases Matches.alt_iff.1 matched with plain | named
  · obtain ⟨added, t, bare, followed, arrived⟩ := completes _ [] _ _ plain (by simpa using path)
      (KindSet.mem_of_subset (by decide) next)
    obtain ⟨read, others, rfl, same, none⟩ := Tree.bareOf_eq_cons bare
    obtain rfl := Tree.bareOf_eq_nil none
    have passes : ∀ frame, t.answers frame (.onKeyword .asKw) = false := by
      intro frame
      refine answers_of_disjoint (Nonterminal.follow .asPattern) rfl _ (by decide) ?_
      rw [current, arrived.cursor]
      exact next
    exact ⟨_, read, t, ⟨_, t, followed, _, t, Or.inr ⟨passes _, rfl, rfl⟩, rfl, rfl⟩, same, arrived⟩
  · obtain ⟨start, stop, children, inner, eq⟩ := Matches.tree_iff.1 named
    cases eq
    obtain ⟨front, back, added, t, rfl, bare, followed, arrived, -, rest, behind⟩ :=
      exists_first _ _ completes inner path (by decide) next []
    have goes := (answers_of_starts (.onKeyword .asKw) rfl (added.reverse ++ []) rest behind
      next).1 (by decide)
    obtain ⟨start', stop', more, u, bare', finished, arrived'⟩ := completes_tree (steps [
        .shift .asToken,
        expect .name .name "name after 'as' in pattern",
        .reduce .asPattern]) .asPattern (by decide) _ rest behind next
    exact ⟨_, _, u, ⟨_, t, followed, _, u, Or.inl ⟨goes, finished⟩, rfl, rfl⟩,
      by simp [bare, bare'], arrived.trans arrived'⟩

/-- What may be decorated: a function, a class, or a function with `async`. -/
def decorable : Phrase :=
  choice [.part .definition .functionDef, .part .definition .classDef]
    (tree .definition .asyncStatement
      (row [keyword .asyncToken .asyncKw, .part .statement .functionDef]))

/-- The rule of what is decorated. -/
def decorableRule : Rule :=
  choose [
    (.onKeyword .defKw, .call .functionDef .definition),
    (.onKeyword .classKw, .call .classDef .definition),
    (.onKeyword .asyncKw, .call .asyncStatement .definition)]
    (object (.expected "'def' or 'class' after decorator"))

/-- The latest piece is a statement with `async` that defines no function. -/
def undecorable : Test :=
  .both (.collected (.latestIs [.asyncStatement])) (.not (.collected (.latestHolds .functionDef)))

/-- What may be decorated is read, and not refused. -/
theorem exists_decorable (closed : Closed C)
    (matched : decorable.Matches (Readable C) s.flow children)
    (path : Path s.cursor (Tree.tokensOf children) c)
    (next : (Nonterminal.follow .decorated).mem (Cursor.current c).kind = true) (frame : Frame) :
    ∃ added t, Tree.bareOf added = Tree.bareOf children ∧
      Follows C decorableRule frame s (added.reverse ++ frame) t ∧
      t.answers (added.reverse ++ frame) undecorable = false ∧ s.Arrives c t := by
  have unrefused : ∀ {added : List Child} (t : Session σ),
      Tree.bareOf added = Tree.bareOf children →
        (Frame.satisfies (children.reverse ++ frame) (.latestIs [.asyncStatement]) &&
          !Frame.satisfies (children.reverse ++ frame) (.latestHolds .functionDef)) = false →
            t.answers (added.reverse ++ frame) undecorable = false := by
    intro added t bare none
    have same : Tree.bareOf (added.reverse ++ frame) = Tree.bareOf (children.reverse ++ frame) := by
      simp [bare]
    simpa only [undecorable, answers, Frame.satisfies_congr same] using none
  rcases Matches.alt_iff.1 matched with function | matched
  · obtain ⟨tree, readable, rfl⟩ := Matches.part_iff.1 function
    obtain ⟨added, t, bare, followed, arrived⟩ := completes_of_completes
      (.call .functionDef .definition) _ (by decide) _ frame _ _ function path next
    have goes := (answers_of_starts (.onKeyword .defKw) rfl frame function path next).1
      (by decide)
    refine ⟨added, t, bare, Or.inl ⟨goes, followed⟩, unrefused t bare ?_, arrived⟩
    obtain ⟨start, stop, inner, -, rfl⟩ := readable.derived.node rfl
    rfl
  rcases Matches.alt_iff.1 matched with class_ | async
  · obtain ⟨tree, readable, rfl⟩ := Matches.part_iff.1 class_
    obtain ⟨added, t, bare, followed, arrived⟩ := completes_of_completes
      (.call .classDef .definition) _ (by decide) _ frame _ _ class_ path next
    have passes := (answers_of_starts (.onKeyword .defKw) rfl frame class_ path next).2
      (by decide)
    have goes := (answers_of_starts (.onKeyword .classKw) rfl frame class_ path next).1
      (by decide)
    refine ⟨added, t, bare, Or.inr ⟨passes, Or.inl ⟨goes, followed⟩⟩, unrefused t bare ?_, arrived⟩
    obtain ⟨start, stop, inner, -, rfl⟩ := readable.derived.node rfl
    rfl
  · obtain ⟨start, stop, inner, made, rfl⟩ := Matches.tree_iff.1 async
    obtain ⟨word, _, first, rest, rfl⟩ := Matches.seq_iff.1 made
    obtain ⟨tree, function, rfl⟩ := Matches.part_iff.1 (Matches.last_iff.1 rest)
    have readable : Readable C s.flow .asyncStatement (.node .asyncStatement start stop _) :=
      readable_of_checked closed rfl
        (.tree start stop (.seq first (Matches.last_iff.2 (.left (.part function)))))
    obtain ⟨added, t, bare, followed, arrived⟩ := completes_of_completes
      (.call .asyncStatement .definition) _ (p := .part .definition .asyncStatement)
      (by decide) _ frame _ _ (.part readable) path next
    have passes := (answers_of_starts (.onKeyword .defKw) rfl frame async path next).2
      (by decide)
    have passes' := (answers_of_starts (.onKeyword .classKw) rfl frame async path next).2
      (by decide)
    have goes := (answers_of_starts (.onKeyword .asyncKw) rfl frame async path next).1
      (by decide)
    refine ⟨added, t, bare, Or.inr ⟨passes, Or.inr ⟨passes', Or.inl ⟨goes, followed⟩⟩⟩,
      unrefused t bare ?_, arrived⟩
    obtain ⟨start', stop', children, -, rfl⟩ := function.derived.node rfl
    obtain ⟨token, -, rfl⟩ := Matches.leaf_iff.1 first
    rfl

/-- **Decorated definitions are read.** -/
theorem completesWhole_decorated (closed : Closed C) :
    CompletesWhole C Grammar.decorated (Nonterminal.follow .decorated) (ebnf .decorated) := by
  intro piece s c matched path next
  obtain ⟨start, stop, children, inner, eq⟩ := Matches.tree_iff.1 matched
  cases eq
  obtain ⟨decorators, others, read, t, rfl, -, called, bare, arrived, rest, behind⟩ :=
    exists_call inner path (by decide) next
  obtain ⟨added, u, bare', followed, unrefused, arrived'⟩ :=
    exists_decorable closed (Matches.last_iff.1 rest) behind next [(.decorators, read)]
  exact ⟨_, _, u, ⟨_, t, called _ _, _, u, followed, _, u, Or.inr ⟨unrefused, rfl, rfl⟩, _, u,
    ⟨rfl, rfl⟩, rfl, rfl⟩, by simp [Frame.build, bare, bare'], arrived.trans arrived'⟩

/-! ### Statements of any sort -/

/-- The tokens that begin compound statements, and the names of these. -/
def compounds : List (TokenKind × Nonterminal) :=
  [(.keyword .ifKw, .ifStatement), (.keyword .whileKw, .whileStatement),
    (.keyword .forKw, .forStatement), (.keyword .tryKw, .tryStatement),
    (.keyword .withKw, .withStatement), (.keyword .defKw, .functionDef),
    (.keyword .classKw, .classDef), (.symbol .matMul, .decorated),
    (.keyword .asyncKw, .asyncStatement)]

/-- The way of a compound statement. -/
def compoundWay (way : TokenKind × Nonterminal) : Test × Rule :=
  (.on [way.1], .call way.2 .left)

/-- The ways of statements that are no compound ones. -/
def otherWays : List (Test × Rule) :=
  [(Grammar.startsMatch, .call .matchStatement .left), (.on [.indent], object .unexpectedIndent),
    (.on [.dedent], object .unexpectedUnindent)]

theorem statement_rule : Grammar.statement =
    choose (compounds.map compoundWay ++ otherWays) (.call .simpleStatement .left) := rfl

theorem statement_phrase : ebnf .statement =
    choice (compounds.map (fun way => .part .left way.2) ++ [.part .left .matchStatement])
      (.part .left .simpleStatement) := rfl

/-- A compound statement is told by the token with which it begins. -/
theorem compounds_check :
    (compounds.all fun way => way.2.heads.subset (.ofList [way.1]) &&
      (Rule.call way.2 .left).completes (Nonterminal.follow .statement)
        (.part .left way.2)) = true := by
  decide

/-- No two of these tokens are alike. -/
theorem compounds_distinct : (compounds.all fun way => compounds.all fun other =>
    other = way || (KindSet.ofList [way.1]).disjoint (.ofList [other.1])) = true := by
  decide

/-- Where the current token begins no compound statement, none of their ways is taken. -/
theorem answers_uncompound {kinds : KindSet} (frame : Frame)
    (mem : kinds.mem s.current.kind = true)
    (disjoint : (compounds.all fun way => kinds.disjoint (.ofList [way.1])) = true) :
    ∀ other ∈ compounds.map compoundWay, s.answers frame other.1 = false := by
  intro other found
  obtain ⟨way, among, rfl⟩ := List.mem_map.1 found
  exact (answers_of_kinds? rfl).trans
    (KindSet.not_mem_of_disjoint (List.all_eq_true.1 disjoint way among) mem)

/-- No compound statement is of the kinds of those that may begin with `match`. -/
theorem compounds_kinds : (compounds.all fun way => (ebnf way.2).cases.all fun
    | .tree _ kind _ => [NodeKind.ifStatement, .whileStatement, .forStatement, .tryStatement,
        .withStatement, .functionDef, .classDef, .decorated, .asyncStatement].contains kind
    | _ => false) = true := by
  decide

/-- A cursor that tells all lines that begin with `match` apart does so for any statement. -/
theorem foreseen_of_foresight (foresight : Foresight σ) {flow : Flow} {tree : Tree}
    (h : Derives ebnf flow .statement tree) : Foreseen σ tree := by
  intro c c' path
  obtain ⟨field, matched⟩ := Derives.iff_matches.1 h
  rcases Matches.choice_iff.1 (statement_phrase ▸ matched) with ⟨q, mem, matched⟩ | simple
  · rcases List.mem_append.1 mem with compound | mem
    · obtain ⟨way, found, rfl⟩ := List.mem_map.1 compound
      obtain ⟨tree, derived, eq⟩ := Matches.part_iff.1 matched
      cases eq
      obtain ⟨kind, among, root⟩ :=
        derived.kind_mem (List.all_eq_true.1 compounds_kinds way found)
      rw [root]
      constructor
      · rintro ⟨⟩
        simp at among
      · rintro ⟨⟩
        simp at among
    · obtain rfl := List.mem_singleton.1 mem
      obtain ⟨tree, derived, eq⟩ := Matches.part_iff.1 matched
      cases eq
      obtain ⟨start, stop, children, -, rfl⟩ := derived.node rfl
      exact ⟨fun _ => foresight.opens _ _ _ _ derived path, nofun⟩
  · obtain ⟨tree, derived, eq⟩ := Matches.part_iff.1 simple
    cases eq
    obtain ⟨start, stop, children, -, rfl⟩ := derived.node rfl
    exact ⟨nofun, fun _ => foresight.stays _ _ _ _ derived path⟩

/-- A statement of any sort is read, if the cursor tells it apart from others that begin with
`match`. -/
theorem follows_statement {piece : Child} {c : σ} (foreseen : Foreseen σ piece.2)
    (matched : (ebnf .statement).Matches (Readable C) s.flow [piece])
    (path : Path s.cursor piece.2.tokens c)
    (next : (Nonterminal.follow .statement).mem (Cursor.current c).kind = true) :
    ∃ field read t, Follows C Grammar.statement [] s [(field, read)] t ∧
      read.bare = piece.2.bare ∧ s.Arrives c t := by
  have path' : Path s.cursor (Tree.tokensOf [piece]) c := by simpa using path
  rw [statement_rule]
  rcases Matches.choice_iff.1 (statement_phrase ▸ matched) with ⟨q, mem, matched⟩ | simple
  · rcases List.mem_append.1 mem with compound | mem
    · obtain ⟨way, found, rfl⟩ := List.mem_map.1 compound
      have checked := List.all_eq_true.1 compounds_check way found
      rw [Bool.and_eq_true] at checked
      have head : (KindSet.ofList [way.1]).mem s.current.kind = true :=
        KindSet.mem_of_subset checked.1 (Readable.starts matched path' (KindSet.mem_full _))
      obtain ⟨read, t, followed, bare, arrived⟩ := follows_call _ _ checked.2 matched path next
      refine ⟨.left, read, t, follows_choose_of_mem (List.mem_map_of_mem found)
        ((answers_of_kinds? rfl).trans head) ?_ followed, bare, arrived⟩
      intro other found' ne
      obtain ⟨way', among, rfl⟩ := List.mem_map.1 found'
      have distinct :=
        List.all_eq_true.1 (List.all_eq_true.1 compounds_distinct way found) way' among
      rw [Bool.or_eq_true, decide_eq_true_eq] at distinct
      have disjoint := distinct.resolve_left fun same => ne (congrArg compoundWay same)
      exact (answers_of_kinds? rfl).trans (KindSet.not_mem_of_disjoint disjoint head)
    · obtain rfl := List.mem_singleton.1 mem
      obtain ⟨read, t, followed, bare, arrived⟩ :=
        follows_call .matchStatement .left (by decide) matched path next
      have name : (KindSet.ofList [.name]).mem s.current.kind = true :=
        KindSet.mem_of_subset (by decide) (Readable.starts matched path' next)
      have starts : s.answers [] Grammar.startsMatch = true := by
        obtain ⟨tree, readable, eq⟩ := Matches.part_iff.1 matched
        cases eq
        obtain ⟨start, stop, children, inner, rfl⟩ := readable.derived.node rfl
        have opens := (foreseen _ _ path).1 rfl
        obtain ⟨_, _, word, -, rfl⟩ := Matches.seq_iff.1 inner
        obtain ⟨token, spelled, rfl⟩ := Matches.word_iff.1 word
        have here : s.current = token := (Path.cons_iff.1 path).1
        simp only [Grammar.startsMatch, answers, here, spelled, Bool.true_and]
        exact opens
      exact ⟨.left, read, t, follows_choose_of_none (answers_uncompound [] name (by decide))
        (Or.inl ⟨starts, followed⟩), bare, arrived⟩
  · obtain ⟨read, t, followed, bare, arrived⟩ :=
      follows_call .simpleStatement .left (by decide) simple path next
    have head := Readable.starts simple path' next
    have plain : s.answers [] Grammar.startsMatch = false := by
      obtain ⟨tree, readable, eq⟩ := Matches.part_iff.1 simple
      cases eq
      obtain ⟨start, stop, children, -, rfl⟩ := readable.derived.node rfl
      simp only [Grammar.startsMatch, answers, Bool.and_eq_false_iff]
      refine or_iff_not_imp_left.2 fun spelled => ?_
      exact (foreseen _ _ path).2 rfl (Bool.not_eq_false _ ▸ spelled)
    have passes : ∀ {test : Test} {set : KindSet}, test.kinds? = some set →
        ((Phrase.part .left .simpleStatement).starts Nonterminal.heads
          (Nonterminal.follow .statement)).disjoint set = true → s.answers [] test = false :=
      fun eq disjoint => answers_of_disjoint _ eq [] disjoint head
    exact ⟨.left, read, t, follows_choose_of_none (answers_uncompound [] head (by decide))
      (Or.inr ⟨plain, Or.inr
        ⟨passes rfl (by decide), Or.inr ⟨passes rfl (by decide),
        followed⟩⟩⟩), bare, arrived⟩

/-! ### Everything that is derived -/

/-- **What is as the phrase of a name says is readable, if its parts are**; a statement is so if the
cursor tells it apart from others that begin with `match`. -/
theorem readable_of_matches (closed : Closed C) {flow : Flow} {name : Nonterminal} {field : Field}
    {tree : Tree} (foreseen : name = .statement → Foreseen σ tree)
    (matched : (ebnf name).Matches (Readable C) flow [(field, tree)]) :
    Readable C flow name tree := by
  cases byHand : name.byHand && name != .matchStatement || name.inCurly with
  | false => exact readable_of_checked closed byHand matched
  | true =>
      cases name with
      | namedExprTest =>
          exact readable_of_completesWhole closed rfl (completesWhole_namedExprTest closed) nofun
            matched
      | comparison => exact readable_comparison closed matched
      | atomExpr =>
          exact readable_of_completesWhole closed rfl completesWhole_atomExpr nofun matched
      | curlyDisplay =>
          exact readable_of_completesWhole closed rfl completesWhole_curlyDisplay nofun matched
      | curlyItems =>
          exact readable_of_completesWhole closed rfl completesWhole_curlyItems nofun matched
      | dictItem =>
          exact readable_of_completesWhole closed rfl completesWhole_dictItem
            completesWhole_curlyFirst matched
      | starOrTest =>
          exact readable_of_completesWhole closed rfl
            (completesWhole_of_completesWhole (by decide)) completesWhole_curlyFirst matched
      | displayItems =>
          exact readable_of_completesWhole closed rfl (completesWhole_displayItems closed) nofun
            matched
      | subscriptList | namedExprList | exprList | testList | testListStarExpr | patterns =>
          exact readable_of_completesWhole closed rfl
            (completesWhole_listOf (by decide)) nofun matched
      | argList => exact readable_of_completesWhole closed rfl completesWhole_argList nofun matched
      | argument =>
          exact readable_of_completesWhole closed rfl (completesWhole_argument closed) nofun matched
      | parameters typed =>
          exact readable_of_completesWhole closed rfl (completesWhole_parameters typed) nofun
            matched
      | statement =>
          refine readable_of_read closed ?_ nofun nofun matched
          rintro s c rfl path next
          exact follows_statement (foreseen rfl) matched path next
      | exprStatement =>
          exact readable_of_completesWhole closed rfl (completesWhole_exprStatement closed) nofun
            matched
      | importName =>
          exact readable_of_completesWhole closed rfl completesWhole_importName nofun matched
      | importFrom =>
          exact readable_of_completesWhole closed rfl completesWhole_importFrom nofun matched
      | tryStatement =>
          exact readable_of_completesWhole closed rfl completesWhole_tryStatement nofun matched
      | withStatement =>
          exact readable_of_completesWhole closed rfl completesWhole_withStatement nofun matched
      | asPattern =>
          exact readable_of_completesWhole closed rfl completesWhole_asPattern nofun matched
      | decorated =>
          exact readable_of_completesWhole closed rfl (completesWhole_decorated closed) nofun
            matched
      | _ => cases byHand

/-- **Whatever is derived is readable**, if the cursor tells statements that begin with `match`
apart. -/
theorem readable_of_derives (closed : Closed C) (foresight : Foresight σ) {flow : Flow}
    {name : Nonterminal} {tree : Tree} (h : Derives ebnf flow name tree) :
    Readable C flow name tree := by
  refine h.rule_induction (P := fun flow name tree => Readable C flow name tree) ?_
  intro flow name field tree both
  refine readable_of_matches closed ?_ (both.mono fun _ _ _ derived => derived.2)
  rintro rfl
  exact foreseen_of_foresight foresight (.intro (both.mono fun _ _ _ derived => derived.1))

end Session

end PythonSyntax
