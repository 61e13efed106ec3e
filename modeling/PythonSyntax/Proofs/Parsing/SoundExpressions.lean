/-
**Expressions that are read with a look at the pieces.**

Most rules are found sound by computation.  Those that ask about the pieces that they have
collected are gone through by hand: here lists, comparisons, atoms and what stands in brackets.

Main results:

* `PythonSyntax.Session.soundWhole_listOf` — lists of elements;
* `PythonSyntax.Session.soundWhole_namedExprTest`, `PythonSyntax.Session.soundWhole_comparison`,
  `PythonSyntax.Session.soundWhole_atomExpr` — rules of the ladder of operators;
* `PythonSyntax.Session.soundWhole_displayItems`, `PythonSyntax.Session.soundWhole_curlyItems`,
  `PythonSyntax.Session.soundWhole_curlyDisplay` — comprehensions, lists, sets and dictionaries.
-/

import PythonSyntax.Proofs.Parsing.Sound

set_option autoImplicit false

namespace PythonSyntax

namespace Session

open Phrase Rule

variable {σ : Type} [Cursor σ] {C : Nonterminal → Session σ → Frame → Session σ → Prop}

/-! ### Lists -/

/-- Further elements are none, or a separator and perhaps an element with more after it. -/
theorem further_cases {D : Flow → Nonterminal → Tree → Prop} {flow : Flow} {field : Field}
    {separators : List TokenKind} {element : Phrase} {children : List Child}
    (h : (Phrase.further field separators element).Matches D flow children) :
    children = [] ∨ ((Phrase.leaf field separators).seq
      (opt (element.seq (.further field separators element)))).Matches D flow children := by
  cases h with
  | noFurther => exact Or.inl rfl
  | lastSeparator mem => exact Or.inr (.cons (.leaf mem) (.right .nil))
  | further mem first more =>
      exact Or.inr (.cons (.leaf mem) (.left (.seq first more)))

/-- The node that is made of children in the order of the text. -/
theorem build_reverse (children : List Child) (kind : NodeKind) (here stop : Nat) :
    Frame.build children.reverse kind here stop =
      .node kind ((children.head?.map fun child => child.2.start).getD here) stop children := by
  simp [Frame.build]

/-- The elements make a list unless there is only one, without a comma. -/
theorem follows_finishList {element : Nonterminal} {tree : Tree} {rest : List Child}
    {s s' : Session σ} {frame' : Frame} (derived : Derives ebnf s.flow element tree)
    (more : (Ebnf.furtherElements .elements element).Matches (Derives ebnf) s.flow rest)
    (h : Follows C Grammar.finishList (rest.reverse ++ [(.elements, tree)]) s frame' s') :
    ∃ piece, (Ebnf.list element).Matches (Derives ebnf) s.flow [piece] ∧ frame' = [piece] := by
  rw [← List.reverse_cons] at h
  rcases h with ⟨several, rfl, -⟩ | ⟨fails, rfl, -⟩
  · rcases further_cases more with rfl | split
    · simp [answers, Frame.satisfies] at several
    · obtain ⟨front, back, one, two, rfl⟩ := Matches.seq_iff.1 split
      rw [build_reverse]
      exact ⟨_, .right (.tree _ _ (.cons (.part derived)
        (.seq one (Matches.last_iff.2 two)))), rfl⟩
  · rcases further_cases more with rfl | split
    · exact ⟨_, .left (.part derived), rfl⟩
    · obtain ⟨front, back, one, two, rfl⟩ := Matches.seq_iff.1 split
      obtain ⟨token, -, rfl⟩ := Matches.leaf_iff.1 one
      simp [answers, Frame.satisfies] at fails

/-- The parts of a list with commas between them. -/
def elements (field : Field) (element : Nonterminal) : Phrase :=
  row [part field element, Ebnf.furtherElements field element]

/-- A list of elements. -/
theorem soundWhole_listOf (calls : CallsSound C) {element : Nonterminal} {continues : Test}
    {kinds : KindSet} (checked : (separated element .elements continues).sounds kinds
      (elements .elements element) = true) :
    SoundWhole C (Grammar.listOf element continues) kinds (Ebnf.list element) := by
  rintro s frame' s' mem ⟨middle, t, one, frame'', u, two, rfl, rfl⟩
  obtain ⟨children, matched, rfl⟩ := sound_of_sounds calls checked _ _ _ _ mem one
  obtain ⟨front, back, first, more, rfl⟩ := Matches.seq_iff.1 matched
  obtain ⟨tree, derived, rfl⟩ := Matches.part_iff.1 first
  rw [← calls.flow_eq one] at derived more ⊢
  rw [List.append_nil, List.reverse_append] at two
  exact follows_finishList derived (Matches.last_iff.1 more) two

/-! ### Comparisons -/

/-- The word `is`, and `not` after it or not. -/
theorem soundTrees_identity (calls : CallsSound C) :
    SoundTrees C (steps [
      .shift .op,
      .branch (.onKeyword .notKw)
        (steps [
          .relabel .isToken,
          .shift .notToken,
          .call .expr .right,
          .reduce .isNot])
        (steps [.call .expr .right, .reduce (.binary .identity)])])
      (.ofList [.keyword .isKw]) ((ebnf .comparison).tails .left .comparison) := by
  rintro frame s frame' s' mem ⟨_, t, ⟨token, taken, rfl⟩, _, u, two, rfl, rfl⟩
  have isWord : [TokenKind.keyword .isKw].contains token.kind = true := by
    rw [← KindSet.mem_ofList, taken.kind]
    exact mem
  rcases two with ⟨holds, _, v, ⟨rfl, rfl⟩, rest⟩ | ⟨-, rest⟩
  · obtain ⟨start, stop, children, matched, rfl⟩ := calls.tree
      (.ofList [.keyword .notKw]) .isNot (row [keyword .notToken .notKw, .part .right .expr])
      (by decide)
      (by simpa [answers, Test.onKeyword] using holds) rest
    rw [taken.2.2.2] at matched
    refine ⟨_, Wraps.at 9 rfl start stop (.cons (.leaf isWord) matched), ?_⟩
    simp [Frame.relabel]
  · obtain ⟨start, stop, children, matched, rfl⟩ := calls.tree
      .full (.binary .identity) (row [.part .right .expr]) (by decide)
      (KindSet.mem_full _) rest
    rw [taken.2.2.2] at matched
    refine ⟨_, Wraps.at 10 rfl start stop (.cons (.leaf isWord) matched), ?_⟩
    simp

theorem soundWhole_comparison (calls : CallsSound C) :
    SoundWhole C Grammar.comparison .full (ebnf .comparison) := by
  refine calls.chain (by decide) rfl ?_
  -- Seven operators of one token, and `not in`.
  iterate 8 refine .branch rfl (soundTrees_of_soundsTrees calls (by decide)) ?_
  refine .branch rfl ((soundTrees_identity calls).mono (by decide)) ?_
  exact .of_empty _ _ (by decide)

/-! ### Expressions with a name -/

/-- The sign `:=` and a value, after an expression that has to be a name. -/
theorem follows_namedValue (calls : CallsSound C) {tree : Tree} {s s' : Session σ}
    {frame' : Frame} (derived : Derives ebnf s.flow .test tree)
    (mem : (KindSet.ofList [.symbol .colonAssign]).mem s.current.kind = true)
    (h : Follows C Grammar.namedValue [(.target, tree)] s frame' s') :
    ∃ piece, Ebnf.namedExpr.Matches (Derives ebnf) s.flow [piece] ∧ frame' = [piece] := by
  obtain ⟨_, t, ⟨holds, rfl, rfl⟩ | ⟨-, refused⟩, rest⟩ := h
  · obtain ⟨start, stop, token, isName, rfl⟩ := derived.leaf_of_name
      (Frame.isOneOf_singleton.1 holds)
    obtain ⟨start', stop', children, matched, rfl⟩ := calls.tree _ .namedExpr
      (row [sign .op .colonAssign, .part .value .test]) (by decide) mem rest
    refine ⟨_, .tree _ _ (.cons (.tree _ _ (.cons (.leaf ?_) .nil)) matched), rfl⟩
    rw [isName]
    rfl
  · exact refused.elim

theorem soundWhole_namedExprTest (calls : CallsSound C) :
    SoundWhole C Grammar.namedExprTest .full (ebnf .namedExprTest) := by
  rintro s frame' s' mem ⟨middle, t, one, frame'', u, two, rfl, rfl⟩
  obtain ⟨tree, derived, matched, rfl⟩ := calls.call (p := ebnf .namedExprTest) (by decide)
    mem one
  rw [← calls.flow_eq one] at derived matched ⊢
  rcases two with ⟨holds, two⟩ | ⟨-, rfl, -⟩
  · obtain ⟨piece, named, rfl⟩ := follows_namedValue calls derived
      (by simpa [answers, Test.onSymbol] using holds) two
    exact ⟨piece, .right named, rfl⟩
  · exact ⟨_, matched, rfl⟩

/-! ### Atoms with trailers -/

theorem soundWhole_atomExpr (calls : CallsSound C) :
    SoundWhole C Grammar.atomExpr .full (ebnf .atomExpr) := by
  rintro s frame' s' mem ⟨_, t, one, _, u, two, _, v, three, _, w, four, rfl, rfl⟩
  obtain ⟨front, awaited, rfl⟩ := sound_of_sounds (p := opt (keyword .awaitToken .awaitKw)) calls
    (by decide) _ _ _ _ mem one
  obtain ⟨atom, derived, -, rfl⟩ := calls.call (p := .part .atom .atom) (by decide)
    (KindSet.mem_full _) two
  obtain ⟨trailers, trailed, rfl⟩ := calls.many rfl
    (sound_of_sounds (p := .part .trailers .trailer) calls (by decide)) three
  rw [calls.flow_eq two, calls.flow_eq one] at trailed
  rw [calls.flow_eq one] at derived
  have children : (trailers.reverse ++ (Field.atom, atom) :: (front.reverse ++ [])).reverse =
      front ++ (.atom, atom) :: trailers := by simp
  rcases four with ⟨several, rfl, rfl⟩ | ⟨lone, rfl, rfl⟩
  · refine ⟨(.left, .node .atomExpr _ _ _), ?_, rfl⟩
    rw [children]
    rcases Matches.alt_iff.1 awaited with awaited | none
    · exact .right (.left (.tree _ _ (.seq awaited (.cons (.part derived)
        (Matches.last_iff.2 trailed)))))
    · obtain rfl := Matches.nil_iff.1 none
      refine .right (.right (.tree _ _ (.cons (.part derived) (Matches.last_iff.2 ?_))))
      rcases Matches.many_iff.1 trailed with rfl | ⟨first, more, one, two, rfl⟩
      · simp [answers, Frame.satisfies] at several
      · exact .atLeastOne one two
  · have alone : front = [] ∧ trailers = [] := by
      simp only [answers, Frame.satisfies, decide_eq_false_iff_not, List.length_append,
        List.length_reverse, List.length_cons, List.length_nil] at lone
      exact ⟨List.eq_nil_of_length_eq_zero (by omega), List.eq_nil_of_length_eq_zero (by omega)⟩
    obtain ⟨rfl, rfl⟩ := alone
    exact ⟨_, .left (.part derived), rfl⟩

/-! ### Comprehensions and lists in brackets -/

/-- The clauses of a comprehension, after an element. -/
theorem follows_finishComprehension (calls : CallsSound C) {element : Phrase} {field : Field}
    {tree : Tree} {s s' : Session σ} {frame' : Frame}
    (derived : element.Matches (Derives ebnf) s.flow [(.element, tree)])
    (h : Follows C Grammar.finishComprehension [(field, tree)] s frame' s') :
    ∃ piece, (Ebnf.comprehension element).Matches (Derives ebnf) s.flow [piece] ∧
      frame' = [piece] := by
  obtain ⟨_, t, ⟨rfl, rfl⟩, rest⟩ := h
  obtain ⟨start, stop, children, matched, rfl⟩ := calls.tree .full .comprehension
    (row [.part .clause .compFor]) (by decide) (KindSet.mem_full _) rest
  exact ⟨_, .tree _ _ (.cons derived matched), rfl⟩

/-- The elements of a list, after the first. -/
theorem follows_restOfList (calls : CallsSound C) {element : Nonterminal} {continues : Test}
    {field : Field} {tree : Tree} {s s' : Session σ} {frame' : Frame}
    (checked : (loop (.onSymbol .comma) (steps [
      .shift .separators,
      .branch (.onSymbol .comma) (object .doubledComma)
        (when continues (.call element .elements))])).sounds .full
          (Ebnf.furtherElements .elements element) = true)
    (derived : Derives ebnf s.flow element tree)
    (h : Follows C (Grammar.restOfList element continues) [(field, tree)] s frame' s') :
    ∃ piece, (Ebnf.list element).Matches (Derives ebnf) s.flow [piece] ∧ frame' = [piece] := by
  obtain ⟨_, t, ⟨rfl, rfl⟩, _, u, two, _, v, three, rfl, rfl⟩ := h
  obtain ⟨rest, more, rfl⟩ := sound_of_sounds calls checked _ _ _ _ (KindSet.mem_full _) two
  rw [← calls.flow_eq two] at derived more ⊢
  exact follows_finishList derived more three

/-- An element that is not refused is not of the kind. -/
theorem follows_refuseElement {kind : NodeKind} {complaint : Complaint} {child : Child}
    {s s' : Session σ} {frame' : Frame}
    (h : Follows C (Grammar.refuseElement kind complaint) [child] s frame' s') :
    child.2.kind? ≠ some kind ∧ frame' = [child] ∧ s' = s := by
  rcases h with ⟨-, refused⟩ | ⟨fails, rfl, rfl⟩
  · exact refused.elim
  · refine ⟨fun same => ?_, rfl, rfl⟩
    rw [← Frame.isOneOf_singleton] at same
    simp [answers, Frame.satisfies, Frame.latest?, same] at fails

/-- What may have a star before it has none if it is no starred expression. -/
theorem derives_of_starOr {flow : Flow} {name element : Nonterminal} {tree : Tree}
    (phrase : ebnf name = Ebnf.starOr element) (h : Derives ebnf flow name tree)
    (unstarred : tree.kind? ≠ some .starExpr) : Derives ebnf flow element tree := by
  obtain ⟨field, matched⟩ := Derives.iff_matches.1 h
  rw [phrase] at matched
  rcases Matches.alt_iff.1 matched with starred | matched
  · obtain ⟨_, starred, eq⟩ := Matches.part_iff.1 starred
    cases eq
    obtain ⟨start, stop, children, -, rfl⟩ := starred.node rfl
    exact absurd rfl unstarred
  · obtain ⟨_, derived, eq⟩ := Matches.part_iff.1 matched
    cases eq
    exact derived

theorem soundWhole_displayItems (calls : CallsSound C) :
    SoundWhole C Grammar.displayItems .full (ebnf .displayItems) := by
  rintro s frame' s' mem ⟨_, t, one, _, u, two, rfl, rfl⟩
  obtain ⟨tree, derived, -, rfl⟩ := calls.call (p := .part .element .starOrNamedExpr)
    (by decide) mem one
  rw [← calls.flow_eq one] at derived ⊢
  rcases two with ⟨-, _, v, refused, _, w, finished, rfl, rfl⟩ | ⟨-, two⟩
  · obtain ⟨unstarred, rfl, rfl⟩ := follows_refuseElement refused
    obtain ⟨piece, matched, rfl⟩ := follows_finishComprehension calls
      (.part (derives_of_starOr rfl derived unstarred)) finished
    exact ⟨piece, .left matched, rfl⟩
  · obtain ⟨piece, matched, rfl⟩ := follows_restOfList calls (by decide) derived two
    exact ⟨piece, .right matched, rfl⟩

/-! ### Curly brackets -/

/-- A key, after which a colon and a value follow. -/
theorem follows_finishDictEntry (calls : CallsSound C) {field : Field} {tree : Tree}
    {s s' : Session σ} {frame' : Frame} (derived : Derives ebnf s.flow .test tree)
    (mem : (KindSet.ofList [.symbol .colon]).mem s.current.kind = true)
    (h : Follows C Grammar.finishDictEntry [(field, tree)] s frame' s') :
    ∃ entry, (∀ field, (Ebnf.dictEntry field).Matches (Derives ebnf) s.flow [(field, entry)]) ∧
      frame' = [(.left, entry)] := by
  obtain ⟨_, t, ⟨rfl, rfl⟩, rest⟩ := h
  obtain ⟨start, stop, children, matched, rfl⟩ := calls.tree _ .dictEntry
    (row [sign .colon .colon, .part .value .test]) (by decide) mem rest
  exact ⟨_, fun _ => .tree _ _ (.cons (.part derived) matched), rfl⟩

theorem soundWhole_dictItem (calls : CallsSound C) :
    SoundWhole C Grammar.dictItem .full (ebnf .dictItem) := by
  refine .branch rfl (soundWhole_of_soundsWhole calls (by decide)) ?_
  rintro s frame' s' mem ⟨_, t, one, _, u, ⟨holds, two⟩ | ⟨-, refused⟩, rfl, rfl⟩
  · obtain ⟨tree, derived, -, rfl⟩ := calls.call (p := .part .key .test) (by decide) mem one
    rw [← calls.flow_eq one] at derived ⊢
    obtain ⟨entry, matched, rfl⟩ := follows_finishDictEntry calls derived
      (by simpa [answers, Test.onSymbol] using holds) two
    exact ⟨_, .right (matched .left), rfl⟩
  · exact refused.elim

/-- The first element in curly brackets. -/
inductive CurlyFirst (flow : Flow) (tree : Tree) : Prop
  | unpacked (derived : Derives ebnf flow .dictUnpack tree)
  | starred (derived : Derives ebnf flow .starExpr tree)
  | plain (derived : Derives ebnf flow .test tree)
  | entry (matched : ∀ field, (Ebnf.dictEntry field).Matches (Derives ebnf) flow [(field, tree)])

/-- The first element is an element of a dictionary if it is found to be one, and else it is one of
a set. -/
theorem CurlyFirst.decided {flow : Flow} {tree : Tree} (h : CurlyFirst flow tree) (field : Field) :
    (Ebnf.beginsDictionary [(field, tree)] = true → Derives ebnf flow .dictItem tree) ∧
      (Ebnf.beginsDictionary [(field, tree)] = false → Derives ebnf flow .starOrTest tree) := by
  cases h with
  | unpacked derived =>
      refine ⟨fun _ => .of_matches .left (.left (.part derived)), fun fails => ?_⟩
      obtain ⟨start, stop, children, -, rfl⟩ := derived.node rfl
      cases fails
  | starred derived =>
      rw [derived.not_beginsDictionary rfl]
      exact ⟨fun h => (Bool.false_ne_true h).elim, fun _ =>
        .of_matches .left (.left (.part derived))⟩
  | plain derived =>
      rw [derived.not_beginsDictionary rfl]
      exact ⟨fun h => (Bool.false_ne_true h).elim, fun _ =>
        .of_matches .left (.right (.part derived))⟩
  | entry matched =>
      refine ⟨fun _ => .of_matches .left (.right (matched .left)), fun fails => ?_⟩
      obtain ⟨start, stop, children, -, eq⟩ := Matches.tree_iff.1 (matched field)
      cases eq
      cases fails

/-- The first element in curly brackets is read. -/
theorem follows_curlyFirst (calls : CallsSound C) {s s' : Session σ} {frame' : Frame}
    (h : Follows C (choose [
      (.onSymbol .power, .call .dictUnpack .left),
      (.onSymbol .mul, .call .starExpr .left)]
      (steps [.call .test .left, when (.onSymbol .colon) Grammar.finishDictEntry])) [] s frame' s') :
    ∃ tree, CurlyFirst s.flow tree ∧ frame' = [(.left, tree)] := by
  rcases h with ⟨holds, one⟩ | ⟨-, ⟨holds, two⟩ | ⟨-, _, t, three, _, u, four, rfl, rfl⟩⟩
  · have unpacks : (KindSet.ofList [.symbol .power]).mem s.current.kind = true := by
      simpa [answers, Test.onSymbol] using holds
    obtain ⟨tree, derived, -, rfl⟩ := calls.call (p := .part .left .dictUnpack)
      (by decide) unpacks one
    exact ⟨tree, .unpacked derived, rfl⟩
  · obtain ⟨tree, derived, -, rfl⟩ := calls.call (p := .part .left .starExpr)
      (by decide) (KindSet.mem_full _) two
    exact ⟨tree, .starred derived, rfl⟩
  · obtain ⟨tree, derived, -, rfl⟩ := calls.call (p := .part .left .test)
      (by decide) (KindSet.mem_full _) three
    rw [← calls.flow_eq three] at derived ⊢
    rcases four with ⟨holds, four⟩ | ⟨-, rfl, -⟩
    · obtain ⟨entry, matched, rfl⟩ := follows_finishDictEntry calls derived
        (by simpa [answers, Test.onSymbol] using holds) four
      exact ⟨entry, .entry matched, rfl⟩
    · exact ⟨tree, .plain derived, rfl⟩

theorem soundWhole_curlyItems (calls : CallsSound C) :
    SoundWhole C Grammar.curlyItems .full (ebnf .curlyItems) := by
  rintro s frame' s' mem ⟨_, t, one, _, u, two, rfl, rfl⟩
  obtain ⟨tree, first, rfl⟩ := follows_curlyFirst calls one
  rw [← calls.flow_eq one] at first ⊢
  rcases two with ⟨-, _, v, refused, _, w, refused', _, x, finished, rfl, rfl⟩ |
    ⟨-, ⟨holds, two⟩ | ⟨fails, two⟩⟩
  · obtain ⟨packed, rfl, rfl⟩ := follows_refuseElement refused
    obtain ⟨unstarred, rfl, rfl⟩ := follows_refuseElement refused'
    cases first with
    | unpacked derived =>
        obtain ⟨start, stop, children, -, rfl⟩ := derived.node rfl
        exact absurd rfl packed
    | starred derived =>
        obtain ⟨start, stop, children, -, rfl⟩ := derived.node rfl
        exact absurd rfl unstarred
    | plain derived =>
        obtain ⟨piece, matched, rfl⟩ := follows_finishComprehension calls (.part derived) finished
        exact ⟨piece, .right (.left matched), rfl⟩
    | entry matched =>
        obtain ⟨piece, matched, rfl⟩ :=
          follows_finishComprehension calls (matched .element) finished
        exact ⟨piece, .left matched, rfl⟩
  · obtain ⟨piece, matched, rfl⟩ := follows_restOfList calls (by decide)
      ((first.decided _).1 holds) two
    exact ⟨piece, .right (.right (.left matched)), rfl⟩
  · obtain ⟨piece, matched, rfl⟩ := follows_restOfList calls (by decide)
      ((first.decided _).2 fails) two
    exact ⟨piece, .right (.right (.right matched)), rfl⟩

theorem soundWhole_curlyDisplay (calls : CallsSound C) :
    SoundWhole C Grammar.curlyDisplay (Nonterminal.entry .curlyDisplay) (ebnf .curlyDisplay) := by
  rintro s frame' s' mem ⟨_, t, one, _, u, two, rfl, rfl⟩
  obtain ⟨children, opened, rfl⟩ := sound_of_sounds (p := sign .lcurly .leftCurly) calls
    (by decide) _ _ _ _ mem one
  obtain ⟨token, isOpen, rfl⟩ := Matches.leaf_iff.1 opened
  rw [← calls.flow_eq one]
  rcases two with ⟨closes, two⟩ | ⟨-, _, v, three, _, w, four, rfl, rfl⟩
  · obtain ⟨start, stop, rest, matched, rfl⟩ := calls.tree (.ofList [.symbol .rightCurly])
      .dictionary (row [sign .rcurly .rightCurly]) (by decide)
      (by simpa [answers, Test.onSymbol] using closes) two
    exact ⟨_, .left (.tree _ _ (.cons (.leaf isOpen) matched)), rfl⟩
  · obtain ⟨tree, derived, -, rfl⟩ := calls.call (p := .part .inner .curlyItems)
      (by decide) (KindSet.mem_full _) three
    rcases four with ⟨holds, four⟩ | ⟨fails, four⟩
    · obtain ⟨start, stop, rest, matched, rfl⟩ := calls.tree .full .dictionary
        (row [sign .rcurly .rightCurly]) (by decide) (KindSet.mem_full _) four
      rw [calls.flow_eq three] at matched
      have items : (Phrase.such Ebnf.beginsDictionary (.part .inner .curlyItems)).Matches
          (Derives ebnf) t.flow [(.inner, tree)] := .such (.part derived) holds
      exact ⟨_, .right (.left (.tree _ _ (.cons (.leaf isOpen) (.cons items matched)))), rfl⟩
    · obtain ⟨start, stop, rest, matched, rfl⟩ := calls.tree .full .set
        (row [sign .rcurly .rightCurly]) (by decide) (KindSet.mem_full _) four
      rw [calls.flow_eq three] at matched
      have unlike : (!Ebnf.beginsDictionary [(.inner, tree)]) = true := by
        rw [Bool.not_eq_true']
        exact fails
      have items : (Phrase.such (fun children => !Ebnf.beginsDictionary children)
          (.part .inner .curlyItems)).Matches (Derives ebnf) t.flow [(.inner, tree)] :=
        .such (.part derived) unlike
      exact ⟨_, .right (.right (.tree _ _ (.cons (.leaf isOpen) (.cons items matched)))), rfl⟩

/-- The kind of the node depends on a piece: computation alone does not find the rule sound. -/
example : Grammar.curlyDisplay.soundsWhole (Nonterminal.entry .curlyDisplay)
    (ebnf .curlyDisplay) = false := by decide

end Session

end PythonSyntax
