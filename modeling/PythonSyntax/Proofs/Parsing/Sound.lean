/-
**Rules that read what a phrase describes.**

A rule is sound for a phrase if the pieces that it adds are as the phrase says, provided that the
calls that it makes read trees of their names.  For most rules this can be computed: rule and phrase
are gone through side by side, with the kinds that the current token may have.

Main definitions:

* `PythonSyntax.Nonterminal.entry`, `PythonSyntax.Nonterminal.enters` — the tokens at which a rule
  may be called;
* `PythonSyntax.Session.Derived` — the pieces of a call are one derived tree;
* `PythonSyntax.Session.Sound`, `PythonSyntax.Session.SoundTrees`,
  `PythonSyntax.Session.SoundWhole` — a rule reads a part of a node, the rest of a node, or a whole
  tree;
* `PythonSyntax.Rule.sounds`, `PythonSyntax.Rule.soundsTrees`, `PythonSyntax.Rule.soundsWhole`,
  `PythonSyntax.Rule.soundsChain` — the computed answers.

Main results:

* `PythonSyntax.Session.sound_of_sounds`, `PythonSyntax.Session.soundTrees_of_soundsTrees`,
  `PythonSyntax.Session.soundWhole_of_soundsWhole`,
  `PythonSyntax.Session.soundWhole_of_soundsChain` — what the computed answers mean.
-/

import PythonSyntax.Proofs.Syntax.Roots

set_option autoImplicit false

namespace PythonSyntax

/-! ### Tests on the current token -/

/-- The kinds of the current token for which the answer is yes, if nothing else matters. -/
def Test.kinds? : Test → Option KindSet
  | .on kinds => some (.ofList kinds)
  | .not test => test.kinds?.map KindSet.compl
  | .both first second =>
    first.kinds?.bind fun a => second.kinds?.map fun b => a.inter b
  | .either first second =>
    first.kinds?.bind fun a => second.kinds?.map fun b => a.union b
  | _ => none

theorem Session.answers_of_kinds? {σ : Type} [Cursor σ] {s : Session σ} {frame : Frame}
    {test : Test} {kinds : KindSet} (h : test.kinds? = some kinds) :
    s.answers frame test = kinds.mem s.current.kind := by
  induction test generalizing kinds with
  | on list =>
      cases h
      simp [answers]
  | not test ih =>
      obtain ⟨a, ha, rfl⟩ := Option.map_eq_some_iff.1 h
      simp [answers, ih ha]
  | both first second ih ih' =>
      obtain ⟨a, ha, mapped⟩ := Option.bind_eq_some_iff.1 h
      obtain ⟨b, hb, rfl⟩ := Option.map_eq_some_iff.1 mapped
      simp [answers, ih ha, ih' hb]
  | either first second ih ih' =>
      obtain ⟨a, ha, mapped⟩ := Option.bind_eq_some_iff.1 h
      obtain ⟨b, hb, rfl⟩ := Option.map_eq_some_iff.1 mapped
      simp [answers, ih ha, ih' hb]
  | _ => cases h

/-! ### Completing a node -/

namespace Phrase

variable {D : Flow → Nonterminal → Tree → Prop} {flow : Flow} {p q : Phrase}
  {children : List Child}

/-- The children complete a node that begins with `before`, as one of the trees among the
alternatives of the phrase. -/
def Wraps (D : Flow → Nonterminal → Tree → Prop) (flow : Flow) (before : List Child)
    (p : Phrase) (piece : Child) : Prop :=
  ∃ kind inner start stop children, .tree .left kind inner ∈ p.cases ∧
    Matches D flow inner children ∧ piece = (.left, .node kind start stop (before ++ children))

/-- Completing a node as the alternative at a place says. -/
theorem Wraps.at {before : List Child} {kind : NodeKind} {inner : Phrase} (place : Nat)
    (case : p.cases[place]? = some (.tree .left kind inner)) (start stop : Nat)
    (h : Matches D flow inner children) :
    Wraps D flow before p (.left, .node kind start stop (before ++ children)) :=
  ⟨kind, inner, start, stop, children, List.mem_of_getElem? case, h, rfl⟩

theorem Wraps.matches {piece : Child} (h : Wraps D flow [] p piece) :
    Matches D flow p [piece] := by
  obtain ⟨kind, inner, start, stop, children, mem, matched, rfl⟩ := h
  exact .of_case mem (.tree start stop matched)

/-- The trees that begin with a part of a name, without that part. -/
def tails (field : Field) (name : Nonterminal) : Phrase → Phrase
  | alt first second => alt (first.tails field name) (second.tails field name)
  | tree .left kind (seq (part field' name') rest) =>
    if field = field' ∧ name = name' then tree .left kind rest else never
  | _ => never

/-- A part and what completes it are a tree of the phrase. -/
theorem Wraps.of_tails {field : Field} {name : Nonterminal} {first : Tree} {piece : Child}
    (derived : D flow name first)
    (h : Wraps D flow [(field, first)] (p.tails field name) piece) : Matches D flow p [piece] := by
  obtain ⟨kind, inner, start, stop, children, mem, matched, rfl⟩ := h
  induction p with
  | alt one two ih ih' =>
      rcases List.mem_append.1 mem with mem | mem
      · exact .left (ih mem)
      · exact .right (ih' mem)
  | tree field' kind' rest _ =>
      unfold tails at mem
      split at mem
      · contradiction
      · rename_i eq
        cases eq
        split at mem
        · rename_i same
          obtain ⟨rfl, rfl⟩ := same
          cases List.mem_singleton.1 mem
          exact .tree start stop (.seq (.part derived) matched)
        · cases List.mem_singleton.1 mem
      · cases List.mem_singleton.1 mem
  | _ => cases List.mem_singleton.1 mem

end Phrase

/-! ### Calls -/

namespace Nonterminal

/-- The rule of the name takes its first token without looking at it. -/
def startsBlindly : Nonterminal → Bool
  | lambda | lambdaNoCondition | parenthesized | listDisplay | curlyDisplay | dictUnpack | compIf
  | starParameter _ | doubleStarParameter _ | positionalOnly | yieldExpr | returnStatement
  | raiseStatement | importName | importFrom | nameDeclaration | assertStatement | ifStatement
  | elifClause | elseClause | whileStatement | forStatement | tryStatement | exceptClause
  | finallyClause | withStatement | matchStatement | decorated | decorators | decorator
  | asyncStatement | functionDef | classDef => true
  | _ => false

/-- The kinds of tokens at which the rule of a name may be called. -/
def entry (name : Nonterminal) : KindSet := if name.startsBlindly then name.heads else .full

/-- The tokens at which the rule of a name may be called; the word `match` is a name. -/
def enters (name : Nonterminal) (token : Token) : Bool :=
  name.entry.mem token.kind && (name != .matchStatement || token.spells "match")

theorem enters_of_mem {name : Nonterminal} {token : Token} (ne : name ≠ .matchStatement)
    (mem : name.entry.mem token.kind = true) : name.enters token = true := by
  simp [enters, mem, ne]

/-- A rule that looks at its first token may be called anywhere. -/
theorem enters_of_looks {name : Nonterminal} (looks : name.startsBlindly = false)
    (token : Token) : name.enters token = true := by
  refine enters_of_mem ?_ (by simp [entry, looks])
  rintro rfl
  cases looks

end Nonterminal

namespace Session

variable {σ : Type} [Cursor σ]

/-- The pieces of a call are one tree that is derived from the name, if the rule may be called at
the current token. -/
def Derived (name : Nonterminal) (s : Session σ) (pieces : Frame) : Prop :=
  name.enters s.current = true →
    ∃ field tree, pieces = [(field, tree)] ∧ Derives ebnf s.flow name tree

/-- What is known of calls while a rule is followed: they pass the tokens of their pieces, and the
pieces are derived. -/
structure CallsSound (C : Nonterminal → Session σ → Frame → Session σ → Prop) : Prop where
  passed : ∀ name s pieces t, C name s pieces t → Passed [] s pieces t
  derived : ∀ name s pieces t, C name s pieces t → Derived name s pieces

variable (C : Nonterminal → Session σ → Frame → Session σ → Prop)

/-- From a token of one of the kinds, the rule adds pieces that are as the phrase says. -/
def Sound (rule : Rule) (kinds : KindSet) (p : Phrase) : Prop :=
  ∀ frame s frame' s', kinds.mem s.current.kind = true → Follows C rule frame s frame' s' →
    ∃ children, p.Matches (Derives ebnf) s.flow children ∧ frame' = children.reverse ++ frame

/-- The rule makes of all pieces one node, which is completed as the phrase says. -/
def SoundTrees (rule : Rule) (kinds : KindSet) (p : Phrase) : Prop :=
  ∀ frame s frame' s', kinds.mem s.current.kind = true → Follows C rule frame s frame' s' →
    ∃ piece, p.Wraps (Derives ebnf) s.flow frame.reverse piece ∧ frame' = [piece]

/-- With no pieces before, the rule adds one, which is as the phrase says. -/
def SoundWhole (rule : Rule) (kinds : KindSet) (p : Phrase) : Prop :=
  ∀ s frame' s', kinds.mem s.current.kind = true → Follows C rule [] s frame' s' →
    ∃ piece, p.Matches (Derives ebnf) s.flow [piece] ∧ frame' = [piece]

end Session

/-! ### Computing the answers -/

namespace Rule

open Phrase

/-- The kinds of the current token with which a rule may end without taking a token, if calls of
the names that are not quiet take one. -/
def passive (quiet : Nonterminal → Bool) : Rule → KindSet → KindSet
  | .seq first second, kinds => second.passive quiet (first.passive quiet kinds)
  | .shift _, _ | .refuse _ _, _ => .empty
  | .call name _, kinds => if quiet name then kinds else .empty
  | .branch test yes no, kinds =>
    match test.kinds? with
    | some set =>
      (yes.passive quiet (kinds.inter set)).union (no.passive quiet (kinds.inter set.compl))
    | none => (yes.passive quiet kinds).union (no.passive quiet kinds)
  | .within _ body, kinds => body.passive quiet kinds
  | _, kinds => kinds

/-- The kinds of the current token when the rule ends with its first token taken. -/
def pauses : Rule → KindSet
  | .seq (.shift _) rest => rest.passive Nonterminal.startsBlindly .full
  | _ => .full

/-- The kinds of the current token after a phrase. -/
def after (kinds : KindSet) : Phrase → KindSet
  | .needs _ => kinds
  | _ => .full

/-- Whether a branch demands a body or a word where the phrase does, and else gives up. -/
def guards : Test → Rule → Rule → Phrase → Bool
  | .inLoop, .done, .refuse _ _, p => p.cases.any fun | .needs .loop => true | _ => false
  | .inFunction, .done, .refuse _ _, p => p.cases.any fun | .needs .function => true | _ => false
  | .onName spelling, .shift field, .refuse _ _, p =>
    p.cases.any fun
      | .word field' spelling' => field = field' && spelling = spelling'
      | _ => false
  | _, _, _, _ => false

/-- Whether a rule reads a part of a node that is as the phrase says. -/
def sounds : Rule → KindSet → Phrase → Bool
  | .done, _, p => p.cases.any fun | .nil => true | _ => false
  | .refuse _ _, _, _ => true
  | .shift field, kinds, p =>
    p.cases.any fun
      | .leaf field' list => field = field' && kinds.subset (.ofList list)
      | _ => false
  | .call name field, kinds, p =>
    name != .matchStatement && kinds.subset name.entry && p.cases.any fun
      | .part field' name' => field = field' && name = name'
      | _ => false
  | .seq first second, kinds, p =>
    p.cases.any fun
      | .seq p q => first.sounds kinds p && second.sounds (after kinds p) q
      | _ => false
  | .branch test yes no, kinds, p =>
    match test.kinds? with
    | some set =>
      (kinds.disjoint set || yes.sounds (kinds.inter set) p) &&
        (kinds.subset set || no.sounds (kinds.inter set.compl) p)
    | none => guards test yes no p
  | .loop test body, kinds, p =>
    match test.kinds? with
    | some set =>
      p.cases.any fun
        | .many q => body.sounds set q
        | .atLeastOne q => kinds.subset set && body.sounds set q
        | .further field list q =>
          body.sounds set (.seq (.leaf field list) (.seq (.alt q .nil) .nil)) && body.pauses.disjoint set
        | _ => false
    | none => false
  | .within scope body, kinds, p =>
    p.cases.any fun
      | .inside scope' q => scope = scope' && body.sounds kinds q
      | _ => false
  | _, _, _ => false

/-- Whether a rule makes of all pieces one node, which is completed as the phrase says. -/
def soundsTrees : Rule → KindSet → Phrase → Bool
  | .branch test yes no, kinds, p =>
    match test.kinds? with
    | some set =>
      (kinds.disjoint set || yes.soundsTrees (kinds.inter set) p) &&
        (kinds.subset set || no.soundsTrees (kinds.inter set.compl) p)
    | none => false
  | .seq first second, kinds, p =>
    p.cases.any fun
      | .tree .left kind .nil => first = .reduce kind && second = .done
      | .tree .left kind (.seq q q') =>
        first.sounds kinds q && second.soundsTrees (after kinds q) (.tree .left kind q')
      | _ => false
  | .refuse _ _, _, _ => true
  | _, _, _ => false

/-- Whether a rule reads a whole tree that is as the phrase says. -/
def soundsWhole : Rule → KindSet → Phrase → Bool
  | .branch test yes no, kinds, p =>
    match test.kinds? with
    | some set =>
      (kinds.disjoint set || yes.soundsWhole (kinds.inter set) p) &&
        (kinds.subset set || no.soundsWhole (kinds.inter set.compl) p)
    | none => false
  | .call name field, kinds, p => (call name field).sounds kinds p
  | .seq (.call name field) (.seq (.branch test tail .done) .done), kinds, p =>
    (call name field).sounds kinds p &&
      match test.kinds? with
      | some set => tail.soundsTrees set (p.tails field name)
      | none => false
  | rule, kinds, p => rule.soundsTrees kinds p

/-- Whether a rule reads operands with operators between them, grouped to the left, as the phrase
of `self` says. -/
def soundsChain (self : Nonterminal) : Rule → KindSet → Bool
  | .seq (.call operand .left) (.seq (.loop test body) .done), kinds =>
    (call operand .left).sounds kinds (ebnf self) &&
      match test.kinds? with
      | some set => body.soundsTrees set ((ebnf self).tails .left self)
      | none => false
  | _, _ => false

end Rule

/-! ### What the answers mean -/

namespace Session

open Phrase Rule

variable {σ : Type} [Cursor σ] {C : Nonterminal → Session σ → Frame → Session σ → Prop}

/-- Following a rule keeps the bodies in which the session stands. -/
theorem CallsSound.flow_eq (calls : CallsSound C) {rule : Rule} {frame frame' : Frame}
    {s s' : Session σ} (h : Follows C rule frame s frame' s') : s'.flow = s.flow :=
  (follows_path calls.passed h).flow

/-- A rule that takes no token ends at a token of one of the computed kinds. -/
theorem follows_passive {quiet : Nonterminal → Bool}
    (passed : ∀ name s pieces t, C name s pieces t → Passed [] s pieces t)
    (takes : ∀ name s pieces t, C name s pieces t → quiet name = false → pieces.tokens ≠ [])
    {rule : Rule} {kinds : KindSet} {frame frame' : Frame} {s s' : Session σ}
    (mem : kinds.mem s.current.kind = true) (h : Follows C rule frame s frame' s')
    (still : frame'.tokens = frame.tokens) :
    s'.cursor = s.cursor ∧ (rule.passive quiet kinds).mem s.current.kind = true := by
  have stays : s'.cursor = s.cursor := by
    obtain ⟨-, tokens, path, gained⟩ := follows_path passed h
    rw [still] at gained
    rw [List.append_right_eq_self.1 gained.symm] at path
    exact Path.nil_iff.1 path
  refine ⟨stays, ?_⟩
  induction rule generalizing kinds frame s frame' s' with
  | seq first second ih ih' =>
      obtain ⟨middle, t, one, two⟩ := h
      obtain ⟨-, front, path, gained⟩ := follows_path passed one
      obtain ⟨-, back, path', gained'⟩ := follows_path passed two
      have none_taken : front = [] ∧ back = [] := by
        rw [gained', gained, List.append_assoc] at still
        exact List.append_eq_nil_iff.1 (List.append_right_eq_self.1 still)
      rw [none_taken.1, List.append_nil] at gained
      rw [none_taken.2, List.append_nil] at gained'
      rw [none_taken.1, Path.nil_iff] at path
      rw [none_taken.2, Path.nil_iff] at path'
      have same : t.current = s.current := congrArg Cursor.current path
      rw [← same]
      exact ih' (by rw [same]; exact ih mem one gained path) two gained' path'
  | shift field =>
      obtain ⟨token, -, rfl⟩ := h
      simp at still
  | branch test yes no ih ih' =>
      unfold Rule.passive
      cases eq : test.kinds? with
      | some set =>
          dsimp only
          rcases h with ⟨holds, one⟩ | ⟨fails, two⟩
          · rw [answers_of_kinds? eq] at holds
            have both : (kinds.inter set).mem s.current.kind = true := by simp [mem, holds]
            simp [ih both one still stays]
          · rw [answers_of_kinds? eq] at fails
            have both : (kinds.inter set.compl).mem s.current.kind = true := by
              simp [mem, fails]
            simp [ih' both two still stays]
      | none =>
          dsimp only
          rcases h with ⟨-, one⟩ | ⟨-, two⟩
          · simp [ih mem one still stays]
          · simp [ih' mem two still stays]
  | within scope body ih =>
      obtain ⟨t, one, rfl⟩ := h
      exact ih (s := s.withFlow (s.flow.enter scope)) mem one still stays
  | call name field =>
      unfold Rule.passive
      split
      · exact mem
      · rename_i looks
        obtain ⟨pieces, called, rfl⟩ := h
        rw [Frame.tokens_append, Frame.tokens_map] at still
        exact absurd (List.append_right_eq_self.1 still)
          (takes _ _ _ _ called (by simpa using looks))
  | refuse complaint place => exact h.elim
  | _ => exact mem

/-- Calls of names that look at their first token take one. -/
theorem CallsSound.passive (calls : CallsSound C) {rule : Rule} {kinds : KindSet}
    {frame frame' : Frame} {s s' : Session σ} (mem : kinds.mem s.current.kind = true)
    (h : Follows C rule frame s frame' s') (still : frame'.tokens = frame.tokens) :
    s'.cursor = s.cursor ∧
      (rule.passive Nonterminal.startsBlindly kinds).mem s.current.kind = true := by
  refine follows_passive calls.passed ?_ mem h still
  intro name s pieces t called looks
  obtain ⟨_, tree, rfl, derived⟩ :=
    calls.derived _ _ _ _ called (Nonterminal.enters_of_looks looks _)
  obtain ⟨token, rest, eq, -⟩ := derived.begins
  simp [eq]

/-- An answer computed for one of the alternatives. -/
theorem exists_case_of_any {p : Phrase} {check : Phrase → Bool} (h : p.cases.any check = true) :
    ∃ q ∈ p.cases, check q = true := List.any_eq_true.1 h

/-- The token that is taken is as a phrase says. -/
theorem Takes.kind {s t : Session σ} {token : Token} (h : s.Takes token t) :
    token.kind = s.current.kind := by rw [h.1]

/-- Going on after a phrase. -/
theorem CallsSound.after (calls : CallsSound C) {rule : Rule} {kinds : KindSet} {p : Phrase}
    {frame frame' : Frame} {s s' : Session σ} {children : List Child}
    (mem : kinds.mem s.current.kind = true) (h : Follows C rule frame s frame' s')
    (matched : p.Matches (Derives ebnf) s.flow children) (eq : frame' = children.reverse ++ frame) :
    (Rule.after kinds p).mem s'.current.kind = true := by
  unfold Rule.after
  split
  · obtain ⟨-, rfl⟩ := Matches.needs_iff.1 matched
    have stays := (calls.passive mem h (by rw [eq]; rfl)).1
    have same : s'.current = s.current := congrArg Cursor.current stays
    rw [same]
    exact mem
  · exact KindSet.mem_full _

/-- A loop whose rounds read what a phrase describes reads any number of them. -/
theorem CallsSound.many (calls : CallsSound C) {test : Test} {set : KindSet} {body : Rule}
    {q : Phrase} {frame frame' : Frame} {s s' : Session σ} (eq : test.kinds? = some set)
    (sound : Sound C body set q)
    (h : Loops (fun frame s => s.answers frame test) (Follows C body) frame s frame' s') :
    ∃ children, (Phrase.many q).Matches (Derives ebnf) s.flow children ∧
      frame' = children.reverse ++ frame := by
  induction h with
  | stop _ => exact ⟨[], .stop, rfl⟩
  | round holds once _ ih =>
      rw [answers_of_kinds? eq] at holds
      obtain ⟨front, matched, rfl⟩ := sound _ _ _ _ holds once
      obtain ⟨back, matched', rfl⟩ := ih
      rw [calls.flow_eq once] at matched'
      exact ⟨front ++ back, .more matched matched', by simp⟩

/-- A loop whose rounds read a separator, and after it an element or nothing, reads a list. -/
theorem CallsSound.further (calls : CallsSound C) {test : Test} {set : KindSet} {body : Rule}
    {field : Field} {separators : List TokenKind} {q : Phrase} {frame frame' : Frame}
    {s s' : Session σ} (eq : test.kinds? = some set)
    (sound : Sound C body set (.seq (.leaf field separators) (.seq (.alt q .nil) .nil)))
    (pauses : body.pauses.disjoint set = true)
    (h : Loops (fun frame s => s.answers frame test) (Follows C body) frame s frame' s') :
    ∃ children, (Phrase.further field separators q).Matches (Derives ebnf) s.flow children ∧
      frame' = children.reverse ++ frame := by
  induction h with
  | stop _ => exact ⟨[], .noFurther, rfl⟩
  | @round frame frame₁ frame₂ s t u holds once rest ih =>
      rw [answers_of_kinds? eq] at holds
      obtain ⟨children, matched, rfl⟩ := sound _ _ _ _ holds once
      obtain ⟨separator, front, one, two, rfl⟩ := Matches.seq_iff.1 matched
      obtain ⟨token, mem, rfl⟩ := Matches.leaf_iff.1 one
      obtain ⟨front, _, optional, ended, rfl⟩ := Matches.seq_iff.1 two
      obtain rfl := Matches.nil_iff.1 ended
      rw [List.append_nil] at once rest ih
      rcases Matches.alt_iff.1 optional with element | nothing
      · obtain ⟨back, matched', rfl⟩ := ih
        rw [calls.flow_eq once] at matched'
        exact ⟨_, .further mem element matched', by simp⟩
      · rw [Matches.nil_iff] at nothing
        subst nothing
        -- After a separator alone the loop ends: no token that it goes on with can follow.
        have ended : set.mem t.current.kind = false := by
          refine KindSet.not_mem_of_disjoint pauses ?_
          unfold Rule.pauses
          split
          · rename_i body field' rest
            obtain ⟨middle, v, ⟨token', -, rfl⟩, after⟩ := once
            obtain ⟨stays, passive⟩ := calls.passive (KindSet.mem_full _) after (by
              obtain ⟨-, tokens, -, gained⟩ := follows_path calls.passed after
              have length := congrArg List.length gained
              simp only [List.append_nil, List.reverse_cons, List.reverse_nil, List.nil_append,
                List.singleton_append, Frame.tokens_cons, Tree.tokens_leaf, List.length_append,
                List.length_cons, List.length_nil] at length
              rw [gained, List.eq_nil_of_length_eq_zero (by omega : tokens.length = 0),
                List.append_nil])
            have same : t.current = v.current := congrArg Cursor.current stays
            rw [same]
            exact passive
          · exact KindSet.mem_full _
        cases rest with
        | stop _ => exact ⟨_, .lastSeparator mem, by simp⟩
        | round again _ _ =>
            rw [answers_of_kinds? eq, ended] at again
            cases again

/-- A branch on the current token, with an answer computed for each way that can be taken. -/
theorem follows_branch {test : Test} {set kinds : KindSet} {yes no : Rule} {frame frame' : Frame}
    {s s' : Session σ} {yesChecked noChecked : Bool} (eq : test.kinds? = some set)
    (checked : ((kinds.disjoint set || yesChecked) && (kinds.subset set || noChecked)) = true)
    (mem : kinds.mem s.current.kind = true)
    (h : Follows C (.branch test yes no) frame s frame' s') :
    (yesChecked = true ∧ (kinds.inter set).mem s.current.kind = true ∧
        Follows C yes frame s frame' s') ∨
      (noChecked = true ∧ (kinds.inter set.compl).mem s.current.kind = true ∧
        Follows C no frame s frame' s') := by
  simp only [Bool.and_eq_true, Bool.or_eq_true] at checked
  rcases h with ⟨holds, one⟩ | ⟨fails, two⟩
  · rw [answers_of_kinds? eq] at holds
    rcases checked.1 with disjoint | checked
    · rw [KindSet.not_mem_of_disjoint disjoint mem] at holds
      cases holds
    · exact Or.inl ⟨checked, by simp [mem, holds], one⟩
  · rw [answers_of_kinds? eq] at fails
    rcases checked.2 with subset | checked
    · rw [KindSet.mem_of_subset subset mem] at fails
      cases fails
    · exact Or.inr ⟨checked, by simp [mem, fails], two⟩

/-- A branch that demands a body or a word reads what the phrase describes. -/
theorem sound_of_guards {test : Test} {yes no : Rule} {p : Phrase} {frame frame' : Frame}
    {s s' : Session σ} (checked : guards test yes no p = true)
    (h : Follows C (.branch test yes no) frame s frame' s') :
    ∃ children, p.Matches (Derives ebnf) s.flow children ∧ frame' = children.reverse ++ frame := by
  unfold guards at checked
  split at checked
  · obtain ⟨q, case, checked⟩ := exists_case_of_any checked
    split at checked
    · rcases h with ⟨holds, rfl, -⟩ | ⟨-, refused⟩
      · exact ⟨[], .of_case case (.needs holds), rfl⟩
      · exact refused.elim
    · cases checked
  · obtain ⟨q, case, checked⟩ := exists_case_of_any checked
    split at checked
    · rcases h with ⟨holds, rfl, -⟩ | ⟨-, refused⟩
      · exact ⟨[], .of_case case (.needs holds), rfl⟩
      · exact refused.elim
    · cases checked
  · obtain ⟨q, case, checked⟩ := exists_case_of_any checked
    split at checked
    · simp only [Bool.and_eq_true, decide_eq_true_eq] at checked
      obtain ⟨rfl, rfl⟩ := checked
      rcases h with ⟨holds, token, taken, rfl⟩ | ⟨-, refused⟩
      · refine ⟨[(_, .leaf token)], .of_case case (.word ?_), rfl⟩
        rw [← taken.1]
        exact holds
      · exact refused.elim
    · cases checked
  · cases checked

/-- A call that is found sound adds one tree that is as the phrase describes. -/
theorem CallsSound.call (calls : CallsSound C) {name : Nonterminal} {field : Field}
    {kinds : KindSet} {p : Phrase} {frame frame' : Frame} {s s' : Session σ}
    (checked : (Rule.call name field).sounds kinds p = true)
    (mem : kinds.mem s.current.kind = true) (h : Follows C (.call name field) frame s frame' s') :
    ∃ tree, Derives ebnf s.flow name tree ∧
      p.Matches (Derives ebnf) s.flow [(field, tree)] ∧ frame' = (field, tree) :: frame := by
  simp only [Rule.sounds, Bool.and_eq_true, bne_iff_ne, ne_eq] at checked
  obtain ⟨⟨ne, subset⟩, checked⟩ := checked
  obtain ⟨q, case, checked⟩ := exists_case_of_any checked
  split at checked
  · simp only [Bool.and_eq_true, decide_eq_true_eq] at checked
    obtain ⟨rfl, rfl⟩ := checked
    obtain ⟨pieces, called, rfl⟩ := h
    obtain ⟨_, tree, rfl, derived⟩ := calls.derived _ _ _ _ called
      (Nonterminal.enters_of_mem ne (KindSet.mem_of_subset subset mem))
    exact ⟨tree, derived, .of_case case (.part derived), rfl⟩
  · cases checked

/-- **A rule that is found sound reads what the phrase describes.** -/
theorem sound_of_sounds (calls : CallsSound C) {rule : Rule} {kinds : KindSet} {p : Phrase}
    (checked : rule.sounds kinds p = true) : Sound C rule kinds p := by
  intro frame s frame' s' mem h
  induction rule generalizing kinds p frame s frame' s' with
  | done =>
      obtain ⟨q, case, checked⟩ := exists_case_of_any checked
      split at checked
      · obtain ⟨rfl, -⟩ := h
        exact ⟨[], .of_case case .nil, rfl⟩
      · cases checked
  | refuse complaint place => exact h.elim
  | shift field =>
      obtain ⟨q, case, checked⟩ := exists_case_of_any checked
      split at checked
      · rename_i field' list
        simp only [Bool.and_eq_true, decide_eq_true_eq] at checked
        obtain ⟨rfl, subset⟩ := checked
        obtain ⟨token, taken, rfl⟩ := h
        refine ⟨[(field, .leaf token)], .of_case case (.leaf ?_), rfl⟩
        rw [← KindSet.mem_ofList, taken.kind]
        exact KindSet.mem_of_subset subset mem
      · cases checked
  | call name field =>
      obtain ⟨tree, -, matched, rfl⟩ := calls.call checked mem h
      exact ⟨[(field, tree)], matched, rfl⟩
  | seq first second ih ih' =>
      obtain ⟨q, case, checked⟩ := exists_case_of_any checked
      split at checked
      · rename_i p q
        simp only [Bool.and_eq_true] at checked
        obtain ⟨middle, t, one, two⟩ := h
        obtain ⟨front, matched, eq⟩ := ih checked.1 _ _ _ _ mem one
        obtain ⟨back, matched', rfl⟩ := ih' checked.2 _ _ _ _ (calls.after mem one matched eq) two
        rw [calls.flow_eq one] at matched'
        exact ⟨front ++ back, .of_case case (.seq matched matched'), by simp [eq]⟩
      · cases checked
  | branch test yes no ih ih' =>
      unfold Rule.sounds at checked
      split at checked
      · rename_i set eq
        rcases follows_branch eq checked mem h with ⟨checked, mem, one⟩ | ⟨checked, mem, two⟩
        · exact ih checked _ _ _ _ mem one
        · exact ih' checked _ _ _ _ mem two
      · exact sound_of_guards checked h
  | loop test body ih =>
      unfold Rule.sounds at checked
      split at checked
      · rename_i set eq
        -- The phrase says which rounds there are: any number, one at least, or those of a list.
        obtain ⟨q, case, checked⟩ := exists_case_of_any checked
        split at checked
        · obtain ⟨children, matched, rfl⟩ := calls.many eq
            (fun _ _ _ _ => ih checked _ _ _ _) h
          exact ⟨children, .of_case case matched, rfl⟩
        · simp only [Bool.and_eq_true] at checked
          obtain ⟨subset, checked⟩ := checked
          cases h with
          | stop fails =>
              rw [answers_of_kinds? eq, KindSet.mem_of_subset subset mem] at fails
              cases fails
          | round holds once rest =>
              rw [answers_of_kinds? eq] at holds
              obtain ⟨front, first, rfl⟩ := ih checked _ _ _ _ holds once
              obtain ⟨back, more, rfl⟩ := calls.many eq (fun _ _ _ _ => ih checked _ _ _ _) rest
              rw [calls.flow_eq once] at more
              exact ⟨front ++ back, .of_case case (.atLeastOne first more), by simp⟩
        · simp only [Bool.and_eq_true] at checked
          obtain ⟨children, matched, rfl⟩ := calls.further eq
            (fun _ _ _ _ => ih checked.1 _ _ _ _) checked.2 h
          exact ⟨children, .of_case case matched, rfl⟩
        · cases checked
      · cases checked
  | within scope body ih =>
      obtain ⟨q, case, checked⟩ := exists_case_of_any checked
      split at checked
      · rename_i scope' q
        simp only [Bool.and_eq_true, decide_eq_true_eq] at checked
        obtain ⟨rfl, checked⟩ := checked
        obtain ⟨t, one, rfl⟩ := h
        have entered : kinds.mem (s.withFlow (s.flow.enter scope)).current.kind = true := mem
        obtain ⟨children, matched, eq⟩ := ih checked _ _ _ _ entered one
        exact ⟨children, .of_case case (.inside matched), eq⟩
      · cases checked
  | _ => cases checked

/-- **A rule that is found sound for trees completes a node as the phrase describes.** -/
theorem soundTrees_of_soundsTrees (calls : CallsSound C) {rule : Rule} {kinds : KindSet}
    {p : Phrase} (checked : rule.soundsTrees kinds p = true) : SoundTrees C rule kinds p := by
  intro frame s frame' s' mem h
  induction rule generalizing kinds p frame s frame' s' with
  | branch test yes no ih ih' =>
      unfold Rule.soundsTrees at checked
      split at checked
      · rename_i set eq
        rcases follows_branch eq checked mem h with ⟨checked, mem, one⟩ | ⟨checked, mem, two⟩
        · exact ih checked _ _ _ _ mem one
        · exact ih' checked _ _ _ _ mem two
      · cases checked
  | seq first second ih ih' =>
      obtain ⟨q, case, checked⟩ := exists_case_of_any checked
      obtain ⟨middle, t, one, two⟩ := h
      split at checked
      · rename_i kind
        simp only [Bool.and_eq_true, decide_eq_true_eq] at checked
        obtain ⟨rfl, rfl⟩ := checked
        obtain ⟨rfl, rfl⟩ := one
        obtain ⟨rfl, rfl⟩ := two
        exact ⟨_, ⟨kind, .nil, _, _, [], case, .nil, by rw [List.append_nil]; rfl⟩, rfl⟩
      · rename_i kind q q'
        simp only [Bool.and_eq_true] at checked
        obtain ⟨front, matched, rfl⟩ := sound_of_sounds calls checked.1 _ _ _ _ mem one
        obtain ⟨piece, ⟨kind', inner, start, stop, back, case', matched', rfl⟩, rfl⟩ :=
          ih' checked.2 _ _ _ _ (calls.after mem one matched rfl) two
        cases List.mem_singleton.1 case'
        rw [calls.flow_eq one] at matched'
        exact ⟨_, ⟨kind, _, start, stop, front ++ back, case, .seq matched matched',
          by simp⟩, rfl⟩
      · cases checked
  | refuse complaint place => exact h.elim
  | _ => cases checked

/-- **A rule that is found sound as a whole reads a tree that is as the phrase describes.** -/
theorem soundWhole_of_soundsWhole (calls : CallsSound C) {rule : Rule} {kinds : KindSet}
    {p : Phrase} (checked : rule.soundsWhole kinds p = true) : SoundWhole C rule kinds p := by
  intro s frame' s' mem h
  induction rule generalizing kinds p s frame' s' with
  | branch test yes no ih ih' =>
      unfold Rule.soundsWhole at checked
      split at checked
      · rename_i set eq
        rcases follows_branch eq checked mem h with ⟨checked, mem, one⟩ | ⟨checked, mem, two⟩
        · exact ih checked _ _ _ mem one
        · exact ih' checked _ _ _ mem two
      · cases checked
  | call name field =>
      obtain ⟨tree, -, matched, rfl⟩ := calls.call checked mem h
      exact ⟨(field, tree), matched, rfl⟩
  | seq first second _ _ =>
      unfold Rule.soundsWhole at checked
      split at checked
      · contradiction
      · contradiction
      · rename_i name field test tail eq
        cases eq
        simp only [Bool.and_eq_true] at checked
        obtain ⟨middle, t, one, frame'', u, two, rfl, rfl⟩ := h
        obtain ⟨tree, derived, matched, rfl⟩ := calls.call checked.1 mem one
        rcases two with ⟨holds, tailed⟩ | ⟨-, rfl, -⟩
        · obtain ⟨-, tailChecked⟩ := checked
          split at tailChecked
          · rename_i set eq
            rw [answers_of_kinds? eq] at holds
            obtain ⟨piece, wraps, rfl⟩ :=
              soundTrees_of_soundsTrees calls tailChecked _ _ _ _ holds tailed
            rw [calls.flow_eq one] at wraps
            exact ⟨piece, wraps.of_tails derived, rfl⟩
          · cases tailChecked
        · exact ⟨_, matched, rfl⟩
      · obtain ⟨piece, wraps, rfl⟩ := soundTrees_of_soundsTrees calls checked _ _ _ _ mem h
        exact ⟨piece, wraps.matches, rfl⟩
  | _ =>
      obtain ⟨piece, wraps, rfl⟩ := soundTrees_of_soundsTrees calls checked _ _ _ _ mem h
      exact ⟨piece, wraps.matches, rfl⟩

/-- An operand and rounds that each complete a tree with what has been read as its left operand. -/
theorem CallsSound.chain (calls : CallsSound C) {self operand : Nonterminal} {test : Test}
    {body : Rule} {kinds set : KindSet}
    (first : (Rule.call operand .left).sounds kinds (ebnf self) = true)
    (eq : test.kinds? = some set)
    (sound : SoundTrees C body set ((ebnf self).tails .left self)) :
    SoundWhole C (steps [.call operand .left, .loop test body]) kinds (ebnf self) := by
  rintro s frame' s' mem ⟨middle, t, one, frame'', u, two, rfl, rfl⟩
  obtain ⟨tree, -, matched, rfl⟩ := calls.call first mem one
  rw [← calls.flow_eq one] at matched ⊢
  change Loops (fun frame s => s.answers frame test) (Follows C body) [(.left, tree)] t frame'
    s' at two
  clear one
  -- Each round makes a tree of the same name of the one that has been read.
  generalize eq' : [(Field.left, tree)] = frame at two
  induction two generalizing tree with
  | stop _ => exact ⟨_, matched, eq'.symm⟩
  | round holds once _ ih =>
      subst eq'
      rw [answers_of_kinds? eq] at holds
      obtain ⟨piece, wraps, rfl⟩ := sound _ _ _ _ holds once
      have whole := wraps.of_tails (.intro matched)
      obtain ⟨kind, inner, start, stop, children, -, -, rfl⟩ := wraps
      rw [← calls.flow_eq once] at whole ⊢
      exact ih _ whole rfl

/-- **A rule that is found sound as a chain reads a tree that is as the phrase describes.** -/
theorem soundWhole_of_soundsChain (calls : CallsSound C) {self : Nonterminal} {rule : Rule}
    {kinds : KindSet} (checked : rule.soundsChain self kinds = true) :
    SoundWhole C rule kinds (ebnf self) := by
  unfold Rule.soundsChain at checked
  split at checked
  · simp only [Bool.and_eq_true] at checked
    obtain ⟨first, checked⟩ := checked
    split at checked
    · rename_i set eq
      exact calls.chain first eq (soundTrees_of_soundsTrees calls checked)
    · cases checked
  · cases checked

/-- The ways of a branch on the current token are sound. -/
theorem SoundTrees.branch {test : Test} {set kinds : KindSet} {yes no : Rule} {p : Phrase}
    (eq : test.kinds? = some set) (yesSound : SoundTrees C yes (kinds.inter set) p)
    (noSound : SoundTrees C no (kinds.inter set.compl) p) :
    SoundTrees C (.branch test yes no) kinds p := by
  rintro frame s frame' s' mem (⟨holds, one⟩ | ⟨fails, two⟩)
  · rw [answers_of_kinds? eq] at holds
    exact yesSound _ _ _ _ (by simp [mem, holds]) one
  · rw [answers_of_kinds? eq] at fails
    exact noSound _ _ _ _ (by simp [mem, fails]) two

theorem SoundWhole.branch {test : Test} {set kinds : KindSet} {yes no : Rule} {p : Phrase}
    (eq : test.kinds? = some set) (yesSound : SoundWhole C yes (kinds.inter set) p)
    (noSound : SoundWhole C no (kinds.inter set.compl) p) :
    SoundWhole C (.branch test yes no) kinds p := by
  rintro s frame' s' mem (⟨holds, one⟩ | ⟨fails, two⟩)
  · rw [answers_of_kinds? eq] at holds
    exact yesSound _ _ _ (by simp [mem, holds]) one
  · rw [answers_of_kinds? eq] at fails
    exact noSound _ _ _ (by simp [mem, fails]) two

/-- What is sound from some kinds is sound from fewer. -/
theorem SoundTrees.mono {rule : Rule} {kinds kinds' : KindSet} {p : Phrase}
    (h : SoundTrees C rule kinds' p) (subset : kinds.subset kinds' = true) :
    SoundTrees C rule kinds p :=
  fun frame s frame' s' mem followed =>
    h frame s frame' s' (KindSet.mem_of_subset subset mem) followed

/-- A rule that no token enters is sound. -/
theorem SoundTrees.of_empty (rule : Rule) {kinds : KindSet} (p : Phrase)
    (none : kinds.subset .empty = true) : SoundTrees C rule kinds p := by
  intro frame s frame' s' mem _
  have impossible := KindSet.mem_of_subset none mem
  rw [KindSet.mem_empty] at impossible
  cases impossible

/-- A rule that is found sound for one tree completes that tree. -/
theorem CallsSound.tree (calls : CallsSound C) (kinds : KindSet) (kind : NodeKind)
    (inner : Phrase) {rule : Rule} {frame frame' : Frame} {s s' : Session σ}
    (checked : rule.soundsTrees kinds (.tree .left kind inner) = true)
    (mem : kinds.mem s.current.kind = true) (h : Follows C rule frame s frame' s') :
    ∃ start stop children, inner.Matches (Derives ebnf) s.flow children ∧
      frame' = [(.left, .node kind start stop (frame.reverse ++ children))] := by
  obtain ⟨piece, ⟨kind', inner', start, stop, children, case, matched, rfl⟩, rfl⟩ :=
    soundTrees_of_soundsTrees calls checked _ _ _ _ mem h
  cases List.mem_singleton.1 case
  exact ⟨start, stop, children, matched, rfl⟩

end Session

end PythonSyntax
