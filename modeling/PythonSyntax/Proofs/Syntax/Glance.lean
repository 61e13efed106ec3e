/-
**Brackets and colons on a logical line.**

Whether a name begins a statement with a block is decided by a look at the rest of its line: it does
if the line ends with a colon outside all brackets.  What stands on a line by the grammar closes the
brackets that it opens, and leaves no such colon behind.

Main definitions:

* `PythonSyntax.Lookahead.meetAll` — looking at some tokens of a line;
* `PythonSyntax.Glance` — brackets and colons, counted from where a phrase begins;
* `PythonSyntax.Phrase.glance` — what a phrase does to them;
* `PythonSyntax.Nonterminal.inline` — the names of what stands on one line.

Main results:

* `PythonSyntax.Lookahead.ofTokens_append` — looking ahead is looking at the tokens of the line;
* `PythonSyntax.Phrase.Matches.glance` — what is computed of a phrase holds of its tokens;
* `PythonSyntax.Derives.glance` — **what stands on one line is balanced**.
-/

import PythonSyntax.Proofs.Syntax.Heads
import PythonSyntax.Lexical.Lookahead

set_option autoImplicit false

namespace PythonSyntax

/-! ### Looking at some tokens -/

/-- A token of the kind stands on a logical line, not at its end. -/
def TokenKind.onLine (kind : TokenKind) : Bool := kind != .newline && kind != .eof

namespace Lookahead

/-- Looking at one token.  A comment that declares a type does not count. -/
def meetOne (look : Lookahead) (token : Token) : Lookahead :=
  if token.kind = .typeComment then look else look.meetToken token.kind

/-- Looking at some tokens. -/
def meetAll (look : Lookahead) (tokens : List Token) : Lookahead := tokens.foldl meetOne look

variable {look : Lookahead} {tokens : List Token}

@[simp] theorem meetAll_nil (look : Lookahead) : look.meetAll [] = look := rfl

@[simp] theorem meetAll_cons (look : Lookahead) (token : Token) (tokens : List Token) :
    look.meetAll (token :: tokens) = (look.meetOne token).meetAll tokens := rfl

theorem meetAll_append (look : Lookahead) (first second : List Token) :
    look.meetAll (first ++ second) = (look.meetAll first).meetAll second :=
  List.foldl_append

/-- Pieces only become more. -/
theorem pieces_le_meetAll (look : Lookahead) (tokens : List Token) :
    look.pieces ≤ (look.meetAll tokens).pieces := by
  induction tokens generalizing look with
  | nil => exact Nat.le_refl _
  | cons token rest ih =>
      refine Nat.le_trans ?_ (ih (look.meetOne token))
      unfold meetOne meetToken meet
      split <;> simp

/-- How many pieces there have been makes no difference to brackets and colons. -/
theorem meetAll_congr (look other : Lookahead) (depth : look.depth = other.depth)
    (colon : look.colon = other.colon) :
    (look.meetAll tokens).depth = (other.meetAll tokens).depth ∧
      (look.meetAll tokens).colon = (other.meetAll tokens).colon := by
  induction tokens generalizing look other with
  | nil => exact ⟨depth, colon⟩
  | cons token rest ih =>
      refine ih _ _ ?_ ?_ <;> unfold meetOne meetToken meet <;> split <;> simp [depth, colon]

/-- What stands on the line is met token by token. -/
theorem ofTokens_onLine {rest : List Token}
    (onLine : ∀ token ∈ tokens, token.kind.onLine = true) :
    ofTokens look (tokens ++ rest) = ofTokens (look.meetAll tokens) rest := by
  induction tokens generalizing look with
  | nil => rfl
  | cons token front ih =>
      have inside := onLine token List.mem_cons_self
      simp only [TokenKind.onLine, Bool.and_eq_true, bne_iff_ne] at inside
      have later : ofTokens (look.meetOne token) (front ++ rest) =
          ofTokens ((look.meetOne token).meetAll front) rest :=
        ih fun other mem => onLine other (List.mem_cons_of_mem _ mem)
      rw [List.cons_append, ofTokens, meetAll_cons]
      by_cases comment : token.kind = .typeComment
      · simpa [inside.1, inside.2, comment, meetOne] using later
      · simpa [inside.1, inside.2, comment, meetOne] using later

/-- **Looking ahead is looking at the tokens of the line**, if all brackets are closed at its end. -/
theorem ofTokens_append {last : Token} {rest : List Token}
    (onLine : ∀ token ∈ tokens, token.kind.onLine = true) (ends : last.kind.onLine = false)
    (closed : (look.meetAll tokens).depth = 0) :
    ofTokens look (tokens ++ last :: rest) = look.meetAll tokens := by
  have ends' : (last.kind = .newline || last.kind = .eof) = true := by
    simpa [TokenKind.onLine, Decidable.or_iff_not_imp_left] using ends
  rw [ofTokens_onLine onLine]
  simp [ofTokens, ends', closed]

end Lookahead

/-! ### Brackets and colons of a phrase -/

/-- The brackets that are open since some point of a line, and whether the last piece may be a colon
outside of them. -/
structure Glance where
  depth : Nat
  colon : Bool
  deriving DecidableEq, Repr

namespace Glance

/-- What is known of a look at a line with `base` open brackets before. -/
structure Sees (glance : Glance) (base : Nat) (look : Lookahead) : Prop where
  depth : look.depth = base + glance.depth
  colon : look.colon = true → glance.colon = true
  outside : look.colon = true → look.depth = 0

/-- Either of two. -/
def join (one two : Option Glance) : Option Glance :=
  match one, two with
  | some one, some two => if one.depth = two.depth then some ⟨one.depth, one.colon || two.colon⟩
    else none
  | _, _ => none

/-- Nothing is known of the last piece. -/
def forget (glance : Glance) : Glance := ⟨glance.depth, true⟩

/-- What has been done in between is undone, up to the last piece. -/
def repeated (glance : Glance) (after : Option Glance) : Option Glance :=
  match after with
  | some after => if after.depth = glance.depth then some
    ⟨glance.depth, glance.colon || after.colon⟩ else none
  | none => none

variable {glance other result : Glance} {base : Nat} {look : Lookahead}

theorem Sees.mono (h : glance.Sees base look) (depth : other.depth = glance.depth)
    (colon : glance.colon = true → other.colon = true) : other.Sees base look :=
  ⟨by rw [h.depth, depth], fun is => colon (h.colon is), h.outside⟩

theorem Sees.forget (h : glance.Sees base look) : glance.forget.Sees base look :=
  h.mono rfl fun _ => rfl

/-- Either of two is known if one of them is. -/
theorem join_eq_some {one two : Option Glance} (h : join one two = some result) :
    ∃ first second, one = some first ∧ two = some second ∧
      (∀ {base look}, first.Sees base look → result.Sees base look) ∧
      (∀ {base look}, second.Sees base look → result.Sees base look) := by
  unfold join at h
  split at h
  · rename_i first second
    split at h
    · rename_i same
      cases h
      refine ⟨first, second, rfl, rfl, fun sees => sees.mono rfl ?_, fun sees => sees.mono same ?_⟩
      · exact fun colon => by simp [colon]
      · exact fun colon => by simp [colon]
    · cases h
  · cases h

theorem repeated_eq_some {after : Option Glance} (h : glance.repeated after = some result) :
    ∃ last, after = some last ∧ last.depth = glance.depth ∧
      result = ⟨glance.depth, glance.colon || last.colon⟩ := by
  unfold repeated at h
  split at h
  · rename_i last
    split at h
    · rename_i same
      cases h
      exact ⟨last, rfl, same, rfl⟩
    · cases h
  · cases h

/-- Repeating more often changes nothing. -/
theorem repeated_again {after : Option Glance} (h : glance.repeated after = some result) :
    result.repeated after = some result ∧ result.forget = glance.forget := by
  obtain ⟨last, rfl, depth, rfl⟩ := repeated_eq_some h
  simp [repeated, depth, forget]

theorem repeated_before {one two : Option Glance} (h : glance.repeated one = some other)
    (h' : other.repeated two = some result) : result.repeated one = some result := by
  obtain ⟨first, rfl, depth, rfl⟩ := repeated_eq_some h
  obtain ⟨second, rfl, -, rfl⟩ := repeated_eq_some h'
  simp [repeated, depth, Bool.or_right_comm]

/-- What is known before or after what is repeated is known of the whole. -/
theorem Sees.repeated {last : Glance} (h : glance.repeated (some last) = some result) :
    (glance.Sees base look → result.Sees base look) ∧
      (last.Sees base look → result.Sees base look) := by
  obtain ⟨_, eq, depth, rfl⟩ := repeated_eq_some h
  cases eq
  exact ⟨fun sees => sees.mono rfl fun colon => by simp [colon],
    fun sees => sees.mono depth.symm fun colon => by simp [colon]⟩

end Glance

/-- What a token of a kind does to brackets and colons. -/
def TokenKind.glance (kind : TokenKind) (glance : Glance) : Option Glance :=
  if !kind.onLine then none
  else if kind = .typeComment then some glance
  else if kind.opens then some ⟨glance.depth + 1, false⟩
  else if kind.closes then
    match glance.depth with
    | 0 => none
    | depth + 1 => some ⟨depth, false⟩
  else some ⟨glance.depth, kind = .symbol .colon && glance.depth = 0⟩

/-- What a token of one of the kinds does. -/
def TokenKind.glanceAny (glance : Glance) : List TokenKind → Option Glance
  | [] => none
  | [kind] => kind.glance glance
  | kind :: rest => Glance.join (kind.glance glance) (glanceAny glance rest)

/-- What stands on one line. -/
def Nonterminal.inline : Nonterminal → Bool
  | statement | simpleStatement | suite | ifStatement | elifClause | elseClause | whileStatement
  | forStatement | tryStatement | exceptClause | finallyClause | withStatement | matchStatement
  | caseBlock | decorated | decorators | decorator | asyncStatement | functionDef | classDef =>
    false
  | _ => true

/-- What may end with a colon; it stands in brackets. -/
def Nonterminal.endsInColon : Nonterminal → Bool
  | subscript | subscriptList => true
  | _ => false

namespace Phrase

/-- What a phrase on one line does to brackets and colons. -/
def glance : Phrase → Glance → Option Glance
  | never, glance => some ⟨glance.depth, false⟩
  | nil, glance => some glance
  | needs _, glance => some glance
  | leaf _ kinds, glance => TokenKind.glanceAny glance kinds
  | word _ _, glance => TokenKind.name.glance glance
  | part _ name, glance =>
    if name.inline then some ⟨glance.depth, glance.depth = 0 && name.endsInColon⟩ else none
  | tree _ _ inner, glance => inner.glance glance
  | seq first second, glance => (first.glance glance).bind second.glance
  | alt first second, glance => Glance.join (first.glance glance) (second.glance glance)
  | many inner, glance => glance.repeated (inner.glance glance.forget)
  | atLeastOne inner, glance =>
    (inner.glance glance).bind fun after => after.repeated (inner.glance after.forget)
  | further _ separators element, glance =>
    (glance.repeated (TokenKind.glanceAny glance.forget separators)).bind fun after =>
      after.repeated (element.glance after.forget)
  | inside _ inner, glance => inner.glance glance
  | such _ inner, glance => inner.glance glance

end Phrase

/-! ### What the answers mean -/

/-- The brackets on the line are closed, and it ends with no colon but one that its name allows. -/
structure Balanced (name : Nonterminal) (tokens : List Token) : Prop where
  sees : ∀ look : Lookahead, (look.colon = true → look.depth = 0) →
    Glance.Sees ⟨0, name.endsInColon⟩ look.depth (look.meetAll tokens)
  onLine : ∀ token ∈ tokens, token.kind.onLine = true

namespace Glance

variable {glance result : Glance} {base : Nat} {look : Lookahead} {token : Token}

/-- What is computed of a kind holds of its tokens. -/
theorem Sees.meetOne (sees : glance.Sees base look) (h : token.kind.glance glance = some result) :
    result.Sees base (look.meetOne token) ∧ token.kind.onLine = true := by
  unfold TokenKind.glance at h
  split at h
  · cases h
  rename_i onLine
  refine ⟨?_, by simpa using onLine⟩
  unfold Lookahead.meetOne
  split at h
  · rename_i comment
    cases h
    rwa [if_pos comment]
  rename_i comment
  rw [if_neg comment]
  unfold Lookahead.meetToken Lookahead.meet
  have outside : ∀ depth, (decide (token.kind = .symbol .colon) && decide (depth = 0)) = true →
      depth = 0 := by simp
  split at h
  · rename_i opens
    cases h
    have colon : token.kind ≠ .symbol .colon := by
      intro same
      rw [same] at opens
      cases opens
    refine ⟨?_, ?_, outside _⟩
    · simp [opens, sees.depth, Nat.add_assoc]
    · simp [colon]
  rename_i opens
  split at h
  · rename_i closes
    have colon : token.kind ≠ .symbol .colon := by
      intro same
      rw [same] at closes
      cases closes
    split at h
    · cases h
    · rename_i depth eq
      cases h
      refine ⟨?_, ?_, outside _⟩
      · simp [opens, closes, sees.depth, eq, ← Nat.add_assoc]
      · simp [colon]
  · rename_i closes
    cases h
    refine ⟨?_, ?_, outside _⟩
    · simp [opens, closes, sees.depth]
    · simp only [opens, closes, Bool.false_eq_true, if_false, Bool.and_eq_true, decide_eq_true_eq]
      rintro ⟨isColon, closed⟩
      refine ⟨isColon, ?_⟩
      have := sees.depth
      omega

theorem Sees.meetAny {kinds : List TokenKind} (sees : glance.Sees base look)
    (h : TokenKind.glanceAny glance kinds = some result) (mem : kinds.contains token.kind = true) :
    result.Sees base (look.meetOne token) ∧ token.kind.onLine = true := by
  induction kinds generalizing result with
  | nil => cases h
  | cons kind rest ih =>
      cases rest with
      | nil =>
          have same : token.kind = kind := by simpa using mem
          exact sees.meetOne (same ▸ h)
      | cons next more =>
          obtain ⟨first, second, one, two, left, right⟩ := join_eq_some h
          rw [List.contains_cons, Bool.or_eq_true, beq_iff_eq] at mem
          rcases mem with same | mem
          · exact (sees.meetOne (same ▸ one)).imp_left left
          · exact (ih two mem).imp_left right

end Glance

namespace Phrase

variable {D : Flow → Nonterminal → Tree → Prop} {flow : Flow} {p : Phrase} {children : List Child}

/-- **What is computed of a phrase holds of its tokens.** -/
theorem Matches.glance
    (parts : ∀ flow name tree, D flow name tree → name.inline = true → Balanced name tree.tokens)
    (h : Matches D flow p children) {glance result : Glance} {base : Nat} {look : Lookahead}
    (computed : p.glance glance = some result) (sees : glance.Sees base look) :
    result.Sees base (look.meetAll (Tree.tokensOf children)) ∧
      ∀ token ∈ Tree.tokensOf children, token.kind.onLine = true := by
  induction h generalizing glance result look with
  | nil =>
      cases computed
      exact ⟨sees, nofun⟩
  | needs _ =>
      cases computed
      exact ⟨sees, nofun⟩
  | leaf mem =>
      obtain ⟨seen, onLine⟩ := sees.meetAny computed mem
      simpa using ⟨seen, onLine⟩
  | word spelled =>
      simp only [Token.spells, Bool.and_eq_true, decide_eq_true_eq] at spelled
      obtain ⟨seen, onLine⟩ := sees.meetOne (by rw [spelled.1]; exact computed)
      simpa using ⟨seen, onLine⟩
  | @part flow field name tree derived =>
      rw [Phrase.glance] at computed
      split at computed
      · rename_i inline
        cases computed
        obtain ⟨seen, onLine⟩ := parts _ _ _ derived inline
        have after := seen look sees.outside
        rw [Tree.tokensOf_cons, Tree.tokensOf_nil, List.append_nil]
        refine ⟨⟨?_, fun colon => ?_, after.outside⟩, onLine⟩
        · rw [after.depth, sees.depth]
          rfl
        · have closed := after.outside colon
          have depth := after.depth
          have before := sees.depth
          simp only [Bool.and_eq_true, decide_eq_true_eq]
          exact ⟨by omega, after.colon colon⟩
      · cases computed
  | tree start stop _ ih =>
      obtain ⟨seen, onLine⟩ := ih computed sees
      simpa using ⟨seen, onLine⟩
  | seq _ _ ih ih' =>
      obtain ⟨middle, one, two⟩ := Option.bind_eq_some_iff.1 computed
      obtain ⟨seen, onLine⟩ := ih one sees
      obtain ⟨seen', onLine'⟩ := ih' two seen
      rw [Tree.tokensOf_append, Lookahead.meetAll_append]
      exact ⟨seen', fun token mem => (List.mem_append.1 mem).elim (onLine token) (onLine' token)⟩
  | left _ ih =>
      obtain ⟨first, second, one, two, left, right⟩ := Glance.join_eq_some computed
      exact (ih one sees).imp_left left
  | right _ ih =>
      obtain ⟨first, second, one, two, left, right⟩ := Glance.join_eq_some computed
      exact (ih two sees).imp_left right
  | stop =>
      obtain ⟨last, eq, -, -⟩ := Glance.repeated_eq_some computed
      rw [Phrase.glance, eq] at computed
      exact ⟨(Glance.Sees.repeated computed).1 sees, nofun⟩
  | @more flow p front back _ _ ih ih' =>
      obtain ⟨last, one, -, -⟩ := Glance.repeated_eq_some computed
      obtain ⟨again, same⟩ := Glance.repeated_again computed
      rw [Phrase.glance, one] at computed
      obtain ⟨seen, onLine⟩ := ih one sees.forget
      have again' : (Phrase.many p).glance result = some result := by
        rw [Phrase.glance, same, again]
      obtain ⟨seen', onLine'⟩ := ih' again' ((Glance.Sees.repeated computed).2 seen)
      rw [Tree.tokensOf_append, Lookahead.meetAll_append]
      exact ⟨seen', fun token mem => (List.mem_append.1 mem).elim (onLine token) (onLine' token)⟩
  | atLeastOne _ _ ih ih' =>
      obtain ⟨middle, one, two⟩ := Option.bind_eq_some_iff.1 computed
      obtain ⟨seen, onLine⟩ := ih one sees
      obtain ⟨seen', onLine'⟩ := ih' two seen
      rw [Tree.tokensOf_append, Lookahead.meetAll_append]
      exact ⟨seen', fun token mem => (List.mem_append.1 mem).elim (onLine token) (onLine' token)⟩
  | noFurther =>
      obtain ⟨middle, one, two⟩ := Option.bind_eq_some_iff.1 computed
      obtain ⟨last, eq, -, -⟩ := Glance.repeated_eq_some one
      obtain ⟨last', eq', -, -⟩ := Glance.repeated_eq_some two
      rw [eq] at one
      rw [eq'] at two
      exact ⟨(Glance.Sees.repeated two).1 ((Glance.Sees.repeated one).1 sees), nofun⟩
  | lastSeparator mem =>
      obtain ⟨middle, one, two⟩ := Option.bind_eq_some_iff.1 computed
      obtain ⟨last, eq, -, -⟩ := Glance.repeated_eq_some one
      obtain ⟨last', eq', -, -⟩ := Glance.repeated_eq_some two
      obtain ⟨seen, onLine⟩ := sees.forget.meetAny eq mem
      rw [eq] at one
      rw [eq'] at two
      have whole := (Glance.Sees.repeated two).1 ((Glance.Sees.repeated one).2 seen)
      simpa using ⟨whole, onLine⟩
  | @further flow field separators p token front back mem _ _ ih ih' =>
      obtain ⟨middle, one, two⟩ := Option.bind_eq_some_iff.1 computed
      -- What is known at the end is known again after further elements.
      have whole : (Phrase.further field separators p).glance result = some result := by
        obtain ⟨-, same⟩ := Glance.repeated_again one
        obtain ⟨again, same'⟩ := Glance.repeated_again two
        rw [Phrase.glance, same', same, Glance.repeated_before one two, Option.bind_some, same',
          again]
      obtain ⟨last, eq, -, -⟩ := Glance.repeated_eq_some one
      obtain ⟨last', eq', -, -⟩ := Glance.repeated_eq_some two
      obtain ⟨seen, onLine⟩ := sees.forget.meetAny eq mem
      rw [eq] at one
      rw [eq'] at two
      obtain ⟨seen', onLine'⟩ := ih eq' ((Glance.Sees.repeated one).2 seen).forget
      obtain ⟨seen'', onLine''⟩ := ih' whole ((Glance.Sees.repeated two).2 seen')
      rw [Tree.tokensOf_cons, Tree.tokens_leaf, Tree.tokensOf_append, List.singleton_append,
        Lookahead.meetAll_cons, Lookahead.meetAll_append]
      refine ⟨seen'', ?_⟩
      intro other isToken
      rw [List.mem_cons, List.mem_append] at isToken
      rcases isToken with rfl | isToken | isToken
      · exact onLine
      · exact onLine' other isToken
      · exact onLine'' other isToken
  | inside _ ih => exact ih computed sees
  | such _ _ ih => exact ih computed sees

end Phrase

/-! ### What stands on one line -/

theorem Nonterminal.glance_ebnf (name : Nonterminal) :
    (!name.inline || ((ebnf name).glance ⟨0, true⟩).any fun result =>
      result.depth = 0 && (!result.colon || name.endsInColon)) = true :=
  forall_of_all (fun name => !name.inline || ((ebnf name).glance ⟨0, true⟩).any fun result =>
    result.depth = 0 && (!result.colon || name.endsInColon)) (by decide) name

/-- **What stands on one line closes the brackets that it opens**, and ends with no colon outside of
brackets. -/
theorem Derives.glance {flow : Flow} {name : Nonterminal} {tree : Tree}
    (h : Derives ebnf flow name tree) (inline : name.inline = true) :
    Balanced name tree.tokens := by
  refine h.rule_induction (P := fun _ name tree => name.inline = true → Balanced name tree.tokens)
    ?_ inline
  intro flow name field tree matched inline
  have computed := name.glance_ebnf
  rw [inline, Bool.not_true, Bool.false_or, Option.any_eq_true] at computed
  obtain ⟨result, computed, balanced⟩ := computed
  simp only [Bool.and_eq_true, decide_eq_true_eq, Bool.or_eq_true, Bool.not_eq_true'] at balanced
  have parts : ∀ flow name tree, Derives ebnf flow name tree ∧
      (name.inline = true → Balanced name tree.tokens) → name.inline = true →
        Balanced name tree.tokens := fun _ _ _ part => part.2
  have whole : Tree.tokensOf [(field, tree)] = tree.tokens := by simp
  refine ⟨fun look outside => ?_, fun token mem => ?_⟩
  · have seen := (matched.glance parts computed
      ⟨rfl, fun _ => rfl, outside⟩).1
    rw [whole] at seen
    refine seen.mono balanced.1.symm fun colon => ?_
    simpa [colon] using balanced.2
  · exact (matched.glance parts computed
      (show Glance.Sees _ 0 .start from ⟨rfl, nofun, nofun⟩)).2 token (whole ▸ mem)

end PythonSyntax
