/-
**Where phrases end.**

A statement ends with the end of its line, or with that of its last block.  No phrase of a name has
the mark of the end of the text among its tokens.

Main definitions:

* `PythonSyntax.Phrase.closers` — the kinds of tokens with which a phrase ends;
* `PythonSyntax.Nonterminal.closers` — the kinds with which the trees of a name end;
* `PythonSyntax.Phrase.lacksKind` — no token that a phrase names is of the kind.

Main results:

* `PythonSyntax.Derives.ends` — a derived tree ends as the table says;
* `PythonSyntax.Derives.ne_eof` — no token of a derived tree marks the end of the text.
-/

import PythonSyntax.Proofs.Syntax.Heads

set_option autoImplicit false

namespace PythonSyntax

/-! ### Last tokens -/

/-- There is a last token, and its kind is in the set. -/
def Ends (kinds : KindSet) (tokens : List Token) : Prop :=
  ∃ front last, tokens = front ++ [last] ∧ kinds.mem last.kind = true

theorem Ends.append {kinds : KindSet} {tokens : List Token} (h : Ends kinds tokens)
    (before : List Token) : Ends kinds (before ++ tokens) := by
  obtain ⟨front, last, rfl, mem⟩ := h
  exact ⟨before ++ front, last, by rw [List.append_assoc], mem⟩

theorem Ends.mono {a b : KindSet} {tokens : List Token} (h : Ends a tokens)
    (le : ∀ kind, a.mem kind = true → b.mem kind = true) : Ends b tokens := by
  obtain ⟨front, last, rfl, mem⟩ := h
  exact ⟨front, last, rfl, le _ mem⟩

namespace Phrase

/-- The kinds of tokens with which a phrase ends; `table` gives those of the names. -/
def closers (table : Nonterminal → KindSet) : Phrase → KindSet
  | never | nil | needs _ => .empty
  | leaf _ kinds => .ofList kinds
  | word _ _ => .ofList [.name]
  | part _ name => table name
  | tree _ _ inner | inside _ inner | such _ inner | atLeastOne inner | many inner =>
    inner.closers table
  | further _ kinds element => (KindSet.ofList kinds).union (element.closers table)
  | seq first second =>
    if second.nullable then (first.closers table).union (second.closers table)
    else second.closers table
  | alt first second => (first.closers table).union (second.closers table)

variable {table : Nonterminal → KindSet} {D : Flow → Nonterminal → Tree → Prop} {flow : Flow}
  {p : Phrase} {children : List Child}

/-- Children without tokens are only where the phrase allows it; others end as it says. -/
theorem Matches.ends
    (parts : ∀ flow name tree, D flow name tree → Ends (table name) tree.tokens)
    (h : Matches D flow p children) :
    (Tree.tokensOf children = [] ∧ p.nullable = true) ∨
      Ends (p.closers table) (Tree.tokensOf children) := by
  induction h with
  | nil => exact Or.inl ⟨rfl, rfl⟩
  | leaf mem => exact Or.inr ⟨[], _, rfl, by simpa [closers] using mem⟩
  | word spelled =>
      refine Or.inr ⟨[], _, rfl, ?_⟩
      simp only [Token.spells, Bool.and_eq_true, decide_eq_true_eq] at spelled
      simp [closers, spelled.1]
  | part derived =>
      refine Or.inr ?_
      simpa [closers] using parts _ _ _ derived
  | tree start stop _ ih =>
      rcases ih with ⟨none, null⟩ | ends
      · exact Or.inl ⟨by simpa using none, null⟩
      · exact Or.inr (by simpa [closers] using ends)
  | seq _ _ ih ih' =>
      rw [Tree.tokensOf_append]
      rcases ih' with ⟨none', null'⟩ | ends'
      · rw [none', List.append_nil]
        rcases ih with ⟨none, null⟩ | ends
        · exact Or.inl ⟨none, by simp [nullable, null, null']⟩
        · refine Or.inr (ends.mono fun kind mem => ?_)
          simp [closers, null', mem]
      · refine Or.inr ((ends'.append _).mono fun kind mem => ?_)
        simp only [closers]
        split <;> simp [mem]
  | left _ ih =>
      rcases ih with ⟨none, null⟩ | ends
      · exact Or.inl ⟨none, by simp [nullable, null]⟩
      · exact Or.inr (ends.mono fun kind mem => by simp [closers, mem])
  | right _ ih =>
      rcases ih with ⟨none, null⟩ | ends
      · exact Or.inl ⟨none, by simp [nullable, null]⟩
      · exact Or.inr (ends.mono fun kind mem => by simp [closers, mem])
  | stop => exact Or.inl ⟨rfl, rfl⟩
  | more _ _ ih ih' =>
      rw [Tree.tokensOf_append]
      rcases ih' with ⟨none', -⟩ | ends'
      · rw [none', List.append_nil]
        rcases ih with ⟨none, -⟩ | ends
        · exact Or.inl ⟨none, rfl⟩
        · exact Or.inr ends
      · exact Or.inr (ends'.append _)
  | atLeastOne _ _ ih ih' =>
      rw [Tree.tokensOf_append]
      rcases ih' with ⟨none', -⟩ | ends'
      · rw [none', List.append_nil]
        exact ih
      · exact Or.inr (ends'.append _)
  | noFurther => exact Or.inl ⟨rfl, rfl⟩
  | lastSeparator mem =>
      rw [List.contains_iff_mem] at mem
      exact Or.inr ⟨[], _, rfl, by simp [closers, mem]⟩
  | @further flow field kinds p token front back mem _ _ ih ih' =>
      rw [Tree.tokensOf_cons, Tree.tokens_leaf, Tree.tokensOf_append, List.singleton_append]
      rw [List.contains_iff_mem] at mem
      have first : Ends ((KindSet.ofList kinds).union (p.closers table)) [token] :=
        ⟨[], token, rfl, by simp [mem]⟩
      rcases ih' with ⟨none', -⟩ | ends'
      · rw [none', List.append_nil]
        rcases ih with ⟨none, -⟩ | ends
        · rw [none]
          exact Or.inr first
        · refine Or.inr ((ends.append [token]).mono fun kind mem => ?_)
          simp [closers, mem]
      · exact Or.inr ((ends'.append _).append [token])
  | needs _ => exact Or.inl ⟨rfl, rfl⟩
  | inside _ ih => exact ih
  | such _ _ ih => exact ih

end Phrase

namespace Nonterminal

/-- The kinds with which lines and blocks end. -/
def lineClosers : KindSet := .ofList [.newline, .dedent]

/-- The kinds with which the trees of a name end, so far as it is of use: statements and their
clauses end with a line or a block. -/
def closers : Nonterminal → KindSet
  | statement | simpleStatement | suite | ifStatement | elifClause | elseClause | whileStatement
  | forStatement | tryStatement | exceptClause | finallyClause | withStatement | matchStatement
  | caseBlock | decorated | asyncStatement | functionDef | classDef => lineClosers
  | _ => .full

theorem closers_ebnf (name : Nonterminal) :
    ((ebnf name).closers closers).subset name.closers = true :=
  forall_of_all (fun name => ((ebnf name).closers closers).subset name.closers)
    (by decide) name

end Nonterminal

/-- **A derived tree ends as the table says.** -/
theorem Derives.ends {flow : Flow} {name : Nonterminal} {tree : Tree}
    (h : Derives ebnf flow name tree) : Ends name.closers tree.tokens := by
  refine Derives.rule_induction (P := fun _ name tree => Ends name.closers tree.tokens) ?_ h
  intro flow name field tree matched
  rcases matched.ends (fun _ _ _ part => part.2) with ⟨-, null⟩ | ends
  · rw [Nonterminal.nullable_ebnf] at null
    cases null
  · refine Ends.mono (by simpa using ends) fun kind mem => ?_
    exact KindSet.mem_of_subset (Nonterminal.closers_ebnf name) mem

/-! ### Kinds that do not occur -/

namespace Phrase

/-- No token that the phrase names is of the kind. -/
def lacksKind (kind : TokenKind) : Phrase → Bool
  | never | nil | needs _ | part _ _ => true
  | leaf _ kinds => !kinds.contains kind
  | word _ _ => kind != .name
  | seq first second | alt first second => first.lacksKind kind && second.lacksKind kind
  | further _ kinds element => !kinds.contains kind && element.lacksKind kind
  | tree _ _ inner | many inner | atLeastOne inner | inside _ inner | such _ inner =>
    inner.lacksKind kind

variable {D : Flow → Nonterminal → Tree → Prop} {flow : Flow} {p : Phrase}
  {children : List Child} {kind : TokenKind}

theorem ne_of_contains {kinds : List TokenKind} {token : Token}
    (mem : kinds.contains token.kind = true) (lacks : (!kinds.contains kind) = true) :
    token.kind ≠ kind := by
  rintro rfl
  rw [mem] at lacks
  cases lacks

theorem Matches.ne_kind
    (parts : ∀ flow name tree, D flow name tree → ∀ token ∈ tree.tokens, token.kind ≠ kind)
    (h : Matches D flow p children) (lacks : p.lacksKind kind = true) :
    ∀ token ∈ Tree.tokensOf children, token.kind ≠ kind := by
  induction h with
  | nil | stop | noFurther | needs _ => simp
  | leaf mem => simpa using ne_of_contains mem lacks
  | word spelled =>
      simp only [Token.spells, Bool.and_eq_true, decide_eq_true_eq] at spelled
      simp only [lacksKind, bne_iff_ne] at lacks
      simpa [spelled.1] using lacks.symm
  | part derived => simpa using parts _ _ _ derived
  | tree start stop _ ih => simpa using ih lacks
  | seq _ _ ih ih' =>
      simp only [lacksKind, Bool.and_eq_true] at lacks
      intro token mem
      rw [Tree.tokensOf_append, List.mem_append] at mem
      exact mem.elim (ih lacks.1 token) (ih' lacks.2 token)
  | left _ ih =>
      simp only [lacksKind, Bool.and_eq_true] at lacks
      exact ih lacks.1
  | right _ ih =>
      simp only [lacksKind, Bool.and_eq_true] at lacks
      exact ih lacks.2
  | more _ _ ih ih' | atLeastOne _ _ ih ih' =>
      intro token mem
      rw [Tree.tokensOf_append, List.mem_append] at mem
      exact mem.elim (ih lacks token) (ih' lacks token)
  | lastSeparator mem =>
      simp only [lacksKind, Bool.and_eq_true] at lacks
      simpa using ne_of_contains mem lacks.1
  | further mem _ _ ih ih' =>
      have both := lacks
      simp only [lacksKind, Bool.and_eq_true] at both
      intro token isToken
      rw [Tree.tokensOf_cons, Tree.tokens_leaf, Tree.tokensOf_append, List.singleton_append,
        List.mem_cons, List.mem_append] at isToken
      rcases isToken with rfl | isToken | isToken
      · exact ne_of_contains mem both.1
      · exact ih both.2 token isToken
      · exact ih' lacks token isToken
  | inside _ ih | such _ _ ih => exact ih lacks

end Phrase

theorem Nonterminal.lacksKind_ebnf (name : Nonterminal) : (ebnf name).lacksKind .eof = true :=
  forall_of_all (fun name => (ebnf name).lacksKind .eof) (by decide) name

/-- **No token of a derived tree marks the end of the text.** -/
theorem Derives.ne_eof {flow : Flow} {name : Nonterminal} {tree : Tree}
    (h : Derives ebnf flow name tree) : ∀ token ∈ tree.tokens, token.kind ≠ .eof := by
  refine Derives.rule_induction (P := fun _ _ tree => ∀ token ∈ tree.tokens, token.kind ≠ .eof)
    ?_ h
  intro flow name field tree matched
  have lacks := matched.ne_kind (fun _ _ _ part => part.2) name.lacksKind_ebnf
  simpa using lacks

end PythonSyntax
