/-
**Grammars without a parser.**

A phrase says what the children of a node look like: which fields they take, in which order, and
which tokens and nodes stand there.  It says nothing of how they are found.  A table that gives
every name of a rule a phrase derives trees.

Main definitions:

* `PythonSyntax.Phrase` — patterns of children;
* `PythonSyntax.Phrase.row`, `PythonSyntax.Phrase.choice`, `PythonSyntax.Phrase.oneOf`,
  `PythonSyntax.Phrase.opt` — phrases put together from others;
* `PythonSyntax.Phrase.Matches` — children that are as a phrase says, in given bodies;
* `PythonSyntax.Derives` — the trees that a table derives from a name.

Main results:

* `PythonSyntax.Derives.rule_induction` — induction on the derivation of a tree;
* `PythonSyntax.Phrase.Matches.mono` — matching respects what the names stand for.
-/

import PythonSyntax.Grammar.Rule
import PythonSyntax.Session.Basic

set_option autoImplicit false

namespace PythonSyntax

/-- The bodies in which a phrase may stand. -/
inductive Need where
  | loop
  | function
  deriving DecidableEq, Repr

/-- Whether the bodies around a phrase are as it needs them. -/
def Flow.meets (flow : Flow) : Need → Bool
  | .loop => 0 < flow.loops
  | .function => 0 < flow.functions

/-- Patterns of the children of a node. -/
inductive Phrase where
  /-- No children at all are like this. -/
  | never
  /-- No child. -/
  | nil
  /-- A token of one of the kinds. -/
  | leaf (field : Field) (kinds : List TokenKind)
  /-- A name with the spelling. -/
  | word (field : Field) (spelling : String)
  /-- What is derived from the name of a rule. -/
  | part (field : Field) (name : Nonterminal)
  /-- A node with children of its own. -/
  | tree (field : Field) (kind : NodeKind) (inner : Phrase)
  | seq (first second : Phrase)
  | alt (first second : Phrase)
  /-- Any number in a row. -/
  | many (inner : Phrase)
  /-- One or more in a row. -/
  | atLeastOne (inner : Phrase)
  /-- Further elements, each after a separator, and perhaps a last separator. -/
  | further (field : Field) (separators : List TokenKind) (element : Phrase)
  /-- No child, in the body of a loop or a function. -/
  | needs (need : Need)
  /-- In the body of a loop, a function or a class. -/
  | inside (scope : Scope) (inner : Phrase)
  /-- Children that satisfy a condition besides. -/
  | such (condition : List Child → Bool) (inner : Phrase)

namespace Phrase

/-! ### Phrases put together -/

/-- Phrases one after another. -/
def row : List Phrase → Phrase
  | [] => nil
  | phrase :: rest => seq phrase (row rest)

/-- One of several phrases. -/
def choice (cases : List Phrase) (otherwise : Phrase) : Phrase :=
  match cases with
  | [] => otherwise
  | phrase :: rest => alt phrase (choice rest otherwise)

/-- One of several phrases, and nothing else. -/
def oneOf (cases : List Phrase) : Phrase := choice cases never

/-- The phrase or nothing. -/
def opt (phrase : Phrase) : Phrase := alt phrase nil

/-- A symbol. -/
def sign (field : Field) (symbol : Symbol) : Phrase := leaf field [.symbol symbol]

/-- A reserved word. -/
def keyword (field : Field) (word : Keyword) : Phrase := leaf field [.keyword word]

/-- A name, taken as a token. -/
def name (field : Field) : Phrase := leaf field [.name]

/-! ### Matching -/

/-- The children are as the phrase says, in the bodies `flow`; `D` tells which trees the names of
rules stand for. -/
inductive Matches (D : Flow → Nonterminal → Tree → Prop) : Flow → Phrase → List Child → Prop
  | nil {flow : Flow} : Matches D flow .nil []
  | leaf {flow : Flow} {field : Field} {kinds : List TokenKind} {token : Token}
      (h : kinds.contains token.kind = true) : Matches D flow (.leaf field kinds) [(field, .leaf token)]
  | word {flow : Flow} {field : Field} {spelling : String} {token : Token}
      (h : token.spells spelling = true) :
      Matches D flow (.word field spelling) [(field, .leaf token)]
  | part {flow : Flow} {field : Field} {name : Nonterminal} {tree : Tree} (h : D flow name tree) :
      Matches D flow (.part field name) [(field, tree)]
  | tree {flow : Flow} {field : Field} {kind : NodeKind} {inner : Phrase} {children : List Child}
      (start stop : Nat) (h : Matches D flow inner children) :
      Matches D flow (.tree field kind inner) [(field, .node kind start stop children)]
  | seq {flow : Flow} {p q : Phrase} {front back : List Child} (h : Matches D flow p front)
      (h' : Matches D flow q back) : Matches D flow (.seq p q) (front ++ back)
  | left {flow : Flow} {p q : Phrase} {children : List Child} (h : Matches D flow p children) :
      Matches D flow (.alt p q) children
  | right {flow : Flow} {p q : Phrase} {children : List Child} (h : Matches D flow q children) :
      Matches D flow (.alt p q) children
  | stop {flow : Flow} {p : Phrase} : Matches D flow (.many p) []
  | more {flow : Flow} {p : Phrase} {front back : List Child} (h : Matches D flow p front)
      (h' : Matches D flow (.many p) back) : Matches D flow (.many p) (front ++ back)
  | atLeastOne {flow : Flow} {p : Phrase} {front back : List Child} (h : Matches D flow p front)
      (h' : Matches D flow (.many p) back) : Matches D flow (.atLeastOne p) (front ++ back)
  | noFurther {flow : Flow} {field : Field} {kinds : List TokenKind} {p : Phrase} :
      Matches D flow (.further field kinds p) []
  | lastSeparator {flow : Flow} {field : Field} {kinds : List TokenKind} {p : Phrase}
      {token : Token} (h : kinds.contains token.kind = true) :
      Matches D flow (.further field kinds p) [(field, .leaf token)]
  | further {flow : Flow} {field : Field} {kinds : List TokenKind} {p : Phrase} {token : Token}
      {front back : List Child} (h : kinds.contains token.kind = true)
      (h' : Matches D flow p front) (h'' : Matches D flow (.further field kinds p) back) :
      Matches D flow (.further field kinds p) ((field, .leaf token) :: (front ++ back))
  | needs {flow : Flow} {need : Need} (h : flow.meets need = true) : Matches D flow (.needs need) []
  | inside {flow : Flow} {scope : Scope} {p : Phrase} {children : List Child}
      (h : Matches D (flow.enter scope) p children) : Matches D flow (.inside scope p) children
  | such {flow : Flow} {condition : List Child → Bool} {p : Phrase} {children : List Child}
      (h : Matches D flow p children) (holds : condition children = true) :
      Matches D flow (.such condition p) children

namespace Matches

variable {D E : Flow → Nonterminal → Tree → Prop} {flow : Flow} {p q : Phrase}
  {children : List Child}

@[simp] theorem never_iff : ¬ Matches D flow .never children := by
  intro h
  cases h

@[simp] theorem nil_iff : Matches D flow .nil children ↔ children = [] := by
  constructor
  · intro h
    cases h
    rfl
  · rintro rfl
    exact .nil

@[simp] theorem leaf_iff {field : Field} {kinds : List TokenKind} :
    Matches D flow (.leaf field kinds) children ↔
      ∃ token, kinds.contains token.kind = true ∧ children = [(field, .leaf token)] := by
  constructor
  · intro h
    cases h with
    | leaf h => exact ⟨_, h, rfl⟩
  · rintro ⟨token, h, rfl⟩
    exact .leaf h

@[simp] theorem word_iff {field : Field} {spelling : String} :
    Matches D flow (.word field spelling) children ↔
      ∃ token, token.spells spelling = true ∧ children = [(field, .leaf token)] := by
  constructor
  · intro h
    cases h with
    | word h => exact ⟨_, h, rfl⟩
  · rintro ⟨token, h, rfl⟩
    exact .word h

@[simp] theorem part_iff {field : Field} {name : Nonterminal} :
    Matches D flow (.part field name) children ↔
      ∃ tree, D flow name tree ∧ children = [(field, tree)] := by
  constructor
  · intro h
    cases h with
    | part h => exact ⟨_, h, rfl⟩
  · rintro ⟨tree, h, rfl⟩
    exact .part h

@[simp] theorem tree_iff {field : Field} {kind : NodeKind} :
    Matches D flow (.tree field kind p) children ↔
      ∃ start stop inner, Matches D flow p inner ∧
        children = [(field, .node kind start stop inner)] := by
  constructor
  · intro h
    cases h with
    | tree start stop h => exact ⟨start, stop, _, h, rfl⟩
  · rintro ⟨start, stop, inner, h, rfl⟩
    exact .tree start stop h

@[simp] theorem seq_iff : Matches D flow (.seq p q) children ↔
    ∃ front back, Matches D flow p front ∧ Matches D flow q back ∧ children = front ++ back := by
  constructor
  · intro h
    cases h with
    | seq h h' => exact ⟨_, _, h, h', rfl⟩
  · rintro ⟨front, back, h, h', rfl⟩
    exact .seq h h'

@[simp] theorem alt_iff : Matches D flow (.alt p q) children ↔
    Matches D flow p children ∨ Matches D flow q children := by
  constructor
  · intro h
    cases h with
    | left h => exact Or.inl h
    | right h => exact Or.inr h
  · rintro (h | h)
    · exact .left h
    · exact .right h

@[simp] theorem needs_iff {need : Need} : Matches D flow (.needs need) children ↔
    flow.meets need = true ∧ children = [] := by
  constructor
  · intro h
    cases h with
    | needs h => exact ⟨h, rfl⟩
  · rintro ⟨h, rfl⟩
    exact .needs h

@[simp] theorem inside_iff {scope : Scope} : Matches D flow (.inside scope p) children ↔
    Matches D (flow.enter scope) p children := by
  constructor
  · intro h
    cases h with
    | inside h => exact h
  · exact .inside

@[simp] theorem such_iff {condition : List Child → Bool} :
    Matches D flow (.such condition p) children ↔
      Matches D flow p children ∧ condition children = true := by
  constructor
  · intro h
    cases h with
    | such h holds => exact ⟨h, holds⟩
  · rintro ⟨h, holds⟩
    exact .such h holds

/-- One child and then others. -/
theorem cons {child : Child} (h : Matches D flow p [child]) (h' : Matches D flow q children) :
    Matches D flow (.seq p q) (child :: children) := .seq h h'

/-- The last phrase of a row. -/
theorem last_iff : Matches D flow (.seq p .nil) children ↔ Matches D flow p children := by
  constructor
  · intro h
    obtain ⟨front, back, one, two, rfl⟩ := seq_iff.1 h
    rw [nil_iff.1 two, List.append_nil]
    exact one
  · intro h
    simpa using Matches.seq h .nil

/-- One of several phrases. -/
theorem of_choice {cases : List Phrase} {otherwise : Phrase} (mem : p ∈ cases)
    (h : Matches D flow p children) : Matches D flow (choice cases otherwise) children := by
  induction cases with
  | nil => cases mem
  | cons first rest ih =>
      rcases List.mem_cons.1 mem with rfl | mem
      · exact .left h
      · exact .right (ih mem)

theorem of_otherwise {cases : List Phrase} {otherwise : Phrase}
    (h : Matches D flow otherwise children) : Matches D flow (choice cases otherwise) children := by
  induction cases with
  | nil => exact h
  | cons first rest ih => exact .right ih

theorem choice_iff {cases : List Phrase} {otherwise : Phrase} :
    Matches D flow (choice cases otherwise) children ↔
      (∃ q ∈ cases, Matches D flow q children) ∨ Matches D flow otherwise children := by
  constructor
  · intro h
    induction cases with
    | nil => exact Or.inr h
    | cons first rest ih =>
        rcases alt_iff.1 h with h | h
        · exact Or.inl ⟨first, List.mem_cons_self, h⟩
        · exact (ih h).imp_left fun ⟨q, mem, h⟩ => ⟨q, List.mem_cons_of_mem _ mem, h⟩
  · rintro (⟨q, mem, h⟩ | h)
    · exact of_choice mem h
    · exact of_otherwise h

/-- A row of any number is empty or begins with one. -/
theorem many_iff : Matches D flow (.many p) children ↔
    children = [] ∨ ∃ front back, Matches D flow p front ∧ Matches D flow (.many p) back ∧
      children = front ++ back := by
  constructor
  · intro h
    cases h with
    | stop => exact Or.inl rfl
    | more h h' => exact Or.inr ⟨_, _, h, h', rfl⟩
  · rintro (rfl | ⟨front, back, h, h', rfl⟩)
    · exact .stop
    · exact .more h h'

theorem atLeastOne_iff : Matches D flow (.atLeastOne p) children ↔
    ∃ front back, Matches D flow p front ∧ Matches D flow (.many p) back ∧
      children = front ++ back := by
  constructor
  · intro h
    cases h with
    | atLeastOne h h' => exact ⟨_, _, h, h', rfl⟩
  · rintro ⟨front, back, h, h', rfl⟩
    exact .atLeastOne h h'

/-- Two rows are a row. -/
theorem many_join {front back : List Child} (h : Matches D flow (.many p) front)
    (h' : Matches D flow (.many p) back) : Matches D flow (.many p) (front ++ back) := by
  generalize eq : Phrase.many p = phrase at h
  induction h with
  | stop =>
      cases eq
      exact h'
  | more first _ _ ih =>
      cases eq
      rw [List.append_assoc]
      exact .more first (ih h' rfl)
  | _ => cases eq

/-- Matching respects what the names of rules stand for. -/
theorem mono (le : ∀ flow name tree, D flow name tree → E flow name tree)
    (h : Matches D flow p children) : Matches E flow p children := by
  induction h with
  | nil => exact .nil
  | leaf h => exact .leaf h
  | word h => exact .word h
  | part h => exact .part (le _ _ _ h)
  | tree start stop _ ih => exact .tree start stop ih
  | seq _ _ ih ih' => exact .seq ih ih'
  | left _ ih => exact .left ih
  | right _ ih => exact .right ih
  | stop => exact .stop
  | more _ _ ih ih' => exact .more ih ih'
  | atLeastOne _ _ ih ih' => exact .atLeastOne ih ih'
  | noFurther => exact .noFurther
  | lastSeparator h => exact .lastSeparator h
  | further h _ _ ih ih' => exact .further h ih ih'
  | needs h => exact .needs h
  | inside _ ih => exact .inside ih
  | such _ holds ih => exact .such ih holds

end Matches

end Phrase

/-! ### Derivations -/

/-- The trees that a table of phrases derives from the name of a rule, in given bodies. -/
inductive Derives (table : Nonterminal → Phrase) : Flow → Nonterminal → Tree → Prop
  | intro {flow : Flow} {name : Nonterminal} {field : Field} {tree : Tree}
      (h : Phrase.Matches (Derives table) flow (table name) [(field, tree)]) :
      Derives table flow name tree

namespace Derives

variable {table : Nonterminal → Phrase} {flow : Flow} {name : Nonterminal} {tree : Tree}

theorem iff_matches : Derives table flow name tree ↔
    ∃ field, Phrase.Matches (Derives table) flow (table name) [(field, tree)] := by
  constructor
  · intro h
    cases h with
    | intro h => exact ⟨_, h⟩
  · rintro ⟨field, h⟩
    exact .intro h

/-- A tree that takes some field as the phrase of the name says. -/
theorem of_matches (field : Field)
    (h : Phrase.Matches (Derives table) flow (table name) [(field, tree)]) :
    Derives table flow name tree := .intro h

/-- Induction on a derivation: a property holds of every derived tree if it holds of a tree
whenever it holds of the parts that the phrase of the name refers to. -/
theorem rule_induction {P : Flow → Nonterminal → Tree → Prop}
    (step : ∀ flow name field tree,
      Phrase.Matches (fun flow name tree => Derives table flow name tree ∧ P flow name tree) flow
        (table name) [(field, tree)] → P flow name tree)
    (h : Derives table flow name tree) : P flow name tree := by
  refine @Derives.rec table
    (fun flow name tree _ => P flow name tree)
    (fun flow phrase children _ =>
      Phrase.Matches (fun flow name tree => Derives table flow name tree ∧ P flow name tree) flow
        phrase children)
    ?_ ?_ ?_ ?_ ?_ ?_ ?_ ?_ ?_ ?_ ?_ ?_ ?_ ?_ ?_ ?_ ?_ ?_ _ _ _ h
  · exact fun _ ih => step _ _ _ _ ih
  · exact .nil
  · exact fun h => .leaf h
  · exact fun h => .word h
  · exact fun h ih => .part ⟨h, ih⟩
  · exact fun start stop _ ih => .tree start stop ih
  · exact fun _ _ ih ih' => .seq ih ih'
  · exact fun _ ih => .left ih
  · exact fun _ ih => .right ih
  · exact .stop
  · exact fun _ _ ih ih' => .more ih ih'
  · exact fun _ _ ih ih' => .atLeastOne ih ih'
  · exact .noFurther
  · exact fun h => .lastSeparator h
  · exact fun h _ _ ih ih' => .further h ih ih'
  · exact fun h => .needs h
  · exact fun _ ih => .inside ih
  · exact fun _ holds ih => .such ih holds

end Derives

end PythonSyntax
