/-
**The order of parameters.**

Five sorts of parameters are told apart.  Which of them may stand where is a matter of the sorts
alone: the rules look at all that stands before a parameter, and for a star without a name at all
that follows it.  The conditions of the grammar, which are checked one parameter at a time, come to
the same.

Main definitions:

* `PythonSyntax.ParameterSort` — the sorts of parameters;
* `PythonSyntax.ParameterSort.ofAll` — the sorts of the parameters in a row;
* `PythonSyntax.ParameterSort.Allowed` — the rules of their order;
* `PythonSyntax.Ebnf.parameterRow` — parameters with single commas between them, in any order.

Main results:

* `PythonSyntax.ParameterSort.allowed_iff` — the rules, one parameter at a time;
* `PythonSyntax.Ebnf.ordered_iff` — **the grammar allows just the orders that the rules allow**.
-/

import Mathlib.Logic.Basic
import PythonSyntax.Proofs.Syntax.Nodes
import PythonSyntax.Proofs.Syntax.Roots

set_option autoImplicit false

namespace PythonSyntax

open Phrase

/-! ### Places in a list -/

/-- What holds at every place of a list holds at its first place and at the others. -/
theorem forall_split_cons {α : Type} {P : List α → α → List α → Prop} {first : α} {more : List α} :
    (∀ front x back, first :: more = front ++ x :: back → P front x back) ↔
      P [] first more ∧ ∀ front x back, more = front ++ x :: back → P (first :: front) x back := by
  constructor
  · exact fun h => ⟨h [] first more rfl, fun front x back eq => h _ x back (by rw [eq]; rfl)⟩
  · rintro ⟨here, there⟩ front x back eq
    cases front with
    | nil =>
        cases eq
        exact here
    | cons other front =>
        obtain ⟨rfl, eq'⟩ := List.cons.inj eq
        exact there front x back eq'

/-! ### Sorts -/

/-- What the order of parameters tells apart. -/
inductive ParameterSort where
  /-- The slash that makes the parameters before it positional only. -/
  | slash
  /-- A star without a name. -/
  | bareStar
  /-- A star with a name. -/
  | star
  /-- Two stars with a name. -/
  | doubleStar
  /-- A name, with a default or without. -/
  | plain (withDefault : Bool)
  deriving DecidableEq, Repr

namespace ParameterSort

/-- A star, with a name or without. -/
def isStar : ParameterSort → Bool
  | bareStar | star => true
  | _ => false

/-- The kind of the parameters of a sort. -/
def kind : ParameterSort → NodeKind
  | slash => .positionalOnly
  | bareStar | star => .starParameter
  | doubleStar => .doubleStarParameter
  | plain _ => .parameter

/-- The fields that the children of a tree take. -/
def fieldsOf (item : Tree) : List Field := item.children.map Prod.fst

/-- The sort of a parameter: a star has a name if one of its children is a parameter, and a name has
a default if one of its children is a default.  A comma has no sort. -/
def of? (item : Tree) : Option ParameterSort :=
  match item.kind? with
  | some .positionalOnly => some slash
  | some .starParameter => some (if .parameter ∈ fieldsOf item then star else bareStar)
  | some .doubleStarParameter => some doubleStar
  | some .parameter => some (plain (decide (.defaultValue ∈ fieldsOf item)))
  | _ => none

/-- The sorts of the parameters among the children. -/
def ofAll (children : List Child) : List ParameterSort :=
  children.filterMap fun child => of? child.2

/-- **The rules of the order of parameters.** -/
structure Allowed (sorts : List ParameterSort) : Prop where
  /-- A slash is not the first, and it follows neither a slash nor a star. -/
  slash : ∀ before after, sorts = before ++ .slash :: after →
    before ≠ [] ∧ .slash ∉ before ∧ ∀ other ∈ before, other.isStar = false
  /-- There is at most one star, with a name or without. -/
  star : ∀ before sort after, sorts = before ++ sort :: after → sort.isStar = true →
    ∀ other ∈ before, other.isStar = false
  /-- Nothing follows two stars. -/
  doubleStar : ∀ before after, sorts = before ++ .doubleStar :: after → after = []
  /-- Before the star, no name without a default follows one with a default. -/
  defaults : ∀ before after, sorts = before ++ .plain false :: after → .plain true ∈ before →
    ∃ other ∈ before, other.isStar = true
  /-- A star without a name is followed by a name, at some later place. -/
  answered : ∀ before after, sorts = before ++ .bareStar :: after →
    ∃ withDefault, .plain withDefault ∈ after

/-- A parameter of the sort may stand after those before it. -/
def MayFollow (before : List ParameterSort) (sort : ParameterSort) : Prop :=
  doubleStar ∉ before ∧
    match sort with
    | slash => before ≠ [] ∧ slash ∉ before ∧ ∀ other ∈ before, other.isStar = false
    | bareStar | star => ∀ other ∈ before, other.isStar = false
    | doubleStar => True
    | plain withDefault =>
      withDefault = false → plain true ∈ before → ∃ other ∈ before, other.isStar = true

theorem mayFollow_of_isStar {before : List ParameterSort} {sort : ParameterSort}
    (isStar : sort.isStar = true) :
    MayFollow before sort ↔ doubleStar ∉ before ∧ ∀ other ∈ before, other.isStar = false := by
  cases sort with
  | bareStar | star => rfl
  | _ => cases isStar

/-- **The order is allowed if each parameter may stand after those before it**, and a star without
a name is followed by a name. -/
theorem allowed_iff {sorts : List ParameterSort} :
    Allowed sorts ↔
      (∀ before sort after, sorts = before ++ sort :: after → MayFollow before sort) ∧
        ∀ before sort after, sorts = before ++ sort :: after → sort = bareStar →
          ∃ withDefault, plain withDefault ∈ after := by
  constructor
  · intro h
    refine ⟨fun before sort after eq => ⟨fun mem => ?_, ?_⟩, ?_⟩
    · obtain ⟨front, back, rfl⟩ := List.append_of_mem mem
      have none := h.doubleStar front (back ++ sort :: after) (by simp [eq])
      simp at none
    · cases sort with
      | slash => exact h.slash _ _ eq
      | bareStar | star => exact h.star _ _ _ eq rfl
      | doubleStar => trivial
      | plain withDefault =>
          rintro rfl mem
          exact h.defaults _ _ eq mem
    · rintro before _ after eq rfl
      exact h.answered _ _ eq
  · rintro ⟨each, answered⟩
    constructor
    · exact fun before after eq => (each _ _ _ eq).2
    · exact fun before sort after eq isStar =>
        ((mayFollow_of_isStar isStar).1 (each _ _ _ eq)).2
    · intro before after eq
      cases after with
      | nil => rfl
      | cons sort after =>
          -- What follows would stand after two stars.
          have split : sorts = (before ++ [doubleStar]) ++ sort :: after := by simp [eq]
          exact absurd (by simp) (each _ _ _ split).1
    · exact fun before after eq => (each _ _ _ eq).2 rfl
    · exact fun before after eq => answered _ _ _ eq rfl

/-! ### The sorts of children -/

variable {item : Child} {children before rest : List Child} {sort : ParameterSort}

/-- **What the rules of the parser ask of a parameter is what its sort is told by.** -/
theorem hasField_iff {field : Field} {item : Tree} :
    Frame.hasField field item = true ↔ field ∈ fieldsOf item := by
  simp only [Frame.hasField, fieldsOf, List.any_eq_true, decide_eq_true_eq, List.mem_map]

theorem hasField_eq (field : Field) (item : Tree) :
    Frame.hasField field item = decide (field ∈ fieldsOf item) :=
  Bool.eq_iff_iff.2 (hasField_iff.trans (decide_eq_true_iff).symm)

theorem isStar_iff : sort.isStar = true ↔ sort.kind = .starParameter := by
  cases sort <;> simp [isStar, kind]

theorem kind?_of_of? {item : Tree} (told : of? item = some sort) : item.kind? = some sort.kind := by
  unfold of? at told
  split at told
  · rename_i eq
    cases told
    exact eq
  · rename_i eq
    cases told
    rw [eq]
    split <;> rfl
  · rename_i eq
    cases told
    exact eq
  · rename_i eq
    cases told
    exact eq
  · cases told

theorem exists_of? {item : Tree} (isOf : item.kind? = some sort.kind) :
    ∃ other, of? item = some other := by
  unfold of?
  rw [isOf]
  cases sort <;> exact ⟨_, rfl⟩

theorem ofAll_cons_of_none (none : of? item.2 = none) : ofAll (item :: rest) = ofAll rest :=
  List.filterMap_cons_none none

theorem ofAll_cons_of_some (told : of? item.2 = some sort) :
    ofAll (item :: rest) = sort :: ofAll rest :=
  List.filterMap_cons_some told

theorem ofAll_append (first second : List Child) :
    ofAll (first ++ second) = ofAll first ++ ofAll second :=
  List.filterMap_append

/-- A parameter of a kind is among the children if one of the sorts has that kind. -/
theorem holds_kind (sort : ParameterSort) (children : List Child) :
    Ebnf.holds sort.kind children = true ↔ ∃ other ∈ ofAll children, other.kind = sort.kind := by
  simp only [Ebnf.holds, List.any_eq_true, Frame.isOneOf_singleton, ofAll, List.mem_filterMap]
  constructor
  · rintro ⟨child, mem, isOf⟩
    obtain ⟨other, told⟩ := exists_of? isOf
    have same : some other.kind = some sort.kind := (kind?_of_of? told).symm.trans isOf
    exact ⟨other, ⟨child, mem, told⟩, Option.some.inj same⟩
  · rintro ⟨other, ⟨child, mem, told⟩, same⟩
    exact ⟨child, mem, same ▸ kind?_of_of? told⟩

theorem holds_positionalOnly :
    Ebnf.holds .positionalOnly children = true ↔ slash ∈ ofAll children := by
  refine (holds_kind slash children).trans ⟨?_, fun mem => ⟨_, mem, rfl⟩⟩
  rintro ⟨other, mem, same⟩
  cases other <;> first | exact mem | cases same

theorem holds_doubleStarParameter :
    Ebnf.holds .doubleStarParameter children = true ↔ doubleStar ∈ ofAll children := by
  refine (holds_kind doubleStar children).trans ⟨?_, fun mem => ⟨_, mem, rfl⟩⟩
  rintro ⟨other, mem, same⟩
  cases other <;> first | exact mem | cases same

theorem holds_starParameter :
    Ebnf.holds .starParameter children = true ↔ ∃ other ∈ ofAll children, other.isStar = true := by
  simp only [isStar_iff]
  exact holds_kind star children

theorem holds_parameter :
    Ebnf.holds .parameter children = true ↔ ∃ withDefault, plain withDefault ∈ ofAll children := by
  refine (holds_kind (plain true) children).trans ⟨?_, fun ⟨_, mem⟩ => ⟨_, mem, rfl⟩⟩
  rintro ⟨other, mem, same⟩
  cases other <;> first | exact ⟨_, mem⟩ | cases same

/-- Only a name has a default. -/
def Told (item : Tree) : Prop :=
  Frame.hasField .defaultValue item = true → item.kind? = some .parameter

/-- Defaults are those of names. -/
theorem any_default (told : ∀ child ∈ children, Told child.2) :
    (children.any fun child => Frame.hasField .defaultValue child.2) = true ↔
      plain true ∈ ofAll children := by
  simp only [List.any_eq_true, ofAll, List.mem_filterMap]
  constructor
  · rintro ⟨child, mem, hasDefault⟩
    exact ⟨child, mem, by simp [of?, told child mem hasDefault, hasField_iff.1 hasDefault]⟩
  · rintro ⟨child, mem, isPlain⟩
    have isParameter : child.2.kind? = some .parameter := kind?_of_of? isPlain
    refine ⟨child, mem, hasField_iff.2 ?_⟩
    simpa [of?, isParameter] using isPlain

/-! ### The conditions of the grammar -/

/-- The grammar admits a parameter where its sort may follow. -/
theorem admits_iff (told : ∀ child ∈ before, Told child.2)
    (begins : before = [] ↔ ofAll before = []) (isOf : of? item.2 = some sort) :
    Ebnf.admits before item = true ↔ MayFollow (ofAll before) sort := by
  have noKeywords : (!Ebnf.holds .doubleStarParameter before) = true ↔
      doubleStar ∉ ofAll before := by
    rw [Bool.not_eq_true', ← Bool.not_eq_true, holds_doubleStarParameter]
  have noSlash : (!Ebnf.holds .positionalOnly before) = true ↔ slash ∉ ofAll before := by
    rw [Bool.not_eq_true', ← Bool.not_eq_true, holds_positionalOnly]
  have noStar : (!Ebnf.holds .starParameter before) = true ↔
      ∀ other ∈ ofAll before, other.isStar = false := by
    rw [Bool.not_eq_true', ← Bool.not_eq_true, holds_starParameter]
    simp
  have some : (!before.isEmpty) = true ↔ ofAll before ≠ [] := by
    rw [Bool.not_eq_true', ← Bool.not_eq_true, List.isEmpty_iff, begins]
  have noDefault : (!before.any fun child => Frame.hasField .defaultValue child.2) = true ↔
      plain true ∉ ofAll before := by
    rw [Bool.not_eq_true', ← Bool.not_eq_true, any_default told]
  have isKind := kind?_of_of? isOf
  unfold Ebnf.admits
  rw [isKind]
  cases sort with
  | slash =>
      simp only [kind, MayFollow, Bool.and_eq_true, noKeywords, some, noSlash, noStar, and_assoc]
  | bareStar | star => simp only [kind, MayFollow, Bool.and_eq_true, noKeywords, noStar]
  | doubleStar => simp only [kind, MayFollow, noKeywords, and_true]
  | plain withDefault =>
      have own : Frame.hasField .defaultValue item.2 = withDefault := by
        simpa [of?, isKind, kind, hasField_eq] using isOf
      simp only [kind, MayFollow, Bool.and_eq_true, Bool.or_eq_true, noKeywords,
        holds_starParameter, own, noDefault]
      refine and_congr_right fun _ => ?_
      cases withDefault with
      | false => simp [imp_iff_not_or, or_comm]
      | true => simp

/-- A comma may stand anywhere. -/
theorem admits_of_none (none : of? item.2 = none) : Ebnf.admits before item = true := by
  unfold Ebnf.admits
  split <;> rename_i eq
  · simp [of?, eq] at none
  · simp [of?, eq] at none
  · simp [of?, eq] at none
  · simp [of?, eq] at none
  · rfl

/-- The grammar admits each of the children, after others, if its sort may stand there. -/
theorem allAdmitted_iff (before : List Child) (told : ∀ child ∈ before ++ children, Told child.2)
    (begun : ofAll before ≠ []) :
    Ebnf.allAdmitted before children = true ↔
      ∀ front sort back, ofAll children = front ++ sort :: back →
        MayFollow (ofAll before ++ front) sort := by
  induction children generalizing before with
  | nil => simp [Ebnf.allAdmitted, ofAll]
  | cons item rest ih =>
      have begins : before = [] ↔ ofAll before = [] :=
        iff_of_false (fun empty => begun (by rw [empty]; rfl)) begun
      have appended : ofAll (before ++ [item]) = ofAll before ++ ofAll [item] := ofAll_append _ _
      have rest' := ih (before ++ [item]) (by simpa using told) (by simp [appended, begun])
      rw [Ebnf.allAdmitted, Bool.and_eq_true, rest', appended]
      cases isOf : of? item.2 with
      | none =>
          rw [ofAll_cons_of_none isOf, ofAll_cons_of_none isOf, show ofAll [] = [] from rfl,
            List.append_nil, and_iff_right (admits_of_none isOf)]
      | some sort =>
          have earlier : ∀ child ∈ before, Told child.2 := fun child mem =>
            told child (List.mem_append_left _ mem)
          rw [ofAll_cons_of_some isOf, ofAll_cons_of_some isOf, show ofAll [] = [] from rfl,
            forall_split_cons (P := fun front sort _ => MayFollow (ofAll before ++ front) sort),
            admits_iff earlier begins isOf, List.append_nil]
          simp only [List.append_assoc, List.singleton_append]

/-- Every star without a name is followed by a name. -/
theorem starsAnswered_iff : Ebnf.starsAnswered children = true ↔
    ∀ front sort back, ofAll children = front ++ sort :: back → sort = bareStar →
      ∃ withDefault, plain withDefault ∈ back := by
  induction children with
  | nil => simp [Ebnf.starsAnswered, ofAll]
  | cons item rest ih =>
      have isBare : (Frame.isOneOf [.starParameter] item.2 && !Frame.hasField .parameter item.2) =
          true ↔ of? item.2 = some bareStar := by
        rw [Bool.and_eq_true, Bool.not_eq_true', ← Bool.not_eq_true, hasField_iff,
          Frame.isOneOf_singleton]
        constructor
        · rintro ⟨isStar, unnamed⟩
          simp [of?, isStar, unnamed]
        · intro isOf
          have isStar : item.2.kind? = some .starParameter := kind?_of_of? isOf
          refine ⟨isStar, ?_⟩
          simpa [of?, isStar] using isOf
      rw [Ebnf.starsAnswered, Bool.and_eq_true, ih, Bool.or_eq_true, Bool.not_eq_true',
        ← Bool.not_eq_true, isBare, holds_parameter, ← imp_iff_not_or]
      cases isOf : of? item.2 with
      | none => rw [ofAll_cons_of_none isOf]; simp
      | some sort =>
          rw [ofAll_cons_of_some isOf, forall_split_cons
            (P := fun _ sort back => sort = bareStar → ∃ withDefault, plain withDefault ∈ back),
            Option.some.injEq]

end ParameterSort

/-! ### Rows of parameters -/

namespace Ebnf

open ParameterSort

/-- Parameters with single commas between them, and perhaps one at the end. -/
def parameterRow (typed : Bool) : Phrase :=
  seq (anyParameter typed) (further .separators [.symbol .comma] (anyParameter typed))

/-- The names of the parameters of a row. -/
def parameterNames (typed : Bool) : List Nonterminal :=
  [.positionalOnly, .starParameter typed, .doubleStarParameter typed, .parameter typed true]

variable {D : Flow → Nonterminal → Tree → Prop} {flow : Flow} {typed : Bool}
  {children : List Child}

theorem exists_parameter (h : (anyParameter typed).Matches D flow children) :
    ∃ name ∈ parameterNames typed, ∃ tree, D flow name tree ∧
      children = [(.parameters, tree)] := by
  rcases Matches.choice_iff.1 h with ⟨p, mem, h⟩ | h
  · simp only [List.mem_cons, List.not_mem_nil, or_false] at mem
    rcases mem with rfl | rfl | rfl
    · exact ⟨_, by simp [parameterNames], Matches.part_iff.1 h⟩
    · exact ⟨_, by simp [parameterNames], Matches.part_iff.1 h⟩
    · exact ⟨_, by simp [parameterNames], Matches.part_iff.1 h⟩
  · exact ⟨_, by simp [parameterNames], Matches.part_iff.1 h⟩

/-- Among the pieces of a parameter that is no name there is no default. -/
theorem told_of_lacks {p : Phrase} (h : p.Matches (Derives ebnf) flow children)
    (lacks : p.lacks .defaultValue = true) (kind : NodeKind) (start stop : Nat) :
    Told (.node kind start stop children) := by
  have none : Frame.hasField .defaultValue (.node kind start stop children) = false := by
    simpa [Frame.hasField, Tree.children] using h.filter_lacks lacks
  intro some
  rw [none] at some
  cases some

/-- A parameter has a sort, and only a name has a default. -/
theorem exists_sort (h : (anyParameter typed).Matches (Derives ebnf) flow children) :
    ∃ item sort, children = [item] ∧ of? item.2 = some sort ∧ Told item.2 := by
  obtain ⟨name, mem, tree, derived, rfl⟩ := exists_parameter h
  simp only [parameterNames, List.mem_cons, List.not_mem_nil, or_false] at mem
  rcases mem with rfl | rfl | rfl | rfl
  · obtain ⟨start, stop, inner, matched, rfl⟩ := derived.node rfl
    exact ⟨_, _, rfl, rfl, told_of_lacks matched (by decide) _ _ _⟩
  · obtain ⟨start, stop, inner, matched, rfl⟩ := derived.node rfl
    exact ⟨_, _, rfl, rfl, told_of_lacks matched (by cases typed <;> decide) _ _ _⟩
  · obtain ⟨start, stop, inner, matched, rfl⟩ := derived.node rfl
    exact ⟨_, _, rfl, rfl, told_of_lacks matched (by cases typed <;> decide) _ _ _⟩
  · obtain ⟨start, stop, inner, matched, rfl⟩ := derived.node rfl
    exact ⟨_, _, rfl, rfl, fun _ => rfl⟩

/-- Among further parameters only names have defaults. -/
theorem told_of_further
    (h : (further .separators [.symbol .comma] (anyParameter typed)).Matches (Derives ebnf) flow
      children) : ∀ child ∈ children, Told child.2 := by
  have comma : ∀ token, Told (.leaf token) := fun _ some => by cases some
  generalize eq : further .separators [.symbol .comma] (anyParameter typed) = phrase at h
  induction h with
  | noFurther => exact fun _ mem => by cases mem
  | lastSeparator _ => exact List.forall_mem_singleton.2 (comma _)
  | further _ first _ _ ih =>
      cases eq
      obtain ⟨item, sort, rfl, -, told⟩ := exists_sort first
      exact List.forall_mem_cons.2 ⟨comma _, List.forall_mem_cons.2 ⟨told, ih rfl⟩⟩
  | _ => cases eq

/-- **The grammar allows just the orders of parameters that the rules allow.** -/
theorem ordered_iff (row : (parameterRow typed).Matches (Derives ebnf) flow children) :
    ordered children = true ↔ Allowed (ofAll children) := by
  obtain ⟨front, back, first, more, rfl⟩ := Matches.seq_iff.1 row
  obtain ⟨item, sort, rfl, isOf, told⟩ := exists_sort first
  have all : ∀ child ∈ [item] ++ back, Told child.2 := by
    exact List.forall_mem_cons.2 ⟨told, told_of_further more⟩
  have begun : ofAll [item] ≠ [] := by
    simp [ofAll_cons_of_some isOf]
  rw [allowed_iff, ← starsAnswered_iff, ordered, Bool.and_eq_true]
  refine and_congr_left fun _ => ?_
  rw [List.singleton_append, allAdmitted, Bool.and_eq_true, List.nil_append,
    admits_iff (by simp) (by simp [ofAll]) isOf, allAdmitted_iff [item] all begun,
    ofAll_cons_of_some isOf, ofAll_cons_of_some isOf, forall_split_cons
      (P := fun front sort _ => MayFollow front sort)]
  rfl

end Ebnf

end PythonSyntax
