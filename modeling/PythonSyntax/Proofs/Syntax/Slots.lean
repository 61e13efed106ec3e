/-
**Reading a tree field by field.**

The kind of a node lists its fields.  Reading their children in that order, separators and dots in
turn with what they stand between, gives the tokens of the tree, if the children of every node stand
as the list says.  That they do is computed for the phrases.

Main definitions:

* `PythonSyntax.Slot.arrange`, `PythonSyntax.Tree.reading` — children in the order of the list, and
  the tokens in that order;
* `PythonSyntax.Slot.next`, `PythonSyntax.Slot.fits` — fields that come as a list of slots says;
* `PythonSyntax.Tree.Fits` — a node whose children come as the slots of its kind say;
* `PythonSyntax.Phrase.places` — how far along the slots the children of a phrase lead.

Main results:

* `PythonSyntax.Slot.arrange_eq` — children that fit are arranged as they stand;
* `PythonSyntax.Tree.reading_eq_tokens` — the reading of a tree is its tokens;
* `PythonSyntax.Derives.fits` — every node of a derived tree fits.
-/

import PythonSyntax.Proofs.Syntax.Heads
import PythonSyntax.Proofs.Syntax.Nodes

set_option autoImplicit false

namespace PythonSyntax

/-! ### Arranging -/

/-- The members of two lists in turn, beginning with the first list. -/
def interleave {α : Type} : List α → List α → List α
  | [], others => others
  | first :: rest, [] => first :: rest
  | first :: rest, other :: others => first :: other :: interleave rest others

@[simp] theorem interleave_nil {α : Type} (first : List α) : interleave first [] = first := by
  cases first <;> rfl

theorem interleave_cons {α : Type} (first : α) (rest others : List α) :
    interleave (first :: rest) others = first :: interleave others rest := by
  induction others generalizing first rest with
  | nil => rfl
  | cons other others ih =>
      cases rest with
      | nil => rfl
      | cons second rest =>
          rw [interleave, ih, interleave]

namespace Slot

/-- The second slot is for what stands between the children of the first. -/
def paired (first second : Slot) : Bool :=
  first.arity = .many && second.arity = .many &&
    (second.field = .separators || second.field = .dots)

/-- The pieces that take the field. -/
def pick {α : Type} (field : Field) (pieces : List (Field × α)) : List α :=
  (pieces.filter fun piece => piece.1 = field).map Prod.snd

/-- The pieces in the order in which the slots are listed, separators and dots in turn with what
they stand between. -/
def arrange {α : Type} (pieces : List (Field × α)) : List Slot → List α
  | [] => []
  | [slot] => pick slot.field pieces
  | first :: second :: rest =>
    if paired first second then
      interleave (pick first.field pieces) (pick second.field pieces) ++ arrange pieces rest
    else pick first.field pieces ++ arrange pieces (second :: rest)

end Slot

/-! ### Fields in order -/

namespace Slot

/-- A spot along the slots: those that are left, and whether a separator may come. -/
structure Spot where
  slots : List Slot
  between : Bool
  deriving DecidableEq, Repr

/-- The spot after a field.  In a pair of slots the fields come in turn; a slot that is needed
once is not passed over. -/
def next (field : Field) : List Slot → Bool → Option Spot
  | [], _ => none
  | [slot], _ =>
    if field = slot.field then some ⟨if slot.arity = .many then [slot] else [], false⟩ else none
  | first :: second :: rest, between =>
    if paired first second then
      if field = first.field then
        if between then none else some ⟨first :: second :: rest, true⟩
      else if field = second.field then
        if between then some ⟨first :: second :: rest, false⟩ else none
      else next field rest false
    else if field = first.field then
      some ⟨if first.arity = .many then first :: second :: rest else second :: rest, false⟩
    else if first.arity = .one then none
    else next field (second :: rest) false

/-- The spot after fields in a row. -/
def follow (spot : Spot) : List Field → Option Spot
  | [] => some spot
  | field :: fields => (next field spot.slots spot.between).bind fun spot => follow spot fields

/-- The fields come as the slots say, and no slot that is needed once is left. -/
def fits (slots : List Slot) (fields : List Field) : Bool :=
  (follow ⟨slots, false⟩ fields).any fun spot => spot.slots.all fun slot => slot.arity != .one

/-- The fields of the slots. -/
def fields (slots : List Slot) : List Field := slots.map Slot.field

@[simp] theorem fields_nil : fields [] = [] := rfl

@[simp] theorem fields_cons (slot : Slot) (slots : List Slot) :
    fields (slot :: slots) = slot.field :: fields slots := rfl

theorem follow_append (spot : Spot) (front back : List Field) :
    follow spot (front ++ back) = (follow spot front).bind fun spot => follow spot back := by
  induction front generalizing spot with
  | nil => rfl
  | cons field front ih =>
      rw [List.cons_append, follow, follow]
      cases next field spot.slots spot.between with
      | none => rfl
      | some spot => exact ih spot

/-- The slots that are left after a field are the last ones of those before it, and the field is
one of theirs. -/
theorem next_suffix {field : Field} {slots : List Slot} {between : Bool} {spot : Spot}
    (h : next field slots between = some spot) :
    spot.slots <:+ slots ∧ field ∈ fields slots := by
  fun_induction next field slots between with
  | case1 => cases h
  | case2 slot between same =>
      cases h
      refine ⟨?_, by simp [same]⟩
      dsimp only
      split
      · exact List.suffix_refl _
      · exact List.nil_suffix
  | case3 => cases h
  | case4 => cases h
  | case5 first second rest between paired same _ =>
      cases h
      exact ⟨List.suffix_refl _, by simp [same]⟩
  | case6 first second rest paired _ same =>
      cases h
      exact ⟨List.suffix_refl _, by simp [same]⟩
  | case7 => cases h
  | case8 first second rest between paired _ _ ih =>
      obtain ⟨suffix, mem⟩ := ih h
      refine ⟨suffix.trans ⟨[first, second], rfl⟩, ?_⟩
      exact List.mem_cons_of_mem _ (List.mem_cons_of_mem _ mem)
  | case9 first second rest between _ same =>
      cases h
      refine ⟨?_, by simp [same]⟩
      dsimp only
      split
      · exact List.suffix_refl _
      · exact List.suffix_cons _ _
  | case10 => cases h
  | case11 first second rest between _ _ _ ih =>
      obtain ⟨suffix, mem⟩ := ih h
      exact ⟨suffix.trans (List.suffix_cons _ _), List.mem_cons_of_mem _ mem⟩

theorem mem_fields_of_suffix {slots slots' : List Slot} {field : Field} (h : slots <:+ slots')
    (mem : field ∈ fields slots) : field ∈ fields slots' := by
  obtain ⟨slot, isSlot, rfl⟩ := List.mem_map.1 mem
  exact List.mem_map_of_mem (h.subset isSlot)

/-- Every field that comes is that of a slot that is left. -/
theorem mem_fields_of_follow {spot spot' : Spot} {all : List Field}
    (h : follow spot all = some spot') : ∀ field ∈ all, field ∈ fields spot.slots := by
  induction all generalizing spot with
  | nil => simp
  | cons field all ih =>
      obtain ⟨middle, one, rest⟩ := Option.bind_eq_some_iff.1 h
      obtain ⟨suffix, mem⟩ := next_suffix one
      intro other isField
      rcases List.mem_cons.1 isField with rfl | isField
      · exact mem
      · exact mem_fields_of_suffix suffix (ih rest other isField)

end Slot

/-! ### Arranging what fits -/

namespace Slot

variable {α : Type}

theorem pick_cons_same (field : Field) (piece : α) (pieces : List (Field × α)) :
    pick field ((field, piece) :: pieces) = piece :: pick field pieces := by
  simp [pick]

theorem pick_cons_other {field field' : Field} (ne : field' ≠ field) (piece : α)
    (pieces : List (Field × α)) : pick field ((field', piece) :: pieces) = pick field pieces := by
  simp [pick, ne]

/-- No piece is picked if all are of other fields. -/
theorem pick_eq_nil {field : Field} {pieces : List (Field × α)}
    (others : ∀ piece ∈ pieces, piece.1 ≠ field) : pick field pieces = [] := by
  simpa [pick] using others

theorem arrange_cons_cons (pieces : List (Field × α)) (first second : Slot) (rest : List Slot) :
    arrange pieces (first :: second :: rest) =
      if paired first second then
        interleave (pick first.field pieces) (pick second.field pieces) ++ arrange pieces rest
      else pick first.field pieces ++ arrange pieces (second :: rest) := rfl

@[simp] theorem arrange_nil (slots : List Slot) : arrange ([] : List (Field × α)) slots = [] := by
  fun_induction arrange ([] : List (Field × α)) slots with
  | case1 => rfl
  | case2 => rfl
  | case3 first second rest _ ih => simpa [pick, interleave] using ih
  | case4 first second rest _ ih => simpa [pick] using ih

/-- A piece of another field does not matter. -/
theorem arrange_cons_other {field : Field} {slots : List Slot} (other : field ∉ fields slots)
    (piece : α) (pieces : List (Field × α)) :
    arrange ((field, piece) :: pieces) slots = arrange pieces slots := by
  fun_induction arrange pieces slots with
  | case1 => rfl
  | case2 slot =>
      have ne : field ≠ slot.field := by simpa using other
      exact pick_cons_other ne _ _
  | case3 first second rest paired ih =>
      simp only [fields_cons, List.mem_cons, not_or] at other
      rw [arrange_cons_cons, if_pos paired, pick_cons_other other.1, pick_cons_other other.2.1,
        ih other.2.2]
  | case4 first second rest paired ih =>
      simp only [fields_cons, List.mem_cons, not_or] at other
      rw [arrange_cons_cons, if_neg paired, pick_cons_other other.1,
        ih (by simpa using other.2)]

/-- The pieces in the order of the slots that are left; where a separator may come, it comes
first. -/
def arrangeFrom (pieces : List (Field × α)) : Spot → List α
  | ⟨first :: second :: rest, true⟩ =>
    if paired first second then
      interleave (pick second.field pieces) (pick first.field pieces) ++ arrange pieces rest
    else arrange pieces (first :: second :: rest)
  | ⟨slots, _⟩ => arrange pieces slots

theorem arrangeFrom_false (pieces : List (Field × α)) (slots : List Slot) :
    arrangeFrom pieces ⟨slots, false⟩ = arrange pieces slots := by
  unfold arrangeFrom
  split
  · rename_i eq
    cases eq
  · rename_i eq
    cases eq
    rfl

theorem arrangeFrom_not_paired {first second : Slot} (single : ¬ paired first second = true)
    (pieces : List (Field × α)) (rest : List Slot) (between : Bool) :
    arrangeFrom pieces ⟨first :: second :: rest, between⟩ =
      pick first.field pieces ++ arrange pieces (second :: rest) := by
  cases between <;> simp [arrangeFrom, arrange, single]

/-- Neither slot of a pair matters if all pieces are of later fields. -/
theorem arrangeFrom_paired {first second : Slot} (both : paired first second = true)
    {pieces : List (Field × α)} (rest : List Slot) (between : Bool)
    (others : ∀ piece ∈ pieces, piece.1 ≠ first.field ∧ piece.1 ≠ second.field) :
    arrangeFrom pieces ⟨first :: second :: rest, between⟩ = arrange pieces rest := by
  have none := pick_eq_nil fun piece mem => (others piece mem).1
  have none' := pick_eq_nil fun piece mem => (others piece mem).2
  cases between <;> simp [arrangeFrom, arrange, both, none, none']

/-- The piece that comes next stands first, if those after it are of fields that are left. -/
theorem arrangeFrom_cons {field : Field} {slots : List Slot} {between : Bool} {spot : Spot}
    (h : next field slots between = some spot) (nodup : (fields slots).Nodup) (piece : α)
    {pieces : List (Field × α)} (later : ∀ piece ∈ pieces, piece.1 ∈ fields spot.slots) :
    arrangeFrom ((field, piece) :: pieces) ⟨slots, between⟩ = piece :: arrangeFrom pieces spot := by
  fun_induction next field slots between with
  | case1 => cases h
  | case2 slot between same =>
      cases h
      subst same
      change pick slot.field _ = _
      rw [pick_cons_same, arrangeFrom_false]
      dsimp only at later ⊢
      split at later <;> rename_i arity
      · rw [if_pos arity]
        rfl
      · rw [if_neg arity, pick_eq_nil fun piece mem => absurd (later piece mem) (by simp)]
        rfl
  | case3 => cases h
  | case4 => cases h
  | case5 first second rest between both same here =>
      cases h
      rw [Bool.not_eq_true] at here
      subst same here
      simp only [fields_cons, List.nodup_cons, List.mem_cons, not_or] at nodup
      rw [arrangeFrom_false, arrange_cons_cons, if_pos both, pick_cons_same,
        pick_cons_other nodup.1.1, arrange_cons_other nodup.1.2, interleave_cons]
      simp [arrangeFrom, both]
  | case6 first second rest both ne same =>
      cases h
      subst same
      simp only [fields_cons, List.nodup_cons, List.mem_cons, not_or] at nodup
      rw [arrangeFrom_false, arrange_cons_cons, if_pos both]
      simp only [arrangeFrom, both, if_true]
      rw [pick_cons_same, pick_cons_other ne, arrange_cons_other nodup.2.1, interleave_cons,
        List.cons_append]
  | case7 => cases h
  | case8 first second rest between both ne ne' ih =>
      simp only [fields_cons, List.nodup_cons, List.mem_cons, not_or] at nodup
      have suffix := (next_suffix h).1
      rw [arrangeFrom_paired both, ← arrangeFrom_false, ih h nodup.2.2]
      intro piece' mem
      rcases List.mem_cons.1 mem with rfl | mem
      · exact ⟨ne, ne'⟩
      · have left := mem_fields_of_suffix suffix (later piece' mem)
        exact ⟨fun eq => nodup.1.2 (eq ▸ left), fun eq => nodup.2.1 (eq ▸ left)⟩
  | case9 first second rest between single same =>
      cases h
      subst same
      rw [fields_cons, List.nodup_cons] at nodup
      rw [arrangeFrom_not_paired single, pick_cons_same, arrange_cons_other nodup.1,
        arrangeFrom_false, List.cons_append]
      dsimp only at later ⊢
      split at later <;> rename_i arity
      · rw [if_pos arity, arrange_cons_cons, if_neg single]
      · have none : pick first.field pieces = [] :=
          pick_eq_nil fun piece mem eq => nodup.1 (eq ▸ later piece mem)
        rw [if_neg arity, none, List.nil_append]
  | case10 => cases h
  | case11 first second rest between single ne required ih =>
      rw [fields_cons, List.nodup_cons] at nodup
      have suffix := (next_suffix h).1
      rw [arrangeFrom_not_paired single, ← arrangeFrom_false _ (second :: rest), ih h nodup.2,
        pick_eq_nil, List.nil_append]
      intro piece' mem eq
      rcases List.mem_cons.1 mem with rfl | mem
      · exact ne eq
      · exact nodup.1 (eq ▸ mem_fields_of_suffix suffix (later piece' mem))

/-- Pieces that come as the slots say are arranged as they stand. -/
theorem arrangeFrom_eq {spot spot' : Spot} {pieces : List (Field × α)}
    (nodup : (fields spot.slots).Nodup) (h : follow spot (pieces.map Prod.fst) = some spot') :
    arrangeFrom pieces spot = pieces.map Prod.snd := by
  induction pieces generalizing spot with
  | nil =>
      obtain ⟨slots, between⟩ := spot
      cases between with
      | false => rw [arrangeFrom_false, arrange_nil, List.map_nil]
      | true =>
          match slots with
          | [] => rfl
          | [slot] => rfl
          | first :: second :: rest => simp [arrangeFrom, pick]
  | cons piece pieces ih =>
      obtain ⟨middle, one, rest⟩ := Option.bind_eq_some_iff.1 h
      have later := mem_fields_of_follow rest
      have suffix := (next_suffix one).1
      have nodup' : (fields middle.slots).Nodup := (suffix.map Slot.field).sublist.nodup nodup
      rw [List.map_cons, ← ih nodup' rest]
      exact arrangeFrom_cons one nodup piece.2 fun piece mem => later _ (List.mem_map_of_mem mem)

/-- **Pieces that fit are arranged as they stand.** -/
theorem arrange_eq {slots : List Slot} {pieces : List (Field × α)}
    (nodup : (fields slots).Nodup) (h : fits slots (pieces.map Prod.fst) = true) :
    arrange pieces slots = pieces.map Prod.snd := by
  obtain ⟨spot, followed, -⟩ := (Option.any_eq_true _ _).1 h
  rw [← arrangeFrom_false]
  exact arrangeFrom_eq nodup followed

end Slot

/-! ### Reading a tree -/

theorem NodeKind.nodup_slots (kind : NodeKind) : (Slot.fields kind.slots).Nodup := by
  cases kind <;> simp only [slots] <;> decide

namespace Tree

mutual

/-- The tokens of the tree in the order in which the kinds of its nodes list their fields. -/
def reading : Tree → List Token
  | .leaf token => [token]
  | .node kind _ _ children => (Slot.arrange (readings children) kind.slots).flatten

/-- The readings of trees in a row, with the fields that they take. -/
def readings : List (Field × Tree) → List (Field × List Token)
  | [] => []
  | (field, tree) :: rest => (field, reading tree) :: readings rest

end

/-- The children of the node come as the slots of its kind say. -/
def Fits : Tree → Prop
  | .leaf _ => True
  | .node kind _ _ children => Slot.fits kind.slots (children.map Prod.fst) = true

theorem map_fst_readings (children : List Child) :
    (readings children).map Prod.fst = children.map Prod.fst := by
  induction children with
  | nil => rfl
  | cons child rest ih => rw [readings, List.map_cons, ih, List.map_cons]

mutual

/-- **The reading of a tree whose nodes all fit is its tokens.** -/
theorem reading_eq_tokens : (tree : Tree) → (∀ inner ∈ tree.subtrees, inner.Fits) →
    tree.reading = tree.tokens
  | .leaf _, _ => rfl
  | .node kind start stop children, fit => by
      have here : Slot.fits kind.slots (children.map Prod.fst) = true :=
        fit (.node kind start stop children) List.mem_cons_self
      have inside := flatten_readings children fun inner mem => fit inner (List.mem_cons_of_mem _ mem)
      rw [← map_fst_readings] at here
      rw [reading, Slot.arrange_eq kind.nodup_slots here, inside, tokens_node]

/-- The readings of trees in a row are their tokens. -/
theorem flatten_readings : (children : List (Field × Tree)) →
    (∀ inner ∈ subtreesOf children, inner.Fits) →
    ((readings children).map Prod.snd).flatten = tokensOf children
  | [], _ => rfl
  | (field, tree) :: rest, fit => by
      have first := reading_eq_tokens tree fun inner mem =>
        fit inner (by simpa using Or.inl mem)
      have others := flatten_readings rest fun inner mem =>
        fit inner (by simpa using Or.inr mem)
      rw [readings, List.map_cons, List.flatten_cons, first, others, tokensOf_cons]

end

end Tree

/-! ### The places of a phrase -/

namespace Phrase

open Slot (Spot)

/-- All the spots to which a step leads from some spots, if it leads somewhere from each. -/
def throughAll (step : Spot → Option (List Spot)) : List Spot → Option (List Spot)
  | [] => some []
  | spot :: rest =>
    (step spot).bind fun first => (throughAll step rest).map fun others => first ++ others

/-- The step leads back to the spot. -/
def returns (step : Spot → Option (List Spot)) (spot : Spot) (origin : Spot) : Bool :=
  (step spot).any fun spots => spots.all fun spot' => spot' = origin

/-- The spots to which the children of a phrase lead; there are none to compute if some children may
not come. -/
def places : Phrase → Spot → Option (List Spot)
  | never, _ => some []
  | nil, spot | needs _, spot => some [spot]
  | leaf field _, spot | word field _, spot | part field _, spot | tree field _ _, spot =>
    (Slot.next field spot.slots spot.between).map fun spot' => [spot']
  | seq first second, spot => (first.places spot).bind (throughAll second.places)
  | alt first second, spot =>
    (first.places spot).bind fun spots => (second.places spot).map fun others => spots ++ others
  | many inner, spot => if returns inner.places spot spot then some [spot] else none
  | atLeastOne inner, spot => (inner.places spot).bind fun spots =>
    if spots.all fun spot' => returns inner.places spot' spot' then some spots else none
  | further field _ element, spot =>
    (Slot.next field spot.slots spot.between).bind fun between =>
      if returns element.places between spot then some [spot, between] else none
  | inside _ inner, spot | such _ inner, spot => inner.places spot

theorem mem_of_throughAll {step : Spot → Option (List Spot)} {spots all : List Spot}
    (h : throughAll step spots = some all) {spot : Spot} (mem : spot ∈ spots) :
    ∃ some', step spot = some some' ∧ some' ⊆ all := by
  induction spots generalizing all with
  | nil => cases mem
  | cons first rest ih =>
      obtain ⟨one, here, h⟩ := Option.bind_eq_some_iff.1 h
      obtain ⟨others, later, rfl⟩ := Option.map_eq_some_iff.1 h
      rcases List.mem_cons.1 mem with rfl | mem
      · exact ⟨one, here, List.subset_append_left _ _⟩
      · obtain ⟨two, stepped, sub⟩ := ih later mem
        exact ⟨two, stepped, List.subset_append_of_subset_right _ sub⟩

/-- What `returns` computes. -/
theorem eq_of_returns {step : Spot → Option (List Spot)} {spot origin : Spot}
    (h : returns step spot origin = true) :
    ∃ spots, step spot = some spots ∧ ∀ spot' ∈ spots, spot' = origin := by
  obtain ⟨spots, stepped, same⟩ := (Option.any_eq_true _ _).1 h
  exact ⟨spots, stepped, by simpa using same⟩

variable {D : Flow → Nonterminal → Tree → Prop} {flow : Flow} {p : Phrase}
  {children : List Child}

/-- The fields of the children of a phrase lead to one of its places. -/
theorem Matches.follow (h : Matches D flow p children) {spot : Spot} {spots : List Spot}
    (placed : p.places spot = some spots) :
    ∃ spot' ∈ spots, Slot.follow spot (children.map Prod.fst) = some spot' := by
  induction h generalizing spot spots with
  | nil | needs _ =>
      cases placed
      exact ⟨spot, List.mem_singleton_self _, rfl⟩
  | leaf _ | word _ | part _ | tree _ _ _ =>
      obtain ⟨spot', next, rfl⟩ := Option.map_eq_some_iff.1 placed
      refine ⟨spot', List.mem_singleton_self _, ?_⟩
      simp [Slot.follow, next]
  | seq _ _ ih ih' =>
      obtain ⟨middles, one, two⟩ := Option.bind_eq_some_iff.1 placed
      obtain ⟨middle, mem, front⟩ := ih one
      obtain ⟨lasts, stepped, sub⟩ := mem_of_throughAll two mem
      obtain ⟨last, mem', back⟩ := ih' stepped
      refine ⟨last, sub mem', ?_⟩
      rw [List.map_append, Slot.follow_append, front, Option.bind_some, back]
  | left _ ih =>
      obtain ⟨one, placed', placed⟩ := Option.bind_eq_some_iff.1 placed
      obtain ⟨two, -, rfl⟩ := Option.map_eq_some_iff.1 placed
      obtain ⟨spot', mem, followed⟩ := ih placed'
      exact ⟨spot', List.mem_append_left _ mem, followed⟩
  | right _ ih =>
      obtain ⟨one, -, placed⟩ := Option.bind_eq_some_iff.1 placed
      obtain ⟨two, placed', rfl⟩ := Option.map_eq_some_iff.1 placed
      obtain ⟨spot', mem, followed⟩ := ih placed'
      exact ⟨spot', List.mem_append_right _ mem, followed⟩
  | stop =>
      simp only [places, Option.ite_none_right_eq_some] at placed
      obtain ⟨-, ⟨⟩⟩ := placed
      exact ⟨spot, List.mem_singleton_self _, rfl⟩
  | more _ _ ih ih' =>
      -- A round leads back to its place, so the next one is placed like it.
      have again := placed
      simp only [places, Option.ite_none_right_eq_some] at placed
      obtain ⟨returned, ⟨⟩⟩ := placed
      obtain ⟨middles, stepped, same⟩ := eq_of_returns returned
      obtain ⟨middle, mem, front⟩ := ih stepped
      cases same _ mem
      obtain ⟨last, mem', back⟩ := ih' again
      refine ⟨last, mem', ?_⟩
      rw [List.map_append, Slot.follow_append, front, Option.bind_some, back]
  | atLeastOne _ _ ih ih' =>
      obtain ⟨middles, one, placed⟩ := Option.bind_eq_some_iff.1 placed
      simp only [Option.ite_none_right_eq_some, List.all_eq_true] at placed
      obtain ⟨closed, ⟨⟩⟩ := placed
      obtain ⟨middle, mem, front⟩ := ih one
      obtain ⟨last, mem', back⟩ := ih' (by rw [places, if_pos (closed _ mem)])
      cases List.mem_singleton.1 mem'
      refine ⟨_, mem, ?_⟩
      rw [List.map_append, Slot.follow_append, front, Option.bind_some, back]
  | noFurther =>
      obtain ⟨between, -, placed⟩ := Option.bind_eq_some_iff.1 placed
      simp only [Option.ite_none_right_eq_some] at placed
      obtain ⟨-, ⟨⟩⟩ := placed
      exact ⟨spot, List.mem_cons_self, rfl⟩
  | lastSeparator _ =>
      obtain ⟨between, next, placed⟩ := Option.bind_eq_some_iff.1 placed
      simp only [Option.ite_none_right_eq_some] at placed
      obtain ⟨-, ⟨⟩⟩ := placed
      refine ⟨between, by simp, ?_⟩
      simp [Slot.follow, next]
  | further _ _ _ ih ih' =>
      have again := placed
      obtain ⟨between, next, placed⟩ := Option.bind_eq_some_iff.1 placed
      simp only [Option.ite_none_right_eq_some] at placed
      obtain ⟨returned, ⟨⟩⟩ := placed
      obtain ⟨middles, stepped, same⟩ := eq_of_returns returned
      obtain ⟨middle, mem, front⟩ := ih stepped
      cases same _ mem
      obtain ⟨last, mem', back⟩ := ih' again
      refine ⟨last, mem', ?_⟩
      rw [List.map_cons, List.map_append, Slot.follow, next, Option.bind_some, Slot.follow_append,
        front, Option.bind_some, back]
  | inside _ ih | such _ _ ih => exact ih placed

/-- The children of a phrase come as the slots of the kind say, and none that is needed is left
out. -/
def suits (kind : NodeKind) (p : Phrase) : Bool :=
  (p.places ⟨kind.slots, false⟩).any fun spots =>
    spots.all fun spot => spot.slots.all fun slot => slot.arity != .one

theorem Matches.fits {kind : NodeKind} (h : Matches D flow p children)
    (suits : p.suits kind = true) (start stop : Nat) :
    (Tree.node kind start stop children).Fits := by
  obtain ⟨spots, placed, complete⟩ := (Option.any_eq_true _ _).1 suits
  obtain ⟨spot, mem, followed⟩ := h.follow placed
  rw [Tree.Fits, Slot.fits, followed, Option.any_some]
  exact List.all_eq_true.1 complete spot mem

end Phrase

theorem Nonterminal.suits_ebnf (name : Nonterminal) :
    ((ebnf name).trees.all fun inner => inner.2.suits inner.1) = true :=
  forall_of_all (fun name => (ebnf name).trees.all fun inner => inner.2.suits inner.1)
    (by decide) name

/-- **Every node of a derived tree fits.** -/
theorem Derives.fits {flow : Flow} {name : Nonterminal} {tree : Tree}
    (h : Derives ebnf flow name tree) : ∀ node ∈ tree.subtrees, node.Fits := by
  refine h.forall_subtrees (fun _ => trivial) ?_
  intro name kind inner flow start stop children mem matched
  have suits := List.all_eq_true.1 name.suits_ebnf _ mem
  exact matched.fits suits start stop

end PythonSyntax
