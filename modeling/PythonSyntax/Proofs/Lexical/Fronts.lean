/-
**How far a text is read.**

A scanner reads a front of the text before it.  Two questions are asked about a reader: whether it
takes a given front and no more, and whether it takes at least so much.  Readers that stand one
behind the other answer them part by part.  A reader that takes the fronts of some sort as they
are, and no less than any of them, takes the longest.

Main definitions:

* `PythonSyntax.LongestFront` — the longest front of a text among those of some sort;
* `PythonSyntax.Avoids` — the text does not begin with a character of a class;
* `PythonSyntax.Exactly`, `PythonSyntax.AtLeast` — how far a reader takes a text.
-/

import Mathlib.Data.List.TakeWhile
import Mathlib.Data.Nat.Find
import PythonSyntax.Proofs.Lexical.Seams

set_option autoImplicit false

namespace PythonSyntax

/-! ### Longest fronts -/

/-- The longest front of a text for which `P` holds. -/
structure LongestFront (P : List Char → Prop) (text front : List Char) : Prop where
  holds : P front
  initial : front <+: text
  longest : ∀ other, P other → other <+: text → other.length ≤ front.length

/-- If there is such a front, there is a longest one. -/
theorem exists_longestFront {P : List Char → Prop} {text front : List Char} (holds : P front)
    (initial : front <+: text) : ∃ longest, LongestFront P text longest := by
  classical
  have shown : P (text.take front.length) := by
    rwa [← List.prefix_iff_eq_take.1 initial]
  refine ⟨_, Nat.findGreatest_spec (P := fun n => P (text.take n)) initial.length_le shown,
    List.take_prefix _ _, fun other holds' initial' => ?_⟩
  have shown' : P (text.take other.length) := by
    rwa [← List.prefix_iff_eq_take.1 initial']
  rw [List.length_take, Nat.min_eq_left (Nat.findGreatest_le _)]
  exact Nat.le_findGreatest initial'.length_le shown'

namespace LongestFront

variable {P : List Char → Prop} {text front other : List Char}

/-- There is only one. -/
theorem unique (h : LongestFront P text front) (h' : LongestFront P text other) :
    front = other := by
  have same := Nat.le_antisymm (h'.longest front h.holds h.initial)
    (h.longest other h'.holds h'.initial)
  rw [List.prefix_iff_eq_take.1 h.initial, List.prefix_iff_eq_take.1 h'.initial, same]

/-- The longest front whose characters are all of a class. -/
theorem takeWhile (p : Char → Bool) (text : List Char) :
    LongestFront (fun front => ∀ c ∈ front, p c = true) text (text.takeWhile p) where
  holds := fun _ mem => List.mem_takeWhile_imp mem
  initial := List.takeWhile_prefix p
  longest := by
    rintro other all ⟨rest, rfl⟩
    rw [List.takeWhile_append_of_pos all, List.length_append]
    exact Nat.le_add_right _ _

end LongestFront

/-! ### Characters -/

/-- What holds of the first 128 characters holds of a character among them. -/
theorem forall_ascii {P : Char → Prop} (all : ∀ n < 128, P (Char.ofNat n)) {c : Char}
    (ascii : c.toNat < 128) : P c := by
  have checked := all c.toNat ascii
  rwa [Char.ofNat_toNat] at checked

/-- The text does not begin with a character of a class. -/
def Avoids (p : Char → Bool) (text : List Char) : Prop := text.head?.any p = false

namespace Avoids

variable {p q : Char → Bool} {front rest : List Char} {c : Char}

theorem cons (h : p c = false) (rest : List Char) : Avoids p (c :: rest) := h

/-- What follows counts only if nothing stands before it. -/
theorem append (h : Avoids p front) (h' : front = [] → Avoids p rest) :
    Avoids p (front ++ rest) := by
  cases front with
  | nil => exact h' rfl
  | cons c front => exact h

/-- A smaller class is avoided, too. -/
theorem mono (h : Avoids q rest) (sub : ∀ c, p c = true → q c = true) : Avoids p rest := by
  cases rest with
  | nil => rfl
  | cons c rest =>
      rw [Avoids, List.head?_cons, Option.any_some, Bool.eq_false_iff] at h ⊢
      exact fun holds => h (sub c holds)

end Avoids

/-! ### How far readers go -/

/-- The reader takes a front of the text and no more, whatever it says of it. -/
def Exactly (reader : List Char → Reading) (front rest : List Char) : Prop :=
  reader (front ++ rest) = ⟨front.length, none⟩

/-- The reader takes at least a front of the text, unless it finds a fault. -/
def AtLeast (reader : List Char → Reading) (front rest : List Char) : Prop :=
  (reader (front ++ rest)).fault = none → front.length ≤ (reader (front ++ rest)).length

/-- One reader after another, as one reader. -/
def Reading.chain (first next : List Char → Reading) (text : List Char) : Reading :=
  (first text).followedBy text next

section

variable {reader next : List Char → Reading} {front back rest : List Char}

theorem Exactly.atLeast (h : Exactly reader front rest) : AtLeast reader front rest := by
  intro _
  rw [h]

theorem Exactly.chain (h : Exactly reader front (back ++ rest)) (h' : Exactly next back rest) :
    Exactly (Reading.chain reader next) (front ++ back) rest := by
  rw [Exactly, List.append_assoc, Reading.chain, h, Reading.followedBy, List.drop_left, h',
    Reading.after, List.length_append]

theorem Exactly.chain_atLeast (h : Exactly reader front (back ++ rest))
    (h' : AtLeast next back rest) : AtLeast (Reading.chain reader next) (front ++ back) rest := by
  rw [AtLeast, List.append_assoc, Reading.chain, h, Reading.followedBy, List.drop_left,
    List.length_append]
  intro formed
  exact Nat.add_le_add_left (h' formed) _

theorem AtLeast.chain (h : AtLeast reader front rest) (next : List Char → Reading) :
    AtLeast (Reading.chain reader next) front rest := fun formed =>
  Nat.le_trans (h (Reading.formed_of_followedBy formed)) (Numeral.followedBy_length _ _ _)

/-- What two readers take, if it is well formed, is what the first takes and then the second. -/
theorem Reading.take_chain {text : List Char}
    (formed : (Reading.chain reader next text).fault = none) :
    (reader text).fault = none ∧
      (next (text.drop (reader text).length)).fault = none ∧
      text.take (Reading.chain reader next text).length =
        text.take (reader text).length ++
          (text.drop (reader text).length).take (next (text.drop (reader text).length)).length := by
  have first := Reading.formed_of_followedBy formed
  rw [Reading.chain, Reading.followedBy, first] at formed ⊢
  exact ⟨rfl, formed, List.take_add⟩

end

end PythonSyntax
