/-
**Sets of token kinds.**

Where a rule goes on depends on the kind of the current token.  A set of kinds is kept as the bits
of a number, so that questions about the sets that occur in a grammar are settled by computation.

Main definitions:

* `PythonSyntax.KindSet` — a set of token kinds;
* `PythonSyntax.KindSet.ofList`, `PythonSyntax.KindSet.union`, `PythonSyntax.KindSet.inter`,
  `PythonSyntax.KindSet.compl` — sets put together;
* `PythonSyntax.KindSet.subset`, `PythonSyntax.KindSet.disjoint` — how two sets lie to each other.

Main results:

* `PythonSyntax.TokenKind.code_injective` — no two kinds have the same bit;
* `PythonSyntax.KindSet.mem_of_subset`, `PythonSyntax.KindSet.not_mem_of_disjoint` — what the
  computed answers mean.
-/

import Mathlib.Algebra.Group.Nat.Defs
import PythonSyntax.Token.Kind

set_option autoImplicit false

namespace PythonSyntax

/-! ### Numbering the kinds -/

/-- A number for each kind of token. -/
def TokenKind.code : TokenKind → Nat
  | .eof => 0
  | .indent => 1
  | .dedent => 2
  | .newline => 3
  | .name => 4
  | .number => 5
  | .string => 6
  | .typeComment => 7
  | .invalid => 8
  | .keyword word => 16 + word.ctorIdx
  | .symbol sign => 64 + sign.ctorIdx

theorem Keyword.ctorIdx_lt (word : Keyword) : word.ctorIdx < 48 := by
  cases word <;> decide

theorem Symbol.ctorIdx_lt (sign : Symbol) : sign.ctorIdx < 64 := by
  cases sign <;> decide

theorem TokenKind.code_lt (kind : TokenKind) : kind.code < 128 := by
  cases kind with
  | keyword word =>
      have := word.ctorIdx_lt
      simp only [code]
      omega
  | symbol sign =>
      have := sign.ctorIdx_lt
      simp only [code]
      omega
  | _ => decide

/-- The kind with a number. -/
def TokenKind.ofCode? (code : Nat) : Option TokenKind :=
  TokenKind.all.find? fun kind => kind.code = code

theorem TokenKind.ofCode?_code (kind : TokenKind) : ofCode? kind.code = some kind := by
  cases kind with
  | keyword word => cases word <;> rfl
  | symbol sign => cases sign <;> rfl
  | _ => rfl

/-- No two kinds have the same number. -/
theorem TokenKind.code_injective {a b : TokenKind} (h : a.code = b.code) : a = b := by
  have := congrArg ofCode? h
  rw [ofCode?_code, ofCode?_code] at this
  exact Option.some.inj this

/-! ### Sets -/

/-- A set of token kinds, as the bits of a number. -/
@[ext] structure KindSet where
  bits : Nat
  deriving DecidableEq, Repr

namespace KindSet

/-- Whether the kind is in the set. -/
def mem (set : KindSet) (kind : TokenKind) : Bool := set.bits.testBit kind.code

/-- The empty set. -/
def empty : KindSet := ⟨0⟩

/-- All kinds. -/
def full : KindSet := ⟨2 ^ 128 - 1⟩

def union (a b : KindSet) : KindSet := ⟨a.bits ||| b.bits⟩

def inter (a b : KindSet) : KindSet := ⟨a.bits &&& b.bits⟩

/-- The kinds that are not in the set. -/
def compl (a : KindSet) : KindSet := ⟨full.bits ^^^ a.bits⟩

/-- The kinds of a list. -/
def ofList : List TokenKind → KindSet
  | [] => empty
  | kind :: rest => ⟨2 ^ kind.code ||| (ofList rest).bits⟩

/-- Whether every kind in the one is in the other. -/
def subset (a b : KindSet) : Bool := a.bits &&& b.bits = a.bits

/-- Whether no kind is in both. -/
def disjoint (a b : KindSet) : Bool := a.bits &&& b.bits = 0

@[simp] theorem mem_empty (kind : TokenKind) : empty.mem kind = false := Nat.zero_testBit _

@[simp] theorem mem_full (kind : TokenKind) : full.mem kind = true := by
  simp only [mem, full, Nat.testBit_two_pow_sub_one, decide_eq_true_eq]
  exact kind.code_lt

@[simp] theorem mem_union (a b : KindSet) (kind : TokenKind) :
    (a.union b).mem kind = (a.mem kind || b.mem kind) := Nat.testBit_or ..

@[simp] theorem mem_inter (a b : KindSet) (kind : TokenKind) :
    (a.inter b).mem kind = (a.mem kind && b.mem kind) := Nat.testBit_and ..

@[simp] theorem mem_compl (a : KindSet) (kind : TokenKind) :
    a.compl.mem kind = !a.mem kind := by
  have all : full.bits.testBit kind.code = true := mem_full kind
  simp only [mem, compl, Nat.testBit_xor, all, Bool.true_bne]

@[simp] theorem mem_ofList (kinds : List TokenKind) (kind : TokenKind) :
    (ofList kinds).mem kind = kinds.contains kind := by
  induction kinds with
  | nil => simp [ofList]
  | cons first rest ih =>
      have same : decide (first.code = kind.code) = (kind == first) := by
        rw [Bool.eq_iff_iff, decide_eq_true_iff, beq_iff_eq]
        exact ⟨fun h => (TokenKind.code_injective h).symm, fun h => by rw [h]⟩
      simp only [mem] at ih
      simp only [mem, ofList, Nat.testBit_or, Nat.testBit_two_pow, ih, same,
        List.contains_cons]

theorem mem_of_subset {a b : KindSet} {kind : TokenKind} (h : a.subset b = true)
    (mem : a.mem kind = true) : b.mem kind = true := by
  have both : (a.inter b).mem kind = true := by
    have eq : a.inter b = a := by
      simpa [subset, inter, KindSet.ext_iff] using h
    rw [eq]
    exact mem
  rw [mem_inter, Bool.and_eq_true] at both
  exact both.2

theorem not_mem_of_disjoint {a b : KindSet} {kind : TokenKind} (h : a.disjoint b = true)
    (mem : a.mem kind = true) : b.mem kind = false := by
  have eq : a.inter b = empty := by
    simpa [disjoint, inter, empty, KindSet.ext_iff] using h
  have none : (a.inter b).mem kind = false := by rw [eq, mem_empty]
  rw [mem_inter, mem, Bool.true_and] at none
  exact none

end KindSet

end PythonSyntax
