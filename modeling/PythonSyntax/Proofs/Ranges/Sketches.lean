/-
**What a rule knows of its pieces.**

Where a rule makes a node of an operator, it has taken the token of the operator; where it ends a
list, it has read an element, and commas if there are more.  Both can be told from the rule alone.

Main definitions:

* `PythonSyntax.Frame.operator?`, `PythonSyntax.NodeKind.dispatch?` — the node that a token of an
  operator stands for, if it stands for one;
* `PythonSyntax.Frame.finishList?` — the only element of a list, or a node of all;
* `PythonSyntax.Sketch` — what is known of the pieces at some place in a rule;
* `PythonSyntax.Rule.sketch`, `PythonSyntax.Rule.safe` — what is known behind a rule, and whether
  enough is known in it.

Main results:

* `PythonSyntax.Nonterminal.safe_python`, `PythonSyntax.Entry.safe_rule` — **enough is known in
  every rule of the grammar**.
-/

import PythonSyntax.Proofs.Parsing.Progress

set_option autoImplicit false

namespace PythonSyntax

/-! ### Nodes that depend on tokens -/

/-- The operator that a token stands for between two operands. -/
def BinaryOperator.ofToken? : TokenKind → Option BinaryOperator
  | .symbol .power => some .power
  | .symbol .mul => some .mul
  | .symbol .div => some .div
  | .symbol .floorDiv => some .floorDiv
  | .symbol .modulo => some .modulo
  | .symbol .matMul => some .matMul
  | .symbol .plus => some .plus
  | .symbol .minus => some .minus
  | .symbol .shiftLeft => some .shiftLeft
  | .symbol .shiftRight => some .shiftRight
  | .symbol .bitAnd => some .bitAnd
  | .symbol .bitXor => some .bitXor
  | .symbol .bitOr => some .bitOr
  | .symbol .less => some .less
  | .symbol .greater => some .greater
  | .symbol .equal => some .equal
  | .symbol .greaterEqual => some .greaterEqual
  | .symbol .lessEqual => some .lessEqual
  | .symbol .notEqual => some .notEqual
  | .keyword .inKw => some .membership
  | .keyword .isKw => some .identity
  | .keyword .andKw => some .conjunction
  | .keyword .orKw => some .disjunction
  | _ => none

/-- The operator that a token stands for if it assigns to its left operand. -/
def AugmentedOperator.ofToken? : TokenKind → Option AugmentedOperator
  | .symbol .plusAssign => some .plus
  | .symbol .minusAssign => some .minus
  | .symbol .mulAssign => some .mul
  | .symbol .divAssign => some .div
  | .symbol .floorDivAssign => some .floorDiv
  | .symbol .moduloAssign => some .modulo
  | .symbol .matMulAssign => some .matMul
  | .symbol .bitAndAssign => some .bitAnd
  | .symbol .bitOrAssign => some .bitOr
  | .symbol .bitXorAssign => some .bitXor
  | .symbol .shiftLeftAssign => some .shiftLeft
  | .symbol .shiftRightAssign => some .shiftRight
  | .symbol .powerAssign => some .power
  | _ => none

theorem BinaryOperator.ofToken?_token (op : BinaryOperator) : ofToken? op.token = some op := by
  cases op <;> rfl

theorem AugmentedOperator.ofToken?_token (op : AugmentedOperator) :
    ofToken? op.token = some op := by
  cases op <;> rfl

/-- The latest token that has been taken as an operator. -/
def Frame.operator? (frame : Frame) : Option Token :=
  match frame.find? fun child => child.1 = .op with
  | some (_, .leaf token) => some token
  | _ => none

/-- The kind of the node that is to be made of some pieces.  Which operator a node has is told by
the token that has been taken for it, and not by the rule. -/
def Frame.dispatch? (frame : Frame) : NodeKind → Option NodeKind
  | .binary _ => do
    let token ← frame.operator?
    (BinaryOperator.ofToken? token.kind).map .binary
  | .augmented _ => do
    let token ← frame.operator?
    (AugmentedOperator.ofToken? token.kind).map .augmented
  | kind => some kind

/-- The first element of a list that has no commas, or a node of all elements. -/
def Frame.finishList? (frame : Frame) (here stop : Nat) : Option Frame :=
  if frame.all fun child => child.1 ≠ .separators then
    frame.reverse.head?.map fun element => [element]
  else some [(.left, frame.build .testList here stop)]

/-! ### Sketches -/

/-- What is known of the pieces that have been collected. -/
structure Sketch where
  /-- There are none. -/
  empty : Bool
  /-- There is one. -/
  filled : Bool
  /-- There is at most one. -/
  single : Bool
  /-- There are more than one if and only if there is a comma. -/
  listed : Bool
  /-- There is no comma. -/
  bare : Bool
  /-- There is a comma. -/
  parted : Bool
  /-- The latest operator is a token of one of the kinds. -/
  op : Option KindSet
  deriving DecidableEq

namespace Sketch

/-- Nothing has been collected. -/
def start : Sketch := ⟨true, false, true, true, true, false, none⟩

/-- One piece has been collected, which is no comma. -/
def one : Sketch := ⟨false, true, true, true, true, false, none⟩

/-- Nothing is known. -/
def unknown : Sketch := ⟨false, false, false, false, false, false, none⟩

/-- One piece more. -/
def push (k : Sketch) (field : Field) : Sketch where
  empty := false
  filled := true
  single := k.empty
  listed := if field = .separators then k.filled else k.empty || k.parted
  bare := k.bare && field ≠ .separators
  parted := k.parted || field = .separators
  op := if field = .op then none else k.op

/-- The token of an operator more. -/
def pushOperator (k : Sketch) (kinds : KindSet) : Sketch := { k.push .op with op := some kinds }

/-- Another field for the latest piece. -/
def relabel (k : Sketch) (field : Field) : Sketch :=
  { unknown with
    empty := k.empty, filled := k.filled, single := k.single,
    listed := k.single && field ≠ .separators }

/-- At most one piece. -/
def few (k : Sketch) : Sketch := { k with single := true }

/-- What is known in both cases. -/
def meet (k l : Sketch) : Sketch where
  empty := k.empty && l.empty
  filled := k.filled && l.filled
  single := k.single && l.single
  listed := k.listed && l.listed
  bare := k.bare && l.bare
  parted := k.parted && l.parted
  op := if k.op = l.op then k.op else none

/-- What is known in both cases, if the second one occurs. -/
def meet? (k : Sketch) (l : Option Sketch) : Sketch := (l.map k.meet).getD k

/-- What is known if one of two cases occurs. -/
def join : Option Sketch → Option Sketch → Option Sketch
  | none, other => other
  | some one, other => some (one.meet? other)

/-- What is known before every round of a loop, whose body does `round`; two rounds tell enough. -/
def head (k : Sketch) (round : Sketch → Option Sketch) : Sketch :=
  let once := k.meet? (round k)
  once.meet? (round once)

end Sketch

/-! ### Rules -/

namespace Rule

/-- What is known behind a rule if `k` is known before it and the current token is of one of the
kinds; nothing stands behind a rule that gives up. -/
def sketch : Rule → KindSet → Sketch → Option Sketch
  | .done, _, k => some k
  | .seq first second, kinds, k => (first.sketch kinds k).bind fun l => second.sketch .full l
  | .shift field, kinds, k => some (if field = .op then k.pushOperator kinds else k.push field)
  | .call _ field, _, k => some (k.push field)
  | .reduce _, _, _ => some .one
  | .reducePair _ _, _, _ => some .unknown
  | .relabel field, _, k => some (k.relabel field)
  | .unwrap _, _, _ => some .unknown
  | .branch test yes no, kinds, k =>
    if Rule.branch test yes no = Grammar.finishList then some .one
    else
      Sketch.join (yes.sketch (kinds.inter test.mayHold) k)
        (no.sketch (kinds.inter test.mayFail) (if test = .collected .several then k.few else k))
  | .loop test body, _, k => some (k.head (body.sketch test.mayHold))
  | .within _ body, kinds, k => body.sketch kinds k
  | .refuse _ _, _, _ => none

/-- Enough is known wherever the rule makes a node of an operator or ends a list. -/
def safe : Rule → KindSet → Sketch → Bool
  | .seq first second, kinds, k =>
    first.safe kinds k && (first.sketch kinds k).all fun l => second.safe .full l
  | .reduce (.binary op), _, k => k.op.any fun set => set.subset (.ofList [op.token])
  | .reduce (.augmented op), _, k => k.op.any fun set => set.subset (.ofList [op.token])
  | .branch test yes no, kinds, k =>
    if Rule.branch test yes no = Grammar.finishList then k.filled && k.listed
    else
      yes.safe (kinds.inter test.mayHold) k &&
        no.safe (kinds.inter test.mayFail) (if test = .collected .several then k.few else k)
  | .loop test body, _, k =>
    let head := k.head (body.sketch test.mayHold)
    body.safe test.mayHold head && head.meet? (body.sketch test.mayHold head) = head
  | .within _ body, kinds, k => body.safe kinds k
  | _, _, _ => true

end Rule

/-- **Enough is known in every rule of the grammar**, and it collects one piece. -/
theorem Nonterminal.safe_python (name : Nonterminal) :
    (Grammar.python name).safe .full .start = true ∧
      ∀ k, (Grammar.python name).sketch .full .start = some k →
        k.filled = true ∧ k.single = true := by
  have checked := forall_of_all
    (fun name => (Grammar.python name).safe .full .start &&
      ((Grammar.python name).sketch .full .start).all fun k => k.filled && k.single)
    (by decide) name
  simp only [Bool.and_eq_true, Option.all_eq_true] at checked
  exact checked

theorem Entry.safe_rule (entry : Entry) : entry.rule.safe .full .start = true := by
  cases entry <;> decide

/-! ### What sketches mean -/

/-- What is known of the pieces is true of them. -/
structure Sketch.Depicts (k : Sketch) (frame : Frame) : Prop where
  empty : k.empty = true → frame = []
  filled : k.filled = true → frame ≠ []
  single : k.single = true → frame.length ≤ 1
  listed : k.listed = true → ((∃ child ∈ frame, child.1 = .separators) ↔ 1 < frame.length)
  bare : k.bare = true → ∀ child ∈ frame, child.1 ≠ .separators
  parted : k.parted = true → ∃ child ∈ frame, child.1 = .separators
  op : ∀ kinds, k.op = some kinds →
    ∃ token, frame.operator? = some token ∧ kinds.mem token.kind = true

namespace Sketch

variable {k l : Sketch} {frame : Frame} {field : Field} {tree : Tree}

theorem depicts_start : start.Depicts [] where
  empty _ := rfl
  filled := nofun
  single _ := Nat.zero_le _
  listed _ := by simp
  bare _ := by simp
  parted := nofun
  op := nofun

theorem depicts_one (other : field ≠ .separators) : one.Depicts [(field, tree)] where
  empty := nofun
  filled _ := by simp
  single _ := by simp
  listed _ := by simp [other]
  bare _ := by simp [other]
  parted := nofun
  op := nofun

theorem depicts_unknown (frame : Frame) : unknown.Depicts frame :=
  ⟨nofun, nofun, nofun, nofun, nofun, nofun, nofun⟩

/-- What a round does not change is known before every round. -/
theorem head_of_still {round : Sketch → Option Sketch} (still : k.meet? (round k) = k) :
    k.head round = k := by
  rw [head, still, still]

theorem meet_op {kinds : KindSet} (h : (k.meet l).op = some kinds) :
    k.op = some kinds ∧ l.op = some kinds := by
  simp only [meet, Option.ite_none_right_eq_some] at h
  exact ⟨h.2, h.1 ▸ h.2⟩

namespace Depicts

theorem few (h : k.Depicts frame) (le : frame.length ≤ 1) : k.few.Depicts frame :=
  ⟨h.empty, h.filled, fun _ => le, h.listed, h.bare, h.parted, h.op⟩

/-- What is known in both cases is true in the first one. -/
theorem meet_left (h : k.Depicts frame) (l : Sketch) : (k.meet l).Depicts frame where
  empty both := h.empty (Bool.and_eq_true_iff.1 both).1
  filled both := h.filled (Bool.and_eq_true_iff.1 both).1
  single both := h.single (Bool.and_eq_true_iff.1 both).1
  listed both := h.listed (Bool.and_eq_true_iff.1 both).1
  bare both := h.bare (Bool.and_eq_true_iff.1 both).1
  parted both := h.parted (Bool.and_eq_true_iff.1 both).1
  op kinds both := h.op kinds (meet_op both).1

/-- It is true in the second one. -/
theorem meet_right (h : l.Depicts frame) (k : Sketch) : (k.meet l).Depicts frame where
  empty both := h.empty (Bool.and_eq_true_iff.1 both).2
  filled both := h.filled (Bool.and_eq_true_iff.1 both).2
  single both := h.single (Bool.and_eq_true_iff.1 both).2
  listed both := h.listed (Bool.and_eq_true_iff.1 both).2
  bare both := h.bare (Bool.and_eq_true_iff.1 both).2
  parted both := h.parted (Bool.and_eq_true_iff.1 both).2
  op kinds both := h.op kinds (meet_op both).2

theorem meet? (h : k.Depicts frame) (l : Option Sketch) : (k.meet? l).Depicts frame := by
  cases l with
  | none => exact h
  | some l => exact h.meet_left l

theorem join_left (h : k.Depicts frame) (other : Option Sketch) :
    ∃ l, join (some k) other = some l ∧ l.Depicts frame :=
  ⟨_, rfl, h.meet? other⟩

theorem join_right (h : k.Depicts frame) (other : Option Sketch) :
    ∃ l, join other (some k) = some l ∧ l.Depicts frame := by
  cases other with
  | none => exact ⟨k, rfl, h⟩
  | some one => exact ⟨_, rfl, h.meet_right one⟩

theorem head (h : k.Depicts frame) (round : Sketch → Option Sketch) :
    (k.head round).Depicts frame :=
  (h.meet? _).meet? _

/-- One piece more. -/
theorem push (h : k.Depicts frame) (field : Field) (tree : Tree) :
    (k.push field).Depicts ((field, tree) :: frame) where
  empty := nofun
  filled _ := by simp
  single none := by simp [h.empty none]
  listed known := by
    simp only [Sketch.push] at known
    split at known
    · rename_i comma
      have some := List.length_pos_iff.2 (h.filled known)
      simp [comma, some]
    · rename_i other
      rcases Bool.or_eq_true_iff.1 known with none | comma
      · simp [h.empty none, other]
      · obtain ⟨child, mem, comma⟩ := h.parted comma
        have some := List.length_pos_of_mem mem
        simp only [List.length_cons, Nat.lt_add_left_iff_pos, some, iff_true]
        exact ⟨child, List.mem_cons_of_mem _ mem, comma⟩
  bare known := by
    simp only [Sketch.push, Bool.and_eq_true, decide_eq_true_eq] at known
    rintro child (_ | ⟨_, mem⟩)
    · exact known.2
    · exact h.bare known.1 child mem
  parted known := by
    simp only [Sketch.push, Bool.or_eq_true, decide_eq_true_eq] at known
    rcases known with earlier | comma
    · obtain ⟨child, mem, comma⟩ := h.parted earlier
      exact ⟨child, List.mem_cons_of_mem _ mem, comma⟩
    · exact ⟨_, List.mem_cons_self, comma⟩
  op kinds known := by
    simp only [Sketch.push, Option.ite_none_left_eq_some] at known
    obtain ⟨token, found, mem⟩ := h.op kinds known.2
    refine ⟨token, ?_, mem⟩
    simpa [Frame.operator?, known.1] using found

/-- The token of an operator more. -/
theorem pushOperator (h : k.Depicts frame) {kinds : KindSet} {token : Token}
    (mem : kinds.mem token.kind = true) :
    (k.pushOperator kinds).Depicts ((.op, .leaf token) :: frame) where
  empty := nofun
  filled _ := by simp
  single := (h.push .op (.leaf token)).single
  listed := (h.push .op (.leaf token)).listed
  bare := (h.push .op (.leaf token)).bare
  parted := (h.push .op (.leaf token)).parted
  op set known := by
    cases known
    exact ⟨token, rfl, mem⟩

theorem relabel (h : k.Depicts frame) (field : Field) :
    (k.relabel field).Depicts (frame.relabel field) where
  empty none := by simp [h.empty none, Frame.relabel]
  filled some := by
    have some := h.filled some
    cases frame with
    | nil => exact absurd rfl some
    | cons child rest => simp [Frame.relabel]
  single few := by
    have few := h.single few
    cases frame with
    | nil => exact few
    | cons child rest => exact few
  listed known := by
    simp only [Sketch.relabel, Bool.and_eq_true, decide_eq_true_eq] at known
    have few := h.single known.1
    cases frame with
    | nil => simp [Frame.relabel]
    | cons child rest =>
        obtain rfl : rest = [] := List.eq_nil_of_length_eq_zero (by simpa using few)
        simp [Frame.relabel, known.2]
  bare := nofun
  parted := nofun
  op := nofun

/-- The token of an operator is the one that the rule looked for. -/
theorem operator? (h : k.Depicts frame) {kind : TokenKind}
    (known : (k.op.any fun set => set.subset (.ofList [kind])) = true) :
    ∃ token, frame.operator? = some token ∧ token.kind = kind := by
  obtain ⟨kinds, eq, sub⟩ := (Option.any_eq_true _ _).1 known
  obtain ⟨token, found, mem⟩ := h.op kinds eq
  exact ⟨token, found, by simpa using KindSet.mem_of_subset sub mem⟩

/-- The node of an operator can be made. -/
theorem dispatch? (h : k.Depicts frame) {kind : NodeKind} {kinds : KindSet}
    (safe : (Rule.reduce kind).safe kinds k = true) : frame.dispatch? kind = some kind := by
  cases kind with
  | binary op =>
      obtain ⟨token, found, same⟩ := h.operator? safe
      rw [Frame.dispatch?, found, Option.bind_eq_bind, Option.bind_some, same,
        BinaryOperator.ofToken?_token]
      rfl
  | augmented op =>
      obtain ⟨token, found, same⟩ := h.operator? safe
      rw [Frame.dispatch?, found, Option.bind_eq_bind, Option.bind_some, same,
        AugmentedOperator.ofToken?_token]
      rfl
  | _ => rfl

/-- A list that does not have more than one piece has one, which is no comma. -/
theorem alone (h : k.Depicts frame) (filled : k.filled = true) (listed : k.listed = true)
    (few : ¬1 < frame.length) : ∃ field tree, frame = [(field, tree)] ∧ field ≠ .separators := by
  cases frame with
  | nil => exact absurd rfl (h.filled filled)
  | cons child rest =>
      obtain rfl : rest = [] := List.eq_nil_of_length_eq_zero (by simpa using few)
      refine ⟨child.1, child.2, rfl, fun comma => few ((h.listed listed).1 ?_)⟩
      exact ⟨child, List.mem_cons_self, comma⟩

/-- A list can be ended. -/
theorem finishList? (h : k.Depicts frame) (filled : k.filled = true) (listed : k.listed = true)
    (here stop : Nat) : frame.finishList? here stop =
      some (if 1 < frame.length then [(.left, frame.build .testList here stop)] else frame) := by
  unfold Frame.finishList?
  by_cases more : 1 < frame.length
  · obtain ⟨child, mem, comma⟩ := (h.listed listed).2 more
    have parted : ¬(frame.all fun child => child.1 ≠ .separators) = true := by
      intro all
      exact absurd comma (by simpa using List.all_eq_true.1 all child mem)
    rw [if_neg parted, if_pos more]
  · obtain ⟨field, tree, rfl, other⟩ := h.alone filled listed more
    simp [other]

end Depicts

end Sketch

end PythonSyntax
