/-
**Numbers are read as long as they can be.**

Where a number begins, the scanner takes the longest front of the text that is a number by the
grammar; and if that runs on into a name, the number is malformed.

Main results:

* `PythonSyntax.Numeral.isDigit_iff`, `PythonSyntax.Numeral.ofLetter?_iff`,
  `PythonSyntax.Numeral.starts_iff` — the scanner goes by the digits and letters of the grammar;
* `PythonSyntax.Numeral.read_literal` — **what is read is a number** by the grammar;
* `PythonSyntax.Numeral.read_atLeast` — no less is read than any front that is a number;
* `PythonSyntax.Numeral.read_exactly` — a front that is a number is read if it does not run on;
* `PythonSyntax.Scanner.readToken_number` — **numbers are recognised exactly**.
-/

import PythonSyntax.Lexical.Scanner
import PythonSyntax.Proofs.Lexical.Fronts
import PythonSyntax.Proofs.Lexical.NumeralGrammar

set_option autoImplicit false

namespace PythonSyntax

namespace Numeral

variable {radix : Radix} {text front whole fraction exponent letter rest : List Char} {c : Char}

/-! ### Runs of digits -/

/-- The characters with which a run of digits goes on. -/
def goesOn (radix : Radix) (c : Char) : Bool := radix.isDigit c || c = '_'

theorem isDigit_underscore (radix : Radix) : radix.isDigit '_' = false := by
  cases radix <;> decide

/-- Digits are among the first 128 characters. -/
theorem toNat_lt_of_isDigit (digit : radix.isDigit c = true) : c.toNat < 128 := by
  cases radix with
  | binary =>
      rcases Bool.or_eq_true_iff.1 digit with zero | one
      · exact of_decide_eq_true zero ▸ by decide
      · exact of_decide_eq_true one ▸ by decide
  | _ =>
      simp only [Radix.isDigit, Char.isDigit, Bool.or_eq_true, Bool.and_eq_true,
        decide_eq_true_eq, Char.le_def, UInt32.le_iff_toNat_le] at digit
      simp only [Char.toNat]
      grind

/-- What holds of the digits among the first 128 characters holds of all digits. -/
theorem forall_isDigit (radix : Radix) {p : Char → Bool}
    (all : ∀ n < 128, radix.isDigit (Char.ofNat n) = true → p (Char.ofNat n) = true)
    (digit : radix.isDigit c = true) : p c = true :=
  forall_ascii (P := fun c => radix.isDigit c = true → p c = true) all
    (toNat_lt_of_isDigit digit) digit

/-- **The digits that the scanner takes are those of the base.** -/
theorem isDigit_iff : radix.isDigit c = true ↔ c ∈ digitsOf radix := by
  constructor
  · intro digit
    have all := forall_isDigit radix (p := (digitsOf radix).contains)
      (by cases radix <;> decide) digit
    exact List.contains_iff_mem.1 all
  · have all : (digitsOf radix).all radix.isDigit = true := by
      cases radix <;> decide
    exact List.all_eq_true.1 all c

/-- **The letters that the scanner knows are those of the base.** -/
theorem ofLetter?_iff : Radix.ofLetter? c = some radix ↔ c ∈ lettersOf radix := by
  unfold Radix.ofLetter?
  cases radix <;> grind [lettersOf]

/-- **The scanner knows where a number begins.** -/
theorem starts_iff : starts text = true ↔ Begins text := by
  constructor
  · intro begins
    match text with
    | [] => cases begins
    | c :: rest =>
        rcases Bool.or_eq_true_iff.1 begins with digit | point
        · exact .digit (isDigit_iff.1 digit)
        · obtain ⟨isPoint, digit⟩ := Bool.and_eq_true_iff.1 point
          obtain rfl := of_decide_eq_true isPoint
          cases rest with
          | nil => cases digit
          | cons d rest => exact .point (isDigit_iff.1 digit)
  · rintro (digit | @⟨c, rest, digit⟩)
    · exact Bool.or_eq_true_iff.2 (Or.inl (isDigit_iff.2 digit))
    · have digit' : startsWithDigit (c :: rest) = true := isDigit_iff.2 digit
      simp [starts, digit']

instance (text : List Char) : Decidable (Begins text) := decidable_of_iff _ starts_iff

/-- Digits are characters of names. -/
theorem isNamePart_of_isDigit (digit : radix.isDigit c = true) : isNamePart c = true :=
  forall_isDigit radix (by cases radix <;> decide) digit

/-- No name begins with a decimal digit. -/
theorem isNameStart_of_isDigit (digit : c.isDigit = true) : isNameStart c = false := by
  have all := forall_isDigit .decimal (p := fun c => !isNameStart c) (by decide) digit
  simpa using all

theorem isNamePart_of_goesOn (h : goesOn radix c = true) : isNamePart c = true := by
  rcases Bool.or_eq_true_iff.1 h with digit | underscore
  · exact isNamePart_of_isDigit digit
  · rw [of_decide_eq_true underscore]
    decide

/-- Behind a run of digits, reading goes on as behind a digit. -/
theorem digits_run (run : Run radix front) (seen : Bool) (rest : List Char) :
    digits radix seen (front ++ rest) = (digits radix true rest).after front.length := by
  induction run generalizing seen with
  | last digit => simp [digits, isDigit_iff.2 digit]
  | @digit c more digit _ ih =>
      rw [List.cons_append, digits, if_pos (isDigit_iff.2 digit), ih, Reading.after_after,
        List.length_cons, Nat.add_comm]
  | @underscore c more digit run ih =>
      have next : (more ++ rest).head?.any radix.isDigit = true := by
        cases run <;> simpa [isDigit_iff]
      rw [List.cons_append, digits, if_pos (isDigit_iff.2 digit), List.cons_append, digits,
        if_neg (by simp [isDigit_underscore]), if_pos (by simp), if_pos next, ih,
        Reading.after_after, Reading.after_after]
      congr 1
      simp only [List.length_cons]
      omega

/-- Nothing is read where no run goes on. -/
theorem digits_nothing (seen : Bool) (stops : Avoids (goesOn radix) rest) :
    digits radix seen rest = .nothing := by
  cases rest with
  | nil => rfl
  | cons c rest =>
      obtain ⟨digit, underscore⟩ := Bool.or_eq_false_iff.1 (show goesOn radix c = false from stops)
      simp [digits, digit, of_decide_eq_false underscore]

theorem digits_exactly (run : front = [] ∨ Run radix front)
    (stops : Avoids (goesOn radix) rest) : Exactly (digits radix false) front rest := by
  rcases run with rfl | run
  · exact digits_nothing false stops
  · rw [Exactly, digits_run run, digits_nothing true stops]
    rfl

theorem digits_atLeast (run : front = [] ∨ Run radix front) (rest : List Char) :
    AtLeast (digits radix false) front rest := by
  intro _
  rcases run with rfl | run
  · exact Nat.zero_le _
  · rw [digits_run run]
    exact Nat.le_add_right _ _

/-- Behind a digit a well-formed reading is empty, a run, or an underscore and a run. -/
theorem digits_tail (seen : Bool) (formed : (digits radix seen text).fault = none) :
    text.take (digits radix seen text).length = [] ∨
      Run radix (text.take (digits radix seen text).length) ∨
        seen = true ∧ ∃ run, Run radix run ∧
          text.take (digits radix seen text).length = '_' :: run := by
  induction text generalizing seen with
  | nil => exact Or.inl rfl
  | cons c rest ih =>
      rw [digits] at formed ⊢
      by_cases digit : radix.isDigit c = true
      · simp only [digit, if_true, Reading.after, Nat.add_comm 1, List.take_succ_cons] at formed ⊢
        refine Or.inr (Or.inl ?_)
        rcases ih true formed with none | run | ⟨-, run, isRun, eq⟩
        · rw [none]
          exact .last (isDigit_iff.1 digit)
        · exact .digit (isDigit_iff.1 digit) run
        · rw [eq]
          exact .underscore (isDigit_iff.1 digit) isRun
      · rw [if_neg digit] at formed ⊢
        by_cases underscore : (c = '_' && seen) = true
        · obtain ⟨rfl, rfl⟩ : c = '_' ∧ seen = true := by simpa using underscore
          rw [if_pos underscore] at formed ⊢
          by_cases next : rest.head?.any radix.isDigit = true
          · simp only [next, if_true, Reading.after, Nat.add_comm 1, List.take_succ_cons]
              at formed ⊢
            refine Or.inr (Or.inr ⟨trivial, _, ?_, rfl⟩)
            -- A digit is next, so the rest is neither empty nor does it begin with an underscore.
            cases rest with
            | nil => cases next
            | cons d rest =>
                have digit' : radix.isDigit d = true := next
                rcases ih true formed with none | run | ⟨-, run, -, eq⟩
                · rw [digits, if_pos digit', Reading.after, Nat.add_comm, List.take_succ_cons]
                    at none
                  cases none
                · exact run
                · rw [digits, if_pos digit', Reading.after, Nat.add_comm, List.take_succ_cons] at eq
                  rw [(List.cons_eq_cons.1 eq).1, isDigit_underscore] at digit'
                  cases digit'
          · rw [if_neg next] at formed
            cases formed
        · rw [if_neg underscore]
          exact Or.inl rfl

/-- What is read as a run of digits, if it is well formed, is one, or nothing. -/
theorem digits_formed (formed : (digits radix false text).fault = none) :
    text.take (digits radix false text).length = [] ∨
      Run radix (text.take (digits radix false text).length) := by
  rcases digits_tail false formed with none | run | ⟨seen, -⟩
  · exact Or.inl none
  · exact Or.inr run
  · cases seen

/-! ### The parts that may be missing -/

theorem fraction_exactly (behind : fraction = [] ∨ fraction = ['.'] ∨ Fraction fraction)
    (stops : Avoids (goesOn .decimal) rest)
    (pointless : fraction = [] → Avoids (fun c => c = '.') rest) :
    Exactly Numeral.fraction fraction rest := by
  rcases behind with rfl | rfl | @⟨figures, run⟩
  · have none : Avoids (fun c => c = '.') rest := pointless rfl
    cases rest with
    | nil => rfl
    | cons c rest =>
        have other : c ≠ '.' := by simpa [Avoids] using none
        simp [Exactly, Numeral.fraction, other, Reading.nothing]
  · have none := digits_nothing false stops
    simp [Exactly, Numeral.fraction, none, Reading.nothing, Reading.after]
  · have run := digits_exactly (Or.inr run) stops
    rw [Exactly] at run
    simp [Exactly, Numeral.fraction, run, Reading.after, Nat.add_comm]

theorem fraction_atLeast (behind : fraction = ['.'] ∨ Fraction fraction) (rest : List Char) :
    AtLeast Numeral.fraction fraction rest := by
  rcases behind with rfl | @⟨figures, run⟩
  · intro _
    exact Nat.le_add_right _ _
  · intro formed
    have run := digits_atLeast (Or.inr run) rest formed
    simp only [List.cons_append, Numeral.fraction, Reading.after, List.length_cons]
    omega

/-- What is read behind the first digits is nothing, a point, or a point and digits; and if a digit
stands behind the point, it is taken. -/
theorem fraction_formed (formed : (Numeral.fraction text).fault = none) :
    (text.take (Numeral.fraction text).length = [] ∨
      text.take (Numeral.fraction text).length = ['.'] ∨
        Fraction (text.take (Numeral.fraction text).length)) ∧
      ∀ rest, text = '.' :: rest → startsWithDigit rest = true →
        Fraction (text.take (Numeral.fraction text).length) := by
  match text with
  | [] => exact ⟨Or.inl rfl, nofun⟩
  | c :: rest =>
      by_cases point : c = '.'
      · subst point
        simp only [Numeral.fraction, Reading.after, Nat.add_comm 1, List.take_succ_cons]
          at formed ⊢
        rcases digits_formed formed with none | run
        · rw [none]
          refine ⟨Or.inr (Or.inl rfl), fun behind same begins => ?_⟩
          cases same
          have pos := digits_pos false begins
          have length := congrArg List.length none
          have within := digits_within .decimal false rest
          rw [Reading.Within] at within
          rw [List.length_take, List.length_nil] at length
          omega
        · exact ⟨Or.inr (Or.inr (.intro run)), fun _ _ _ => .intro run⟩
      · refine ⟨Or.inl (by simp [Numeral.fraction, point, Reading.nothing]), fun behind same => ?_⟩
        exact absurd (List.cons_eq_cons.1 same).1 point

/-- What stands between the letter of an exponent and its digits. -/
theorem exponent_sign {sign digits : List Char} (signed : sign = [] ∨ sign = ['+'] ∨ sign = ['-'])
    (begins : startsWithDigit digits = true) :
    (if (sign ++ digits).head? = some '+' ∨ (sign ++ digits).head? = some '-' then 1 else 0) =
      sign.length := by
  rcases signed with rfl | rfl | rfl
  · cases digits with
    | nil => cases begins
    | cons d digits =>
        have digit : d.isDigit = true := begins
        have other : ¬((d :: digits).head? = some '+' ∨ (d :: digits).head? = some '-') := by
          rintro (sign | sign) <;> · cases sign; cases digit
        rw [List.nil_append, if_neg other]
        rfl
  · rfl
  · rfl

theorem startsWithDigit_run (run : Run .decimal front) (rest : List Char) :
    startsWithDigit (front ++ rest) = true := by
  cases run with
  | last digit | digit digit | underscore digit => exact isDigit_iff.2 digit

/-- An exponent is read on behind its digits. -/
theorem exponent_append (power : Exponent exponent) (rest : List Char) :
    Numeral.exponent (exponent ++ rest) =
      (digits .decimal true rest).after exponent.length := by
  obtain @⟨letter, sign, figures, isE, signed, run⟩ := power
  have begins := startsWithDigit_run run rest
  have isE' : (letter = 'e' || letter = 'E') = true := by simpa using isE
  rw [List.cons_append, List.append_assoc, Numeral.exponent]
  simp only [exponent_sign signed begins, List.drop_left, begins, isE', Bool.and_self, if_true]
  rw [digits_run run, Reading.after_after]
  congr 1
  simp only [List.length_cons, List.length_append]
  omega

theorem exponent_exactly (power : exponent = [] ∨ Exponent exponent)
    (stops : exponent ≠ [] → Avoids (goesOn .decimal) rest)
    (powerless : exponent = [] → Avoids (fun c => c = 'e' || c = 'E') rest) :
    Exactly Numeral.exponent exponent rest := by
  rcases power with rfl | power
  · have none : Avoids (fun c => c = 'e' || c = 'E') rest := powerless rfl
    cases rest with
    | nil => rfl
    | cons c rest =>
        have other : (c = 'e' || c = 'E') = false := none
        simp [Exactly, Numeral.exponent, other, Reading.nothing]
  · have some : exponent ≠ [] := by
      cases power
      exact List.cons_ne_nil _ _
    rw [Exactly, exponent_append power, digits_nothing true (stops some)]
    rfl

theorem exponent_atLeast (power : Exponent exponent) (rest : List Char) :
    AtLeast Numeral.exponent exponent rest := by
  intro _
  rw [exponent_append power]
  exact Nat.le_add_right _ _

theorem imaginary_exactly (unit : letter = [] ∨ letter = ['j'] ∨ letter = ['J'])
    (unitless : letter = [] → Avoids (fun c => c = 'j' || c = 'J') rest) :
    Exactly imaginary letter rest := by
  rcases unit with rfl | rfl | rfl
  · have none : Avoids (fun c => c = 'j' || c = 'J') rest := unitless rfl
    cases rest with
    | nil => rfl
    | cons c rest =>
        have other : (c = 'j' || c = 'J') = false := none
        simp [Exactly, imaginary, other, Reading.nothing]
  · rfl
  · rfl

/-- What is read as an exponent is nothing or an exponent. -/
theorem exponent_formed (formed : (Numeral.exponent text).fault = none) :
    text.take (Numeral.exponent text).length = [] ∨
      Exponent (text.take (Numeral.exponent text).length) := by
  match text with
  | [] => exact Or.inl rfl
  | c :: rest =>
      obtain ⟨sign, signed, split, length⟩ : ∃ sign, (sign = [] ∨ sign = ['+'] ∨ sign = ['-']) ∧
          rest = sign ++ rest.drop sign.length ∧
            (if rest.head? = some '+' ∨ rest.head? = some '-' then 1 else 0) = sign.length := by
        split
        · rename_i signs
          cases rest with
          | nil => simp at signs
          | cons d more =>
              refine ⟨[d], Or.inr ?_, rfl, rfl⟩
              simpa using signs
        · exact ⟨[], Or.inl rfl, rfl, rfl⟩
      simp only [Numeral.exponent, length] at formed ⊢
      generalize rest.drop sign.length = behind at split formed ⊢
      subst split
      by_cases begins : ((c = 'e' || c = 'E') && startsWithDigit behind) = true
      · rw [if_pos begins] at formed ⊢
        obtain ⟨isE, begins⟩ := Bool.and_eq_true_iff.1 begins
        rcases digits_formed formed with none | run
        · have pos := digits_pos false begins
          have within := digits_within .decimal false behind
          have length := congrArg List.length none
          rw [Reading.Within] at within
          rw [List.length_take, List.length_nil] at length
          omega
        · refine Or.inr ?_
          rw [Reading.after, Nat.add_assoc, Nat.add_comm 1, List.take_succ_cons,
            List.take_length_add_append]
          exact .intro (by simpa using isE) signed run
      · rw [if_neg begins]
        exact Or.inl rfl

theorem imaginary_formed (text : List Char) :
    (text.take (imaginary text).length = [] ∨ text.take (imaginary text).length = ['j'] ∨
      text.take (imaginary text).length = ['J']) := by
  match text with
  | [] => exact Or.inl rfl
  | c :: rest =>
      rw [imaginary]
      by_cases isJ : (c = 'j' || c = 'J') = true
      · rw [if_pos isJ]
        refine Or.inr ?_
        simpa using isJ
      · rw [if_neg isJ]
        exact Or.inl rfl

/-! ### Numbers in decimal notation are read -/

/-- The digits before a point, and the point with the digits behind it. -/
def readMantissa : List Char → Reading := Reading.chain (digits .decimal false) Numeral.fraction

/-- A number without a letter behind it. -/
def readReal : List Char → Reading := Reading.chain readMantissa Numeral.exponent

/-- A number in decimal notation, before it is looked at as a whole. -/
def unchecked : List Char → Reading := Reading.chain readReal imaginary

theorem avoids_fraction {p : Char → Bool}
    (behind : fraction = [] ∨ fraction = ['.'] ∨ Fraction fraction) (point : p '.' = false) :
    Avoids p fraction := by
  rcases behind with rfl | rfl | @⟨figures, run⟩
  · rfl
  · exact point
  · exact point

theorem avoids_exponent {p : Char → Bool} (power : exponent = [] ∨ Exponent exponent)
    (small : p 'e' = false) (capital : p 'E' = false) : Avoids p exponent := by
  rcases power with rfl | @⟨letter, sign, figures, rfl | rfl, signed, run⟩
  · rfl
  · exact small
  · exact capital

theorem avoids_letter {p : Char → Bool} (unit : letter = [] ∨ letter = ['j'] ∨ letter = ['J'])
    (small : p 'j' = false) (capital : p 'J' = false) : Avoids p letter := by
  rcases unit with rfl | rfl | rfl
  · rfl
  · exact small
  · exact capital

/-- No part of a number goes on where no name does. -/
theorem avoids_goesOn (ends : runsOn rest = false) : Avoids (goesOn radix) rest :=
  Avoids.mono ends fun _ => isNamePart_of_goesOn

theorem avoids_of_runsOn {p : Char → Bool} (small capital : Char) (ends : runsOn rest = false)
    (parts : isNamePart small = true ∧ isNamePart capital = true)
    (sub : ∀ c, p c = true → c = small ∨ c = capital) : Avoids p rest := by
  refine Avoids.mono ends fun c holds => ?_
  rcases sub c holds with rfl | rfl
  · exact parts.1
  · exact parts.2

section

variable (parts : Parts whole fraction exponent letter)

include parts

theorem Parts.mantissa_exactly (stops : Avoids (goesOn .decimal) rest)
    (pointless : fraction = [] → Avoids (fun c => c = '.') rest) :
    Exactly readMantissa (whole ++ fraction) rest :=
  (digits_exactly parts.before
    ((avoids_fraction parts.behind (by decide)).append fun _ => stops)).chain
    (fraction_exactly parts.behind stops pointless)

theorem Parts.real_exactly (stops : Avoids (goesOn .decimal) rest)
    (pointless : fraction = [] → exponent = [] → Avoids (fun c => c = '.') rest)
    (powerless : exponent = [] → Avoids (fun c => c = 'e' || c = 'E') rest) :
    Exactly readReal (whole ++ fraction ++ exponent) rest := by
  have first : Exactly readMantissa (whole ++ fraction) (exponent ++ rest) := parts.mantissa_exactly
    ((avoids_exponent parts.power (by decide) (by decide)).append fun _ => stops)
    fun none => (avoids_exponent parts.power (by decide) (by decide)).append (pointless none)
  exact first.chain (exponent_exactly parts.power (fun _ => stops) powerless)

/-- All parts of a number are read if nothing behind them goes on with it. -/
theorem Parts.unchecked_exactly (ends : letter = [] → runsOn rest = false)
    (pointless : fraction = [] → exponent = [] → letter = [] → Avoids (fun c => c = '.') rest) :
    Exactly unchecked (whole ++ fraction ++ exponent ++ letter) rest := by
  have unit : ∀ {p : Char → Bool}, p 'j' = false → p 'J' = false → Avoids p letter :=
    avoids_letter parts.unit
  have first : Exactly readReal (whole ++ fraction ++ exponent) (letter ++ rest) :=
    parts.real_exactly
      ((unit (by decide) (by decide)).append fun none => avoids_goesOn (ends none))
      (fun none none' => (unit (by decide) (by decide)).append (pointless none none'))
      fun _ => (unit (by decide) (by decide)).append fun none =>
        avoids_of_runsOn 'e' 'E' (ends none) (by decide) (by simp)
  exact first.chain (imaginary_exactly parts.unit fun none =>
    avoids_of_runsOn 'j' 'J' (ends none) (by decide) (by simp))

/-- No less is read than all parts of a number, whatever follows them. -/
theorem Parts.unchecked_atLeast (rest : List Char) :
    AtLeast unchecked (whole ++ fraction ++ exponent ++ letter) rest := by
  by_cases unit : letter = []
  · subst unit
    rw [List.append_nil]
    refine AtLeast.chain ?_ _
    by_cases power : exponent = []
    · subst power
      rw [List.append_nil]
      refine AtLeast.chain ?_ _
      by_cases point : fraction = []
      · subst point
        rw [List.append_nil]
        exact (digits_atLeast parts.before rest).chain _
      · have stops : Avoids (goesOn .decimal) (fraction ++ rest) :=
          (avoids_fraction parts.behind (by decide)).append fun none => absurd none point
        exact (digits_exactly parts.before stops).chain_atLeast
          (fraction_atLeast (parts.behind.resolve_left point) rest)
    · have first : Exactly readMantissa (whole ++ fraction) (exponent ++ rest) :=
        parts.mantissa_exactly
          ((avoids_exponent parts.power (by decide) (by decide)).append
            fun none => absurd none power)
          fun _ => (avoids_exponent parts.power (by decide) (by decide)).append
            fun none => absurd none power
      exact first.chain_atLeast (exponent_atLeast (parts.power.resolve_left power) rest)
  · exact (parts.unchecked_exactly (fun none => absurd none unit)
      fun _ _ none => absurd none unit).atLeast

end

/-! ### Whole numbers -/

theorem inDecimal_eq (text : List Char) : inDecimal text =
    if (unchecked text).fault.isSome then unchecked text
    else if runsOn (text.drop (unchecked text).length) then
      (unchecked text).spoilt (.malformedNumber .decimal)
    else if (unchecked text).length = (digits .decimal false text).length &&
        isPadded (text.take (unchecked text).length) then
      (unchecked text).spoilt .leadingZeros
    else unchecked text := rfl

/-- A well-formed number in decimal notation is one before it is looked at as a whole; it does not
run on, and digits alone are not padded. -/
theorem inDecimal_formed (formed : (inDecimal text).fault = none) :
    inDecimal text = unchecked text ∧ (unchecked text).fault = none ∧
      runsOn (text.drop (unchecked text).length) = false ∧
        ((unchecked text).length = (digits .decimal false text).length →
          isPadded (text.take (unchecked text).length) = false) := by
  rw [inDecimal_eq] at formed ⊢
  split at formed
  · rename_i fault
    rw [formed] at fault
    cases fault
  · rename_i whole
    split at formed
    · cases formed
    · rename_i ends
      split at formed
      · cases formed
      · rename_i unpadded
        rw [if_neg whole, if_neg ends, if_neg unpadded]
        refine ⟨rfl, formed, Bool.eq_false_iff.2 ends, fun same => ?_⟩
        simpa [same] using unpadded

theorem unpadded_iff : isPadded text = false ↔ Unpadded text := by
  rw [isPadded, Unpadded, Bool.and_eq_false_iff, decide_eq_false_iff_not, List.any_eq_false]
  refine or_congr_right (forall₂_congr fun c _ => ?_)
  simp [or_iff_not_imp_left]

/-- What is well formed in decimal notation is a number. -/
theorem inDecimal_literal (begins : starts text = true) (formed : (inDecimal text).fault = none) :
    Literal (text.take (inDecimal text).length) ∧
      runsOn (text.drop (inDecimal text).length) = false := by
  obtain ⟨same, formed, ends, unpadded⟩ := inDecimal_formed formed
  have within := inDecimal_within text
  rw [same] at within ⊢
  refine ⟨?_, ends⟩
  obtain ⟨formed₃, -, split₃⟩ := Reading.take_chain formed
  obtain ⟨formed₂, power, split₂⟩ := Reading.take_chain formed₃
  obtain ⟨formed₁, behind, split₁⟩ := Reading.take_chain formed₂
  obtain ⟨behind, pointed⟩ := fraction_formed behind
  have before := digits_formed formed₁
  change text.take (readMantissa text).length = _ at split₁
  change text.take (readReal text).length = _ at split₂
  change text.take (unchecked text).length = _ at split₃
  rw [split₃, split₂, split₁]
  refine Parts.literal ⟨before, behind, exponent_formed power, imaginary_formed _, ?_, ?_⟩
  · cases text with
    | nil => cases begins
    | cons c rest =>
        rcases Bool.or_eq_true_iff.1 begins with digit | point
        · have pos : 0 < (digits .decimal false (c :: rest)).length := digits_pos false digit
          exact Or.inl fun none => by simp [Nat.ne_of_gt pos] at none
        · obtain ⟨isPoint, begins⟩ := Bool.and_eq_true_iff.1 point
          obtain rfl := of_decide_eq_true isPoint
          have none : digits .decimal false ('.' :: rest) = .nothing :=
            digits_nothing false (Avoids.cons (by decide) rest)
          rw [none] at pointed ⊢
          exact Or.inr (pointed rest rfl begins)
  · intro noFraction noExponent noLetter
    rw [noFraction, List.append_nil] at split₁
    rw [noExponent, List.append_nil, split₁] at split₂
    rw [noLetter, List.append_nil, split₂] at split₃
    have all : text.take (unchecked text).length = text.take (digits .decimal false text).length :=
      split₃
    have lengths := congrArg List.length all
    rw [List.length_take, List.length_take, Nat.min_eq_left within,
      Nat.min_eq_left (digits_within _ _ _)] at lengths
    rw [← all]
    exact unpadded_iff.1 (unpadded lengths)

/-- A number in decimal notation is read if nothing behind it goes on with it. -/
theorem Parts.inDecimal_exactly (parts : Parts whole fraction exponent letter)
    (ends : runsOn rest = false)
    (pointless : fraction = [] → exponent = [] → letter = [] → Avoids (fun c => c = '.') rest) :
    Exactly inDecimal (whole ++ fraction ++ exponent ++ letter) rest := by
  have all := parts.unchecked_exactly (fun _ => ends) pointless
  have behind : Avoids (goesOn .decimal) (fraction ++ (exponent ++ (letter ++ rest))) :=
    (avoids_fraction parts.behind (by decide)).append fun _ =>
      (avoids_exponent parts.power (by decide) (by decide)).append fun _ =>
        (avoids_letter parts.unit (by decide) (by decide)).append fun _ => avoids_goesOn ends
  have first := digits_exactly parts.before behind
  rw [Exactly] at all first ⊢
  rw [← List.append_assoc, ← List.append_assoc, ← List.append_assoc] at first
  rw [inDecimal_eq, all, if_neg (by simp), List.drop_left, if_neg (by simp [ends]), first,
    List.take_left, if_neg]
  simp only [Bool.and_eq_true, decide_eq_true_eq, not_and, Bool.not_eq_true]
  intro same
  simp only [List.length_append] at same
  have noFraction := List.eq_nil_of_length_eq_zero (show fraction.length = 0 by omega)
  have noExponent := List.eq_nil_of_length_eq_zero (show exponent.length = 0 by omega)
  have noLetter := List.eq_nil_of_length_eq_zero (show letter.length = 0 by omega)
  have unpadded := unpadded_iff.2 (parts.unpadded noFraction noExponent noLetter)
  rwa [noFraction, noExponent, noLetter, List.append_nil, List.append_nil, List.append_nil]

/-- No less is read than a number in decimal notation, whatever follows it. -/
theorem Parts.inDecimal_atLeast (parts : Parts whole fraction exponent letter)
    (rest : List Char) : AtLeast inDecimal (whole ++ fraction ++ exponent ++ letter) rest := by
  intro formed
  obtain ⟨same, formed', -, -⟩ := inDecimal_formed formed
  rw [same]
  exact parts.unchecked_atLeast rest formed'

/-! #### Numbers in other bases -/

/-- What stands between the letter of a base and the digits. -/
theorem inRadix_mark {mark : List Char} (marked : mark = [] ∨ mark = ['_'])
    (run : Run radix front) (rest : List Char) :
    (if (mark ++ front ++ rest).head? = some '_' then 1 else 0) = mark.length := by
  rcases marked with rfl | rfl
  · cases run with
    | last digit | digit digit | underscore digit =>
      refine if_neg fun underscore => ?_
      rw [Option.some.inj underscore, ← isDigit_iff, isDigit_underscore] at digit
      cases digit
  · rfl

theorem inRadix_exactly {mark : List Char} (marked : mark = [] ∨ mark = ['_'])
    (run : Run radix front) (ends : runsOn rest = false) :
    Exactly (inRadix radix) (mark ++ front) rest := by
  have exact' := digits_exactly (Or.inr run) (avoids_goesOn ends)
  have some : front.length ≠ 0 := fun none => run.ne_nil (List.eq_nil_of_length_eq_zero none)
  rw [Exactly] at exact' ⊢
  simp only [inRadix, inRadix_mark marked run]
  rw [List.append_assoc, List.drop_left, exact', if_neg]
  · rw [Reading.after, List.length_append]
  · simp [Reading.after, ends, some, ← List.drop_drop]

theorem inRadix_atLeast {mark : List Char} (marked : mark = [] ∨ mark = ['_'])
    (run : Run radix front) (rest : List Char) :
    AtLeast (inRadix radix) (mark ++ front) rest := by
  intro formed
  have far := digits_atLeast (Or.inr run) rest
  simp only [inRadix, inRadix_mark marked run] at formed ⊢
  rw [List.append_assoc, List.drop_left] at formed ⊢
  split at formed
  · cases formed
  · rename_i accepted
    rw [if_neg accepted, Reading.after, List.length_append]
    exact Nat.add_le_add_left (far formed) _

/-- What is well formed behind the letter of a base is a run of digits, perhaps with an underscore
before it. -/
theorem inRadix_formed (formed : (inRadix radix text).fault = none) :
    (∃ mark run, (mark = [] ∨ mark = ['_']) ∧ Run radix run ∧
      text.take (inRadix radix text).length = mark ++ run) ∧
        runsOn (text.drop (inRadix radix text).length) = false := by
  obtain ⟨mark, marked, split, length⟩ : ∃ mark, (mark = [] ∨ mark = ['_']) ∧
      text = mark ++ text.drop mark.length ∧
        (if text.head? = some '_' then 1 else 0) = mark.length := by
    split
    · rename_i underscore
      cases text with
      | nil => cases underscore
      | cons c more =>
          obtain rfl := Option.some.inj underscore
          exact ⟨['_'], Or.inr rfl, rfl, rfl⟩
    · exact ⟨[], Or.inl rfl, rfl, rfl⟩
  simp only [inRadix, length] at formed ⊢
  generalize text.drop mark.length = behind at split formed ⊢
  subst split
  split at formed
  · cases formed
  · rename_i accepted
    have run : (digits radix false behind).fault = none := formed
    rw [if_neg accepted]
    simp only [run, Option.isNone_none, Bool.true_and, Bool.or_eq_true, decide_eq_true_eq,
      not_or, Bool.not_eq_true] at accepted
    refine ⟨⟨mark, _, marked, ?_, List.take_length_add_append _⟩, accepted.2⟩
    refine (digits_formed run).resolve_left fun none => accepted.1 ?_
    have within := digits_within radix false behind
    have length := congrArg List.length none
    rwa [List.length_take, Nat.min_eq_left within, List.length_nil] at length

/-! #### Numbers -/

/-- The letters that announce a base are characters of names. -/
theorem isNamePart_of_announces (announced : c ∈ lettersOf radix) : isNamePart c = true := by
  have all : (lettersOf radix).all isNamePart = true := by
    cases radix <;> decide
  exact List.all_eq_true.1 all c announced

/-- Neither digits nor the other signs in a number in decimal notation announce a base. -/
theorem Run.not_announces (run : Run .decimal front) : ∀ c ∈ front, Radix.ofLetter? c = none := by
  have all : ((digitsOf .decimal).all fun c => (Radix.ofLetter? c).isNone) = true := by decide
  have ofDigit : ∀ {c}, c ∈ digitsOf .decimal → Radix.ofLetter? c = none := fun digit =>
    Option.isNone_iff_eq_none.1 (List.all_eq_true.1 all _ digit)
  induction run with
  | last digit => simpa using ofDigit digit
  | digit digit _ ih => exact List.forall_mem_cons.2 ⟨ofDigit digit, ih⟩
  | underscore digit _ ih =>
      exact List.forall_mem_cons.2 ⟨ofDigit digit, List.forall_mem_cons.2 ⟨by decide, ih⟩⟩

theorem Parts.not_announces (parts : Parts whole fraction exponent letter) :
    ∀ c ∈ whole ++ fraction ++ exponent ++ letter, Radix.ofLetter? c = none := by
  have before : ∀ c ∈ whole, Radix.ofLetter? c = none := by
    rcases parts.before with rfl | run
    · simp
    · exact run.not_announces
  have behind : ∀ c ∈ fraction, Radix.ofLetter? c = none := by
    rcases parts.behind with rfl | rfl | @⟨figures, run⟩
    · simp
    · simp [Radix.ofLetter?]
    · exact List.forall_mem_cons.2 ⟨by decide, run.not_announces⟩
  have power : ∀ c ∈ exponent, Radix.ofLetter? c = none := by
    rcases parts.power with rfl | @⟨e, sign, figures, isE, signed, run⟩
    · simp
    · refine List.forall_mem_cons.2 ⟨?_, List.forall_mem_append.2 ⟨?_, run.not_announces⟩⟩
      · rcases isE with rfl | rfl <;> rfl
      · rcases signed with rfl | rfl | rfl <;> simp [Radix.ofLetter?]
  have unit : ∀ c ∈ letter, Radix.ofLetter? c = none := by
    rcases parts.unit with rfl | rfl | rfl <;> simp [Radix.ofLetter?]
  exact List.forall_mem_append.2 ⟨List.forall_mem_append.2 ⟨List.forall_mem_append.2
    ⟨before, behind⟩, power⟩, unit⟩

theorem Parts.ne_nil (parts : Parts whole fraction exponent letter) :
    whole ++ fraction ++ exponent ++ letter ≠ [] := by
  rcases parts.digit with some | behind
  · simp [some]
  · cases behind
    simp

/-- A text in which no letter behind a zero announces a base. -/
theorem read_eq_inDecimal (plain : ∀ c more, text = '0' :: c :: more → Radix.ofLetter? c = none) :
    read text = inDecimal text := by
  unfold read
  split
  · rw [plain _ _ rfl]
  · rfl

theorem read_announced (announced : c ∈ lettersOf radix) (rest : List Char) :
    read ('0' :: c :: rest) = (inRadix radix rest).after 2 := by
  rw [read, ofLetter?_iff.2 announced]

/-- Behind a zero alone a letter may announce a base; the parts of a number hold none. -/
theorem Parts.read_eq (parts : Parts whole fraction exponent letter)
    (plain : ∀ c more, whole ++ fraction ++ exponent ++ letter = ['0'] → rest = c :: more →
      Radix.ofLetter? c = none) :
    read (whole ++ fraction ++ exponent ++ letter ++ rest) =
      inDecimal (whole ++ fraction ++ exponent ++ letter ++ rest) := by
  refine read_eq_inDecimal fun c more eq => ?_
  have inner := parts.not_announces
  have some := parts.ne_nil
  generalize whole ++ fraction ++ exponent ++ letter = all at plain eq inner some
  match all with
  | [] => exact absurd rfl some
  | [d] => exact plain c more (by rw [(List.cons_eq_cons.1 eq).1]) (List.cons_eq_cons.1 eq).2
  | d :: e :: all =>
      obtain ⟨-, eq⟩ := List.cons_eq_cons.1 eq
      exact (List.cons_eq_cons.1 eq).1 ▸ inner e (by simp)

/-- **What is read is a number**, if it is well formed, and it does not run on. -/
theorem read_literal (begins : starts text = true) (formed : (read text).fault = none) :
    Literal (text.take (read text).length) ∧ runsOn (text.drop (read text).length) = false := by
  by_cases announces : ∃ c more radix, text = '0' :: c :: more ∧ c ∈ lettersOf radix
  · obtain ⟨c, more, radix, rfl, announced⟩ := announces
    rw [read_announced announced] at formed ⊢
    obtain ⟨⟨mark, run, marked, isRun, eq⟩, ends⟩ := inRadix_formed formed
    rw [Reading.after, Nat.add_comm, List.take_succ_cons, List.take_succ_cons, eq]
    exact ⟨.integer (.inRadix announced marked isRun), ends⟩
  · have same : read text = inDecimal text := read_eq_inDecimal fun c more eq =>
      Option.eq_none_iff_forall_ne_some.2 fun radix announced =>
        announces ⟨c, more, radix, eq, ofLetter?_iff.1 announced⟩
    rw [same] at formed ⊢
    exact inDecimal_literal begins formed

/-- **No less is read than a number**, whatever follows it. -/
theorem read_atLeast (number : Literal front) (rest : List Char) : AtLeast read front rest := by
  rcases number.cases_parts with ⟨letter, radix, mark, run, announced, marked, isRun, rfl⟩ |
    ⟨whole, fraction, exponent, letter, parts, rfl⟩
  · intro formed
    rw [List.cons_append, List.cons_append, read_announced announced] at formed ⊢
    have far := inRadix_atLeast marked isRun rest formed
    simp only [Reading.after, List.length_cons]
    omega
  · by_cases announces : ∃ c more radix, whole ++ fraction ++ exponent ++ letter = ['0'] ∧
        rest = c :: more ∧ c ∈ lettersOf radix
    · obtain ⟨c, more, radix, zero, rfl, announced⟩ := announces
      intro _
      rw [zero, List.singleton_append, read_announced announced, Reading.after]
      exact Nat.le_trans (by decide) (Nat.le_add_right 2 _)
    · rw [AtLeast, parts.read_eq fun c more zero eq =>
        Option.eq_none_iff_forall_ne_some.2 fun radix announced =>
          announces ⟨c, more, radix, zero, eq, ofLetter?_iff.1 announced⟩]
      exact parts.inDecimal_atLeast rest

/-- **A number is read** if nothing behind it goes on with it. -/
theorem read_exactly (number : Literal front) (ends : runsOn rest = false)
    (pointless : Run .decimal front → Avoids (fun c => c = '.') rest) :
    Exactly read front rest := by
  rcases number.cases_parts with ⟨letter, radix, mark, run, announced, marked, isRun, rfl⟩ |
    ⟨whole, fraction, exponent, letter, parts, rfl⟩
  · have behind := inRadix_exactly marked isRun ends
    rw [Exactly] at behind ⊢
    rw [List.cons_append, List.cons_append, read_announced announced, behind, Reading.after,
      List.length_cons, List.length_cons, Nat.add_comm]
  · rw [Exactly, parts.read_eq fun c more _ eq => ?_]
    · refine parts.inDecimal_exactly ends fun noFraction noExponent noLetter => pointless ?_
      subst noFraction noExponent noLetter
      rw [List.append_nil, List.append_nil, List.append_nil]
      refine parts.before.resolve_left fun none => ?_
      rcases parts.digit with some | behind
      · exact some none
      · cases behind
    · subst eq
      refine Option.eq_none_iff_forall_ne_some.2 fun radix announced => ?_
      have part : isNamePart c = false := ends
      rw [isNamePart_of_announces (ofLetter?_iff.1 announced)] at part
      cases part

/-- Where a number begins, some front of the text is a number. -/
theorem exists_literal (begins : Begins text) : ∃ front, Literal front ∧ front <+: text := by
  obtain @⟨c, rest, digit⟩ | @⟨c, rest, digit⟩ := begins
  · refine ⟨[c], .integer (.decimal (.last digit) ?_), [c].prefix_append rest⟩
    by_cases zero : c = '0'
    · exact Or.inr (by simp [zero])
    · exact Or.inl (by simpa using zero)
  · exact ⟨['.', c], .float (.point (.fraction (Or.inl rfl) (.intro (.last digit)))),
      ['.', c].prefix_append rest⟩

/-- Behind the longest number no point follows if the number is made of digits alone. -/
theorem avoids_point (longest : LongestFront Literal (front ++ rest) front)
    (run : Run .decimal front) : Avoids (fun c => c = '.') rest := by
  rw [Avoids, Bool.eq_false_iff]
  intro point
  cases rest with
  | nil => cases point
  | cons c rest =>
      obtain rfl : c = '.' := by simpa using point
      have longer := longest.longest (front ++ ['.']) (.float (.point (.point run)))
        ⟨rest, by simp⟩
      rw [List.length_append] at longer
      exact Nat.not_succ_le_self _ longer

/-- The token that is read where a number begins. -/
theorem lexeme_of_starts (begins : starts text = true) :
    Lexeme.read text = Lexeme.ofReading .number (read text) := by
  cases text with
  | nil => cases begins
  | cons c rest =>
      have noName : isNameStart c = false := by
        rcases Bool.or_eq_true_iff.1 begins with digit | point
        · exact isNameStart_of_isDigit digit
        · rw [of_decide_eq_true (Bool.and_eq_true_iff.1 point).1]
          decide
      rw [Lexeme.read, if_neg (by simp [noName]), if_pos begins]

end Numeral

/-- A text runs on if it begins with a character of a name. -/
theorem runsOn_iff {text : List Char} :
    runsOn text = true ↔ ∃ c ∈ text.head?, isNamePart c = true := by
  simp [runsOn, Option.any_eq_true]

theorem runsOn_eq_false_iff {text : List Char} :
    runsOn text = false ↔ ∀ c ∈ text.head?, isNamePart c = false := by
  rw [← Bool.not_eq_true, runsOn_iff]
  simp

/-- **Numbers are recognised exactly.**  Where a number begins, some front of the text is a number
by the grammar.  If no character of a name stands behind the longest of them, it is the token that
is read, and the scanner stands behind it; otherwise there is a fault where the number begins. -/
theorem Scanner.readToken_number (s : Scanner) (begins : Numeral.Begins s.rest) :
    ∃ front, LongestFront Numeral.Literal s.rest front ∧
      ((∀ c ∈ (s.rest.drop front.length).head?, isNamePart c = false) →
        s.readToken =
          (.token [] (.literal s.offset (s.offset + front.length) .number (String.ofList front)),
            { s.skip front.length with lineHasContent := true })) ∧
      ((∃ c ∈ (s.rest.drop front.length).head?, isNamePart c = true) →
        ∃ fault t, s.readToken = (.fault fault s.offset, t)) := by
  obtain ⟨first, number, initial⟩ := Numeral.exists_literal begins
  obtain ⟨front, longest⟩ := exists_longestFront number initial
  have starts := Numeral.starts_iff.2 begins
  refine ⟨front, longest, ?_⟩
  rw [← runsOn_iff, ← runsOn_eq_false_iff]
  refine ⟨fun ends => ?_, fun runs => ?_⟩
  all_goals
    obtain ⟨rest, split⟩ := longest.initial
    rw [readToken, Numeral.lexeme_of_starts starts]
  · rw [← split, List.drop_left] at ends
    rw [← split] at longest
    have all := Numeral.read_exactly longest.holds ends
      (Numeral.avoids_point longest)
    rw [Exactly, split] at all
    rw [all]
    have front' : s.rest.take front.length = front := by rw [← split, List.take_left]
    simp [Lexeme.ofReading, lexeme, front', Lexeme.carriesText, Token.literal, nestingAfter,
      TokenKind.opens, TokenKind.closes, skip]
  · cases fault : (Numeral.read s.rest).fault with
    | some cause =>
        exact ⟨cause, s.skip (Numeral.read s.rest).length, by simp [Lexeme.ofReading, fault]⟩
    | none =>
        -- What is read would be the longest number, and it would not run on.
        obtain ⟨number', ends⟩ := Numeral.read_literal starts fault
        have more := Numeral.read_atLeast longest.holds rest
        rw [AtLeast, split] at more
        have less := longest.longest _ number' (List.take_prefix _ _)
        rw [List.length_take, Nat.min_eq_left (Numeral.read_within _)] at less
        rw [Nat.le_antisymm less (more fault), runs] at ends
        cases ends

/-- Zeros may stand in front if an exponent or the letter `j` follows the digits, or if there are
only zeros; and a letter behind a zero announces a base.  What is no digit of the base, and a name
that stands behind the digits, spoil the number. -/
theorem Scanner.readToken_number_instances :
    (∀ number ∈ [("012_0.e+3J", ")"), ("0x_1F", "+"), ("0O17", ""), ("0B10", " "), (".5e1", "."),
        ("00_0", "")],
      Numeral.Begins (number.1 ++ number.2).toList ∧
        LongestFront Numeral.Literal (number.1 ++ number.2).toList number.1.toList ∧
          (initial {} (number.1 ++ number.2).toList).readToken.1 =
            .token [] (.literal 0 number.1.length .number number.1)) ∧
      ∀ spoilt ∈ [("012_0 ", .leadingZeros), ("1_", .malformedNumber .decimal),
          ("1e", .malformedNumber .decimal), ("0x ", .malformedNumber .hexadecimal),
          ("0x1Fg", .malformedNumber .hexadecimal), ("0o8", .malformedNumber .octal),
          ("0b12", .malformedNumber .binary)],
        Numeral.Begins spoilt.1.toList ∧
          (∃ front, LongestFront Numeral.Literal spoilt.1.toList front ∧
            ∃ c ∈ (spoilt.1.toList.drop front.length).head?, isNamePart c = true) ∧
          (initial {} spoilt.1.toList).readToken.1 = .fault spoilt.2 0 := by
  constructor
  · intro number mem
    obtain ⟨begins, known⟩ : Numeral.Begins (number.1 ++ number.2).toList ∧
        (initial {} (number.1 ++ number.2).toList).readToken.1 =
          .token [] (.literal 0 number.1.length .number number.1) := by
      revert number
      decide +kernel
    obtain ⟨front, longest, formed, malformed⟩ :=
      readToken_number (initial {} (number.1 ++ number.2).toList) begins
    by_cases ends : ∀ c ∈ ((number.1 ++ number.2).toList.drop front.length).head?,
        isNamePart c = false
    · have same := known
      rw [formed ends] at same
      have word : String.ofList front = number.1 := by
        simp only [Found.token.injEq, Token.literal, Token.mk.injEq, Option.some.injEq] at same
        exact same.2.2.2.2.1
      have eq : front = number.1.toList := by rw [← word, String.toList_ofList]
      exact ⟨begins, eq ▸ longest, known⟩
    · obtain ⟨fault, t, failed⟩ := malformed (by
        rw [← runsOn_iff, ← Bool.not_eq_false, runsOn_eq_false_iff]
        exact ends)
      rw [failed] at known
      cases known
  · intro spoilt mem
    obtain ⟨begins, known⟩ : Numeral.Begins spoilt.1.toList ∧
        (initial {} spoilt.1.toList).readToken.1 = .fault spoilt.2 0 := by
      revert spoilt
      decide +kernel
    obtain ⟨front, longest, formed, -⟩ := readToken_number (initial {} spoilt.1.toList) begins
    refine ⟨begins, ⟨front, longest, ?_⟩, known⟩
    rw [← runsOn_iff, ← Bool.not_eq_false, runsOn_eq_false_iff]
    intro ends
    rw [formed ends] at known
    cases known

end PythonSyntax
