/-
**Where a blank or a comment may be put.**

Behind a well-formed token a blank or a comment can be put without a change to the token, whatever
has followed it: the token does not need what stands behind it, and neither adds anything to it.

Main definitions:

* `PythonSyntax.Lexeme.isSeparator` — blanks, and the character with which a comment begins;
* `PythonSyntax.Sealed` — a well-formed reading stays as it is if a separator follows it.

Main results:

* `PythonSyntax.Numeral.read_sealed` — numbers;
* `PythonSyntax.Quotation.body_take` — **a well-formed string is known by its own characters**;
* `PythonSyntax.Lexeme.read_seam` — **a well-formed token stays as it is** if a separator follows
  it, or follows later.
-/

import PythonSyntax.Proofs.Lexical.Extension

set_option autoImplicit false

namespace PythonSyntax

/-! ### Separators -/

namespace Lexeme

/-- Blanks, and the character with which a comment begins. -/
def isSeparator (c : Char) : Bool := isSpace c || c = '#'

variable {c : Char}

theorem isSeparator_iff : isSeparator c = true ↔ c ∈ [' ', '\t', '\x0c', '#'] := by
  simp [isSeparator, isSpace, or_assoc]

/-- A class of characters to which no separator belongs. -/
theorem eq_false_of_isSeparator {p : Char → Bool} (h : isSeparator c = true)
    (none : [' ', '\t', '\x0c', '#'].all fun c => !p c) : p c = false := by
  simpa using List.all_eq_true.1 none c (isSeparator_iff.1 h)

theorem ne_of_isSeparator {d : Char} (h : isSeparator c = true)
    (other : ([' ', '\t', '\x0c', '#'].all fun c => !decide (c = d)) = true) : c ≠ d :=
  of_decide_eq_false (eq_false_of_isSeparator (p := fun c => decide (c = d)) h other)

/-- No name goes on with a separator. -/
theorem isNamePart_of_isSeparator (h : isSeparator c = true) : isNamePart c = false := by
  refine isNamePart_of_special ?_
  have blank := isSeparator_iff.1 h
  simp only [List.mem_cons, List.not_mem_nil, or_false] at blank
  rcases blank with rfl | rfl | rfl | rfl <;> decide

theorem isDigit_of_isSeparator (radix : Radix) (h : isSeparator c = true) :
    radix.isDigit c = false := by
  refine eq_false_of_isSeparator h ?_
  cases radix <;> decide

end Lexeme

open Lexeme

/-- A run that ends in the front of a text, or where a character follows that does not go on with
it, is the same if that character follows the front. -/
theorem takeWhile_seam {p : Char → Bool} {front rest behind : List Char} {c : Char}
    (within : ((front ++ rest).takeWhile p).length < front.length ∨
      ((front ++ rest).takeWhile p).length = front.length ∧ p c = false) :
    (front ++ c :: behind).takeWhile p = (front ++ rest).takeWhile p := by
  rw [List.takeWhile_append, List.takeWhile_append] at *
  split
  · rename_i all
    rw [if_pos all, List.length_append] at within
    rcases within with short | ⟨long, ends⟩
    · omega
    · have none : rest.takeWhile p = [] := List.eq_nil_of_length_eq_zero (by omega)
      rw [none, List.takeWhile_cons, ends]
      rfl
  · rfl

/-! ### Readings -/

/-- A well-formed reading that stays in the front of a text is the same if a separator follows the
front. -/
def Sealed (reader : List Char → Reading) : Prop :=
  ∀ (front rest behind : List Char) (c : Char), isSeparator c = true →
    (reader (front ++ rest)).fault = none → (reader (front ++ rest)).length ≤ front.length →
      reader (front ++ c :: behind) = reader (front ++ rest)

theorem Reading.eq_nothing {reading : Reading} (formed : reading.fault = none)
    (length : reading.length ≤ 0) : reading = .nothing := by
  cases reading
  cases formed
  cases Nat.le_zero.1 length
  rfl

theorem Reading.length_after (count : Nat) (reading : Reading) :
    (reading.after count).length = reading.length + count :=
  Nat.add_comm _ _

/-- If what is read in a row is well formed, so is its first part. -/
theorem Reading.formed_of_followedBy {reading : Reading} {text : List Char}
    {next : List Char → Reading} (formed : (reading.followedBy text next).fault = none) :
    reading.fault = none := by
  unfold Reading.followedBy at formed
  split at formed
  · rename_i cause fault
    rw [fault] at formed
    cases formed
  · assumption

theorem Sealed.followedBy {reader next : List Char → Reading} (h : Sealed reader)
    (h' : Sealed next) : Sealed fun text => (reader text).followedBy text next := by
  intro front rest behind c separates formed within
  dsimp only at formed within ⊢
  have le := Nat.le_trans (Numeral.followedBy_length (reader (front ++ rest)) _ next) within
  unfold Reading.followedBy at formed within ⊢
  cases fault : (reader (front ++ rest)).fault with
  | some cause => simp [fault] at formed
  | none =>
      have first := h front rest behind c separates fault le
      simp only [fault, first, List.drop_append_of_le_length le] at formed within ⊢
      have room : (next (front.drop (reader (front ++ rest)).length ++ rest)).length ≤
          (front.drop (reader (front ++ rest)).length).length := by
        rw [List.length_drop]
        simp only [Reading.after] at within
        omega
      rw [h' _ _ _ _ separates formed room]

namespace Numeral

theorem digits_sealed (radix : Radix) (seen : Bool) : Sealed (digits radix seen) := by
  intro front rest behind c separates formed within
  have notDigit := isDigit_of_isSeparator radix separates
  have notUnderscore : c ≠ '_' := ne_of_isSeparator separates (by decide)
  induction front generalizing seen with
  | nil =>
      rw [Reading.eq_nothing formed within, List.nil_append, digits, if_neg (by simp [notDigit]),
        if_neg (by simp [notUnderscore])]
  | cons d front ih =>
      simp only [List.cons_append, digits] at formed within ⊢
      split
      · rename_i digit
        simp only [digit, if_true] at formed within
        have within : (digits radix true (front ++ rest)).length ≤ front.length := by
          simp only [Reading.after, List.length_cons] at within
          omega
        rw [ih true formed within]
      · rename_i notDigit'
        rw [if_neg notDigit'] at formed within
        split
        · rename_i underscore
          rw [if_pos underscore] at formed within
          by_cases next : (front ++ rest).head?.any radix.isDigit = true
          · rw [if_pos next] at formed within
            have within : (digits radix seen (front ++ rest)).length ≤ front.length := by
              simp only [Reading.after, List.length_cons] at within
              omega
            cases front with
            | nil =>
                -- The digit behind the underscore would belong to the front.
                cases rest with
                | nil => cases next
                | cons e rest =>
                    have digit : radix.isDigit e = true := next
                    simp [digits, digit, Reading.after] at within
            | cons e front =>
                have next' : (e :: front ++ c :: behind).head?.any radix.isDigit = true := next
                rw [if_pos next, if_pos next', ih seen formed within]
          · rw [if_neg next] at formed
            cases formed
        · rfl

theorem fraction_sealed : Sealed fraction := by
  intro front rest behind c separates formed within
  cases front with
  | nil =>
      have notPoint : c ≠ '.' := ne_of_isSeparator separates (by decide)
      rw [Reading.eq_nothing formed within, List.nil_append]
      simp [fraction, notPoint]
  | cons d front =>
      by_cases point : d = '.'
      · subst point
        simp only [List.cons_append, fraction, Reading.after, List.length_cons] at formed within ⊢
        rw [digits_sealed _ _ _ _ _ _ separates formed (by omega)]
      · simp [fraction, point]

theorem imaginary_sealed : Sealed imaginary := by
  intro front rest behind c separates formed within
  cases front with
  | nil =>
      have notLetter : ¬(c = 'j' || c = 'J') = true := by
        simp [ne_of_isSeparator separates (d := 'j') (by decide),
          ne_of_isSeparator separates (d := 'J') (by decide)]
      rw [Reading.eq_nothing formed within, List.nil_append, imaginary, if_neg notLetter]
  | cons d front => rfl

theorem digits_pos {text : List Char} (seen : Bool) (begins : startsWithDigit text = true) :
    0 < (digits .decimal seen text).length := by
  cases text with
  | nil => cases begins
  | cons d rest =>
      have digit : Radix.decimal.isDigit d = true := begins
      rw [digits, if_pos digit]
      exact Nat.add_pos_left Nat.one_pos _

/-- A separator is no digit. -/
theorem startsWithDigit_seam (front rest behind : List Char) {c : Char}
    (separates : isSeparator c = true) :
    startsWithDigit (front ++ c :: behind) = (!front.isEmpty && startsWithDigit (front ++ rest)) := by
  cases front with
  | nil => exact isDigit_of_isSeparator .decimal separates
  | cons d front => rfl

theorem exponent_sealed : Sealed exponent := by
  intro front rest behind c separates formed within
  cases front with
  | nil =>
      have notLetter : ¬(c = 'e' || c = 'E') = true := by
        simp [ne_of_isSeparator separates (d := 'e') (by decide),
          ne_of_isSeparator separates (d := 'E') (by decide)]
      rw [Reading.eq_nothing formed within, List.nil_append]
      simp only [exponent]
      rw [if_neg (by simp [notLetter])]
  | cons d front =>
      simp only [List.cons_append, exponent] at formed within ⊢
      cases front with
      | nil =>
          have none : ¬((d = 'e' || d = 'E') && startsWithDigit
              (rest.drop (if rest.head? = some '+' ∨ rest.head? = some '-' then 1 else 0))) =
              true := by
            intro letter
            rw [List.nil_append, if_pos letter] at within
            have pos := digits_pos false (Bool.and_eq_true_iff.1 letter).2
            simp only [Reading.after, List.length_cons, List.length_nil] at within
            omega
          have notSign : ¬((c :: behind).head? = some '+' ∨ (c :: behind).head? = some '-') := by
            simp [ne_of_isSeparator separates (d := '+') (by decide),
              ne_of_isSeparator separates (d := '-') (by decide)]
          rw [List.nil_append, List.nil_append, if_neg none, if_neg notSign, List.drop_zero,
            if_neg]
          rw [show startsWithDigit (c :: behind) = false from
            isDigit_of_isSeparator .decimal separates, Bool.and_false]
          exact Bool.false_ne_true
      | cons e front =>
          have le : (if (e :: front ++ rest).head? = some '+' ∨ (e :: front ++ rest).head? = some '-'
              then 1 else 0) ≤ (e :: front).length := by
            split <;> simp
          have same : (e :: front ++ c :: behind).head? = (e :: front ++ rest).head? := rfl
          rw [same]
          generalize (if (e :: front ++ rest).head? = some '+' ∨
            (e :: front ++ rest).head? = some '-' then 1 else 0) = sign at formed within le ⊢
          rw [List.drop_append_of_le_length le] at formed within ⊢
          rw [List.drop_append_of_le_length le, startsWithDigit_seam _ rest behind separates]
          have length := List.length_drop (i := sign) (l := e :: front)
          generalize (e :: front).drop sign = later at formed within length ⊢
          by_cases letter : ((d = 'e' || d = 'E') && startsWithDigit (later ++ rest)) = true
          · rw [if_pos letter] at formed within
            have pos := digits_pos false (Bool.and_eq_true_iff.1 letter).2
            simp only [Reading.after, List.length_cons] at formed within length
            have some : later ≠ [] := by
              rintro rfl
              simp only [List.length_nil] at length
              omega
            rw [if_pos letter, if_pos (by simpa [some] using letter),
              digits_sealed _ _ _ _ _ _ separates formed (by omega)]
          · rw [if_neg letter, if_neg]
            intro letter'
            simp only [Bool.and_eq_true] at letter letter'
            exact letter ⟨letter'.1, letter'.2.2⟩

/-- A separator does not go on with a name. -/
theorem runsOn_seam {front rest behind : List Char} {c : Char} (separates : isSeparator c = true)
    (ends : runsOn (front ++ rest) = false) : runsOn (front ++ c :: behind) = false := by
  cases front with
  | nil => exact isNamePart_of_isSeparator separates
  | cons d front => exact ends

theorem inRadix_sealed (radix : Radix) : Sealed (inRadix radix) := by
  intro front rest behind c separates formed within
  unfold inRadix at formed within ⊢
  dsimp only at formed within ⊢
  have notUnderscore : c ≠ '_' := ne_of_isSeparator separates (by decide)
  generalize skipped' : (if (front ++ c :: behind).head? = some '_' then 1 else 0) = skip'
  generalize skipped : (if (front ++ rest).head? = some '_' then 1 else 0) = skip at formed within ⊢
  split at formed
  · cases formed
  · rename_i accepted
    rw [if_neg accepted] at within ⊢
    have runFormed : (digits radix false ((front ++ rest).drop skip)).fault = none := formed
    rw [runFormed] at accepted
    simp only [Option.isNone_none, Bool.true_and, Bool.or_eq_true, decide_eq_true_eq, not_or,
      Bool.not_eq_true] at accepted
    obtain ⟨some, ends⟩ := accepted
    simp only [Reading.after] at within ends
    cases front with
    | nil =>
        simp only [List.length_nil] at within
        omega
    | cons d front =>
        obtain rfl : skip' = skip := skipped'.symm.trans skipped
        have le : skip' ≤ (d :: front).length := by
          rw [← skipped']
          split <;> simp
        rw [List.drop_append_of_le_length le] at runFormed within ends some ⊢
        have room : (digits radix false ((d :: front).drop skip' ++ rest)).length ≤
            ((d :: front).drop skip').length := by
          rw [List.length_drop]
          omega
        have same := digits_sealed radix false _ rest behind c separates runFormed room
        rw [List.drop_append_of_le_length le, same, if_neg]
        rw [List.drop_append_of_le_length within] at ends
        have ends' : runsOn (_ ++ c :: behind) = false := runsOn_seam separates ends
        simp only [Reading.after, List.drop_append_of_le_length within, ends', runFormed]
        simpa using some

theorem inDecimal_sealed : Sealed inDecimal := by
  have sealed : Sealed fun text => (((digits .decimal false text).followedBy text
      fraction).followedBy text exponent).followedBy text imaginary :=
    Sealed.followedBy (Sealed.followedBy (Sealed.followedBy (digits_sealed .decimal false)
      fraction_sealed) exponent_sealed) imaginary_sealed
  intro front rest behind c separates formed within
  unfold inDecimal at formed within ⊢
  dsimp only at formed within ⊢
  split at formed
  · rename_i fault
    rw [formed] at fault
    cases fault
  rename_i fault
  rw [if_neg fault] at within
  split at formed
  · cases formed
  rename_i ends
  rw [if_neg ends] at within
  split at formed
  · cases formed
  rename_i unpadded
  rw [if_neg unpadded] at within
  -- The whole reading is well formed, and so are its first digits.
  have same := sealed front rest behind c separates formed within
  have first := Reading.formed_of_followedBy (Reading.formed_of_followedBy
    (Reading.formed_of_followedBy formed))
  have short := Nat.le_trans (Nat.le_trans (followedBy_length (digits .decimal false (front ++ rest))
    (front ++ rest) fraction) (Nat.le_trans (followedBy_length _ (front ++ rest) exponent)
      (followedBy_length _ (front ++ rest) imaginary))) within
  have whole := digits_sealed .decimal false front rest behind c separates first short
  dsimp only at same
  rw [same, whole]
  generalize (((digits .decimal false (front ++ rest)).followedBy (front ++ rest)
    fraction).followedBy (front ++ rest) exponent).followedBy (front ++ rest) imaginary = reading
    at fault ends unpadded within
  rw [List.drop_append_of_le_length within, Bool.not_eq_true] at ends
  have ends' : ¬runsOn (front.drop reading.length ++ c :: behind) = true := by
    rw [runsOn_seam separates ends]
    exact Bool.false_ne_true
  rw [List.take_append_of_le_length within] at unpadded
  rw [if_neg fault, List.drop_append_of_le_length within, if_neg ends',
    List.take_append_of_le_length within, if_neg unpadded, if_neg fault,
    List.drop_append_of_le_length within, if_neg (by simp [ends]),
    List.take_append_of_le_length within, if_neg unpadded]

/-- A number that begins with a point goes on with a digit. -/
theorem read_point_length {rest : List Char} (begins : startsWithDigit rest = true) :
    2 ≤ (read ('.' :: rest)).length := by
  have none : digits .decimal false ('.' :: rest) = .nothing := by
    simp [digits, Radix.isDigit]
  have mantissa : 2 ≤ ((digits .decimal false ('.' :: rest)).followedBy ('.' :: rest)
      fraction).length := by
    have pos := digits_pos false begins
    simp only [none, Reading.nothing, Reading.followedBy, fraction, Reading.after, List.drop_zero]
    omega
  have whole := Nat.le_trans mantissa (Nat.le_trans (followedBy_length _ ('.' :: rest) exponent)
    (followedBy_length _ ('.' :: rest) imaginary))
  rw [read_of_head? (by simp)]
  unfold inDecimal
  dsimp only
  split
  · exact whole
  · split
    · exact whole
    · split <;> exact whole

/-- Whether a number begins does not change either. -/
theorem starts_seam {d : Char} {front rest behind : List Char} {c : Char}
    (separates : isSeparator c = true)
    (within : starts (d :: (front ++ rest)) = true →
      (read (d :: (front ++ rest))).length ≤ front.length + 1) :
    starts (d :: (front ++ c :: behind)) = starts (d :: (front ++ rest)) := by
  cases front with
  | cons e front => rfl
  | nil =>
      have ends : startsWithDigit (c :: behind) = false := isDigit_of_isSeparator .decimal separates
      by_cases point : (d = '.' && startsWithDigit rest) = true
      · obtain ⟨isPoint, begins⟩ := Bool.and_eq_true_iff.1 point
        obtain rfl := of_decide_eq_true isPoint
        have long := read_point_length begins
        have short := within (by simp [starts, begins])
        simp only [List.nil_append, List.length_nil] at short
        omega
      · rw [Bool.not_eq_true] at point
        simp [starts, ends, point]

/-- **A number stays as it is** if a separator follows it. -/
theorem read_sealed : Sealed read := by
  intro front rest behind c separates formed within
  have notLetter : Radix.ofLetter? c = none :=
    Option.not_isSome_iff_eq_none.1 (by
      simp [eq_false_of_isSeparator (p := fun c => (Radix.ofLetter? c).isSome) separates
        (by decide)])
  have decimal : read (front ++ rest) = inDecimal (front ++ rest) →
      inDecimal (front ++ c :: behind) = read (front ++ rest) := by
    intro same
    rw [same] at formed within ⊢
    exact inDecimal_sealed front rest behind c separates formed within
  by_cases zero : (front ++ rest).head? = some '0'
  · match front with
    | [] =>
      cases rest with
      | nil => cases zero
      | cons d rest =>
          cases zero
          have pos : 0 < (read ('0' :: rest)).length := read_pos rfl
          simp only [List.nil_append, List.length_nil] at within
          omega
    | [d] =>
      cases zero
      have none : read (['0'] ++ c :: behind) = inDecimal (['0'] ++ c :: behind) := by
        simp [read, notLetter]
      rw [none]
      refine decimal ?_
      cases rest with
      | nil => rfl
      | cons e rest =>
          cases letter : Radix.ofLetter? e with
          | none => simp [read, letter]
          | some radix =>
              simp only [List.cons_append, List.nil_append, read, letter, Reading.after,
                List.length_singleton] at within
              omega
    | d :: e :: front =>
      cases zero
      simp only [List.cons_append, read] at formed within decimal ⊢
      split
      · rename_i radix letter
        simp only [letter, Reading.after, List.length_cons] at formed within ⊢
        rw [inRadix_sealed radix _ _ _ _ separates formed (by omega)]
      · rename_i letter
        simp only [letter] at decimal ⊢
        exact decimal trivial
  · have zero' : (front ++ c :: behind).head? ≠ some '0' := by
      cases front with
      | nil => simpa using ne_of_isSeparator separates (by decide)
      | cons d front => exact zero
    rw [read_of_head? zero']
    exact decimal (read_of_head? zero)

end Numeral

/-! ### Strings -/

namespace Quotation

variable {quote : Char} {triple : Bool}

/-- A string that is closed holds the quotes that close it. -/
theorem body_closed {text : List Char} (formed : (body quote triple text).fault = none) :
    (if triple then 3 else 1) ≤ (body quote triple text).length := by
  fun_induction body quote triple text with
  | case1 | case4 | case5 => cases formed
  | case2 text ih => exact Nat.le_trans (ih formed) (Nat.le_add_left _ 3)
  | case3 c text _ ih => exact Nat.le_trans (ih formed) (Nat.le_add_left _ 2)
  | case6 text single => simp_all
  | case7 text triple => simp_all
  | case8 text triple _ _ _ _ _ ih => exact Nat.le_trans (ih formed) (Nat.le_add_left _ 1)
  | case9 c text _ _ _ _ _ ih => exact Nat.le_trans (ih formed) (Nat.le_add_left _ 1)

theorem body_pos {text : List Char} (formed : (body quote triple text).fault = none) :
    0 < (body quote triple text).length := by
  have closed := body_closed formed
  split at closed <;> omega

/-- **A well-formed string is known by its own characters.** -/
theorem body_take {text : List Char} (formed : (body quote triple text).fault = none)
    (behind : List Char) :
    body quote triple (text.take (body quote triple text).length ++ behind) =
      body quote triple text := by
  fun_induction body quote triple text with
  | case1 | case4 | case5 => cases formed
  | case2 text ih =>
      rw [Reading.length_after]
      simp only [List.take_succ_cons, List.cons_append, body, ih formed]
  | case3 c text other ih =>
      have pos : 0 < (body quote triple text).length := body_pos formed
      have ih := ih formed
      rw [Reading.length_after]
      -- What follows the escaped character belongs to the string.
      have other' : ∀ more, c = '\r' →
          text.take (body quote triple text).length ++ behind = '\n' :: more → False := by
        intro more same eq
        cases text with
        | nil => exact absurd formed (by simp [body, Reading.after, Reading.spoilt])
        | cons d text =>
            obtain ⟨count, length⟩ : ∃ count, (body quote triple (d :: text)).length = count + 1 :=
              ⟨_, (Nat.sub_add_cancel pos).symm⟩
            rw [length, List.take_succ_cons] at eq
            cases eq
            exact other text same rfl
      simp only [List.take_succ_cons, List.cons_append, body, ih]
  | case6 text single _ other none inLine =>
      rw [List.take_succ_cons, List.cons_append, body_cons (ne_backslash other none), if_neg inLine,
        if_pos rfl, if_pos single]
  | case7 text triple three _ other none inLine =>
      have split : text.take 2 ++ behind = quote :: quote :: behind := by rw [three]; rfl
      rw [List.take_succ_cons, List.cons_append, body_cons (ne_backslash other none), if_neg inLine,
        if_pos rfl, if_neg triple, split, if_pos (by rfl)]
  | case8 text three notThree _ other none inLine ih =>
      have closed : _ ≤ (body quote triple text).length := body_closed formed
      rw [if_pos (by simpa using three)] at closed
      -- Three quotes would be seen among the characters of the string.
      have notThree' : (text.take (body quote triple text).length ++ behind).take 2 ≠
          [quote, quote] := by
        have within : 2 ≤ (text.take (body quote triple text).length).length := by
          rw [List.length_take, Nat.min_eq_left (body_within quote triple text)]
          omega
        rw [List.take_append_of_le_length within, List.take_take, Nat.min_eq_left (by omega)]
        exact notThree
      rw [Reading.length_after, List.take_succ_cons, List.cons_append,
        body_cons (ne_backslash other none), if_neg inLine, if_pos rfl, if_neg three,
        if_neg notThree', ih formed]
  | case9 c text _ other none inLine notQuote ih =>
      rw [Reading.length_after, List.take_succ_cons, List.cons_append,
        body_cons (ne_backslash other none), if_neg inLine, if_neg notQuote, ih formed]

/-- So it stays as it is, whatever follows. -/
theorem body_seam {front rest : List Char} (formed : (body quote triple (front ++ rest)).fault = none)
    (within : (body quote triple (front ++ rest)).length ≤ front.length) (behind : List Char) :
    body quote triple (front ++ behind) = body quote triple (front ++ rest) := by
  have same := body_take formed (front.drop (body quote triple (front ++ rest)).length ++ behind)
  rwa [List.take_append_of_le_length within, ← List.append_assoc, List.take_append_drop] at same

/-- **A well-formed string stays as it is** if a separator follows it. -/
theorem read_seam {front rest behind : List Char} {c : Char} (separates : isSeparator c = true)
    (quotes : isQuote quote = true) (formed : (read (quote :: front ++ rest)).fault = none)
    (within : (read (quote :: front ++ rest)).length ≤ (quote :: front).length) :
    read (quote :: front ++ c :: behind) = read (quote :: front ++ rest) := by
  have differs : c ≠ quote := by
    rintro rfl
    have notQuote := eq_false_of_isSeparator (p := isQuote) separates (by decide)
    rw [notQuote] at quotes
    cases quotes
  simp only [List.cons_append, read] at formed within ⊢
  by_cases three : (front ++ rest).take 2 = [quote, quote]
  · rw [if_pos three] at formed within ⊢
    have closed : 3 ≤ (body quote true ((front ++ rest).drop 2)).length := body_closed formed
    simp only [Reading.after, List.length_cons] at within
    have two : 2 ≤ front.length := by omega
    rw [List.take_append_of_le_length two] at three
    have room : (body quote true (front.drop 2 ++ rest)).length ≤ (front.drop 2).length := by
      rw [← List.drop_append_of_le_length two, List.length_drop]
      omega
    rw [List.take_append_of_le_length two, if_pos three, List.drop_append_of_le_length two] at *
    rw [List.drop_append_of_le_length two, body_seam formed room]
  · rw [if_neg three] at formed within ⊢
    have pos : 0 < (body quote false (front ++ rest)).length := body_pos formed
    simp only [Reading.after, List.length_cons] at within
    have notThree : (front ++ c :: behind).take 2 ≠ [quote, quote] := by
      rcases front with _ | ⟨d, _ | ⟨e, front⟩⟩
      · simp only [List.length_nil] at within
        omega
      · simp [differs]
      · simpa using three
    rw [if_neg notThree, body_seam formed (by omega)]

end Quotation

/-! ### Tokens -/

namespace Lexeme

variable {front rest behind : List Char} {c : Char}

theorem word_seam (separates : isSeparator c = true) (formed : (word (front ++ rest)).fault = none)
    (within : (word (front ++ rest)).length ≤ front.length) :
    word (front ++ c :: behind) = word (front ++ rest) := by
  have ends := isNamePart_of_isSeparator separates
  have le : ((front ++ rest).takeWhile isNamePart).length ≤ front.length := by
    refine Nat.le_trans ?_ within
    unfold word
    dsimp only
    split
    · exact Nat.le_add_right _ _
    · split <;> exact Nat.le_refl _
  have run : (front ++ c :: behind).takeWhile isNamePart = (front ++ rest).takeWhile isNamePart :=
    takeWhile_seam ((Nat.lt_or_eq_of_le le).imp id fun eq => ⟨eq, ends⟩)
  unfold word at formed within ⊢
  dsimp only at formed within ⊢
  rw [run]
  generalize (front ++ rest).takeWhile isNamePart = word at *
  rw [List.drop_append_of_le_length le] at formed within ⊢
  rw [List.drop_append_of_le_length le]
  have length := List.length_drop (i := word.length) (l := front)
  generalize front.drop word.length = later at *
  cases later with
  | nil =>
      have notQuote : Quotation.isQuote c = false :=
        eq_false_of_isSeparator (p := Quotation.isQuote) separates (by decide)
      rw [List.nil_append, List.nil_append, if_neg (by simp [notQuote])]
      by_cases string : (rest.head?.any Quotation.isQuote && isStringMark word) = true
      · -- A string would have more characters than the front.
        rw [List.nil_append, if_pos string] at within
        have some : rest ≠ [] := by
          rintro rfl
          cases string
        have pos := Quotation.read_pos some
        simp only [ofReading, Reading.after] at within
        simp only [List.length_nil] at length
        omega
      · rw [if_neg string]
  | cons d later =>
      by_cases string : ((d :: later ++ rest).head?.any Quotation.isQuote && isStringMark word) =
          true
      · have string' : ((d :: later ++ c :: behind).head?.any Quotation.isQuote &&
            isStringMark word) = true := string
        rw [if_pos string] at formed within
        have room : (Quotation.read (d :: later ++ rest)).length ≤ (d :: later).length := by
          simp only [ofReading, Reading.after] at within
          omega
        rw [if_pos string, if_pos string',
          Quotation.read_seam separates (Bool.and_eq_true_iff.1 string).1 formed room]
      · have string' : ¬((d :: later ++ c :: behind).head?.any Quotation.isQuote &&
            isStringMark word) = true := string
        rw [if_neg string, if_neg string']

/-- No symbol is written with a separator. -/
theorem spelling_unseparated (sign : Symbol) (separates : isSeparator c = true) :
    c ∉ sign.spelling.toList := by
  have checked : (Symbol.byPriority.all fun sign =>
      sign.spelling.toList.all fun c => !isSeparator c) = true := by decide
  intro mem
  have none := List.all_eq_true.1 (List.all_eq_true.1 checked sign (Symbol.mem_byPriority sign)) c mem
  simp [separates] at none

theorem symbol?_seam (separates : isSeparator c = true)
    (within : ∀ sign, symbol? (front ++ rest) = some sign → sign.spelling.length ≤ front.length) :
    symbol? (front ++ c :: behind) = symbol? (front ++ rest) := by
  -- A symbol that is seen with the separator is seen in the front, and so it was there before.
  have inside : ∀ sign : Symbol, sign.spelling.toList.isPrefixOf (front ++ c :: behind) = true →
      sign.spelling.toList.isPrefixOf (front ++ rest) = true := by
    intro sign seen
    have seen := List.isPrefixOf_iff_prefix.1 seen
    refine List.isPrefixOf_iff_prefix.2 (List.IsPrefix.trans ?_ (List.prefix_append front rest))
    have here : front <+: front ++ c :: behind := List.prefix_append _ _
    rcases Nat.le_total sign.spelling.toList.length front.length with short | long
    · exact List.prefix_of_prefix_length_le seen here short
    · obtain ⟨more, eq⟩ := List.prefix_of_prefix_length_le here seen long
      cases more with
      | nil => exact List.append_nil front ▸ eq ▸ List.prefix_rfl
      | cons d more =>
          rw [← eq, List.prefix_append_right_inj, List.cons_prefix_cons] at seen
          exact absurd (eq ▸ seen.1 ▸ by simp) (spelling_unseparated sign separates)
  have refused : ∀ sign : Symbol, (!sign.spelling.toList.isPrefixOf (front ++ rest)) = true →
      (!sign.spelling.toList.isPrefixOf (front ++ c :: behind)) = true := by
    intro sign refused
    rw [Bool.not_eq_true', Bool.eq_false_iff] at refused ⊢
    exact mt (inside sign) refused
  cases found : symbol? (front ++ rest) with
  | none =>
      refine List.find?_eq_none.2 fun sign mem seen => ?_
      exact List.find?_eq_none.1 found sign mem (inside sign seen)
  | some sign =>
      obtain ⟨seen, before, after, split, others⟩ := List.find?_eq_some_iff_append.1 found
      refine List.find?_eq_some_iff_append.2
        ⟨?_, before, after, split, fun other mem => refused other (others other mem)⟩
      have short := within sign found
      rw [← String.length_toList] at short
      have prefixed := List.prefix_of_prefix_length_le (List.isPrefixOf_iff_prefix.1 seen)
        (List.prefix_append front rest) short
      exact List.isPrefixOf_iff_prefix.2 (prefixed.trans (List.prefix_append _ _))

/-- **A well-formed token stays as it is** if a separator follows it, or follows later. -/
theorem read_seam (separates : isSeparator c = true) (some : front ≠ [])
    (formed : (read (front ++ rest)).fault = none)
    (within : (read (front ++ rest)).length ≤ front.length) :
    read (front ++ c :: behind) = read (front ++ rest) := by
  obtain ⟨d, front, rfl⟩ := List.exists_cons_of_ne_nil some
  simp only [List.cons_append, read] at formed within ⊢
  by_cases begins : isNameStart d = true
  · rw [if_pos begins] at formed within ⊢
    rw [if_pos begins]
    exact @word_seam (d :: front) rest behind c separates formed within
  rw [if_neg begins] at formed within ⊢
  rw [if_neg begins]
  have starts : Numeral.starts (d :: (front ++ c :: behind)) =
      Numeral.starts (d :: (front ++ rest)) := by
    refine Numeral.starts_seam separates fun number => ?_
    rw [if_pos number] at within
    exact within
  rw [starts]
  by_cases number : Numeral.starts (d :: (front ++ rest)) = true
  · rw [if_pos number] at formed within ⊢
    rw [if_pos number]
    exact congrArg (ofReading .number)
      (Numeral.read_sealed (d :: front) rest behind c separates formed within)
  · rw [if_neg number] at formed within ⊢
    rw [if_neg number]
    by_cases quotes : Quotation.isQuote d = true
    · rw [if_pos quotes] at formed within ⊢
      rw [if_pos quotes]
      exact congrArg (ofReading .string) (Quotation.read_seam separates quotes formed within)
    · rw [if_neg quotes] at formed within ⊢
      rw [if_neg quotes]
      have symbol : symbol? (d :: front ++ c :: behind) = symbol? (d :: front ++ rest) := by
        refine symbol?_seam separates fun sign found => ?_
        simpa [show symbol? (d :: (front ++ rest)) = _ from found] using within
      rw [show symbol? (d :: (front ++ c :: behind)) = _ from symbol]
      rfl

end Lexeme

end PythonSyntax
