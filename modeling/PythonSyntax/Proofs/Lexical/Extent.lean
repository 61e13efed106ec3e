/-
**How far a lexeme reaches.**

A reader answers how many characters it takes, malformed or not.  It never takes more than there
are, and the token at the front of a text takes at least one.  What a reserved word or a symbol
takes is its spelling.

Main definitions:

* `PythonSyntax.Reading.Within` — the reading stays within the text;
* `PythonSyntax.Lexeme.Sits` — the lexeme can stand at the front of the text.

Main results:

* `PythonSyntax.Numeral.read_within`, `PythonSyntax.Quotation.read_within` — numbers and strings;
* `PythonSyntax.Lexeme.read_sits` — the token that is read off a text sits at its front;
* `PythonSyntax.Lexeme.lineBreak_cases` — a line break is of two characters, or of one.
-/

import PythonSyntax.Lexical.Lexeme

set_option autoImplicit false

namespace PythonSyntax

/-! ### Readings -/

namespace Reading

/-- The reading takes no more characters than the text has. -/
def Within (reading : Reading) (text : List Char) : Prop := reading.length ≤ text.length

theorem nothing_within (text : List Char) : nothing.Within text := Nat.zero_le _

theorem Within.spoilt {reading : Reading} {text : List Char} (h : reading.Within text)
    (fault : LexicalFault) : (reading.spoilt fault).Within text := h

theorem Within.after {reading : Reading} (text : List Char) {count : Nat}
    (h : reading.Within (text.drop count)) (le : count ≤ text.length) :
    (reading.after count).Within text := by
  simp only [Within, Reading.after, List.length_drop] at h ⊢
  omega

theorem Within.followedBy {reading : Reading} {text : List Char} {next : List Char → Reading}
    (h : reading.Within text) (hnext : ∀ rest, (next rest).Within rest) :
    (reading.followedBy text next).Within text := by
  unfold Reading.followedBy
  split
  · exact h
  · exact (hnext _).after _ h

end Reading

open Reading

/-! ### Numbers -/

namespace Numeral

theorem digits_within (radix : Radix) (seen : Bool) (text : List Char) :
    (digits radix seen text).Within text := by
  induction text generalizing seen with
  | nil => exact nothing_within _
  | cons c rest ih =>
      have step : ∀ seen, ((digits radix seen rest).after 1).Within (c :: rest) :=
        fun seen => Within.after (c :: rest) (ih seen) (by simp)
      unfold digits
      split
      · exact step true
      · split
        · split
          · exact step seen
          · exact (nothing_within _).spoilt _
        · exact nothing_within _

theorem fraction_within (text : List Char) : (fraction text).Within text := by
  unfold fraction
  split
  · rename_i rest
    exact Within.after ('.' :: rest) (digits_within _ _ _) (by simp)
  · exact nothing_within _

/-- Where a digit stands behind a sign, the sign is there. -/
theorem le_length_of_startsWithDigit {text : List Char} {count : Nat}
    (h : startsWithDigit (text.drop count) = true) : count ≤ text.length := by
  rcases Nat.lt_or_ge text.length count with lt | le
  · rw [List.drop_eq_nil_of_le (Nat.le_of_lt lt)] at h
    simp [startsWithDigit] at h
  · exact le

theorem exponent_within (text : List Char) : (exponent text).Within text := by
  unfold exponent
  split
  · exact nothing_within _
  · rename_i c rest
    simp only [Bool.and_eq_true]
    generalize (if rest.head? = some '+' ∨ rest.head? = some '-' then 1 else 0) = sign
    split
    · rename_i h
      have le := le_length_of_startsWithDigit h.2
      refine Within.after _ ?_ (by simp only [List.length_cons]; omega)
      rw [Nat.add_comm, List.drop_succ_cons]
      exact digits_within _ _ _
    · exact nothing_within _

theorem imaginary_within (text : List Char) : (imaginary text).Within text := by
  unfold imaginary
  split
  · exact nothing_within _
  · split
    · simp [Within]
    · exact nothing_within _

theorem inRadix_within (radix : Radix) (text : List Char) : (inRadix radix text).Within text := by
  have skipped_le : (if text.head? = some '_' then 1 else 0) ≤ text.length := by
    split
    · rename_i h
      cases text with
      | nil => simp at h
      | cons c rest => simp
    · exact Nat.zero_le _
  unfold inRadix
  generalize (if text.head? = some '_' then 1 else 0) = skipped at skipped_le ⊢
  have run := (digits_within radix false (text.drop skipped)).after _ skipped_le
  dsimp only
  split
  · exact run.spoilt _
  · exact run

theorem inDecimal_within (text : List Char) : (inDecimal text).Within text := by
  have whole : (((digits .decimal false text).followedBy text fraction).followedBy text
      exponent |>.followedBy text imaginary).Within text :=
    ((digits_within _ _ _).followedBy fraction_within |>.followedBy exponent_within).followedBy
      imaginary_within
  unfold inDecimal
  dsimp only
  split
  · exact whole
  · split
    · exact whole.spoilt _
    · split
      · exact whole.spoilt _
      · exact whole

/-- A number takes no more characters than there are. -/
theorem read_within (text : List Char) : (read text).Within text := by
  unfold read
  split
  · rename_i c rest
    split
    · rename_i radix _
      exact Within.after ('0' :: c :: rest) (inRadix_within radix rest) (by simp)
    · exact inDecimal_within _
  · exact inDecimal_within _

theorem followedBy_length (reading : Reading) (text : List Char) (next : List Char → Reading) :
    reading.length ≤ (reading.followedBy text next).length := by
  unfold Reading.followedBy
  split
  · exact Nat.le_refl _
  · exact Nat.le_add_right _ _

theorem inDecimal_pos {text : List Char} (h : starts text = true) :
    0 < (inDecimal text).length := by
  have mantissa : 0 < ((digits .decimal false text).followedBy text fraction).length := by
    cases text with
    | nil => simp [starts] at h
    | cons c rest =>
        by_cases digit : c.isDigit = true
        · refine Nat.lt_of_lt_of_le ?_ (followedBy_length _ _ _)
          simp only [digits, Radix.isDigit, digit, Reading.after, if_true]
          omega
        · obtain ⟨rfl, -⟩ : c = '.' ∧ _ := by simpa [starts, digit] using h
          have none_read : digits .decimal false ('.' :: rest) = .nothing := by
            simp [digits, Radix.isDigit]
          simp only [none_read, Reading.nothing, Reading.followedBy, fraction, Reading.after,
            List.drop_zero]
          omega
  have whole := Nat.lt_of_lt_of_le mantissa
    (Nat.le_trans (followedBy_length _ text exponent) (followedBy_length _ text imaginary))
  unfold inDecimal
  dsimp only
  split
  · exact whole
  · split
    · exact whole
    · split <;> exact whole

/-- A number takes at least one character. -/
theorem read_pos {text : List Char} (h : starts text = true) : 0 < (read text).length := by
  unfold read
  split
  · split
    · exact Nat.add_pos_left Nat.two_pos _
    · exact inDecimal_pos h
  · exact inDecimal_pos h

end Numeral

/-! ### Strings -/

namespace Quotation

theorem body_within (quote : Char) (triple : Bool) (text : List Char) :
    (body quote triple text).Within text := by
  fun_induction body quote triple text with
  | case1 => exact (nothing_within _).spoilt _
  | case2 rest ih => exact Within.after ('\\' :: '\r' :: '\n' :: rest) ih (by simp)
  | case3 c rest _ ih => exact Within.after ('\\' :: c :: rest) ih (by simp)
  | case4 => simp [Within]
  | case5 => simp [Within]
  | case6 => simp [Within]
  | case7 rest _ h =>
      have two : 2 ≤ rest.length := by
        have := congrArg List.length h
        simp only [List.length_take, List.length_cons, List.length_nil] at this
        omega
      simp only [Within, List.length_cons]
      omega
  | case8 rest _ _ _ _ _ _ ih => exact Within.after (_ :: rest) ih (by simp)
  | case9 c rest _ _ _ _ _ ih => exact Within.after (c :: rest) ih (by simp)

/-- A string takes no more characters than there are. -/
theorem read_within (text : List Char) : (read text).Within text := by
  unfold read
  split
  · exact (nothing_within _).spoilt _
  · rename_i quote rest
    split
    · rename_i h
      have two : 2 ≤ rest.length := by
        have := congrArg List.length h
        simp only [List.length_take, List.length_cons, List.length_nil] at this
        omega
      exact Within.after (quote :: rest) (body_within quote true (rest.drop 2))
        (by simp only [List.length_cons]; omega)
    · exact Within.after (quote :: rest) (body_within quote false rest) (by simp)

/-- A string takes at least one character. -/
theorem read_pos {text : List Char} (nonempty : text ≠ []) : 0 < (read text).length := by
  unfold read
  split
  · exact absurd rfl nonempty
  · split
    · exact Nat.add_pos_left (by decide) _
    · exact Nat.add_pos_left Nat.one_pos _

end Quotation

/-! ### Tokens -/

namespace Lexeme

/-- The lexeme can stand at the front of the text: it takes at least one character, no more than
there are, and its spelling if its kind has one.  It is no token of the layout. -/
structure Sits (lexeme : Lexeme) (text : List Char) : Prop where
  pos : 0 < lexeme.length
  within : lexeme.length ≤ text.length
  spelled : ∀ spelling, lexeme.kind.spelling? = some spelling →
    text.take lexeme.length = spelling.toList
  notLayout : lexeme.kind ∉ [.eof, .indent, .dedent, .newline, .typeComment]

/-- A literal sits where its reading does. -/
theorem ofReading_sits {text : List Char} {kind : TokenKind} {reading : Reading}
    (literal : kind = .string ∨ kind = .number) (pos : 0 < reading.length)
    (within : reading.Within text) : (ofReading kind reading).Sits text := by
  refine ⟨pos, within, ?_, ?_⟩ <;> rcases literal with rfl | rfl <;>
    simp [ofReading, TokenKind.spelling?]

/-- The front of a text that is as long as a run is the run. -/
theorem take_takeWhile_length (p : Char → Bool) (text : List Char) :
    text.take (text.takeWhile p).length = text.takeWhile p :=
  (List.prefix_iff_eq_take.1 (List.takeWhile_prefix p)).symm

theorem drop_takeWhile_length (p : Char → Bool) (text : List Char) :
    text.drop (text.takeWhile p).length = text.dropWhile p := by
  induction text with
  | nil => rfl
  | cons c rest ih => by_cases holds : p c = true <;> simp [holds, ih]

/-- What is behind a run begins with another character. -/
theorem eq_false_of_dropWhile {p : Char → Bool} {text rest : List Char} {c : Char}
    (behind : text.dropWhile p = c :: rest) : p c = false := by
  have some : text.dropWhile p ≠ [] := by simp [behind]
  have head := List.head_dropWhile_not p some
  simpa [behind] using head

/-- A name goes on with the characters with which it can start. -/
theorem isNamePart_of_isNameStart {c : Char} (start : isNameStart c = true) :
    isNamePart c = true := by
  simp only [isNameStart, isNamePart, Bool.or_eq_true] at start ⊢
  exact Or.inl start

/-- Names, reserved words and strings with a mark sit at the front of the text. -/
theorem word_sits {c : Char} {rest : List Char} (start : isNameStart c = true) :
    (word (c :: rest)).Sits (c :: rest) := by
  have part := isNamePart_of_isNameStart start
  have run_pos : 0 < ((c :: rest).takeWhile isNamePart).length := by
    simp [part]
  have run_le : ((c :: rest).takeWhile isNamePart).length ≤ (c :: rest).length :=
    (List.takeWhile_prefix _).length_le
  unfold word
  dsimp only
  split
  · refine ofReading_sits (Or.inl rfl) ?_ (Within.after _ (Quotation.read_within _) run_le)
    exact Nat.add_pos_left run_pos _
  · split
    · rename_i keyword found
      refine ⟨run_pos, run_le, fun spelling h => ?_, by simp⟩
      have same := Keyword.ofSpelling?_eq_some_iff.1 found
      simp only [TokenKind.spelling?, Option.some.injEq] at h
      rw [← h, same, String.toList_ofList]
      exact take_takeWhile_length _ _
    · exact ⟨run_pos, run_le, by simp [TokenKind.spelling?], by simp⟩

/-- A symbol with which the text begins sits at its front. -/
theorem symbol_sits {text : List Char} {sign : Symbol} (found : symbol? text = some sign) :
    Sits ⟨.symbol sign, sign.spelling.length, none⟩ text := by
  have front : sign.spelling.toList <+: text := by
    rw [← List.isPrefixOf_iff_prefix]
    simpa [symbol?] using List.find?_some found
  refine ⟨by cases sign <;> decide, ?_, fun spelling h => ?_, by simp⟩
  · rw [← String.length_toList]
    exact front.length_le
  · simp only [TokenKind.spelling?, Option.some.injEq] at h
    rw [← h, ← String.length_toList]
    exact (List.prefix_iff_eq_take.1 front).symm

/-- The token at the front of a text sits there. -/
theorem read_sits {text : List Char} (nonempty : text ≠ []) : (read text).Sits text := by
  cases text with
  | nil => exact absurd rfl nonempty
  | cons c rest =>
      simp only [read]
      split
      · rename_i start
        exact word_sits start
      · split
        · rename_i starts
          exact ofReading_sits (Or.inr rfl) (Numeral.read_pos starts) (Numeral.read_within _)
        · split
          · exact ofReading_sits (Or.inl rfl) (Quotation.read_pos (by simp))
              (Quotation.read_within _)
          · split
            · rename_i sign found
              exact symbol_sits found
            · exact ⟨Nat.one_pos, by simp, by simp [TokenKind.spelling?], by simp⟩

/-! ### Line breaks -/

/-- A line break is of two characters, or of one. -/
theorem lineBreak_cases {c : Char} (ends : isLineEnd c = true) (rest : List Char) :
    (∃ more, c = '\r' ∧ rest = '\n' :: more) ∨
      (∀ more, c = '\r' → rest = '\n' :: more → False) ∧ lineBreak (c :: rest) = 1 := by
  by_cases pair : ∃ more, c = '\r' ∧ rest = '\n' :: more
  · exact Or.inl pair
  · have notPair : ∀ more, c = '\r' → rest = '\n' :: more → False :=
      fun more return_ feed => pair ⟨more, return_, feed⟩
    exact Or.inr ⟨notPair, by rw [lineBreak.eq_2 c rest notPair, if_pos ends]⟩

end Lexeme

end PythonSyntax
