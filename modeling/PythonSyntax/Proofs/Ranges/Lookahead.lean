/-
**Looking ahead by indices.**

Here a text is read by the indices of its characters, and a look may skip two or three of them.  A
character that does not exist yields no result, and neither does a loop that does not get on; so a
result that is there was found within the text.

Main definitions:

* `PythonSyntax.Indexed.lineEnd?` — the end of the line that an index lies in;
* `PythonSyntax.Indexed.quoted?` — the index behind a string;
* `PythonSyntax.Indexed.lookAhead?` — the rest of a logical line.

Main results:

* `PythonSyntax.Indexed.lineEnd?_eq`, `PythonSyntax.Indexed.lookAhead?_eq` — **these have the
  results that are found by reading one character after the other**.
-/

import PythonSyntax.Proofs.Lexical.Sight

set_option autoImplicit false

namespace PythonSyntax.Indexed

open Lexeme

variable {input : List Char} {index : Nat}

/-! ### Indices -/

/-- The character before the index. -/
def before? (input : List Char) : Nat → Option Char
  | 0 => none
  | index + 1 => input[index]?

/-- The index of the first line end from the given one on, or the end of the text. -/
def lineEnd? (input : List Char) (index : Nat) : Option Nat :=
  if _inside : index < input.length then do
    let c ← input[index]?
    if isLineEnd c then some index else lineEnd? input (index + 1)
  else some index
termination_by input.length - index

/-- The index behind a string, from one behind the quotes that open it. -/
def closing? (input : List Char) (quote : Char) (triple : Bool) (index : Nat) : Option Nat :=
  if _inside : index < input.length then do
    let c ← input[index]?
    if c = '\\' then closing? input quote triple (index + 2)
    else if !triple && isLineEnd c then some index
    else if c = quote then
      if !triple then some (index + 1)
      else if input[index + 1]? = some quote && input[index + 2]? = some quote then some (index + 3)
      else closing? input quote triple (index + 1)
    else closing? input quote triple (index + 1)
  else some input.length
termination_by input.length - index

/-- The index behind the string whose quote stands at the given one. -/
def quoted? (input : List Char) (index : Nat) : Option Nat := do
  let quote ← input[index]?
  let triple := input[index + 1]? = some quote && input[index + 2]? = some quote
  closing? input quote triple (if triple then index + 3 else index + 1)

/-- The logical line from the index on. -/
def lookAhead? (input : List Char) (index : Nat) (look : Lookahead) : Option Lookahead :=
  if _inside : index < input.length then do
    let c ← input[index]?
    if c = '#' then
      let stop ← lineEnd? input index
      if _later : index < stop then lookAhead? input stop look else none
    else if c = '\\' && input[index + 1]?.any isLineEnd then
      let last ← before? input (index + 2)
      lookAhead? input
        (index + 2 + if last = '\r' && input[index + 2]? = some '\n' then 1 else 0) look
    else if isLineEnd c && look.depth = 0 then some look
    else if isSpace c || isLineEnd c then lookAhead? input (index + 1) look
    else if Quotation.isQuote c then
      let stop ← quoted? input index
      if _later : index < stop then lookAhead? input stop look.meetOther else none
    else if c = ':' && input[index + 1]? = some '=' then
      lookAhead? input (index + 2) look.meetOther
    else lookAhead? input (index + 1) (look.meetChar c)
  else some look
termination_by input.length - index

/-- At an index there is a character, or the text has ended. -/
theorem at_index (input : List Char) (index : Nat) :
    (index < input.length ∧ ∃ c, input[index]? = some c ∧
      input.drop index = c :: input.drop (index + 1)) ∨
    ¬ index < input.length ∧ input.drop index = [] := by
  by_cases inside : index < input.length
  · exact Or.inl ⟨inside, input[index], List.getElem?_eq_getElem inside,
      List.drop_eq_getElem_cons inside⟩
  · exact Or.inr ⟨inside, List.drop_eq_nil_iff.2 (Nat.le_of_not_lt inside)⟩

/-- Two characters, and what is left behind them. -/
theorem pair_iff (input : List Char) (index : Nat) (quote : Char) :
    (input[index]? = some quote ∧ input[index + 1]? = some quote) ↔
      (input.drop index).take 2 = [quote, quote] := by
  rw [← List.head?_drop, ← List.head?_drop, ← List.drop_drop]
  rcases input.drop index with _ | ⟨a, _ | ⟨b, rest⟩⟩ <;> simp

/-! ### Comments -/

/-- The line ends where the characters that are passed do. -/
theorem lineEnd?_eq (input : List Char) (index : Nat) :
    lineEnd? input index = some (index + comment (input.drop index)) := by
  induction left : input.length - index generalizing index with
  | zero =>
      rcases at_index input index with ⟨inside, -⟩ | ⟨outside, ended⟩
      · omega
      · rw [lineEnd?, dif_neg outside, ended]
        rfl
  | succ left ih =>
      rcases at_index input index with ⟨inside, c, here, front⟩ | ⟨outside, -⟩
      · rw [lineEnd?, dif_pos inside, here, front, Option.bind_eq_bind, Option.bind_some]
        by_cases ends : isLineEnd c = true
        · rw [if_pos ends]
          simp [comment, ends]
        · rw [if_neg ends, ih (index + 1) (by omega)]
          simp [comment, ends, Nat.add_assoc, Nat.add_comm 1]
      · omega

/-! ### Strings -/

/-- Behind a backslash a character is passed. -/
theorem ofText_quoted_backslash {quote : Char} {triple : Bool} {look : Lookahead}
    (rest : List Char) : Lookahead.ofText (.quoted quote triple) look ('\\' :: rest) =
      Lookahead.ofText (.quoted quote triple) look (rest.drop 1) := by
  rw [Lookahead.ofText.eq_def]
  cases rest with
  | nil => simp [Lookahead.ofText]
  | cons c rest => simp

/-- A line end within a string of one line ends the string. -/
theorem ofText_quoted_lineEnd {quote c : Char} {look : Lookahead} {rest : List Char}
    (ends : isLineEnd c = true) : Lookahead.ofText (.quoted quote false) look (c :: rest) =
      Lookahead.ofText .code look (c :: rest) := by
  have ne : c ≠ '#' ∧ c ≠ '\\' := by
    rcases Line.isLineEnd_iff.1 ends with rfl | rfl <;> decide
  rw [Lookahead.ofText_code, Lookahead.ofText.eq_def]
  simp [ends, ne]

/-- **A string is left at the index at which a look leaves it.** -/
theorem closing?_leads (input : List Char) (quote : Char) (triple : Bool) (index : Nat) :
    ∃ stop, closing? input quote triple index = some stop ∧ min index input.length ≤ stop ∧
      ∀ look, Lookahead.ofText (.quoted quote triple) look (input.drop index) =
        Lookahead.ofText .code look (input.drop stop) := by
  induction left : input.length - index using Nat.strongRecOn generalizing index with
  | ind left ih =>
      rcases at_index input index with ⟨inside, c, here, front⟩ | ⟨outside, ended⟩
      · -- What is found behind this character is found from here.
        have later : ∀ next, index < next →
            (∀ look, Lookahead.ofText (.quoted quote triple) look (input.drop index) =
              Lookahead.ofText (.quoted quote triple) look (input.drop next)) →
            ∃ stop, closing? input quote triple next = some stop ∧
              min index input.length ≤ stop ∧
              ∀ look, Lookahead.ofText (.quoted quote triple) look (input.drop index) =
                Lookahead.ofText .code look (input.drop stop) := by
          intro next less same
          obtain ⟨stop, found, le, looks⟩ := ih (input.length - next) (by omega) next rfl
          exact ⟨stop, found, by omega, fun look => (same look).trans (looks look)⟩
        rw [closing?, dif_pos inside, here, Option.bind_eq_bind, Option.bind_some]
        by_cases backslash : c = '\\'
        · subst backslash
          rw [if_pos rfl]
          refine later _ (by omega) fun look => ?_
          rw [front, ofText_quoted_backslash, List.drop_drop]
        rw [if_neg backslash]
        by_cases ends : (!triple && isLineEnd c) = true
        · rw [if_pos ends]
          obtain ⟨single, ends⟩ := Bool.and_eq_true_iff.1 ends
          obtain rfl : triple = false := by simpa using single
          refine ⟨index, rfl, Nat.min_le_left _ _, fun look => ?_⟩
          rw [front, ofText_quoted_lineEnd ends]
        rw [if_neg ends]
        have passed : ∀ look, Lookahead.ofText (.quoted quote triple) look (input.drop index) =
            if c = quote then
              if !triple then Lookahead.ofText .code look (input.drop (index + 1))
              else if input[index + 1]? = some quote ∧ input[index + 2]? = some quote then
                Lookahead.ofText .code look (input.drop (index + 3))
              else Lookahead.ofText (.quoted quote triple) look (input.drop (index + 1))
            else Lookahead.ofText (.quoted quote triple) look (input.drop (index + 1)) := by
          intro look
          rw [front, Lookahead.ofText_quoted_cons backslash ends, List.drop_drop]
          simp only [pair_iff]
        simp only [Bool.and_eq_true, decide_eq_true_eq]
        by_cases closes : c = quote
        · simp only [if_pos closes] at passed ⊢
          cases triple with
          | false => exact ⟨index + 1, rfl, by omega, passed⟩
          | true =>
              by_cases three : input[index + 1]? = some quote ∧ input[index + 2]? = some quote
              · simp only [if_pos three] at passed ⊢
                exact ⟨index + 3, rfl, by omega, passed⟩
              · simp only [if_neg three] at passed ⊢
                exact later _ (by omega) passed
        · simp only [if_neg closes] at passed ⊢
          exact later _ (by omega) passed
      · refine ⟨input.length, by rw [closing?, dif_neg outside], by omega, fun look => ?_⟩
        rw [ended, List.drop_length]
        simp [Lookahead.ofText]

/-- A quote opens a string, and so do three of them. -/
theorem ofText_quote {c : Char} {look : Lookahead} (isQuote : Quotation.isQuote c = true)
    (rest : List Char) : Lookahead.ofText .code look (c :: rest) =
      if rest.take 2 = [c, c] then Lookahead.ofText (.quoted c true) look.meetOther (rest.drop 2)
      else Lookahead.ofText (.quoted c false) look.meetOther rest := by
  have ne : c ≠ '#' ∧ c ≠ '\\' ∧ isLineEnd c = false ∧ isSpace c = false := by
    simp only [Quotation.isQuote, Bool.or_eq_true, decide_eq_true_eq] at isQuote
    rcases isQuote with rfl | rfl <;> decide
  rw [Lookahead.ofText_code]
  simp only [ne, isQuote]
  rcases rest with _ | ⟨a, _ | ⟨b, rest⟩⟩ <;> simp

/-- A string is passed as one piece. -/
theorem quoted?_leads {c : Char} (isQuote : Quotation.isQuote c = true)
    (here : input[index]? = some c) (front : input.drop index = c :: input.drop (index + 1)) :
    ∃ stop, quoted? input index = some stop ∧ index < stop ∧ ∀ look,
      Lookahead.ofText .code look (input.drop index) =
        Lookahead.ofText .code look.meetOther (input.drop stop) := by
  have inside : index < input.length := (List.getElem?_eq_some_iff.1 here).1
  have opens : ∀ look, Lookahead.ofText .code look (input.drop index) =
      if input[index + 1]? = some c ∧ input[index + 2]? = some c then
        Lookahead.ofText (.quoted c true) look.meetOther (input.drop (index + 3))
      else Lookahead.ofText (.quoted c false) look.meetOther (input.drop (index + 1)) := by
    intro look
    rw [front, ofText_quote isQuote, List.drop_drop]
    simp only [pair_iff]
  unfold quoted?
  rw [here, Option.bind_eq_bind, Option.bind_some]
  by_cases three : input[index + 1]? = some c ∧ input[index + 2]? = some c
  · simp only [if_pos three] at opens
    obtain ⟨stop, found, le, looks⟩ := closing?_leads input c true (index + 3)
    have within : index + 2 < input.length := (List.getElem?_eq_some_iff.1 three.2).1
    refine ⟨stop, ?_, by omega, fun look => (opens look).trans (looks _)⟩
    simpa [three] using found
  · simp only [if_neg three] at opens
    obtain ⟨stop, found, le, looks⟩ := closing?_leads input c false (index + 1)
    refine ⟨stop, ?_, by omega, fun look => (opens look).trans (looks _)⟩
    have single : (decide (input[index + 1]? = some c) && decide (input[index + 2]? = some c)) =
        false := by simpa using three
    simpa [single] using found

/-! ### The line -/

/-- A line break behind a backslash is passed. -/
theorem ofText_continued {look : Lookahead} {c : Char} (ends : isLineEnd c = true)
    (rest : List Char) : Lookahead.ofText .code look ('\\' :: c :: rest) =
      Lookahead.ofText .code look
        (rest.drop (if c = '\r' && rest.head? = some '\n' then 1 else 0)) := by
  rw [Lookahead.ofText_code]
  simp only [List.head?_cons, Option.any_some, ends]
  rcases Line.isLineEnd_iff.1 ends with rfl | rfl
  · simp
  · rcases rest with _ | ⟨d, rest⟩
    · simp
    · by_cases feed : d = '\n' <;> simp [feed]

/-- A colon is a piece, with an equals sign behind it or without. -/
theorem ofText_anyColon {look : Lookahead} (rest : List Char) :
    Lookahead.ofText .code look (':' :: rest) =
      if rest.head? = some '=' then Lookahead.ofText .code look.meetOther (rest.drop 1)
      else Lookahead.ofText .code (look.meetChar ':') rest := by
  rcases rest with _ | ⟨c, rest⟩
  · exact Lookahead.ofText_colon nofun
  · by_cases equals : c = '='
    · subst equals
      exact Lookahead.ofText_colonAssign
    · rw [Lookahead.ofText_colon (by rintro more eq; cases eq; exact equals rfl),
        if_neg (by simpa using equals)]

/-- **The look that is taken by indices is the look at the characters.** -/
theorem lookAhead?_eq (input : List Char) (index : Nat) (look : Lookahead) :
    lookAhead? input index look = some (Lookahead.ofText .code look (input.drop index)) := by
  induction left : input.length - index using Nat.strongRecOn generalizing index look with
  | ind left ih =>
      rcases at_index input index with ⟨inside, c, here, front⟩ | ⟨outside, ended⟩
      · have later : ∀ next look, index < next → lookAhead? input next look =
            some (Lookahead.ofText .code look (input.drop next)) :=
          fun next look less => ih (input.length - next) (by omega) next look rfl
        rw [lookAhead?, dif_pos inside, here, Option.bind_eq_bind, Option.bind_some]
        by_cases hash : c = '#'
        · subst hash
          have length : comment ('#' :: input.drop (index + 1)) =
              comment (input.drop (index + 1)) + 1 := by simp [comment, isLineEnd]
          have less : index < index + comment (input.drop index) := by
            rw [front, length]
            omega
          rw [if_pos rfl, lineEnd?_eq, Option.bind_eq_bind, Option.bind_some, dif_pos less,
            later _ _ less, ← List.drop_drop, front, ← Lookahead.ofText_hash]
        rw [if_neg hash, ← List.head?_drop, ← List.head?_drop]
        by_cases continued : (c = '\\' && (input.drop (index + 1)).head?.any isLineEnd) = true
        · rw [if_pos continued]
          simp only [Bool.and_eq_true, decide_eq_true_eq] at continued
          obtain ⟨rfl, found⟩ := continued
          rcases at_index input (index + 1) with ⟨-, d, there, behind⟩ | ⟨-, ended⟩
          · have ends : isLineEnd d = true := by simpa [behind] using found
            have last : before? input (index + 2) = some d := there
            rw [last, Option.bind_some, later _ _ (by omega), front, behind,
              ofText_continued ends, List.head?_drop, List.drop_drop]
          · simp [ended] at found
        rw [if_neg continued]
        by_cases isQuote : Quotation.isQuote c = true
        · obtain ⟨stop, found, less, looks⟩ := quoted?_leads isQuote here front
          have inLine : isLineEnd c = false ∧ isSpace c = false := by
            simp only [Quotation.isQuote, Bool.or_eq_true, decide_eq_true_eq] at isQuote
            rcases isQuote with rfl | rfl <;> decide
          simp only [inLine, isQuote, found, looks, Bool.false_and, Bool.or_self, if_true,
            Bool.false_eq_true, if_false, Option.bind_eq_bind, Option.bind_some, dif_pos less]
          exact later _ _ less
        by_cases colon : c = ':'
        · subst colon
          have plain : isLineEnd ':' = false ∧ isSpace ':' = false := by decide
          rw [front, ofText_anyColon, List.drop_drop, List.head?_drop]
          simp only [plain, if_neg isQuote, Bool.false_and, Bool.or_self, Bool.false_eq_true,
            if_false, decide_true, Bool.true_and, decide_eq_true_eq,
            later _ _ (Nat.lt_succ_self index), later _ _ (Nat.lt_add_of_pos_right Nat.two_pos)]
          split <;> rfl
        rw [front, Lookahead.ofText_code, if_neg hash, if_neg continued]
        simp only [if_neg isQuote, colon, if_false, decide_false, Bool.false_and,
          later _ _ (Nat.lt_succ_self index), Bool.false_eq_true]
        split
        · rfl
        · split <;> rfl
      · rw [lookAhead?, dif_neg outside, ended]
        simp [Lookahead.ofText]

end PythonSyntax.Indexed
