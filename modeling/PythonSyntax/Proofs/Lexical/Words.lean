/-
**Words are read as far as names go.**

A word is a name or is reserved; a few words belong to a string if a quote follows them.  The words
that do are names themselves, so that the scanner reads a whole word before it looks at the quote.

Main definitions:

* `PythonSyntax.IsName` — a character with which names begin, and characters with which they go on.

Main results:

* `PythonSyntax.isName_of_isStringMark` — the words that belong to strings are names;
* `PythonSyntax.Lexeme.read_joined`, `PythonSyntax.Lexeme.read_unjoined` — a word in front of a text
  and what follows it;
* `PythonSyntax.Scanner.readToken_unjoined` — the token of a word that belongs to no string.
-/

import PythonSyntax.Lexical.Scanner
import PythonSyntax.Proofs.Lexical.Fronts

set_option autoImplicit false

namespace PythonSyntax

/-! ### Names -/

/-- A character with which names begin, and then characters with which they go on. -/
structure IsName (word : List Char) : Prop where
  begins : word.head?.any isNameStart = true
  goesOn : ∀ c ∈ word, isNamePart c = true

variable {word rest : List Char}

theorem IsName.ne_nil (h : IsName word) : word ≠ [] := by
  rintro rfl
  cases h.begins

/-- What is an ASCII letter in lower case was an ASCII character before. -/
theorem toNat_lt_of_toLower {c : Char} (small : c.toLower.toNat < 128) : c.toNat < 128 := by
  unfold Char.toLower at small
  split at small
  · rename_i capital
    have le := capital.2
    simp only [UInt32.le_iff_toNat_le] at le
    exact Nat.lt_of_le_of_lt le (by decide)
  · exact small

/-- The characters of the words that belong to strings are letters. -/
theorem isNameStart_of_toLower {c : Char} (letter : c.toLower ∈ ['r', 'u', 'b', 'f']) :
    isNameStart c = true ∧ isNamePart c = true := by
  have small : ∀ d ∈ ['r', 'u', 'b', 'f'], d.toNat < 128 := by simp
  refine forall_ascii (P := fun c => c.toLower ∈ ['r', 'u', 'b', 'f'] →
    isNameStart c = true ∧ isNamePart c = true) (by decide)
    (toNat_lt_of_toLower (small _ letter)) letter

/-- **The words that belong to strings are names.** -/
theorem isName_of_isStringMark (mark : isStringMark word = true) : IsName word := by
  have marks : ∀ small ∈ [['r'], ['u'], ['b'], ['f'], ['b', 'r'], ['r', 'b'], ['f', 'r'],
      ['r', 'f']], small ≠ [] ∧ small.all ['r', 'u', 'b', 'f'].contains = true := by
    decide
  obtain ⟨some, letters⟩ := marks _ (List.contains_iff_mem.1 mark)
  have letters' : ∀ c ∈ word, isNameStart c = true ∧ isNamePart c = true := fun c mem =>
    isNameStart_of_toLower
      (List.contains_iff_mem.1 (List.all_eq_true.1 letters _ (List.mem_map_of_mem mem)))
  refine ⟨?_, fun c mem => (letters' c mem).2⟩
  cases word with
  | nil => exact absurd rfl some
  | cons c more => exact (letters' c List.mem_cons_self).1

/-! ### Words in front of a text -/

namespace Lexeme

/-- A text that begins with a name begins with a word. -/
theorem read_name (name : IsName word) (rest : List Char) :
    Lexeme.read (word ++ rest) = Lexeme.word (word ++ rest) := by
  cases word with
  | nil => exact absurd rfl name.ne_nil
  | cons c more => exact if_pos name.begins

/-- The word is the longest run of characters of names. -/
theorem takeWhile_name (name : IsName word) (ends : Avoids isNamePart rest) :
    (word ++ rest).takeWhile isNamePart = word := by
  rw [List.takeWhile_append_of_pos name.goesOn]
  cases rest with
  | nil => exact List.append_nil _
  | cons c rest =>
      have stops : isNamePart c = false := ends
      rw [List.takeWhile_cons_of_neg (by simp [stops]), List.append_nil]

/-- Names end where a string begins. -/
theorem isNamePart_of_isQuote {quote : Char} (quotes : Quotation.isQuote quote = true) :
    isNamePart quote = false := by
  rcases Bool.or_eq_true_iff.1 quotes with single | double
  · rw [of_decide_eq_true single]
    decide
  · rw [of_decide_eq_true double]
    decide

/-- A word that belongs to strings is joined with the quote behind it. -/
theorem read_joined {quote : Char} (mark : isStringMark word = true)
    (quotes : Quotation.isQuote quote = true) :
    Lexeme.read (word ++ quote :: rest) =
      ofReading .string ((Quotation.read (quote :: rest)).after word.length) := by
  have name := isName_of_isStringMark mark
  have ends : Avoids isNamePart (quote :: rest) := isNamePart_of_isQuote quotes
  rw [read_name name, Lexeme.word, takeWhile_name name ends, List.drop_left, if_pos]
  exact Bool.and_eq_true_iff.2 ⟨quotes, mark⟩

/-- Any other word stands for itself: it is reserved or a name. -/
theorem read_unjoined (name : IsName word) (ends : Avoids isNamePart rest)
    (apart : (rest.head?.any Quotation.isQuote && isStringMark word) = false) :
    Lexeme.read (word ++ rest) =
      ⟨(Keyword.ofSpelling? (String.ofList word)).elim .name .keyword, word.length, none⟩ := by
  rw [read_name name, Lexeme.word, takeWhile_name name ends, List.drop_left,
    if_neg (by simp [apart])]
  cases Keyword.ofSpelling? (String.ofList word) with
  | none => rfl
  | some keyword => rfl

end Lexeme

namespace Scanner

/-- **The token of a word** that belongs to no string. -/
theorem readToken_unjoined (s : Scanner) (name : IsName word) (ends : Avoids isNamePart rest)
    (apart : (rest.head?.any Quotation.isQuote && isStringMark word) = false)
    (begins : s.rest = word ++ rest) :
    s.readToken =
      (.token [] (s.lexeme ((Keyword.ofSpelling? (String.ofList word)).elim .name .keyword)
        word.length), { s.skip word.length with lineHasContent := true }) := by
  have found := begins ▸ Lexeme.read_unjoined name ends apart
  rw [readToken, found]
  cases Keyword.ofSpelling? (String.ofList word) with
  | none => rfl
  | some keyword => rfl

end Scanner

end PythonSyntax
