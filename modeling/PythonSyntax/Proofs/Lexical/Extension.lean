/-
**A token does not depend on the text behind its line.**

Whether a token ends is seen at the latest from the line break behind it.  So more text after that
line break changes nothing, except for a string that is still open there; if the string is well
formed without that text, it is the same with it.  Numbers, names and symbols are made of characters
that stand for themselves: none of them is a blank, a quote or a bracket, or begins a comment.

Main definitions:

* `PythonSyntax.Lexeme.isOrdinary` — a character that stands for itself;
* `PythonSyntax.Reading.Ordinary` — a reading takes only such characters;
* `PythonSyntax.LineBound` — what is read does not depend on what stands behind the line break;
* `PythonSyntax.LineConfined` — nor on how the line ends.

Main results:

* `PythonSyntax.Numeral.read_ordinary`, `PythonSyntax.Numeral.read_confined` — numbers;
* `PythonSyntax.Quotation.body_append` — well-formed strings;
* `PythonSyntax.Lexeme.read_append` — **a well-formed token is the same with more text behind its
  line**.
-/

import PythonSyntax.Proofs.Lexical.Extent

set_option autoImplicit false

namespace PythonSyntax

/-! ### Characters that stand for themselves -/

namespace Lexeme

/-- The characters that mean something by themselves: line ends, blanks, quotes, brackets, colons,
and those with which comments and continuations begin. -/
def specials : List Char :=
  ['\n', '\r', ' ', '\t', '\x0c', '\'', '"', '#', '\\', ':', '(', ')', '[', ']', '\x7b', '\x7d']

/-- The other characters. -/
def isOrdinary (c : Char) : Bool := !specials.contains c

theorem ne_of_isOrdinary {c d : Char} (h : isOrdinary c = true) (special : d ∈ specials) :
    c ≠ d := by
  rintro rfl
  simp [isOrdinary, special] at h

/-- No line ends with such a character. -/
theorem isLineEnd_of_isOrdinary {c : Char} (h : isOrdinary c = true) : isLineEnd c = false := by
  rw [isLineEnd, Bool.or_eq_false_iff, decide_eq_false_iff_not, decide_eq_false_iff_not]
  exact ⟨ne_of_isOrdinary h (by decide), ne_of_isOrdinary h (by decide)⟩

/-- A class of characters that has none of the special ones. -/
theorem isOrdinary_of {p : Char → Bool} (none : specials.all fun c => !p c) {c : Char}
    (h : p c = true) : isOrdinary c = true := by
  rw [isOrdinary, Bool.not_eq_true', Bool.eq_false_iff]
  intro special
  have refused := List.all_eq_true.1 none c (List.contains_iff_mem.1 special)
  simp [h] at refused

theorem isOrdinary_of_isNamePart {c : Char} (h : isNamePart c = true) : isOrdinary c = true :=
  isOrdinary_of (by decide) h

/-- No name goes on with a special character. -/
theorem isNamePart_of_special {c : Char} (special : c ∈ specials) : isNamePart c = false :=
  Bool.eq_false_iff.2 fun part => ne_of_isOrdinary (isOrdinary_of_isNamePart part) special rfl

theorem isOrdinary_of_isDigit {radix : Radix} {c : Char} (h : radix.isDigit c = true) :
    isOrdinary c = true := by
  refine isOrdinary_of ?_ h
  cases radix <;> decide

end Lexeme

open Lexeme

/-! ### Readings -/

namespace Reading

theorem after_after (reading : Reading) (count more : Nat) :
    (reading.after count).after more = reading.after (more + count) := by
  rw [Reading.after, Reading.after, Reading.after, Nat.add_assoc]

/-- The reading takes only characters that stand for themselves. -/
def Ordinary (reading : Reading) (text : List Char) : Prop :=
  ∀ c ∈ text.take reading.length, isOrdinary c = true

variable {reading : Reading} {text : List Char}

theorem nothing_ordinary (text : List Char) : nothing.Ordinary text := by
  simp [Ordinary, nothing]

theorem Ordinary.spoilt (h : reading.Ordinary text) (fault : LexicalFault) :
    (reading.spoilt fault).Ordinary text := h

theorem Ordinary.after {rest : List Char} (front : List Char)
    (begins : ∀ c ∈ front, isOrdinary c = true) (h : reading.Ordinary rest) :
    (reading.after front.length).Ordinary (front ++ rest) := by
  intro c mem
  rw [Reading.after, List.take_length_add_append] at mem
  rcases List.mem_append.1 mem with mem | mem
  · exact begins c mem
  · exact h c mem

/-- The same with one character in front. -/
theorem Ordinary.cons {first : Char} {rest : List Char} (begins : isOrdinary first = true)
    (h : reading.Ordinary rest) : (reading.after 1).Ordinary (first :: rest) :=
  Ordinary.after [first] (by simpa using begins) h

theorem Ordinary.followedBy {next : List Char → Reading} (h : reading.Ordinary text)
    (later : ∀ rest, (next rest).Ordinary rest) : (reading.followedBy text next).Ordinary text := by
  unfold Reading.followedBy
  split
  · exact h
  · intro c mem
    rw [Reading.after, List.take_add] at mem
    rcases List.mem_append.1 mem with mem | mem
    · exact h c mem
    · exact later _ c mem

/-- Such a reading does not go beyond the line. -/
theorem Ordinary.le {front rest : List Char} (h : reading.Ordinary (front ++ '\n' :: rest)) :
    reading.length ≤ front.length := by
  refine Nat.le_of_not_lt fun more => ?_
  have inside : '\n' ∈ (front ++ '\n' :: rest).take reading.length := by
    rw [List.take_append]
    obtain ⟨n, eq⟩ : ∃ n, reading.length - front.length = n + 1 :=
      ⟨reading.length - front.length - 1, by omega⟩
    rw [eq, List.take_succ_cons]
    simp
  exact absurd (h _ inside) (by decide)

end Reading

open Reading

/-! ### Lines -/

/-- What is read does not depend on what stands behind the line break. -/
def LineBound {α : Type} (reader : List Char → α) : Prop :=
  ∀ front rest, reader (front ++ '\n' :: rest) = reader (front ++ ['\n'])

namespace Line

theorem head?_append (front rest : List Char) :
    (front ++ '\n' :: rest).head? = (front ++ ['\n']).head? := by
  cases front <;> rfl

theorem takeWhile_append {p : Char → Bool} (ends : p '\n' = false) (front rest : List Char) :
    (front ++ '\n' :: rest).takeWhile p = front.takeWhile p := by
  rw [List.takeWhile_append, List.takeWhile_cons, ends]
  split
  · rename_i all
    simpa using ((List.takeWhile_prefix p).eq_of_length all).symm
  · rfl

theorem drop_append {count : Nat} {front : List Char} (le : count ≤ front.length)
    (rest : List Char) : (front ++ '\n' :: rest).drop count = front.drop count ++ '\n' :: rest :=
  List.drop_append_of_le_length le

theorem take_append {count : Nat} {front : List Char} (le : count ≤ front.length)
    (rest : List Char) : (front ++ '\n' :: rest).take count = front.take count :=
  List.take_append_of_le_length le

/-- The characters up to the end of the line. -/
def front (text : List Char) : List Char := text.takeWhile fun c => !isLineEnd c

theorem isLineEnd_iff {c : Char} : isLineEnd c = true ↔ c = '\n' ∨ c = '\r' := by
  simp [isLineEnd]

theorem front_cons {c : Char} (inLine : isLineEnd c = false) (text : List Char) :
    front (c :: text) = c :: front text := by
  simp [front, inLine]

theorem front_of_isLineEnd {c : Char} (ends : isLineEnd c = true) (text : List Char) :
    front (c :: text) = [] := by
  simp [front, ends]

/-- The front of a line that holds some characters. -/
theorem front_append {first : List Char} (inLine : ∀ c ∈ first, isLineEnd c = false)
    (text : List Char) : front (first ++ text) = first ++ front text := by
  induction first with
  | nil => rfl
  | cons c first ih =>
      rw [List.cons_append, front_cons (inLine c List.mem_cons_self),
        ih fun d mem => inLine d (List.mem_cons_of_mem _ mem), List.cons_append]

variable {count : Nat} {text : List Char}

theorem front_drop (inLine : ∀ c ∈ text.take count, isLineEnd c = false) :
    (front text).drop count = front (text.drop count) := by
  rcases Nat.le_total count text.length with within | beyond
  · calc (front text).drop count
        = (front (text.take count ++ text.drop count)).drop count := by rw [List.take_append_drop]
      _ = (text.take count ++ front (text.drop count)).drop count := by rw [front_append inLine]
      _ = front (text.drop count) := by
          rw [List.drop_append, List.length_take, Nat.min_eq_left within, Nat.sub_self,
            List.drop_zero, List.drop_eq_nil_of_le (List.length_take_le count text), List.nil_append]
  · have short : (front text).length ≤ count :=
      Nat.le_trans (List.takeWhile_prefix _).length_le beyond
    rw [List.drop_eq_nil_of_le short, List.drop_eq_nil_of_le beyond]
    rfl

theorem front_take (inLine : ∀ c ∈ text.take count, isLineEnd c = false) :
    (front text).take count = text.take count := by
  have inside : text.take count <+: front text := by
    refine ⟨front (text.drop count), ?_⟩
    rw [← front_append inLine, List.take_append_drop]
  have here : text.take count <+: (front text).take count :=
    List.prefix_take_iff.2 ⟨inside, List.length_take_le _ _⟩
  have there : (front text).take count <+: text.take count :=
    List.prefix_take_iff.2 ⟨(List.take_prefix _ _).trans (List.takeWhile_prefix _),
      List.length_take_le _ _⟩
  exact there.eq_of_length_le here.length_le

theorem head?_front_iff {c : Char} (inLine : isLineEnd c = false) :
    (front text).head? = some c ↔ text.head? = some c := by
  cases text with
  | nil => rfl
  | cons d text =>
      by_cases ends : isLineEnd d = true
      · rw [front_of_isLineEnd ends]
        refine iff_of_false nofun fun same => ?_
        cases same
        simp [ends] at inLine
      · rw [front_cons (Bool.eq_false_iff.2 ends)]
        rfl

/-- A question to the first character that no line end answers with yes. -/
theorem any_head?_front {p : Char → Bool} (none : p '\n' = false ∧ p '\r' = false)
    (text : List Char) : (front text).head?.any p = text.head?.any p := by
  cases text with
  | nil => rfl
  | cons c text =>
      by_cases ends : isLineEnd c = true
      · rw [front_of_isLineEnd ends]
        rcases isLineEnd_iff.1 ends with rfl | rfl
        · exact none.1.symm
        · exact none.2.symm
      · rw [front_cons (Bool.eq_false_iff.2 ends)]
        rfl

theorem runsOn_front (text : List Char) : runsOn (front text) = runsOn text :=
  any_head?_front ⟨isNamePart_of_special (by decide), isNamePart_of_special (by decide)⟩ text

theorem startsWithDigit_front (text : List Char) :
    Numeral.startsWithDigit (front text) = Numeral.startsWithDigit text :=
  any_head?_front (by decide) text

end Line

open Line

theorem Reading.Ordinary.inLine {reading : Reading} {text : List Char} (h : reading.Ordinary text) :
    ∀ c ∈ text.take reading.length, isLineEnd c = false :=
  fun c mem => isLineEnd_of_isOrdinary (h c mem)

/-- What is read depends only on the characters up to the end of the line, not on how the line ends
nor on what stands behind. -/
def LineConfined {α : Type} (reader : List Char → α) : Prop :=
  ∀ text, reader (Line.front text) = reader text

/-- A reader that at the end of a line reads what it reads at the end of the text, and confined
behind its first character. -/
theorem LineConfined.of_cons {α : Type} {reader : List Char → α}
    (ended : ∀ c rest, c = '\n' ∨ c = '\r' → reader (c :: rest) = reader [])
    (inLine : ∀ c rest, isLineEnd c = false → reader (c :: Line.front rest) = reader (c :: rest)) :
    LineConfined reader := by
  intro text
  cases text with
  | nil => rfl
  | cons c rest =>
      by_cases ends : isLineEnd c = true
      · rw [front_of_isLineEnd ends, ended c rest (isLineEnd_iff.1 ends)]
      · rw [front_cons (Bool.eq_false_iff.2 ends), inLine c rest (Bool.eq_false_iff.2 ends)]

theorem LineConfined.lineBound {α : Type} {reader : List Char → α} (h : LineConfined reader) :
    LineBound reader := by
  intro first rest
  have same : Line.front (first ++ '\n' :: rest) = Line.front (first ++ ['\n']) := by
    rw [Line.front, Line.front, takeWhile_append (by decide), takeWhile_append (by decide)]
  rw [← h, same, h]

/-! ### Numbers -/

namespace Numeral

theorem digits_ordinary (radix : Radix) (seen : Bool) (text : List Char) :
    (digits radix seen text).Ordinary text := by
  induction text generalizing seen with
  | nil => exact nothing_ordinary _
  | cons c rest ih =>
      unfold digits
      split
      · rename_i digit
        exact (ih true).cons (isOrdinary_of_isDigit digit)
      · split
        · rename_i underscore
          simp only [Bool.and_eq_true, decide_eq_true_eq] at underscore
          split
          · exact (ih seen).cons (underscore.1 ▸ by decide)
          · exact (nothing_ordinary _).spoilt _
        · exact nothing_ordinary _

theorem fraction_ordinary (text : List Char) : (fraction text).Ordinary text := by
  unfold fraction
  split
  · exact (digits_ordinary _ _ _).cons (by decide)
  · exact nothing_ordinary _

theorem exponent_ordinary (text : List Char) : (exponent text).Ordinary text := by
  unfold exponent
  split
  · exact nothing_ordinary _
  · rename_i c rest
    obtain ⟨signs, ordinary, split, length⟩ : ∃ signs, (∀ d ∈ signs, isOrdinary d = true) ∧
        rest = signs ++ rest.drop signs.length ∧
          (if rest.head? = some '+' ∨ rest.head? = some '-' then 1 else 0) = signs.length := by
      split
      · rename_i sign
        cases rest with
        | nil => simp at sign
        | cons d more =>
            refine ⟨[d], List.forall_mem_singleton.2 ?_, rfl, rfl⟩
            simp only [List.head?_cons, Option.some.injEq] at sign
            rcases sign with rfl | rfl <;> decide
      · exact ⟨[], by simp, rfl, rfl⟩
    rw [length]
    dsimp only
    split
    · rename_i begins
      simp only [Bool.and_eq_true, Bool.or_eq_true, decide_eq_true_eq] at begins
      have letter : isOrdinary c = true := by
        rcases begins.1 with rfl | rfl <;> decide
      have all := (digits_ordinary .decimal false (rest.drop signs.length)).after
        (c :: signs) (by simpa [letter] using ordinary)
      rw [List.cons_append, ← split, List.length_cons, Nat.add_comm] at all
      exact all
    · exact nothing_ordinary _

theorem imaginary_ordinary (text : List Char) : (imaginary text).Ordinary text := by
  unfold imaginary
  split
  · exact nothing_ordinary _
  · rename_i c rest
    split
    · rename_i letter
      simp only [Bool.or_eq_true, decide_eq_true_eq] at letter
      exact (nothing_ordinary rest).cons (by rcases letter with rfl | rfl <;> decide)
    · exact nothing_ordinary _

theorem inRadix_ordinary (radix : Radix) (text : List Char) :
    (inRadix radix text).Ordinary text := by
  have run : ((digits radix false (text.drop (if text.head? = some '_' then 1 else 0))).after
      (if text.head? = some '_' then 1 else 0)).Ordinary text := by
    split
    · rename_i underscore
      cases text with
      | nil => simp at underscore
      | cons c rest =>
          simp only [List.head?_cons, Option.some.injEq] at underscore
          exact (digits_ordinary _ _ _).cons (underscore ▸ by decide)
    · exact Ordinary.after [] (by simp) (digits_ordinary _ _ _)
  unfold inRadix
  generalize (if text.head? = some '_' then 1 else 0) = skipped at run ⊢
  dsimp only
  split
  · exact run.spoilt _
  · exact run

theorem inDecimal_ordinary (text : List Char) : (inDecimal text).Ordinary text := by
  have whole : (((digits .decimal false text).followedBy text fraction).followedBy text
      exponent |>.followedBy text imaginary).Ordinary text :=
    ((digits_ordinary _ _ _).followedBy fraction_ordinary |>.followedBy
      exponent_ordinary).followedBy imaginary_ordinary
  unfold inDecimal
  dsimp only
  split
  · exact whole
  · split
    · exact whole.spoilt _
    · split
      · exact whole.spoilt _
      · exact whole

/-- A number is made of characters that stand for themselves. -/
theorem read_ordinary (text : List Char) : (read text).Ordinary text := by
  unfold read
  split
  · rename_i c rest
    split
    · rename_i radix letter
      refine Ordinary.after ['0', c] ?_ (inRadix_ordinary radix rest)
      have ordinary : isOrdinary c = true :=
        isOrdinary_of (p := fun c => (Radix.ofLetter? c).isSome) (by decide) (by simp [letter])
      simp [ordinary, show isOrdinary '0' = true from by decide]
    · exact inDecimal_ordinary _
  · exact inDecimal_ordinary _

theorem digits_confined (radix : Radix) (seen : Bool) : LineConfined (digits radix seen) := by
  have none : radix.isDigit '\n' = false ∧ radix.isDigit '\r' = false := by
    cases radix <;> decide
  intro text
  induction text generalizing seen with
  | nil => rfl
  | cons c rest ih =>
      by_cases ends : isLineEnd c = true
      · rw [front_of_isLineEnd ends]
        rcases isLineEnd_iff.1 ends with rfl | rfl <;> simp [digits, none]
      · rw [front_cons (Bool.eq_false_iff.2 ends)]
        simp only [digits, ih, any_head?_front none]

theorem fraction_confined : LineConfined fraction := by
  refine .of_cons ?_ fun c rest _ => ?_
  · rintro c rest (rfl | rfl) <;> rfl
  · by_cases point : c = '.'
    · subst point
      rw [fraction, fraction, digits_confined]
    · simp [fraction, point]

theorem exponent_confined : LineConfined exponent := by
  refine .of_cons ?_ fun c rest _ => ?_
  · rintro c rest (rfl | rfl) <;> simp [exponent]
  · have inLine : ∀ d ∈ rest.take (if rest.head? = some '+' ∨ rest.head? = some '-' then 1 else 0),
        isLineEnd d = false := by
      cases rest with
      | nil => simp
      | cons d more =>
          split
          · rename_i signed
            simp only [List.head?_cons, Option.some.injEq] at signed
            rcases signed with rfl | rfl <;> simp [isLineEnd]
          · simp
    simp only [exponent, head?_front_iff (c := '+') (by decide),
      head?_front_iff (c := '-') (by decide), front_drop inLine, startsWithDigit_front,
      digits_confined _ _ _]

theorem imaginary_confined : LineConfined imaginary := by
  refine .of_cons ?_ fun _ _ _ => rfl
  rintro c rest (rfl | rfl) <;> simp [imaginary]

theorem followedBy_confined {reader next : List Char → Reading} (confined : LineConfined reader)
    (confined' : LineConfined next) (ordinary : ∀ text, (reader text).Ordinary text) :
    LineConfined fun text => (reader text).followedBy text next := by
  intro text
  unfold Reading.followedBy
  dsimp only
  rw [confined, front_drop (ordinary text).inLine, confined']

theorem inRadix_confined (radix : Radix) : LineConfined (inRadix radix) := by
  intro text
  have ordinary := inRadix_ordinary radix text
  have skipped : ∀ c ∈ text.take (if text.head? = some '_' then 1 else 0), isLineEnd c = false := by
    cases text with
    | nil => simp
    | cons c rest =>
        split
        · rename_i underscore
          simp only [List.head?_cons, Option.some.injEq] at underscore
          subst underscore
          simp [isLineEnd]
        · simp
  unfold inRadix at ordinary ⊢
  simp only [head?_front_iff (c := '_') (by decide)]
  generalize (if text.head? = some '_' then 1 else 0) = count at *
  dsimp only at ordinary ⊢
  rw [front_drop skipped, digits_confined]
  generalize digits radix false (text.drop count) = run at *
  have whole : (run.after count).Ordinary text := by
    split at ordinary
    · exact ordinary
    · exact ordinary
  rw [front_drop whole.inLine, runsOn_front]

theorem inDecimal_confined : LineConfined inDecimal := by
  intro text
  have whole := digits_confined .decimal false
  have mantissa := followedBy_confined whole fraction_confined (digits_ordinary _ _)
  have real := followedBy_confined mantissa exponent_confined
    fun _ => (digits_ordinary _ _ _).followedBy fraction_ordinary
  have reading := followedBy_confined real imaginary_confined
    (fun _ => ((digits_ordinary _ _ _).followedBy fraction_ordinary).followedBy exponent_ordinary)
      text
  have ordinary := (((digits_ordinary .decimal false text).followedBy
    fraction_ordinary).followedBy exponent_ordinary).followedBy imaginary_ordinary
  unfold inDecimal
  dsimp only at reading ⊢
  rw [reading, whole text, front_drop ordinary.inLine, front_take ordinary.inLine, runsOn_front]

/-- Only a zero may announce a base. -/
theorem read_of_head? {text : List Char} (other : text.head? ≠ some '0') :
    read text = inDecimal text := by
  unfold read
  split
  · exact absurd rfl other
  · rfl

/-- **A number is read off its line.** -/
theorem read_confined : LineConfined read := by
  intro text
  by_cases zero : text.head? = some '0'
  · obtain ⟨rest, rfl⟩ : ∃ rest, text = '0' :: rest := by
      cases text with
      | nil => cases zero
      | cons c rest =>
          cases zero
          exact ⟨rest, rfl⟩
    have same := inDecimal_confined ('0' :: rest)
    rw [front_cons (by decide)] at same ⊢
    cases rest with
    | nil => rfl
    | cons d rest =>
        by_cases ends : isLineEnd d = true
        · have none : Radix.ofLetter? d = none := by
            rcases isLineEnd_iff.1 ends with rfl | rfl <;> decide
          rw [front_of_isLineEnd ends] at same ⊢
          simpa [read, none] using same
        · rw [front_cons (Bool.eq_false_iff.2 ends)] at same ⊢
          simp only [read, same, inRadix_confined _ rest]
  · have zero' : (front text).head? ≠ some '0' := mt (head?_front_iff (by decide)).1 zero
    rw [read_of_head? zero, read_of_head? zero', inDecimal_confined]

/-- **A number ends at the latest with its line.** -/
theorem read_lineBound : LineBound read := read_confined.lineBound

end Numeral

/-! ### Strings -/

namespace Quotation

variable {quote : Char} {triple : Bool}

/-- A character that neither stands before another one nor alone as a backslash is none. -/
theorem ne_backslash {c : Char} {text : List Char}
    (other : ∀ d rest, c = '\\' → text = d :: rest → False)
    (none : c = '\\' → text = [] → False) : c ≠ '\\' := by
  intro eq
  cases text with
  | nil => exact none eq rfl
  | cons d rest => exact other d rest eq rfl

/-- A character that is no backslash. -/
theorem body_cons {c : Char} {text : List Char} (plain : c ≠ '\\') :
    body quote triple (c :: text) =
      if !triple && (c = '\n' || c = '\r') then ⟨1, some .unterminatedString⟩
      else if c = quote then
        if !triple then ⟨1, none⟩
        else if text.take 2 = [quote, quote] then ⟨3, none⟩
        else (body quote triple text).after 1
      else (body quote triple text).after 1 := by
  rw [body.eq_def]
  split <;> simp_all

/-- **A well-formed string ends where it ends**, whatever follows the line behind it. -/
theorem body_append {text : List Char} (rest : List Char)
    (ends : ∀ last ∈ text.getLast?, last = '\n') (differs : quote ≠ '\n')
    (formed : (body quote triple text).fault = none) :
    body quote triple (text ++ rest) = body quote triple text := by
  have behind : ∀ {c : Char} {text : List Char}, (∀ last ∈ (c :: text).getLast?, last = '\n') →
      ∀ last ∈ text.getLast?, last = '\n' := by
    intro c text ends last mem
    rw [Option.mem_def] at mem
    exact ends last (by rw [Option.mem_def, List.getLast?_cons, mem]; rfl)
  fun_induction body quote triple text with
  | case1 | case4 | case5 => cases formed
  | case2 text ih =>
      simp only [List.cons_append, body]
      rw [ih (behind (behind (behind ends))) formed]
  | case3 c text other ih =>
      -- A carriage return at the very end would not be a line feed.
      have other' : ∀ more, c = '\r' → text ++ rest = '\n' :: more → False := by
        rintro more rfl eq
        cases text with
        | nil => exact absurd (ends '\r' rfl) (by decide)
        | cons d text =>
            cases eq
            exact other text rfl rfl
      simp only [List.cons_append, body]
      rw [ih (behind (behind ends)) formed]
  | case6 text single _ other none inLine =>
      rw [List.cons_append, body_cons (ne_backslash other none), if_neg inLine, if_pos rfl,
        if_pos single]
  | case7 text triple three _ other none inLine =>
      have two : 2 ≤ text.length := by
        have := congrArg List.length three
        simp only [List.length_take, List.length_cons, List.length_nil] at this
        omega
      rw [List.cons_append, body_cons (ne_backslash other none), if_neg inLine, if_pos rfl,
        if_neg triple, List.take_append_of_le_length two, if_pos three]
  | case8 text triple notThree _ other none inLine ih =>
      -- Not even with what follows are there three quotes.
      have notThree' : (text ++ rest).take 2 ≠ [quote, quote] := by
        match text with
        | [] => exact absurd (ends quote rfl) differs
        | [c] =>
            obtain rfl := ends c (by simp)
            cases rest <;> simp [differs.symm]
        | c :: d :: text => simpa using notThree
      rw [List.cons_append, body_cons (ne_backslash other none), if_neg inLine, if_pos rfl,
        if_neg triple, if_neg notThree', ih (behind ends) formed]
  | case9 c text _ other none inLine notQuote ih =>
      rw [List.cons_append, body_cons (ne_backslash other none), if_neg inLine, if_neg notQuote,
        ih (behind ends) formed]

/-- A well-formed string is the same with more text behind its line. -/
theorem read_append {front : List Char} (rest : List Char) (isQuote : isQuote quote = true)
    (formed : (read (quote :: (front ++ ['\n']))).fault = none) :
    read (quote :: (front ++ '\n' :: rest)) = read (quote :: (front ++ ['\n'])) := by
  have differs : quote ≠ '\n' := by
    rintro rfl
    exact absurd isQuote (by decide)
  have same : (front ++ '\n' :: rest).take 2 = [quote, quote] ↔
      (front ++ ['\n']).take 2 = [quote, quote] := by
    match front with
    | [] => cases rest <;> simp [differs.symm]
    | [c] => simp
    | c :: d :: front => simp
  have split : front ++ '\n' :: rest = (front ++ ['\n']) ++ rest := by simp
  have ends : ∀ last ∈ (front ++ ['\n']).getLast?, last = '\n' := by simp
  unfold read at formed ⊢
  dsimp only at formed ⊢
  by_cases three : (front ++ ['\n']).take 2 = [quote, quote]
  · rw [if_pos three] at formed
    rw [if_pos three, if_pos (same.2 three), split]
    have two : 2 ≤ (front ++ ['\n']).length := by
      have := congrArg List.length three
      simp only [List.length_take, List.length_cons, List.length_nil] at this
      omega
    rw [List.drop_append_of_le_length two, body_append rest ?_ differs formed]
    intro last mem
    rw [Option.mem_def, List.getLast?_drop] at mem
    split at mem
    · cases mem
    · exact ends last mem
  · rw [if_neg three] at formed
    rw [if_neg three, if_neg (mt same.1 three), split, body_append rest ends differs formed]

end Quotation

/-! ### Tokens -/

namespace Lexeme

/-- A word ends with its line, and if it is a well-formed string, it is the same with more text
behind. -/
theorem word_append (front rest : List Char)
    (formed : (word (front ++ ['\n'])).fault = none) :
    word (front ++ '\n' :: rest) = word (front ++ ['\n']) := by
  have run : ∀ rest, (front ++ '\n' :: rest).takeWhile isNamePart = front.takeWhile isNamePart :=
    takeWhile_append (isNamePart_of_special (by decide)) front
  have le : (front.takeWhile isNamePart).length ≤ front.length :=
    (List.takeWhile_prefix _).length_le
  unfold word at formed ⊢
  simp only [run, drop_append le, head?_append _ rest] at formed ⊢
  by_cases string : ((front.drop (front.takeWhile isNamePart).length ++ ['\n']).head?.any
      Quotation.isQuote && isStringMark (front.takeWhile isNamePart)) = true
  · rw [if_pos string] at formed ⊢
    rw [if_pos string]
    generalize front.drop (front.takeWhile isNamePart).length = text at *
    cases text with
    | nil => exact absurd (Bool.and_eq_true_iff.1 string).1 (by decide)
    | cons quote text =>
        rw [List.cons_append, List.cons_append,
          Quotation.read_append rest (Bool.and_eq_true_iff.1 string).1 formed]
  · rw [if_neg string, if_neg string]

/-- No symbol is written with a line break. -/
theorem spelling_inLine (sign : Symbol) : ∀ c ∈ sign.spelling.toList, isLineEnd c = false := by
  have checked : (Symbol.byPriority.all fun sign =>
      sign.spelling.toList.all fun c => !isLineEnd c) = true := by decide
  simpa using List.all_eq_true.1 checked sign (Symbol.mem_byPriority sign)

/-- So it is found in the front of the line. -/
theorem symbol?_confined : LineConfined symbol? := by
  have inLine : ∀ spelling text : List Char, (∀ c ∈ spelling, isLineEnd c = false) →
      spelling.isPrefixOf (front text) = spelling.isPrefixOf text := by
    intro spelling
    induction spelling with
    | nil => intros; rfl
    | cons c spelling ih =>
        intro text none
        cases text with
        | nil => rfl
        | cons d text =>
            by_cases ends : isLineEnd d = true
            · have differs : (c == d) = false := by
                rw [beq_eq_false_iff_ne]
                rintro rfl
                simp [none c List.mem_cons_self] at ends
              rw [front_of_isLineEnd ends]
              simp [List.isPrefixOf, differs]
            · rw [front_cons (Bool.eq_false_iff.2 ends)]
              simp [List.isPrefixOf, ih text fun e mem => none e (List.mem_cons_of_mem _ mem)]
  intro text
  unfold symbol?
  congr 1
  funext sign
  exact inLine _ text (spelling_inLine sign)

theorem symbol?_append (front rest : List Char) :
    symbol? (front ++ '\n' :: rest) = symbol? (front ++ ['\n']) :=
  symbol?_confined.lineBound front rest

theorem starts_confined : LineConfined Numeral.starts := by
  refine .of_cons ?_ fun c rest _ => ?_
  · rintro c rest (rfl | rfl) <;> simp [Numeral.starts]
  · rw [Numeral.starts, Numeral.starts, startsWithDigit_front]

/-- **A well-formed token is the same with more text behind its line.** -/
theorem read_append {front : List Char} (rest : List Char)
    (formed : (read (front ++ ['\n'])).fault = none) :
    read (front ++ '\n' :: rest) = read (front ++ ['\n']) := by
  cases front with
  | nil =>
      have notName : isNameStart '\n' = false :=
        Bool.eq_false_iff.2 fun start =>
          Bool.eq_false_iff.1 (isNamePart_of_special (by decide)) (isNamePart_of_isNameStart start)
      have symbol := symbol?_append [] rest
      simp only [List.nil_append] at symbol ⊢
      simp [read, notName, Numeral.starts, Quotation.isQuote, symbol]
  | cons c front =>
      have number := Numeral.read_lineBound (c :: front) rest
      have symbol := symbol?_append (c :: front) rest
      have starts : Numeral.starts (c :: (front ++ '\n' :: rest)) =
          Numeral.starts (c :: (front ++ ['\n'])) := starts_confined.lineBound (c :: front) rest
      simp only [List.cons_append] at number symbol formed ⊢
      simp only [read, starts, number, symbol] at formed ⊢
      split
      · rename_i begins
        rw [if_pos begins] at formed
        exact word_append (c :: front) rest formed
      · rename_i notName
        rw [if_neg notName] at formed
        split
        · rfl
        · rename_i notNumber
          rw [if_neg notNumber] at formed
          split
          · rename_i isQuote
            rw [if_pos isQuote] at formed
            rw [Quotation.read_append rest isQuote formed]
          · rfl

end Lexeme

end PythonSyntax
