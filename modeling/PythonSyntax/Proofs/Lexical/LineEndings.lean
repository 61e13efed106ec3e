/-
**The ends of lines may be written in other ways.**

A line may end with a line feed, with a carriage return, or with both.  The tokens of a text in which
all lines end with a line feed are those of the same text with other line ends: what is a line break
in one is a line break in the other, wherever it stands, and where one cannot be read, neither can
the other.  Offsets and texts change as the text does.

Main definitions:

* `PythonSyntax.LineEnding` — the other ways to end a line;
* `PythonSyntax.LineEnding.write` — a text with its line feeds written in that way;
* `PythonSyntax.LineEnding.token`, `PythonSyntax.LineEnding.error` — the tokens and errors of that
  text, from those of the first;
* `PythonSyntax.LineEnding.Echo` — a step over that text beside one over the first.

Main results:

* `PythonSyntax.LineEnding.read_written` — the same token stands at the front of both texts;
* `PythonSyntax.LineEnding.step_echo` — **a step over one text is a step over the other**;
* `PythonSyntax.tokenize_write` — **the tokens are the same but for the line ends**.
-/

import Mathlib.Data.List.TakeWhile
import PythonSyntax.Proofs.Lexical.Extension
import PythonSyntax.Proofs.Lexical.Unbounded

set_option autoImplicit false

namespace PythonSyntax

open Lexeme

/-! ### Texts -/

/-- How a line ends that does not end with a line feed alone. -/
inductive LineEnding where
  | carriageReturn
  /-- A carriage return and a line feed. -/
  | both
  deriving DecidableEq, Repr

namespace LineEnding

variable (ending : LineEnding) {text rest : List Char} {c : Char} {count : Nat}

/-- The characters of one line end. -/
def chars : LineEnding → List Char
  | .carriageReturn => ['\r']
  | .both => ['\r', '\n']

/-- The text with its line feeds written in this way. -/
def write (text : List Char) : List Char :=
  text.flatMap fun c => if c = '\n' then ending.chars else [c]

/-- The number of characters with which a text is written. -/
def width (text : List Char) : Nat := (ending.write text).length

@[simp] theorem write_nil : ending.write [] = [] := rfl

theorem write_append (first second : List Char) :
    ending.write (first ++ second) = ending.write first ++ ending.write second :=
  List.flatMap_append

theorem write_feed (rest : List Char) :
    ending.write ('\n' :: rest) = ending.chars ++ ending.write rest := rfl

theorem write_feed_carriageReturn (rest : List Char) :
    carriageReturn.write ('\n' :: rest) = '\r' :: carriageReturn.write rest := rfl

theorem write_feed_both (rest : List Char) :
    both.write ('\n' :: rest) = '\r' :: '\n' :: both.write rest := rfl

theorem write_cons (ne : c ≠ '\n') (rest : List Char) :
    ending.write (c :: rest) = c :: ending.write rest := by
  rw [write, List.flatMap_cons, if_neg ne]
  rfl

theorem write_eq_self (none : '\n' ∉ text) : ending.write text = text := by
  induction text with
  | nil => rfl
  | cons c rest ih =>
      rw [List.mem_cons, not_or] at none
      rw [write_cons _ (Ne.symm none.1), ih none.2]

theorem width_append (first second : List Char) :
    ending.width (first ++ second) = ending.width first + ending.width second := by
  rw [width, write_append, List.length_append]
  rfl

theorem width_cons (ne : c ≠ '\n') (rest : List Char) :
    ending.width (c :: rest) = ending.width rest + 1 := by
  rw [width, write_cons _ ne]
  rfl

theorem width_eq_length (none : '\n' ∉ text) : ending.width text = text.length := by
  rw [width, write_eq_self _ none]

/-- No line feed follows a carriage return that is written alone. -/
theorem head?_write_ne (noReturn : '\r' ∉ text) :
    (carriageReturn.write text).head? ≠ some '\n' := by
  cases text with
  | nil => simp
  | cons c rest =>
      by_cases feed : c = '\n'
      · subst feed
        simp [write_feed, chars]
      · rw [write_cons _ feed]
        simpa using feed

theorem drop_write (text : List Char) (count : Nat) :
    (ending.write text).drop (ending.width (text.take count)) = ending.write (text.drop count) := by
  calc (ending.write text).drop (ending.width (text.take count))
      = (ending.write (text.take count) ++ ending.write (text.drop count)).drop
          (ending.write (text.take count)).length := by
        rw [← write_append, List.take_append_drop, width]
    _ = ending.write (text.drop count) := List.drop_left

theorem take_write (text : List Char) (count : Nat) :
    (ending.write text).take (ending.width (text.take count)) = ending.write (text.take count) := by
  calc (ending.write text).take (ending.width (text.take count))
      = (ending.write (text.take count) ++ ending.write (text.drop count)).take
          (ending.write (text.take count)).length := by
        rw [← write_append, List.take_append_drop, width]
    _ = ending.write (text.take count) := List.take_left

/-- Characters none of which is a line feed keep their number. -/
theorem width_take (inLine : ∀ c ∈ text.take count, isLineEnd c = false)
    (le : count ≤ text.length) : ending.width (text.take count) = count := by
  rw [width_eq_length, List.length_take, Nat.min_eq_left le]
  intro feed
  exact absurd (inLine _ feed) (by decide)

/-- A run of characters that no line end belongs to. -/
theorem takeWhile_write {p : Char → Bool} (feed : p '\n' = false) (returns : p '\r' = false)
    (text : List Char) : (ending.write text).takeWhile p = text.takeWhile p := by
  induction text with
  | nil => rfl
  | cons c rest ih =>
      by_cases ends : c = '\n'
      · subst ends
        rw [write_feed]
        cases ending <;> simp [chars, feed, returns]
      · rw [write_cons _ ends, List.takeWhile_cons, List.takeWhile_cons, ih]

theorem front_write (text : List Char) : Line.front (ending.write text) = Line.front text :=
  ending.takeWhile_write (by decide) (by decide) text

/-- What depends only on the front of the line is the same. -/
theorem confined_write {α : Type} {reader : List Char → α} (h : LineConfined reader)
    (text : List Char) : reader (ending.write text) = reader text := by
  rw [← h, front_write, h]

theorem any_head?_write {p : Char → Bool} (same : p '\r' = p '\n') (text : List Char) :
    (ending.write text).head?.any p = text.head?.any p := by
  cases text with
  | nil => rfl
  | cons c rest =>
      by_cases feed : c = '\n'
      · subst feed
        rw [write_feed]
        cases ending <;> exact same
      · rw [write_cons _ feed]
        rfl

/-! ### Blanks, comments and line ends -/

theorem spaces_write (text : List Char) : spaces (ending.write text) = spaces text :=
  congrArg List.length (ending.takeWhile_write (by decide) (by decide) text)

theorem comment_write (text : List Char) : comment (ending.write text) = comment text :=
  congrArg List.length (ending.front_write text)

/-- A comment is in one line. -/
theorem inLine_comment (text : List Char) : ∀ c ∈ text.take (comment text), isLineEnd c = false := by
  intro c mem
  rw [comment, take_takeWhile_length] at mem
  simpa using List.mem_takeWhile_imp mem

theorem inLine_spaces (text : List Char) : ∀ c ∈ text.take (spaces text), isLineEnd c = false := by
  intro c mem
  rw [spaces, take_takeWhile_length] at mem
  have space := List.mem_takeWhile_imp mem
  rw [isSpace, Bool.or_eq_true, Bool.or_eq_true, decide_eq_true_eq, decide_eq_true_eq,
    decide_eq_true_eq] at space
  rcases space with (rfl | rfl) | rfl <;> decide

theorem typeComment?_write (text : List Char) :
    typeComment? (ending.write text) = typeComment? text := by
  have line : (ending.write text).take (comment (ending.write text)) = text.take (comment text) := by
    rw [comment, comment, take_takeWhile_length, take_takeWhile_length]
    exact ending.front_write text
  unfold typeComment?
  rw [line]

theorem lineBreak_of_inLine (inLine : isLineEnd c = false) (rest : List Char) :
    lineBreak (c :: rest) = 0 := by
  unfold lineBreak
  split
  · rename_i same
    cases same
    exact absurd inLine (by decide)
  · rename_i same
    cases same
    rw [inLine]
    rfl
  · rfl

/-- **One line break is one line break**, of whatever length. -/
theorem lineBreak_write (noReturn : '\r' ∉ text) :
    lineBreak (ending.write text) = ending.width (text.take (lineBreak text)) := by
  cases text with
  | nil => rfl
  | cons c rest =>
      rw [List.mem_cons, not_or] at noReturn
      by_cases feed : c = '\n'
      · subst feed
        have one : lineBreak ('\n' :: rest) = 1 := rfl
        rw [one, write_feed]
        cases ending with
        | both => rfl
        | carriageReturn =>
            have alone := head?_write_ne noReturn.2
            change lineBreak ('\r' :: carriageReturn.write rest) = 1
            generalize carriageReturn.write rest = behind at alone
            cases behind with
            | nil => rfl
            | cons d _ =>
                have other : d ≠ '\n' := by simpa using alone
                simp [lineBreak, other, isLineEnd]
      · have inLine : isLineEnd c = false := by
          simp [isLineEnd, feed, Ne.symm noReturn.1]
        rw [write_cons _ feed, lineBreak_of_inLine inLine, lineBreak_of_inLine inLine]
        rfl

/-! ### Strings -/

/-- A reading of a text beside one of the same text with other line ends: both have the same fault,
or they end at the same place. -/
structure Reads (text : List Char) (one two : Reading) : Prop where
  fault : two.fault = one.fault
  length : one.fault = none → two.length = ending.width (text.take one.length)

variable {ending}

theorem Reads.after {one two : Reading} (front : List Char) (h : ending.Reads rest one two) :
    ending.Reads (front ++ rest) (one.after front.length) (two.after (ending.width front)) := by
  refine ⟨h.fault, fun formed => ?_⟩
  rw [Reading.after, Reading.after, List.take_length_add_append, width_append, h.length formed]

theorem Reads.cons {one two : Reading} (h : ending.Reads rest one two) (feed : c ≠ '\n') :
    ending.Reads (c :: rest) (one.after 1) (two.after 1) := by
  have one := h.after [c]
  rwa [width, write_cons _ feed] at one

theorem Reads.nothing (text : List Char) : ending.Reads text .nothing .nothing := ⟨rfl, fun _ => rfl⟩

/-- A string that is not closed. -/
theorem Reads.faulty {fault : LexicalFault} {length length' : Nat} :
    ending.Reads text ⟨length, some fault⟩ ⟨length', some fault⟩ := ⟨rfl, nofun⟩

/-- Two quotes stand at the front of one text if they do in the other. -/
theorem take_two_write {quote : Char} (ordinary : isLineEnd quote = false) (text : List Char) :
    (ending.write text).take 2 = [quote, quote] ↔ text.take 2 = [quote, quote] := by
  have feed : quote ≠ '\n' := by rintro rfl; cases ordinary
  have returns : quote ≠ '\r' := by rintro rfl; cases ordinary
  have first : ∀ {rest : List Char}, ending.write ('\n' :: rest) = '\r' ::
      (ending.write ('\n' :: rest)).tail := by
    cases ending <;> exact rfl
  match text with
  | [] => simp
  | c :: rest =>
      by_cases newline : c = '\n'
      · subst newline
        rw [first]
        simp [feed.symm, returns.symm]
      · rw [write_cons _ newline]
        match rest with
        | [] => simp
        | d :: rest =>
            by_cases newline' : d = '\n'
            · subst newline'
              rw [first]
              simp [feed.symm, returns.symm]
            · rw [write_cons _ newline']
              simp

/-- A character with a backslash before it, which is not the first of a line break. -/
theorem body_escape {quote : Char} {triple : Bool} (other : c = '\r' → rest.head? ≠ some '\n') :
    Quotation.body quote triple ('\\' :: c :: rest) =
      (Quotation.body quote triple rest).after 2 := by
  rw [Quotation.body]
  rintro behind returns rfl
  exact other returns rfl

/-- **The rest of a string ends at the same place**, also over line breaks. -/
theorem body_reads {quote : Char} (ordinary : isLineEnd quote = false) (triple : Bool)
    (noReturn : '\r' ∉ text) :
    ending.Reads text (Quotation.body quote triple text)
      (Quotation.body quote triple (ending.write text)) := by
  have feed : quote ≠ '\n' := by rintro rfl; cases ordinary
  have returns : quote ≠ '\r' := by rintro rfl; cases ordinary
  fun_induction Quotation.body quote triple text with
  | case1 => exact .faulty
  | case2 rest ih => simp at noReturn
  | case3 c rest other ih =>
      simp only [List.mem_cons, not_or] at noReturn
      obtain ⟨-, notReturn, noReturn⟩ := noReturn
      have behind := (ih noReturn).after ['\\', c]
      rw [write_cons _ (by decide)]
      by_cases newline : c = '\n'
      · subst newline
        cases ending with
        | both => exact behind
        | carriageReturn =>
            rw [write_feed_carriageReturn, body_escape fun _ => head?_write_ne noReturn]
            exact behind
      · rw [width, write_cons _ (by decide), write_cons _ newline] at behind
        rw [write_cons _ newline, body_escape fun same => absurd same.symm notReturn]
        exact behind
  | case4 => exact .faulty
  | case5 c text _ other none broken =>
      -- The string ends with its line, in both texts.
      have plain := Quotation.ne_backslash other none
      simp only [Bool.and_eq_true, Bool.not_eq_true', Bool.or_eq_true, decide_eq_true_eq] at broken
      rcases broken with ⟨single, rfl | rfl⟩
      · cases ending <;> simp only [write_feed_carriageReturn, write_feed_both] <;>
          rw [Quotation.body_cons (by decide)] <;> simpa [single] using .faulty
      · simp at noReturn
  | case6 text single _ other none inLine =>
      rw [write_cons _ feed, Quotation.body_cons (Quotation.ne_backslash other none), if_neg inLine,
        if_pos rfl, if_pos single]
      exact (Reads.nothing text).cons feed
  | case7 text triple three _ other none inLine =>
      rw [write_cons _ feed, Quotation.body_cons (Quotation.ne_backslash other none), if_neg inLine,
        if_pos rfl, if_neg triple, if_pos ((take_two_write ordinary text).2 three)]
      obtain ⟨rest, rfl⟩ : ∃ rest, text = quote :: quote :: rest :=
        ⟨text.drop 2, by rw [← List.take_append_drop 2 text, three]; rfl⟩
      exact (((Reads.nothing rest).cons feed).cons feed).cons feed
  | case8 text triple notThree _ other none inLine ih =>
      rw [List.mem_cons, not_or] at noReturn
      rw [write_cons _ feed, Quotation.body_cons (Quotation.ne_backslash other none), if_neg inLine,
        if_pos rfl, if_neg triple, if_neg (mt (take_two_write ordinary text).1 notThree)]
      exact (ih noReturn.2).cons feed
  | case9 c text _ other none inLine notQuote ih =>
      rw [List.mem_cons, not_or] at noReturn
      have behind := ih noReturn.2
      by_cases newline : c = '\n'
      · -- Only a string in triple quotes goes on.
        subst newline
        have three : triple = true := by simpa using inLine
        have on : ∀ {d : Char} {rest : List Char}, isLineEnd d = true →
            Quotation.body quote triple (d :: rest) = (Quotation.body quote triple rest).after 1 := by
          intro d rest ends
          have plain : d ≠ '\\' := by rintro rfl; cases ends
          have notQuote : d ≠ quote := by rintro rfl; exact absurd ends (by simp [ordinary])
          rw [Quotation.body_cons plain, three, if_neg (by simp), if_neg notQuote]
        have whole := behind.after ['\n']
        cases ending with
        | both =>
            rw [write_feed_both, on (by decide), on (by decide)]
            rw [Reading.after_after]
            exact whole
        | carriageReturn =>
            rw [write_feed_carriageReturn, on (by decide)]
            exact whole
      · rw [write_cons _ newline, Quotation.body_cons (Quotation.ne_backslash other none),
          if_neg inLine, if_neg notQuote]
        exact behind.cons newline

theorem isLineEnd_of_isQuote {quote : Char} (isQuote : Quotation.isQuote quote = true) :
    isLineEnd quote = false := by
  rw [Quotation.isQuote, Bool.or_eq_true, decide_eq_true_eq, decide_eq_true_eq] at isQuote
  rcases isQuote with rfl | rfl <;> decide

/-- A string ends at the same place. -/
theorem quotation_reads {quote : Char} (ordinary : isLineEnd quote = false)
    (noReturn : '\r' ∉ rest) :
    ending.Reads (quote :: rest) (Quotation.read (quote :: rest))
      (Quotation.read (quote :: ending.write rest)) := by
  have feed : quote ≠ '\n' := by rintro rfl; cases ordinary
  unfold Quotation.read
  dsimp only
  by_cases three : rest.take 2 = [quote, quote]
  · rw [if_pos three, if_pos ((take_two_write ordinary rest).2 three)]
    obtain ⟨more, rfl⟩ : ∃ more, rest = quote :: quote :: more :=
      ⟨rest.drop 2, by rw [← List.take_append_drop 2 rest, three]; rfl⟩
    simp only [List.mem_cons, not_or] at noReturn
    have whole : ending.Reads _ _ _ :=
      (body_reads ordinary true noReturn.2.2).after [quote, quote, quote]
    rw [width, write_cons _ feed, write_cons _ feed, write_cons _ feed] at whole
    rw [write_cons _ feed, write_cons _ feed]
    exact whole
  · rw [if_neg three, if_neg (mt (take_two_write ordinary rest).1 three)]
    exact (body_reads ordinary false noReturn).cons feed

/-! ### Tokens at the front of a text -/

/-- A token at the front of a text beside one at the front of the same text with other line ends. -/
structure Stands (ending : LineEnding) (text : List Char) (one two : Lexeme) : Prop where
  kind : two.kind = one.kind
  fault : two.fault = one.fault
  length : one.fault = none → two.length = ending.width (text.take one.length)

theorem Stands.of_reads {one two : Reading} (kind : TokenKind) (h : ending.Reads text one two) :
    ending.Stands text (.ofReading kind one) (.ofReading kind two) :=
  ⟨rfl, h.fault, h.length⟩

/-- A token without line breaks is the same. -/
theorem Stands.of_inLine {lexeme : Lexeme} (le : lexeme.length ≤ text.length)
    (inLine : ∀ c ∈ text.take lexeme.length, isLineEnd c = false) :
    ending.Stands text lexeme lexeme :=
  ⟨rfl, rfl, fun _ => (width_take _ inLine le).symm⟩

theorem word_stands (noReturn : '\r' ∉ text) :
    ending.Stands text (word text) (word (ending.write text)) := by
  obtain ⟨rest, split⟩ : text.takeWhile isNamePart <+: text := List.takeWhile_prefix _
  have inLine : ∀ c ∈ text.takeWhile isNamePart, isLineEnd c = false := fun c mem =>
    isLineEnd_of_isOrdinary (isOrdinary_of_isNamePart (List.mem_takeWhile_imp mem))
  have same := ending.takeWhile_write (p := isNamePart) (isNamePart_of_special (by decide))
    (isNamePart_of_special (by decide)) text
  unfold word
  rw [same]
  generalize text.takeWhile isNamePart = run at *
  subst split
  have noFeed : '\n' ∉ run := fun feed => absurd (inLine _ feed) (by decide)
  rw [write_append, write_eq_self _ noFeed]
  simp only [List.drop_left, any_head?_write ending (p := Quotation.isQuote) rfl]
  have named : ∀ kind, ending.Stands (run ++ rest) ⟨kind, run.length, none⟩
      ⟨kind, run.length, none⟩ := by
    intro kind
    refine .of_inLine (by simp) ?_
    simpa using inLine
  split
  · rename_i string
    cases rest with
    | nil => exact absurd (Bool.and_eq_true_iff.1 string).1 (by decide)
    | cons quote rest =>
        have ordinary := isLineEnd_of_isQuote (Bool.and_eq_true_iff.1 string).1
        have feed : quote ≠ '\n' := by rintro rfl; cases ordinary
        simp only [List.mem_append, List.mem_cons, not_or] at noReturn
        have whole : ending.Reads _ _ _ := (quotation_reads ordinary noReturn.2.2).after run
        rw [width, write_eq_self _ noFeed, ← write_cons _ feed] at whole
        exact .of_reads .string whole
  · split
    · exact named _
    · exact named _

/-- **The same token stands at the front of both texts**; if it is malformed in one, it is so in the
other. -/
theorem read_stands (inLine : isLineEnd c = false) (noReturn : '\r' ∉ rest) :
    ending.Stands (c :: rest) (Lexeme.read (c :: rest)) (Lexeme.read (ending.write (c :: rest))) := by
  have feed : c ≠ '\n' := by rintro rfl; cases inLine
  have returns : c ≠ '\r' := by rintro rfl; cases inLine
  have word : ending.Stands (c :: rest) _ _ := word_stands (by simp [noReturn, returns.symm])
  have starts := ending.confined_write starts_confined (c :: rest)
  have number := ending.confined_write Numeral.read_confined (c :: rest)
  have symbol := ending.confined_write symbol?_confined (c :: rest)
  rw [write_cons _ feed] at word starts number symbol ⊢
  unfold Lexeme.read
  dsimp only
  rw [starts, number, symbol]
  split
  · exact word
  · split
    · exact .of_inLine (Numeral.read_within _) (Numeral.read_ordinary _).inLine
    · split
      · rename_i isQuote
        exact .of_reads .string (quotation_reads (isLineEnd_of_isQuote isQuote) noReturn)
      · split
        · rename_i sign found
          have sits := symbol_sits found
          refine .of_inLine sits.within ?_
          rw [sits.spelled sign.spelling rfl]
          exact spelling_inLine sign
        · refine .of_inLine (Nat.succ_le_succ (Nat.zero_le _)) ?_
          simpa using inLine

/-! ### The scanner -/

section

variable (ending) (text : List Char)

/-- The offset in the text with other line ends that corresponds to one in the text. -/
def offset (count : Nat) : Nat := ending.width (text.take count)

/-- Trivia of the text with other line ends. -/
def trivia (piece : Trivia) : Trivia :=
  ⟨ending.offset text piece.start, ending.offset text piece.stop, piece.kind,
    String.ofList (ending.write piece.text.toList)⟩

/-- A token of the text with other line ends. -/
def token (token : Token) : Token :=
  ⟨ending.offset text token.start, ending.offset text token.stop, token.kind,
    token.value.map fun value => String.ofList (ending.write value.toList),
    token.trivia.map (ending.trivia text)⟩

/-- An error in the text with other line ends. -/
def error (error : SyntaxError) : SyntaxError :=
  { error with position := ending.offset text error.position }

/-- What a step over the text with other line ends comes to. -/
def found : Found → Found
  | .trivia pieces => .trivia (pieces.map (ending.trivia text))
  | .token pieces last => .token (pieces.map (ending.trivia text)) (ending.token text last)
  | .fault cause position => .fault cause (ending.offset text position)

/-- The scanner at the same place of the text with other line ends. -/
def scanner (s : Scanner) : Scanner :=
  { s with
    rest := ending.write s.rest, offset := ending.offset text s.offset,
    pending := s.pending.map (ending.token text), current := ending.token text s.current }

/-- A step over the text with other line ends beside one over the text: both find the same, and
unless that is a fault, both scanners stand at the same place. -/
inductive Echo : Found × Scanner → Found × Scanner → Prop
  | fault {cause : LexicalFault} {position : Nat} {s t : Scanner} :
      Echo (.fault cause position, s) (.fault cause (ending.offset text position), t)
  | same (found : Found) (s : Scanner) :
      Echo (found, s) (ending.found text found, ending.scanner text s)

end

variable {s : Scanner}

theorem offset_add (start more : Nat) : ending.offset text (start + more) =
    ending.offset text start + ending.width ((text.drop start).take more) := by
  rw [offset, List.take_add, width_append]
  rfl

theorem skip_scanner (h : s.Standing text) (count : Nat) :
    (ending.scanner text s).skip (ending.width (s.rest.take count)) =
      ending.scanner text (s.skip count) := by
  unfold Scanner.skip scanner
  dsimp only
  rw [drop_write, offset_add, ← h.rest]

theorem piece_scanner (h : s.Standing text) (kind : TriviaKind) (count : Nat) :
    (ending.scanner text s).piece kind (ending.width (s.rest.take count)) =
      ending.trivia text (s.piece kind count) := by
  unfold Scanner.piece scanner trivia
  dsimp only
  rw [take_write, offset_add, ← h.rest, String.toList_ofList]

theorem lexeme_scanner (h : s.Standing text) (kind : TokenKind) (count : Nat) :
    (ending.scanner text s).lexeme kind (ending.width (s.rest.take count)) =
      ending.token text (s.lexeme kind count) := by
  unfold Scanner.lexeme scanner token
  dsimp only
  rw [take_write, offset_add, ← h.rest]
  split
  · rw [Option.map_some, String.toList_ofList]
    rfl
  · rfl

theorem mark_scanner (kind : TokenKind) :
    (ending.scanner text s).mark kind = ending.token text (s.mark kind) := rfl

theorem Echo.passTrivia (h : s.Standing text) (kind : TriviaKind) {count count' : Nat}
    (same : count' = ending.width (s.rest.take count)) :
    ending.Echo text (s.passTrivia kind count)
      ((ending.scanner text s).passTrivia kind count') := by
  subst same
  unfold Scanner.passTrivia
  rw [skip_scanner h, piece_scanner h]
  exact .same (.trivia [s.piece kind count]) _

theorem Echo.of_eq {found found' : Found} {s s' : Scanner} (same : found' = ending.found text found)
    (same' : s' = ending.scanner text s) : ending.Echo text (found, s) (found', s') := by
  subst same same'
  exact .same found s

theorem Echo.after {result result' : Found × Scanner} (h : ending.Echo text result result')
    (pieces : List Trivia) : ending.Echo text (result.1.after pieces, result.2)
      (result'.1.after (pieces.map (ending.trivia text)), result'.2) := by
  cases h with
  | fault => exact .fault
  | same found s => cases found <;> exact .of_eq (by simp [Found.after, LineEnding.found]) rfl

theorem finish_echo (s : Scanner) :
    ending.Echo text s.finish (ending.scanner text s).finish := by
  have closing : ∀ count, List.replicate count ((ending.scanner text s).mark .dedent) =
      (List.replicate count (s.mark .dedent)).map (ending.token text) := by
    intro count
    rw [List.map_replicate, mark_scanner]
  have last : Token.eof (ending.scanner text s).offset = ending.token text (Token.eof s.offset) := rfl
  unfold Scanner.finish
  rw [last, closing]
  dsimp only
  change ending.Echo text _ (if s.lineHasContent = true then _ else _)
  split
  · exact .of_eq rfl (by simp [scanner])
  · have blocks : (ending.scanner text s).indents.blocks = s.indents.blocks := rfl
    rw [blocks]
    cases List.replicate s.indents.blocks.length (s.mark .dedent) with
    | nil => exact .of_eq rfl rfl
    | cons first more => exact .of_eq rfl (by simp [scanner])

theorem readToken_echo (h : s.Standing text) {c : Char} {rest : List Char} (left : s.rest = c :: rest)
    (inLine : isLineEnd c = false) (noReturn : '\r' ∉ rest) :
    ending.Echo text s.readToken (ending.scanner text s).readToken := by
  have stands : ending.Stands s.rest (Lexeme.read s.rest)
      (Lexeme.read (ending.scanner text s).rest) := by
    change ending.Stands _ _ (Lexeme.read (ending.write s.rest))
    rw [left]
    exact read_stands inLine noReturn
  unfold Scanner.readToken
  dsimp only
  rw [stands.fault]
  cases formed : (Lexeme.read s.rest).fault with
  | some fault => exact .fault
  | none =>
      dsimp only
      rw [stands.kind, stands.length formed, lexeme_scanner h, skip_scanner h]
      exact .of_eq rfl rfl

/-- The end of a logical line, or a line break that ends none. -/
theorem lineBreak_echo (h : s.Standing text) (noReturn : '\r' ∉ s.rest) :
    ending.Echo text
      (if 0 < s.nesting || !s.lineHasContent then s.passTrivia .newline (lineBreak s.rest)
      else (.token [] (s.lexeme .newline (lineBreak s.rest)),
        { s.skip (lineBreak s.rest) with atLineStart := true, lineHasContent := false }))
      (if 0 < s.nesting || !s.lineHasContent then
        (ending.scanner text s).passTrivia .newline (lineBreak (ending.scanner text s).rest)
      else ((.token [] ((ending.scanner text s).lexeme .newline
          (lineBreak (ending.scanner text s).rest))),
        { (ending.scanner text s).skip (lineBreak (ending.scanner text s).rest) with
          atLineStart := true, lineHasContent := false })) := by
  have length : lineBreak (ending.scanner text s).rest =
      ending.width (s.rest.take (lineBreak s.rest)) := lineBreak_write ending noReturn
  split
  · exact .passTrivia h _ length
  · rw [length, lexeme_scanner h, skip_scanner h]
    exact .of_eq rfl rfl

/-- A comment, with or without a type. -/
theorem comment_echo (h : s.Standing text) :
    ending.Echo text (s.passTrivia .comment (comment s.rest))
      ((ending.scanner text s).passTrivia .comment (comment (ending.scanner text s).rest)) := by
  refine .passTrivia h _ ?_
  rw [width_take _ (inLine_comment _) (Scanner.comment_le _)]
  exact comment_write ending s.rest

theorem stepInLine_echo (h : s.Standing text) (noReturn : '\r' ∉ s.rest) :
    ending.Echo text s.stepInLine (ending.scanner text s).stepInLine := by
  have written : (ending.scanner text s).rest = ending.write s.rest := rfl
  have broken : ending.Echo text _ _ := lineBreak_echo h noReturn
  have commented : ending.Echo text _ _ := comment_echo h
  cases left : s.rest with
  | nil =>
      unfold Scanner.stepInLine
      rw [written, left]
      exact finish_echo s
  | cons c rest =>
      by_cases newline : c = '\n'
      · -- Only here do the two texts begin with different characters.
        subst newline
        obtain ⟨behind, left'⟩ : ∃ behind, ending.write ('\n' :: rest) = '\r' :: behind := by
          cases ending <;> exact ⟨_, rfl⟩
        unfold Scanner.stepInLine
        rw [written, left, left'] at broken ⊢
        exact broken
      have left' : (ending.scanner text s).rest = c :: ending.write rest := by
        rw [written, left, write_cons _ newline]
      rw [left, List.mem_cons, not_or] at noReturn
      have inLine : isLineEnd c = false := by
        simp [isLineEnd, newline, Ne.symm noReturn.1]
      unfold Scanner.stepInLine
      simp only [left, left', inLine, any_head?_write ending (p := isLineEnd) rfl]
      rw [← left, ← left']
      by_cases space : isSpace c = true
      · rw [if_pos space, if_pos space]
        refine .passTrivia h _ ?_
        rw [width_take _ (inLine_spaces _) (Scanner.spaces_le _)]
        exact spaces_write ending s.rest
      rw [if_neg space, if_neg space]
      by_cases mark : c = '#'
      · rw [if_pos mark, if_pos mark]
        have same : typeComment? (ending.scanner text s).rest = typeComment? s.rest :=
          typeComment?_write ending s.rest
        rw [same]
        cases typed : typeComment? s.rest with
        | none => exact commented
        | some count =>
            have whole : count = ending.width (s.rest.take count) := by
              rw [Scanner.typeComment?_eq typed,
                width_take _ (inLine_comment _) (Scanner.comment_le _)]
            dsimp only
            change ending.Echo text _ (if s.options.typeComments && s.lineHasContent then _ else _)
            split
            · have token : (ending.scanner text s).lexeme _ _ = _ :=
                lexeme_scanner h .typeComment count
              have behind : (ending.scanner text s).skip _ = _ := skip_scanner h count
              rw [← whole] at token behind
              rw [token, behind]
              exact .of_eq rfl rfl
            · exact commented
      rw [if_neg mark, if_neg mark]
      split
      · refine .passTrivia h _ ?_
        rw [lineBreak_write _ noReturn.2, left, Nat.add_comm 1 (lineBreak rest),
          List.take_succ_cons, width_cons _ newline, Nat.add_comm]
      · exact readToken_echo h left inLine noReturn.2

theorem stepAtIndentation_echo (h : s.Standing text) (noReturn : '\r' ∉ s.rest) (width : Nat) :
    ending.Echo text (s.stepAtIndentation width)
      ((ending.scanner text s).stepAtIndentation width) := by
  have written : (ending.scanner text s).rest = ending.write s.rest := rfl
  have commented : ending.Echo text _ _ := comment_echo h
  cases left : s.rest with
  | nil =>
      unfold Scanner.stepAtIndentation
      rw [written, left]
      exact finish_echo s
  | cons c rest =>
      by_cases newline : c = '\n'
      · subst newline
        obtain ⟨behind, left'⟩ : ∃ behind, ending.write ('\n' :: rest) = '\r' :: behind := by
          cases ending <;> exact ⟨_, rfl⟩
        have broken : ending.Echo text _ _ :=
          .passTrivia h .newline (lineBreak_write _ noReturn)
        unfold Scanner.stepAtIndentation
        rw [written, left, left']
        rw [left, left'] at broken
        exact broken
      have left' : (ending.scanner text s).rest = c :: ending.write rest := by
        rw [written, left, write_cons _ newline]
      have inLine : isLineEnd c = false := by
        rw [left, List.mem_cons, not_or] at noReturn
        simp [isLineEnd, newline, Ne.symm noReturn.1]
      unfold Scanner.stepAtIndentation
      simp only [left, left', inLine]
      rw [← left, ← left']
      by_cases mark : c = '#'
      · rw [if_pos mark, if_pos mark]
        exact commented
      rw [if_neg mark, if_neg mark]
      have same : (ending.scanner text s).indents = s.indents := rfl
      rw [same]
      cases (s.indents.change width).1 with
      | stays => exact stepInLine_echo (s := s.begun width) ⟨h.le, h.rest, h.pending⟩ noReturn
      | opens => exact .of_eq rfl rfl
      | closes count =>
          refine .of_eq rfl ?_
          simp only [scanner, List.map_append, List.map_replicate]
          rfl
      | unmatched => exact .fault

theorem stepAtLineStart_echo (h : s.Standing text) (quiet : s.pending = [])
    (noReturn : '\r' ∉ s.rest) :
    ending.Echo text s.stepAtLineStart (ending.scanner text s).stepAtLineStart := by
  have count : spaces (ending.scanner text s).rest = ending.width (s.rest.take (spaces s.rest)) := by
    rw [width_take _ (inLine_spaces _) (Scanner.spaces_le _)]
    exact spaces_write ending s.rest
  have blanks : (ending.scanner text s).rest.take (spaces (ending.scanner text s).rest) =
      s.rest.take (spaces s.rest) := by
    rw [spaces, spaces, take_takeWhile_length, take_takeWhile_length]
    exact ending.takeWhile_write (by decide) (by decide) s.rest
  have piece : (ending.scanner text s).piece _ _ = _ :=
    piece_scanner h .whitespace (spaces s.rest)
  have behind : (ending.scanner text s).skip _ = _ := skip_scanner h (spaces s.rest)
  have front : (if spaces s.rest = 0 then [] else [s.piece .whitespace (spaces s.rest)]).map
      (ending.trivia text) = if spaces (ending.scanner text s).rest = 0 then []
        else [ending.trivia text (s.piece .whitespace (spaces s.rest))] := by
    rw [show spaces (ending.scanner text s).rest = spaces s.rest from spaces_write ending s.rest]
    split <;> rfl
  have echo : ending.Echo text _ _ := stepAtIndentation_echo
    (h.skip quiet (Scanner.spaces_le s.rest))
    (mt (List.drop_subset _ _ ·) noReturn) (Indentation.width s.options.tabSize
      (s.rest.take (spaces s.rest)))
  rw [← count] at piece behind
  rw [← behind] at echo
  unfold Scanner.stepAtLineStart
  dsimp only
  rw [blanks, piece]
  have after := echo.after (if spaces s.rest = 0 then [] else [s.piece .whitespace (spaces s.rest)])
  rw [front] at after
  exact after

/-- **A step over one text is a step over the other.** -/
theorem step_echo (h : s.Standing text) (quiet : s.pending = []) (noReturn : '\r' ∉ s.rest) :
    ending.Echo text s.step (ending.scanner text s).step := by
  unfold Scanner.step
  change ending.Echo text _ (if s.atLineStart && s.nesting = 0 then _ else _)
  split
  · exact stepAtLineStart_echo h quiet noReturn
  · exact stepInLine_echo h noReturn

/-! ### All tokens -/

/-- What reading a token of the text with other line ends comes to, beside reading one of the text:
both give the same token and leave scanners at the same place, or both give the same error. -/
inductive Delivers (ending : LineEnding) (text : List Char) :
    Except SyntaxError Token × Scanner → Except SyntaxError Token × Scanner → Prop
  | error (error : SyntaxError) (s t : Scanner) :
      Delivers ending text (.error error, s) (.error (ending.error text error), t)
  | ok (token : Token) (s : Scanner) :
      Delivers ending text (.ok token, s) (.ok (ending.token text token), ending.scanner text s)

variable (noReturn : '\r' ∉ text)

include noReturn

theorem readFrom_delivers (h : s.Standing text) (quiet : s.pending = [])
    (pieces : List Trivia) : ending.Delivers text (s.readFrom pieces)
      ((ending.scanner text s).readFrom (pieces.map (ending.trivia text))) := by
  induction left : s.rest.length using Nat.strongRecOn generalizing s pieces with
  | ind left ih =>
      subst left
      have echo : ending.Echo text _ _ := step_echo h quiet
        (h.rest ▸ mt (List.drop_subset _ _ ·) noReturn)
      have passes := Scanner.step_passes h quiet
      rw [Scanner.readFrom_eq, Scanner.readFrom_eq]
      cases stepped : s.step with
      | mk found t =>
          rw [stepped] at echo passes
          generalize (ending.scanner text s).step = result at echo
          cases echo with
          | fault => exact .error ⟨.lexical _, _⟩ _ _
          | same =>
              cases found with
              | fault cause position => exact .error ⟨.lexical cause, position⟩ _ _
              | token more last =>
                  have same : (ending.token text last).withTrivia (pieces.map (ending.trivia text) ++
                      more.map (ending.trivia text)) =
                        ending.token text (last.withTrivia (pieces ++ more)) := by
                    rw [← List.map_append]
                    rfl
                  dsimp only [found]
                  rw [same]
                  exact .ok _ _
              | trivia more =>
                  dsimp only [found]
                  rw [← List.map_append]
                  exact ih _ (Scanner.rest_lt_of_step stepped) passes.standing
                    (passes.quiet more rfl) _ rfl

theorem next_delivers (h : s.Standing text) :
    ending.Delivers text s.next (ending.scanner text s).next := by
  cases kept : s.pending with
  | nil =>
      have kept' : (ending.scanner text s).pending = [] := congrArg (List.map _) kept
      rw [Scanner.next_of_quiet kept, Scanner.next_of_quiet kept']
      exact readFrom_delivers noReturn h kept []
  | cons first pending =>
      have kept' : (ending.scanner text s).pending =
          ending.token text first :: pending.map (ending.token text) := congrArg (List.map _) kept
      unfold Scanner.next
      rw [kept, kept']
      exact .ok _ { s with pending := pending }

/-- **The tokens from the same place on.** -/
theorem tokens_scanner (h : s.Standing text) :
    (ending.scanner text s).tokens = match s.tokens with
      | .ok tokens => .ok (tokens.map (ending.token text))
      | .error error => .error (ending.error text error) := by
  induction s using Scanner.advance_induction with
  | step s ih =>
      have kind : (ending.scanner text s).current.kind = s.current.kind := rfl
      rw [Scanner.tokens_eq (ending.scanner text s), Scanner.tokens_eq s, kind]
      by_cases ended : s.current.kind = .eof
      · rw [if_pos ended, if_pos ended]
        rfl
      have delivers : ending.Delivers text _ _ := next_delivers noReturn h
      rw [if_neg ended, if_neg ended]
      cases found : s.next with
      | mk result t =>
          rw [found] at delivers
          generalize eq : (ending.scanner text s).next = result' at delivers
          cases delivers with
          | error error _ t' =>
              have failed : s.advance = (some error, t) := by
                rw [Scanner.advance, if_neg ended, found]
              have failed' : (ending.scanner text s).advance = (some (ending.error text error), t') := by
                rw [Scanner.advance, kind, if_neg ended, eq]
              rw [failed, failed']
          | ok token _ =>
              have moved : s.advance = (none, { t with current := token }) := by
                rw [Scanner.advance, if_neg ended, found]
              have moved' : (ending.scanner text s).advance =
                  (none, ending.scanner text { t with current := token }) := by
                rw [Scanner.advance, kind, if_neg ended, eq]
                rfl
              have standing := (Scanner.next_covers h found).standing
              rw [moved, moved']
              dsimp only
              rw [ih _ ended moved ⟨standing.le, standing.rest, standing.pending⟩]
              cases Scanner.tokens { t with current := token } <;> rfl

end LineEnding

/-- **The tokens of a text with other line ends** are those of the text, with their offsets and texts
changed as the text is; if the text has an error, so has the other, at the same place. -/
theorem tokenize_write (ending : LineEnding) (options : Options) {text : List Char}
    (noReturn : '\r' ∉ text) :
    tokenize options (ending.write text) = match tokenize options text with
      | .ok tokens => .ok (tokens.map (ending.token text))
      | .error error => .error (ending.error text error) := by
  have standing := Scanner.initial_standing options text
  have delivers : ending.Delivers text _ _ := LineEnding.next_delivers noReturn standing
  have opening : Scanner.initial options (ending.write text) =
      ending.scanner text (Scanner.initial options text) := rfl
  rw [tokenize_eq, tokenize_eq, Scanner.ofText, Scanner.ofText, opening]
  cases found : (Scanner.initial options text).next with
  | mk result t =>
      rw [found] at delivers
      generalize (ending.scanner text (Scanner.initial options text)).next = result' at delivers
      cases delivers with
      | error error _ t' => rfl
      | ok token _ =>
          have kept := (Scanner.next_covers standing found).standing
          exact LineEnding.tokens_scanner (s := { t with current := token }) noReturn
            ⟨kept.le, kept.rest, kept.pending⟩

/-- A string over two lines, and a line that goes on behind a backslash. -/
theorem tokenize_write_string :
    let text := "'''a\nb''' \\\n+ x\n".toList
    ∃ tokens, tokenize {} text = .ok tokens ∧
      tokenize {} "'''a\r\nb''' \\\r\n+ x\r\n".toList =
        .ok (tokens.map (LineEnding.both.token text)) ∧
      tokens.map (fun token => (token.start, token.stop)) =
        [(0, 9), (12, 13), (14, 15), (15, 16), (16, 16)] ∧
      (tokens.map (LineEnding.both.token text)).map (fun token => (token.start, token.stop)) =
        [(0, 10), (14, 15), (16, 17), (17, 19), (19, 19)] := by
  intro text
  obtain ⟨tokens, found, check⟩ : ∃ tokens, tokenize {} text = .ok tokens ∧
      decide (tokens.map (fun token => (token.start, token.stop)) =
          [(0, 9), (12, 13), (14, 15), (15, 16), (16, 16)] ∧
        (tokens.map (LineEnding.both.token text)).map (fun token => (token.start, token.stop)) =
          [(0, 10), (14, 15), (16, 17), (17, 19), (19, 19)]) = true :=
    exists_ok_of_any (by decide +kernel)
  have written := tokenize_write .both {} (show '\r' ∉ text by decide)
  rw [found] at written
  exact ⟨tokens, found, written, of_decide_eq_true check⟩

end PythonSyntax
