/-
**Strings are read up to the quotes that close them.**

A backslash takes away the meaning of the character after it, and of both characters of a line break
written with two.  A place of the text is escaped if such a backslash stands before it; whether it
is can be told from the places before it alone, without reading the string.  A string is closed by
the first quotes that are not escaped, and one in single quotes only if its line does not end before
them.

Main definitions:

* `PythonSyntax.Quotation.escaped` — the places of a text to which a backslash speaks;
* `PythonSyntax.Quotation.Closes` — where a string is closed;
* `PythonSyntax.Quotation.Spans` — how long a string is, from its first quote on.

Main results:

* `PythonSyntax.Quotation.body_settles` — what is read is what is closed;
* `PythonSyntax.Scanner.readToken_quotation` — **strings are recognised exactly**.
-/

import PythonSyntax.Proofs.Lexical.Words

set_option autoImplicit false

namespace PythonSyntax

namespace Quotation

/-! ### Escapes -/

/-- Whether a backslash speaks to the character at a place: one right before it that is not escaped
itself, or one before a line break of two characters, of which this is the second. -/
def escaped (text : List Char) : Nat → Bool
  | 0 => false
  | 1 => text[0]? = some '\\'
  | i + 2 =>
    (text[i + 1]? = some '\\' && !escaped text (i + 1)) ||
      (text[i]? = some '\\' && !escaped text i && text[i + 1]? = some '\r' &&
        text[i + 2]? = some '\n')

theorem getElem?_append_add (unit rest : List Char) (i : Nat) :
    (unit ++ rest)[unit.length + i]? = rest[i]? := by
  rw [List.getElem?_append_right (Nat.le_add_right _ _), Nat.add_sub_cancel_left]

section

variable {unit rest : List Char}

/-- What is escaped behind the first characters does not depend on them if they do not speak to what
follows. -/
theorem escaped_append (here : escaped (unit ++ rest) unit.length = false)
    (next : escaped (unit ++ rest) (unit.length + 1) = escaped rest 1) (i : Nat) :
    escaped (unit ++ rest) (unit.length + i) = escaped rest i := by
  fun_induction escaped rest i with
  | case1 => exact here
  | case2 => exact next
  | case3 i ih ih' =>
      have first := getElem?_append_add unit rest i
      have second := getElem?_append_add unit rest (i + 1)
      have third := getElem?_append_add unit rest (i + 2)
      rw [Nat.succ_eq_add_one, ← Nat.add_assoc, ← Nat.add_assoc, escaped]
      rw [← Nat.add_assoc] at ih second third
      rw [ih, ih', first, second, third]

/-- A character that is no backslash speaks to nothing. -/
theorem escaped_plain {c : Char} (plain : c ≠ '\\') (i : Nat) :
    escaped ([c] ++ rest) ([c].length + i) = escaped rest i := by
  refine escaped_append ?_ ?_ i
  · simp [escaped, plain]
  · simp [escaped, plain]

/-- A backslash and a character speak to nothing behind them, unless this is the first of a line
break of two. -/
theorem escaped_pair {c : Char} (lone : ∀ more, c = '\r' → rest = '\n' :: more → False) (i : Nat) :
    escaped (['\\', c] ++ rest) (['\\', c].length + i) = escaped rest i := by
  have single : c = '\r' → rest[0]? ≠ some '\n' := by
    intro isReturn feed
    cases rest with
    | nil => cases feed
    | cons d more => exact lone more isReturn (by rw [← Option.some.inj feed])
  refine escaped_append ?_ ?_ i
  · simpa [escaped] using single
  · simpa [escaped] using fun _ => Decidable.imp_iff_not_or.1 single

/-- Nor do a backslash and a line break of two characters. -/
theorem escaped_break (i : Nat) :
    escaped (['\\', '\r', '\n'] ++ rest) (['\\', '\r', '\n'].length + i) = escaped rest i := by
  refine escaped_append ?_ ?_ i
  · simp [escaped]
  · simp [escaped]

end

/-! ### Where strings are closed -/

/-- The quotes that close a string. -/
def closing (quote : Char) (triple : Bool) : List Char :=
  if triple then [quote, quote, quote] else [quote]

/-- A string, of which the text behind the quotes that open it is given, is closed at a place: the
first at which the quotes stand that close it, among those that are not escaped.  If it is in single
quotes, its line has not ended before. -/
structure Closes (quote : Char) (triple : Bool) (text : List Char) (stop : Nat) : Prop where
  found : closing quote triple <+: text.drop stop
  plain : escaped text stop = false
  first : ∀ i < stop, escaped text i = false → ¬closing quote triple <+: text.drop i
  inLine : triple = false → ∀ i < stop, escaped text i = false →
    text[i]?.any Lexeme.isLineEnd = false

instance (quote : Char) (triple : Bool) (text : List Char) (stop : Nat) :
    Decidable (Closes quote triple text stop) :=
  decidable_of_iff (closing quote triple <+: text.drop stop ∧ escaped text stop = false ∧
      (∀ i < stop, escaped text i = false → ¬closing quote triple <+: text.drop i) ∧
      (triple = false → ∀ i < stop, escaped text i = false →
        text[i]?.any Lexeme.isLineEnd = false))
    ⟨fun ⟨found, plain, first, inLine⟩ => ⟨found, plain, first, inLine⟩,
      fun ⟨found, plain, first, inLine⟩ => ⟨found, plain, first, inLine⟩⟩

variable {quote : Char} {triple : Bool} {text unit rest : List Char} {stop : Nat}

theorem closing_ne_nil : closing quote triple ≠ [] := by
  cases triple <;> exact List.cons_ne_nil _ _

/-- The quotes that close a string begin with its quote. -/
theorem head_of_closing {c : Char} (found : closing quote triple <+: c :: text) : c = quote := by
  cases triple <;> exact ((List.cons_prefix_cons.1 found).1).symm

/-- Only one place is the first. -/
theorem Closes.unique {other : Nat} (h : Closes quote triple text stop)
    (h' : Closes quote triple text other) : stop = other := by
  rcases Nat.lt_trichotomy stop other with less | same | more
  · exact absurd h.found (h'.first stop less h.plain)
  · exact same
  · exact absurd h'.found (h.first other more h'.plain)

/-- First characters that neither close the string nor end its line, and speak to nothing behind
them, can be passed. -/
theorem closes_append (speaks : ∀ i, escaped (unit ++ rest) (unit.length + i) = escaped rest i)
    (inside : ∀ i < unit.length, escaped (unit ++ rest) i = false →
      ¬closing quote triple <+: (unit ++ rest).drop i ∧
        (triple = false → unit[i]?.any Lexeme.isLineEnd = false)) :
    Closes quote triple (unit ++ rest) stop ↔
      ∃ stop', stop = unit.length + stop' ∧ Closes quote triple rest stop' := by
  have behind : ∀ i, (unit ++ rest).drop (unit.length + i) = rest.drop i := by simp
  constructor
  · intro closes
    obtain ⟨stop', rfl⟩ : ∃ stop', stop = unit.length + stop' := by
      refine Nat.exists_eq_add_of_le (Nat.le_of_not_lt fun within => ?_)
      exact (inside stop within closes.plain).1 closes.found
    refine ⟨stop', rfl, ?_, ?_, fun i less plain => ?_, fun single i less plain => ?_⟩
    · rw [← behind]
      exact closes.found
    · rw [← speaks]
      exact closes.plain
    · rw [← behind]
      exact closes.first _ (Nat.add_lt_add_left less _) (speaks i ▸ plain)
    · rw [← getElem?_append_add unit]
      exact closes.inLine single _ (Nat.add_lt_add_left less _) (speaks i ▸ plain)
  · rintro ⟨stop', rfl, closes⟩
    have further : ∀ {i}, i < unit.length + stop' →
        i < unit.length ∨ ∃ j, j < stop' ∧ i = unit.length + j := by
      intro i less
      refine (Nat.lt_or_ge i unit.length).imp_right fun ge => ?_
      obtain ⟨j, rfl⟩ := Nat.exists_eq_add_of_le ge
      exact ⟨j, Nat.lt_of_add_lt_add_left less, rfl⟩
    refine ⟨?_, ?_, fun i less plain => ?_, fun single i less plain => ?_⟩
    · rw [behind]
      exact closes.found
    · rw [speaks]
      exact closes.plain
    · rcases further less with within | ⟨j, less', rfl⟩
      · exact (inside i within plain).1
      · rw [behind]
        exact closes.first j less' (speaks j ▸ plain)
    · rcases further less with within | ⟨j, less', rfl⟩
      · rw [List.getElem?_append_left within]
        exact (inside i within plain).2 single
      · rw [getElem?_append_add]
        exact closes.inLine single j less' (speaks j ▸ plain)

/-- A character by itself can be passed if it neither closes the string nor ends its line. -/
theorem closes_plain {c : Char} (plain : c ≠ '\\') (open' : ¬closing quote triple <+: c :: rest)
    (inLine : triple = false → Lexeme.isLineEnd c = false) :
    Closes quote triple ([c] ++ rest) stop ↔
      ∃ stop', stop = [c].length + stop' ∧ Closes quote triple rest stop' := by
  refine closes_append (escaped_plain plain) fun i less _ => ?_
  obtain rfl := Nat.lt_one_iff.1 less
  exact ⟨open', inLine⟩

/-- A backslash can be passed with what it speaks to. -/
theorem closes_escape (quotes : isQuote quote = true)
    (speaks : ∀ i, escaped ('\\' :: unit ++ rest) (('\\' :: unit).length + i) = escaped rest i)
    (all : ∀ i < unit.length, escaped ('\\' :: unit ++ rest) (i + 1) = true) :
    Closes quote triple ('\\' :: unit ++ rest) stop ↔
      ∃ stop', stop = ('\\' :: unit).length + stop' ∧ Closes quote triple rest stop' := by
  refine closes_append speaks fun i less plain => ?_
  cases i with
  | zero =>
      refine ⟨fun found => ?_, fun _ => rfl⟩
      rw [← head_of_closing found] at quotes
      exact absurd quotes (by decide)
  | succ i =>
      rw [all i (Nat.lt_of_succ_lt_succ less)] at plain
      cases plain

/-- A reading says where a string is closed, or else that it is not. -/
def Settles (quote : Char) (triple : Bool) (text : List Char) (reading : Reading) : Prop :=
  (∃ stop, Closes quote triple text stop ∧
    reading = ⟨stop + (closing quote triple).length, none⟩) ∨
  (∀ stop, ¬Closes quote triple text stop) ∧
    (reading.fault = some .unterminatedString ∨ reading.fault = some .unterminatedTripleString)

/-- A reading behind characters that can be passed. -/
theorem Settles.after {reading : Reading} (h : Settles quote triple rest reading)
    (passes : ∀ stop, Closes quote triple (unit ++ rest) stop ↔
      ∃ stop', stop = unit.length + stop' ∧ Closes quote triple rest stop') :
    Settles quote triple (unit ++ rest) (reading.after unit.length) := by
  rcases h with ⟨stop, closes, rfl⟩ | ⟨never, fault⟩
  · refine Or.inl ⟨_, (passes _).2 ⟨stop, rfl, closes⟩, ?_⟩
    rw [Reading.after, Nat.add_assoc]
  · refine Or.inr ⟨fun stop closes => ?_, fault⟩
    obtain ⟨stop', -, closes'⟩ := (passes stop).1 closes
    exact never stop' closes'

/-- Nothing is closed where a text ends or where a string in single quotes cannot go on. -/
theorem not_closes (here : ¬closing quote triple <+: text)
    (ends : text.length ≤ 1 ∨ triple = false ∧ text[0]?.any Lexeme.isLineEnd = true) :
    ¬Closes quote triple text stop := by
  intro closes
  cases stop with
  | zero => exact here closes.found
  | succ stop =>
      rcases ends with short | ⟨single, breaks⟩
      · have none : text.drop (stop + 1) = [] := List.drop_eq_nil_of_le (by omega)
        have found := closes.found
        rw [none, List.prefix_nil] at found
        exact closing_ne_nil found
      · rw [closes.inLine single 0 (Nat.succ_pos _) rfl] at breaks
        cases breaks

/-- A string that is closed at once. -/
theorem closes_zero (found : closing quote triple <+: text) : Closes quote triple text 0 :=
  ⟨found, rfl, nofun, nofun⟩

/-- **A string is read up to the quotes that close it**, and it is not well formed if there are
none. -/
theorem body_settles (quotes : isQuote quote = true) (text : List Char) :
    Settles quote triple text (body quote triple text) := by
  have breaks : ∀ {c : Char} {rest : List Char}, Lexeme.isLineEnd c = true →
      ¬closing quote triple <+: c :: rest := by
    intro c rest isEnd found
    rw [head_of_closing found] at isEnd
    rcases Line.isLineEnd_iff.1 isEnd with rfl | rfl <;> exact absurd quotes (by decide)
  fun_induction body quote triple text with
  | case1 =>
      refine Or.inr ⟨fun stop => not_closes ?_ (Or.inl (Nat.zero_le _)), ?_⟩
      · rw [List.prefix_nil]
        exact closing_ne_nil
      · cases triple
        · exact Or.inl rfl
        · exact Or.inr rfl
  | case2 text ih =>
      refine ih.after fun stop => closes_escape quotes escaped_break fun i less => ?_
      obtain rfl | rfl := Nat.le_one_iff_eq_zero_or_eq_one.1 (Nat.le_of_lt_succ less)
      · rfl
      · rfl
  | case3 c text other ih =>
      refine ih.after fun stop => closes_escape quotes (escaped_pair other) fun i less => ?_
      obtain rfl := Nat.lt_one_iff.1 less
      rfl
  | case4 =>
      refine Or.inr ⟨fun stop => not_closes (fun found => ?_) (Or.inl (Nat.le_refl _)), Or.inl rfl⟩
      rw [← head_of_closing found] at quotes
      exact absurd quotes (by decide)
  | case5 c text _ _ _ broken =>
      obtain ⟨single, isEnd⟩ := Bool.and_eq_true_iff.1 broken
      exact Or.inr ⟨fun stop => not_closes (breaks isEnd)
        (Or.inr ⟨by simpa using single, isEnd⟩), Or.inl rfl⟩
  | case6 text single =>
      have single' : triple = false := by simpa using single
      subst single'
      exact Or.inl ⟨0, closes_zero ⟨text, rfl⟩, rfl⟩
  | case7 text notSingle three =>
      have triple' : triple = true := by simpa using notSingle
      subst triple'
      refine Or.inl ⟨0, closes_zero (List.cons_prefix_cons.2 ⟨rfl, ?_⟩), rfl⟩
      rw [← three]
      exact List.take_prefix _ _
  | case8 text notSingle notThree _ other none inLine ih =>
      have triple' : triple = true := by simpa using notSingle
      subst triple'
      refine ih.after fun stop => closes_plain (ne_backslash other none) (fun found => ?_)
        fun single => absurd single.symm Bool.false_ne_true
      exact notThree ((List.prefix_iff_eq_take.1 (List.cons_prefix_cons.1 found).2).symm)
  | case9 c text _ other none inLine notQuote ih =>
      refine ih.after fun stop => closes_plain (ne_backslash other none)
        (fun found => notQuote (head_of_closing found)) fun single => ?_
      subst single
      simpa [Lexeme.isLineEnd] using inLine

/-! ### Whole strings -/

/-- A string, of which the text behind its first quote is given, has a length: it is in triple
quotes if two more of the same sort follow the first. -/
inductive Spans (quote : Char) : List Char → Nat → Prop
  | single {rest : List Char} {stop : Nat} (lone : ¬[quote, quote] <+: rest)
      (closes : Closes quote false rest stop) : Spans quote rest (1 + (stop + 1))
  | triple {rest : List Char} {stop : Nat} (closes : Closes quote true rest stop) :
      Spans quote (quote :: quote :: rest) (3 + (stop + 3))

/-- **A string is read as long as it is**, and it is not well formed if it has no end. -/
theorem read_spans (quotes : isQuote quote = true) (rest : List Char) :
    (∃ length, Spans quote rest length ∧ read (quote :: rest) = ⟨length, none⟩) ∨
      (∀ length, ¬Spans quote rest length) ∧
        ((read (quote :: rest)).fault = some .unterminatedString ∨
          (read (quote :: rest)).fault = some .unterminatedTripleString) := by
  by_cases three : [quote, quote] <+: rest
  · obtain ⟨rest, rfl⟩ := three
    have read_eq : read (quote :: ([quote, quote] ++ rest)) = (body quote true rest).after 3 :=
      if_pos rfl
    rw [read_eq]
    rcases body_settles quotes rest with ⟨stop, closes, eq⟩ | ⟨never, fault⟩
    · exact Or.inl ⟨_, .triple closes, by rw [eq]; rfl⟩
    · refine Or.inr ⟨fun length spans => ?_, fault⟩
      cases spans with
      | single lone => exact lone ⟨rest, rfl⟩
      | triple closes => exact never _ closes
  · have read_eq : read (quote :: rest) = (body quote false rest).after 1 :=
      if_neg fun two => three (List.prefix_iff_eq_take.2 two.symm)
    rw [read_eq]
    rcases body_settles quotes rest with ⟨stop, closes, eq⟩ | ⟨never, fault⟩
    · exact Or.inl ⟨_, .single three closes, by rw [eq]; rfl⟩
    · refine Or.inr ⟨fun length spans => ?_, fault⟩
      cases spans with
      | single _ closes => exact never _ closes
      | triple => exact three ⟨_, rfl⟩

/-- A string has one length. -/
theorem Spans.unique {length other : Nat} (h : Spans quote rest length)
    (h' : Spans quote rest other) : length = other := by
  cases h with
  | single lone closes =>
      cases h' with
      | single _ closes' => rw [closes.unique closes']
      | triple => exact absurd ⟨_, rfl⟩ lone
  | triple closes =>
      cases h' with
      | single lone => exact absurd ⟨_, rfl⟩ lone
      | triple closes' => rw [closes.unique closes']

end Quotation

/-! ### Tokens -/

/-- A string with the word before its quote that belongs to it, if there is one. -/
theorem Lexeme.read_marked {word : List Char} {quote : Char} (rest : List Char)
    (quotes : Quotation.isQuote quote = true) (marked : word = [] ∨ isStringMark word = true) :
    Lexeme.read (word ++ quote :: rest) =
      ofReading .string ((Quotation.read (quote :: rest)).after word.length) := by
  rcases marked with rfl | mark
  · have noName : isNameStart quote = false := by
      rw [Bool.eq_false_iff]
      intro start
      have part := isNamePart_of_isNameStart start
      rw [isNamePart_of_isQuote quotes] at part
      cases part
    have noNumber : Numeral.starts (quote :: rest) = false := by
      rcases Bool.or_eq_true_iff.1 quotes with single | double
      · rw [of_decide_eq_true single]
        rfl
      · rw [of_decide_eq_true double]
        rfl
    rw [List.nil_append, Lexeme.read, if_neg (by simp [noName]), if_neg (by simp [noNumber]),
      if_pos quotes]
    simp [ofReading, Reading.after]
  · exact read_joined mark quotes

/-- **Strings are recognised exactly.**  Where a quote stands, alone or behind a word that belongs
to strings, the token is the string up to the quotes that close it, and without such quotes there is
a fault where the word begins.  Any other name stands for itself before a quote. -/
theorem Scanner.readToken_quotation (s : Scanner) {word rest : List Char} {quote : Char}
    (quotes : Quotation.isQuote quote = true) (begins : s.rest = word ++ quote :: rest) :
    (word = [] ∨ isStringMark word = true →
      (∀ length, Quotation.Spans quote rest length →
        s.readToken =
          (.token [] (.literal s.offset (s.offset + (word.length + length)) .string
              (String.ofList (word ++ (quote :: rest).take length))),
            { s.skip (word.length + length) with lineHasContent := true })) ∧
      ((∀ length, ¬Quotation.Spans quote rest length) →
        ∃ fault t, (fault = .unterminatedString ∨ fault = .unterminatedTripleString) ∧
          s.readToken = (.fault fault s.offset, t))) ∧
    (IsName word → isStringMark word = false →
      ∃ kind, (kind = .name ∨ ∃ keyword, kind = .keyword keyword) ∧
        s.readToken =
          (.token [] (s.lexeme kind word.length),
            { s.skip word.length with lineHasContent := true })) := by
  refine ⟨fun marked => ⟨fun length spans => ?_, fun never => ?_⟩, fun name other => ?_⟩
  · have found := Lexeme.read_marked rest quotes marked
    rcases Quotation.read_spans quotes rest with ⟨length', spans', eq⟩ | ⟨never, -⟩
    · rw [readToken, begins, found, eq, spans.unique spans']
      simp [Lexeme.ofReading, Reading.after, lexeme, Lexeme.carriesText, Token.literal,
        nestingAfter, TokenKind.opens, TokenKind.closes, skip, begins,
        List.take_length_add_append]
    · exact absurd spans (never length)
  · have found := Lexeme.read_marked rest quotes marked
    rcases Quotation.read_spans quotes rest with ⟨length, spans, -⟩ | ⟨-, unterminated⟩
    · exact absurd spans (never length)
    · rw [readToken, begins, found]
      rcases unterminated with fault | fault
      · refine ⟨_, s.skip (word.length + (Quotation.read (quote :: rest)).length), Or.inl rfl, ?_⟩
        simp [Lexeme.ofReading, Reading.after, fault]
      · refine ⟨_, s.skip (word.length + (Quotation.read (quote :: rest)).length), Or.inr rfl, ?_⟩
        simp [Lexeme.ofReading, Reading.after, fault]
  · have ends : Avoids isNamePart (quote :: rest) := Lexeme.isNamePart_of_isQuote quotes
    refine ⟨_, ?_, s.readToken_unjoined name ends (by simp [other]) begins⟩
    cases Keyword.ofSpelling? (String.ofList word) with
    | none => exact Or.inl rfl
    | some keyword => exact Or.inr ⟨keyword, rfl⟩

/-- Two quotes close no string in triple quotes, and neither does one that is escaped; a name before
a quote is no part of a string. -/
theorem Scanner.readToken_quotation_triple :
    (Quotation.Spans '\'' "''a''\\''''+".toList 11 ∧
      (initial {} "Rb'''a''\\''''+".toList).readToken.1 =
        .token [] (.literal 0 13 .string "Rb'''a''\\''''")) ∧
      ∃ kind, (kind = .name ∨ ∃ keyword, kind = .keyword keyword) ∧
        (initial {} "br_''".toList).readToken.1 =
          .token [] ((initial {} "br_''".toList).lexeme kind 3) := by
  have spans : Quotation.Spans '\'' "''a''\\''''+".toList 11 :=
    .triple (by decide : Quotation.Closes '\'' true "a''\\''''+".toList 5)
  have string := readToken_quotation (initial {} "Rb'''a''\\''''+".toList)
    (show Quotation.isQuote '\'' = true by decide) (show _ = ['R', 'b'] ++ _ from rfl)
  have name := readToken_quotation (initial {} "br_''".toList)
    (show Quotation.isQuote '\'' = true by decide) (show _ = ['b', 'r', '_'] ++ _ from rfl)
  refine ⟨⟨spans, ?_⟩, ?_⟩
  · rw [(string.1 (Or.inr (by decide))).1 11 spans]
    rfl
  · obtain ⟨kind, isWord, eq⟩ := name.2 ⟨by decide, List.all_eq_true.1 (by decide)⟩ (by decide)
    exact ⟨kind, isWord, by rw [eq]; rfl⟩

end PythonSyntax
