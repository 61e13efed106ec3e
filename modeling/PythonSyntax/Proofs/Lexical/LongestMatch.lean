/-
**Names and symbols are read as long as they can be.**

The symbols are tried one after the other, and the first with which the text begins is taken.  No
symbol begins with one that is tried before it; so the first is the longest.  A word is as long as
names go on; whether it is reserved is settled behind that, so that no name is a reserved word.  The
brackets that are read are counted on the way, and a bracket that closes nothing does not count.

Main definitions:

* `PythonSyntax.Symbol.IsSpelling` — the texts of symbols;
* `PythonSyntax.Scanner.ReadsSymbol`, `PythonSyntax.Scanner.ReadsWord` — what is read where a symbol
  stands, or a word;
* `PythonSyntax.Token.Unreserved` — a name that is no reserved word.

Main results:

* `PythonSyntax.Symbol.symbol?_of_longest` — the first symbol is the longest;
* `PythonSyntax.Scanner.unreserved_of_path` — no name that is delivered is a reserved word;
* `PythonSyntax.Scanner.reads_longest` — **names and symbols are read as long as they can be**, and
  brackets are counted.
-/

import PythonSyntax.Proofs.Lexical.TokenLaws
import PythonSyntax.Proofs.Lexical.Words
import PythonSyntax.Proofs.Syntax.Nesting

set_option autoImplicit false

namespace PythonSyntax

/-! ### Symbols -/

namespace Symbol

/-- The texts of symbols. -/
def IsSpelling (text : List Char) : Prop := ∃ sign : Symbol, text = sign.spelling.toList

/-- No symbol begins with one that is tried before it. -/
theorem byPriority_pairwise :
    byPriority.Pairwise fun sign later => ¬sign.spelling.toList <+: later.spelling.toList := by
  decide

variable {text : List Char} {sign : Symbol}

/-- Every symbol with which the text begins is found, or one that is tried before it. -/
theorem symbol?_ne_none (initial : sign.spelling.toList <+: text) : Lexeme.symbol? text ≠ none := by
  intro none
  have tried := List.find?_eq_none.1 none sign (mem_byPriority sign)
  exact tried (List.isPrefixOf_iff_prefix.2 initial)

/-- **The first symbol with which the text begins is the longest.** -/
theorem symbol?_of_longest (longest : LongestFront IsSpelling text sign.spelling.toList) :
    Lexeme.symbol? text = some sign := by
  cases found : Lexeme.symbol? text with
  | none => exact absurd found (symbol?_ne_none longest.initial)
  | some first =>
      obtain ⟨holds, before, behind, split, others⟩ := List.find?_eq_some_iff_append.1 found
      have initial : first.spelling.toList <+: text := List.isPrefixOf_iff_prefix.1 holds
      have le := longest.longest _ ⟨first, rfl⟩ initial
      have shorter := List.prefix_of_prefix_length_le initial longest.initial le
      have mem := split ▸ mem_byPriority sign
      have order := split ▸ byPriority_pairwise
      rcases List.mem_append.1 mem with mem | mem
      · have tried := others sign mem
        rw [Bool.not_eq_true', ← Bool.not_eq_true, List.isPrefixOf_iff_prefix] at tried
        exact absurd longest.initial tried
      · rcases List.mem_cons.1 mem with rfl | mem
        · rfl
        · have later := (List.pairwise_cons.1 (List.pairwise_append.1 order).2.1).1 sign mem
          exact absurd shorter later

end Symbol

namespace Scanner

variable {s t : Scanner} {text : List Char}

/-- What is read where a symbol may stand: the longest symbol with which the text begins, or else
one character that is no token. -/
structure ReadsSymbol (s : Scanner) : Prop where
  longest : ∀ sign : Symbol,
    LongestFront Symbol.IsSpelling s.rest sign.spelling.toList →
      s.readToken =
        (.token [] (.mark s.offset (s.offset + sign.spelling.length) (.symbol sign)),
          { s.skip sign.spelling.length with
            nesting := depthBehind s.nesting (.symbol sign), lineHasContent := true })
  invalid : (∀ sign : Symbol, ¬sign.spelling.toList <+: s.rest) →
    s.readToken =
      (.token [] (.literal s.offset (s.offset + 1) .invalid (String.ofList (s.rest.take 1))),
        { s.skip 1 with lineHasContent := true })
  only : ∀ (pieces : List Trivia) (token : Token) (t : Scanner),
    s.readToken = (.token pieces token, t) → token.kind = .invalid →
      ∀ sign : Symbol, ¬sign.spelling.toList <+: s.rest

/-- **The longest symbol is read** where nothing else begins. -/
theorem readsSymbol {c : Char} {rest : List Char} (front : s.rest = c :: rest)
    (noName : isNameStart c = false) (noNumber : Numeral.starts s.rest = false)
    (noQuote : Quotation.isQuote c = false) : s.ReadsSymbol := by
  have found : Lexeme.read s.rest =
      (Lexeme.symbol? s.rest).elim ⟨.invalid, 1, none⟩
        fun sign => ⟨.symbol sign, sign.spelling.length, none⟩ := by
    rw [front] at noNumber ⊢
    rw [Lexeme.read, if_neg (by simp [noName]), if_neg (by simp [noNumber]),
      if_neg (by simp [noQuote])]
    cases Lexeme.symbol? (c :: rest) <;> rfl
  refine ⟨fun sign longest => ?_, fun none => ?_, fun pieces token t read invalid sign => ?_⟩
  · rw [Symbol.symbol?_of_longest longest] at found
    rw [readToken, found, ← nestingAfter_eq]
    rfl
  · have absent : Lexeme.symbol? s.rest = Option.none :=
      List.find?_eq_none.2 fun sign _ holds => none sign (List.isPrefixOf_iff_prefix.1 holds)
    rw [absent] at found
    rw [readToken, found]
    rfl
  · intro initial
    cases first : Lexeme.symbol? s.rest with
    | none => exact Symbol.symbol?_ne_none initial first
    | some other =>
        rw [first] at found
        rw [readToken, found] at read
        cases read
        cases invalid

/-! ### Words -/

/-- A name that is read, and the scanner behind it. -/
def named (s : Scanner) (word : List Char) : Found × Scanner :=
  (.token [] (.literal s.offset (s.offset + word.length) .name (String.ofList word)),
    { s.skip word.length with lineHasContent := true })

/-- What is read where a word stands: a reserved word if it is written so, and otherwise a name.
The words that only some places reserve are names. -/
structure ReadsWord (s : Scanner) (word : List Char) : Prop where
  reserved : ∀ keyword : Keyword, keyword.spelling = String.ofList word →
    s.readToken =
      (.token [] (.mark s.offset (s.offset + word.length) (.keyword keyword)),
        { s.skip word.length with lineHasContent := true })
  name : (∀ keyword : Keyword, keyword.spelling ≠ String.ofList word) →
    s.readToken = s.named word
  soft : String.ofList word ∈ ["match", "case", "_"] → s.readToken = s.named word

/-- Behind the longest run of characters of a class stands none of the class. -/
theorem avoids_of_longest {p : Char → Bool} {front rest : List Char}
    (longest : LongestFront (fun front => ∀ c ∈ front, p c = true) (front ++ rest) front) :
    Avoids p rest := by
  cases rest with
  | nil => rfl
  | cons c rest =>
      rw [Avoids, Bool.eq_false_iff]
      intro further
      have longer := longest.longest (front ++ [c])
        (by simpa [or_imp, forall_and] using ⟨longest.holds, further⟩) ⟨rest, by simp⟩
      rw [List.length_append] at longer
      exact Nat.not_succ_le_self _ longer

/-- **The longest word is read** where a name begins and no string. -/
theorem readsWord {word : List Char} (begins : s.rest.head?.any isNameStart = true)
    (longest : LongestFront (fun front => ∀ c ∈ front, isNamePart c = true) s.rest word)
    (apart : ((s.rest.drop word.length).head?.any Quotation.isQuote && isStringMark word) = false) :
    s.ReadsWord word := by
  obtain ⟨rest, split⟩ := longest.initial
  have ends : Avoids isNamePart rest := avoids_of_longest (split ▸ longest)
  have name : IsName word := by
    refine ⟨?_, longest.holds⟩
    cases word with
    | cons c more => rwa [← split] at begins
    | nil =>
        have none : Avoids isNameStart rest := ends.mono fun _ => Lexeme.isNamePart_of_isNameStart
        rw [← split, List.nil_append, none] at begins
        cases begins
  rw [← split, List.drop_left] at apart
  have found := s.readToken_unjoined name ends apart split.symm
  have front : s.rest.take word.length = word := by rw [← split, List.take_left]
  have plain : (∀ keyword : Keyword, keyword.spelling ≠ String.ofList word) →
      s.readToken = s.named word := by
    intro other
    have none : Keyword.ofSpelling? (String.ofList word) = Option.none :=
      Option.eq_none_iff_forall_ne_some.2 fun keyword spelled =>
        other keyword (Keyword.ofSpelling?_eq_some_iff.1 spelled)
    rw [none] at found
    rw [found, named]
    simp [lexeme, Lexeme.carriesText, Token.literal, front]
  refine ⟨fun keyword spelled => ?_, plain, fun soft => plain fun keyword => ?_⟩
  · rw [Keyword.ofSpelling?_eq_some_iff.2 spelled] at found
    exact found
  · have others : ∀ text ∈ ["match", "case", "_"], ∀ keyword ∈ Keyword.all,
        keyword.spelling ≠ text := by
      decide
    exact others _ soft keyword keyword.mem_all

end Scanner

/-! ### Tokens -/

/-- If the token is a name, it is no reserved word. -/
def Token.Unreserved (token : Token) : Prop :=
  token.kind = .name → ∀ keyword : Keyword, token.value ≠ some keyword.spelling

/-- A text that is read as a name is no reserved word. -/
theorem Lexeme.read_unreserved {text : List Char} (name : (Lexeme.read text).kind = .name)
    (keyword : Keyword) :
    keyword.spelling ≠ String.ofList (text.take (Lexeme.read text).length) := by
  cases text with
  | nil => cases name
  | cons c rest =>
      unfold Lexeme.read at name ⊢
      dsimp only at name ⊢
      split at name
      · rename_i start
        rw [if_pos start]
        unfold Lexeme.word at name ⊢
        dsimp only at name ⊢
        split at name
        · cases name
        · rename_i apart
          rw [if_neg apart]
          split at name
          · cases name
          · rename_i absent
            dsimp only
            rw [take_takeWhile_length]
            intro spelled
            cases absent.symm.trans (Keyword.ofSpelling?_eq_some_iff.2 spelled)
      · repeat' split at name
        all_goals cases name

namespace Scanner

variable {s t : Scanner} {text : List Char}

/-- Only a name has to be no reserved word, and a name is read off a text. -/
theorem unreserved_law : TokenLaw Token.Unreserved where
  layout marks name := by
    rw [name] at marks
    cases marks
  typeComment typed name := nomatch typed.symm.trans name
  reads := by
    intro s c rest front inLine formed name keyword
    change (Lexeme.read s.rest).kind = .name at name
    have other := Lexeme.read_unreserved name keyword
    simp only [lexeme, name, Lexeme.carriesText, if_true]
    exact fun same => other (Option.some.inj same).symm
  withTrivia _ unreserved := unreserved

/-- **No name that is delivered is a reserved word.** -/
theorem unreserved_of_path {options : Options} {tokens : List Token}
    (opened : ofText options text = .ok s) (path : Path s tokens t) :
    ∀ token ∈ tokens ++ [t.current], token.Unreserved := unreserved_law.of_path opened path

/-- The scanner counts the brackets of the tokens that are passed. -/
theorem Ready.nesting_of_path {depth : Nat} {tokens : List Token} (h : s.Ready)
    (path : Path s tokens t) (level : s.nesting = nestingAfter depth s.current.kind) :
    t.nesting = nestingAfter (nestAll depth tokens) t.current.kind := by
  induction path generalizing depth with
  | nil => exact level
  | @cons s next t token tokens here moved rest ih =>
      have here : s.current = token := here
      rw [nestAll_cons, ← here, ← level]
      by_cases ended : s.current.kind = .eof
      · cases (advance_of_eof ended).symm.trans moved
        refine ih h ?_
        rw [ended]
        rfl
      · have steps := advance_steps h ended moved
        exact ih steps.ready steps.nests

/-- The scanner counts the brackets of the tokens that have been delivered. -/
theorem nesting_of_path {options : Options} {tokens : List Token}
    (opened : ofText options text = .ok s) (path : Path s tokens t) :
    t.nesting = nestAll 0 (tokens ++ [t.current]) := by
  have steps := ofText_steps opened
  rw [nestAll_concat]
  exact steps.ready.nesting_of_path path steps.nests

/-- **Names and symbols are read as long as they can be.**  Where neither a name nor a number nor a
string begins, the longest symbol is read, and a character that is no token if there is none.  Where
a name begins, and no string, the longest run of characters of names is read, as a reserved word if
it is one.  So no name that is delivered is a reserved word; and the brackets of the tokens that have
been delivered are counted. -/
theorem reads_longest :
    (∀ (s : Scanner) (c : Char) (rest : List Char), s.rest = c :: rest →
      isNameStart c = false → Numeral.starts s.rest = false → Quotation.isQuote c = false →
        s.ReadsSymbol) ∧
    (∀ (s : Scanner) (word : List Char), s.rest.head?.any isNameStart = true →
      LongestFront (fun front => ∀ c ∈ front, isNamePart c = true) s.rest word →
      ((s.rest.drop word.length).head?.any Quotation.isQuote && isStringMark word) = false →
        s.ReadsWord word) ∧
    ∀ (options : Options) (text : List Char) (s t : Scanner) (tokens : List Token),
      ofText options text = .ok s → Path s tokens t →
        (∀ token ∈ tokens ++ [t.current], token.Unreserved) ∧
          t.nesting = nestAll 0 (tokens ++ [t.current]) :=
  ⟨fun _ _ _ front noName noNumber noQuote => readsSymbol front noName noNumber noQuote,
    fun _ _ begins longest apart => readsWord begins longest apart,
    fun _ _ _ _ _ opened path => ⟨unreserved_of_path opened path, nesting_of_path opened path⟩⟩

/-- A symbol that is the longest of three, a word that begins with a reserved one, and a bracket
that closes nothing. -/
theorem reads_longest_words :
    (initial {} "//==".toList).readToken.1 = .token [] (.mark 0 3 (.symbol .floorDivAssign)) ∧
      (initial {} "is_(".toList).readToken = (initial {} "is_(".toList).named "is_".toList ∧
        ∃ s tokens t, ofText {} "match)(".toList = .ok s ∧ Path s tokens t ∧
          t.nesting = nestAll 0 (tokens ++ [t.current]) ∧ t.nesting = 1 := by
  refine ⟨?_, ?_, ?_⟩
  · have reads := reads_longest.1 (initial {} "//==".toList) '/' "/==".toList rfl (by decide)
      (by decide) (by decide)
    have longest : LongestFront Symbol.IsSpelling "//==".toList "//=".toList :=
      ⟨⟨.floorDivAssign, rfl⟩, ⟨['='], rfl⟩, by
        rintro _ ⟨sign, rfl⟩ -
        cases sign <;> decide⟩
    rw [reads.longest .floorDivAssign longest]
    rfl
  · have longest := LongestFront.takeWhile isNamePart "is_(".toList
    have run : "is_(".toList.takeWhile isNamePart = "is_".toList := by decide
    rw [run] at longest
    have reads := reads_longest.2.1 (initial {} "is_(".toList) "is_".toList (by decide) longest
      (by decide)
    exact reads.name fun keyword => by cases keyword <;> decide
  · have path := fun s t => reads_longest.2.2 {} "match)(".toList s t
    refine ⟨_, _, _, rfl, .cons rfl rfl (.cons rfl rfl (.nil _)), ?_, rfl⟩
    exact (path _ _ _ rfl (.cons rfl rfl (.cons rfl rfl (.nil _)))).2

end Scanner

end PythonSyntax
