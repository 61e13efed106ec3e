/-
**The offside rule.**

A text is read line by line.  Lines of blanks and comments are passed.  The next line is compared
with the open blocks: how far the blanks at its front lead says which blocks begin or end there, and
the marks of these come before the first token of the line.  Then come tokens up to the end of the
line; a line break between them is passed within brackets only.  A line that begins with a backslash
and a line break is compared as well, even if nothing else stands on it.

Main definitions:

* `PythonSyntax.Indented` — the first line to be compared begins with some blanks;
* `PythonSyntax.Indentation.Change.marks?` — the marks of what a line does to the open blocks;
* `PythonSyntax.Offside` — how the tokens of a text follow from its lines.

Main results:

* `PythonSyntax.Indented.unique`, `PythonSyntax.Bare.not_indented` — one line is compared first, or
  none;
* `PythonSyntax.Scanner.Fresh.marks` — at the start of a line the marks come that are due;
* `PythonSyntax.tokenize_offside` — **the tokens of a text follow the offside rule**.
-/

import PythonSyntax.Proofs.Lexical.LogicalLines
import PythonSyntax.Proofs.Lexical.NeutralEdits

set_option autoImplicit false

namespace PythonSyntax

open Lexeme

/-! ### Lines of a text -/

/-- Nothing but blanks and a comment. -/
def IsIdle (line : List Char) : Prop := line = [] ∨ IsIdleLine line

theorem isIdle_blanks {blanks : List Char} (blank : ∀ c ∈ blanks, isSpace c = true) :
    IsIdle blanks :=
  or_iff_not_imp_left.2 fun some =>
    ⟨some, blanks, [], (List.append_nil blanks).symm, blank, Or.inl rfl⟩

theorem isIdle_comment {blanks body : List Char} (blank : ∀ c ∈ blanks, isSpace c = true)
    (inLine : ∀ c ∈ body, isLineEnd c = false) : IsIdle (blanks ++ '#' :: body) :=
  Or.inr ⟨by simp, blanks, '#' :: body, rfl, blank, Or.inr ⟨body, rfl, inLine⟩⟩

/-- Lines that hold no token. -/
inductive IdleLines : List Char → Prop
  | nil : IdleLines []
  | line {line rest : List Char} {c : Char} (idle : IsIdle line) (ends : isLineEnd c = true)
      (more : IdleLines rest) : IdleLines (line ++ c :: rest)

/-- Behind lines that hold no token, the text is as said. -/
def AfterIdle (Rest : List Char → Prop) (text : List Char) : Prop :=
  ∃ idle rest, text = idle ++ rest ∧ IdleLines idle ∧ Rest rest

theorem AfterIdle.mono {Rest Rest' : List Char → Prop} {text : List Char}
    (h : AfterIdle Rest text) (le : ∀ rest, Rest rest → Rest' rest) : AfterIdle Rest' text := by
  obtain ⟨idle, rest, split, idles, holds⟩ := h
  exact ⟨idle, rest, split, idles, le rest holds⟩

/-- An idle line with its end may stand in front. -/
theorem AfterIdle.line {Rest : List Char → Prop} {line rest : List Char} {c : Char}
    (idle : IsIdle line) (ends : isLineEnd c = true)
    (h : AfterIdle Rest ((c :: rest).drop (lineBreak (c :: rest)))) :
    AfterIdle Rest (line ++ c :: rest) := by
  obtain ⟨lines, behind, split, idles, holds⟩ := h
  rcases lineBreak_cases ends rest with ⟨more, rfl, rfl⟩ | ⟨-, one⟩
  · have split : more = lines ++ behind := split
    exact ⟨line ++ '\r' :: ([] ++ '\n' :: lines), behind, by simp [split],
      .line idle rfl (.line (Or.inl rfl) rfl idles), holds⟩
  · rw [one] at split
    have split : rest = lines ++ behind := split
    exact ⟨line ++ c :: lines, behind, by simp [split], .line idle ends idles, holds⟩

/-- No line of the text holds more than blanks and a comment. -/
def Bare : List Char → Prop := AfterIdle IsIdle

/-- The text begins with the blanks, and then with neither a comment nor the end of a line. -/
def Compared (blanks text : List Char) : Prop :=
  ∃ c rest, text = blanks ++ c :: rest ∧ (∀ c ∈ blanks, isSpace c = true) ∧
    isSpace c = false ∧ c ≠ '#' ∧ isLineEnd c = false

/-- The text begins with the blanks, and then with a backslash and the end of a line. -/
def Continued (blanks text : List Char) : Prop :=
  ∃ c rest, text = blanks ++ '\\' :: c :: rest ∧ (∀ c ∈ blanks, isSpace c = true) ∧
    isLineEnd c = true

/-- The first line of the text that holds more than blanks and a comment begins with the blanks. -/
def Indented (blanks : List Char) : List Char → Prop := AfterIdle (Compared blanks)

section Unique

variable {p : Char → Bool} {front front' rest rest' blanks blanks' line text : List Char}
  {c c' : Char}

/-- Where a run of some characters ends, only one split of a text is possible. -/
theorem eq_of_runs (run : ∀ c ∈ front, p c = true) (run' : ∀ c ∈ front', p c = true)
    (stop : p c = false) (stop' : p c' = false)
    (same : front ++ c :: rest = front' ++ c' :: rest') :
    front = front' ∧ c :: rest = c' :: rest' := by
  have taken : (front ++ c :: rest).takeWhile p = front := by
    rw [List.takeWhile_append_of_pos run, List.takeWhile_cons_of_neg (by simp [stop]),
      List.append_nil]
  have taken' : (front' ++ c' :: rest').takeWhile p = front' := by
    rw [List.takeWhile_append_of_pos run', List.takeWhile_cons_of_neg (by simp [stop']),
      List.append_nil]
  obtain rfl : front = front' := taken.symm.trans (same ▸ taken')
  exact ⟨rfl, List.append_cancel_left same⟩

theorem IsIdle.exists_blanks (h : IsIdle line) : ∃ blanks comment, line = blanks ++ comment ∧
    (∀ c ∈ blanks, isSpace c = true) ∧
    (comment = [] ∨ ∃ body, comment = '#' :: body ∧ ∀ c ∈ body, isLineEnd c = false) := by
  rcases h with rfl | ⟨-, split⟩
  · exact ⟨[], [], rfl, by simp, Or.inl rfl⟩
  · exact split

theorem isLineEnd_of_isSpace (blank : isSpace c = true) : isLineEnd c = false := by
  simp only [isSpace, Bool.or_eq_true, decide_eq_true_eq] at blank
  rcases blank with (rfl | rfl) | rfl <;> rfl

theorem IsIdle.inLine (h : IsIdle line) : ∀ c ∈ line, (!isLineEnd c) = true := by
  obtain ⟨blanks, comment, rfl, blank, shape⟩ := h.exists_blanks
  intro c mem
  rcases List.mem_append.1 mem with mem | mem
  · simp [isLineEnd_of_isSpace (blank c mem)]
  · rcases shape with rfl | ⟨body, rfl, inLine⟩
    · cases mem
    · rcases List.mem_cons.1 mem with rfl | mem
      · rfl
      · simp [inLine c mem]

/-- Where the text is as said, no idle line stands in front of it. -/
def NoneIdle (Rest : List Char → Prop) : Prop :=
  ∀ {line rest : List Char} {c : Char}, IsIdle line → isLineEnd c = true → ¬Rest (line ++ c :: rest)

/-- Only one number of idle lines can be passed. -/
theorem AfterIdle.both {Rest Rest' : List Char → Prop} (h : AfterIdle Rest text)
    (h' : AfterIdle Rest' text) (none : NoneIdle Rest) (none' : NoneIdle Rest') :
    ∃ rest, Rest rest ∧ Rest' rest := by
  obtain ⟨lines, rest, rfl, idles, holds⟩ := h
  obtain ⟨lines', rest', same, idles', holds'⟩ := h'
  induction idles generalizing lines' with
  | nil =>
      cases idles' with
      | nil =>
          obtain rfl : rest = rest' := same
          exact ⟨rest, holds, holds'⟩
      | line idle ends more =>
          have same : rest = _ := same.trans (List.append_assoc _ _ _)
          exact absurd (same ▸ holds) (none idle ends)
  | line idle ends more ih =>
      have same := (List.append_assoc _ _ _).symm.trans same
      cases idles' with
      | nil =>
          have same : _ = rest' := same
          exact absurd (same ▸ holds') (none' idle ends)
      | line idle' ends' more' =>
          have same := same.trans (List.append_assoc _ _ _)
          obtain ⟨-, behind⟩ := eq_of_runs idle.inLine idle'.inLine (by simp [ends])
            (by simp [ends']) same
          exact ih _ (List.cons.inj behind).2 more'

theorem Compared.not_idle (h : Compared blanks text) : ¬IsIdle text := by
  obtain ⟨c, rest, rfl, blank, notBlank, notComment, notEnd⟩ := h
  intro idle
  obtain ⟨blanks', comment, same, blank', rfl | ⟨body, rfl, -⟩⟩ := idle.exists_blanks
  · have mem : c ∈ blanks' ++ [] := same ▸ by simp
    simp [blank' c (by simpa using mem)] at notBlank
  · obtain ⟨-, behind⟩ := eq_of_runs blank blank' notBlank rfl same
    exact notComment (List.cons.inj behind).1

theorem compared_noneIdle (blanks : List Char) : NoneIdle (Compared blanks) := by
  rintro line rest c idle ends ⟨d, more, same, blank, notBlank, notComment, notEnd⟩
  have other : isSpace c = false := by
    by_contra isBlank
    rw [isLineEnd_of_isSpace (by simpa using isBlank)] at ends
    cases ends
  obtain ⟨blanks', comment, rfl, blank', rfl | ⟨body, rfl, -⟩⟩ := idle.exists_blanks
  · rw [List.append_nil] at same
    obtain ⟨-, behind⟩ := eq_of_runs blank' blank other notBlank same
    rw [← (List.cons.inj behind).1, ends] at notEnd
    cases notEnd
  · rw [List.append_assoc] at same
    obtain ⟨-, behind⟩ := eq_of_runs blank' blank rfl notBlank same
    exact notComment (List.cons.inj behind).1.symm

theorem isIdle_noneIdle : NoneIdle IsIdle := by
  intro line rest c _ ends whole
  have inLine := whole.inLine c (by simp)
  simp [ends] at inLine

/-- **One line is compared first.** -/
theorem Indented.unique (h : Indented blanks text) (h' : Indented blanks' text) :
    blanks = blanks' := by
  obtain ⟨_, ⟨c, rest, rfl, blank, notBlank, -⟩, c', rest', same, blank', notBlank', -⟩ :=
    h.both h' (compared_noneIdle blanks) (compared_noneIdle blanks')
  exact (eq_of_runs blank blank' notBlank notBlank' same).1

/-- **Where a line is compared, the text is not bare.** -/
theorem Bare.not_indented (h : Bare text) : ¬Indented blanks text := by
  intro indented
  obtain ⟨_, idle, compared⟩ := h.both indented isIdle_noneIdle (compared_noneIdle blanks)
  exact compared.not_idle idle

end Unique

/-- The kinds of the marks for what a line does to the open blocks.  There are none for a line that
is indented like none of them. -/
def Indentation.Change.marks? : Indentation.Change → Option (List TokenKind)
  | .stays => some []
  | .opens => some [.indent]
  | .closes count => some (List.replicate count .dedent)
  | .unmatched => none

theorem Indentation.Change.marks?_closes {count : Nat} {token mark : Token} (pos : 0 < count)
    (first : token.kind = .dedent) (others : mark.kind = .dedent) :
    (Indentation.Change.closes count).marks? =
      some ((token :: List.replicate (count - 1) mark).map Token.kind) := by
  rw [List.map_cons, List.map_replicate, first, others]
  exact congrArg some (congrArg (List.replicate · _) (Nat.sub_add_cancel pos).symm)

/-- **The offside rule**: how the tokens follow from the lines of the text where some blocks are
open. -/
inductive Offside (tab : Nat) : List Nat → List Char → List Token → Prop
  /-- A line begins with the marks that are due, and goes on to its end.  Its first token stands
  right behind the blanks that are compared, unless the line is continued there. -/
  | line {blocks : List Nat} {text blanks rest : List Char} {marks tokens more : List Token}
      {first last : Token} (indented : Indented blanks text)
      (marked : (Indentation.change blocks (Indentation.width tab blanks)).1.marks? =
        some (marks.map Token.kind))
      (stands : AfterIdle (Continued blanks) text ∨
        ∃ idle, IdleLines idle ∧ writtenOf marks ++ first.lead = idle ++ blanks)
      (plain : first.kind.isLayout = false)
      (goesOn : LineFrom (Scanner.nestingAfter 0 first.kind) tokens last)
      (written : text = writtenOf (marks ++ first :: (tokens ++ [last])) ++ rest)
      (later : Offside tab (Indentation.change blocks (Indentation.width tab blanks)).2 rest more) :
      Offside tab blocks text (marks ++ first :: (tokens ++ [last]) ++ more)
  /-- The marks are due as well if the line is continued there and no token follows. -/
  | tokenless {blocks : List Nat} {text blanks : List Char} {marks more : List Token}
      (continued : AfterIdle (Continued blanks) text)
      (marked : (Indentation.change blocks (Indentation.width tab blanks)).1.marks? =
        some (marks.map Token.kind))
      (closes : Closes (Indentation.change blocks (Indentation.width tab blanks)).2.length more) :
      Offside tab blocks text (marks ++ more)
  /-- Where nothing is to be compared, all blocks end. -/
  | ends {blocks : List Nat} {text : List Char} {tokens : List Token} (bare : Bare text)
      (closes : Closes blocks.length tokens) : Offside tab blocks text tokens

namespace Scanner

variable {s t u : Scanner} {token : Token} {tokens more : List Token} {text : List Char}

/-! ### The start of a line -/

/-- Lines that hold no token are passed, and the blocks stay as they are. -/
structure Skips (s u : Scanner) : Prop where
  idles : Idles s u
  fresh : u.Fresh

theorem Skips.trans (h : Skips s t) (later : Skips t u) : Skips s u :=
  ⟨h.idles.trans later.idles, later.fresh⟩

theorem Fresh.settled (h : s.Fresh) : s.Settled :=
  .of_quiet h.quiet (fun _ => h.content) fun _ => Or.inl h.outside

/-- A step at the start of a line passes blanks, and what follows them if it is trivia. -/
theorem Fresh.skips {blanks rest : List Char} {c : Char} {kind : TriviaKind} {count : Nat}
    (h : s.Fresh) (left : s.rest = blanks ++ c :: rest) (blank : ∀ c ∈ blanks, isSpace c = true)
    (notBlank : isSpace c = false)
    (passed : (s.skip blanks.length).stepAtIndentation s.indentation =
      (s.skip blanks.length).passTrivia kind count) :
    ∃ u, Skips s u ∧ u.rest = (c :: rest).drop count ∧ u.rest.length < s.rest.length := by
  obtain ⟨pieces, u, stepped, beside⟩ := h.step_of_blanks left blank notBlank passed
  exact ⟨u, ⟨.step stepped (.refl u), beside.fresh (h.withRest _)⟩,
    beside.rest.trans (List.append_nil _), rest_lt_of_step stepped⟩

/-- The end of a line behind blanks is passed. -/
theorem Fresh.skips_lineEnd {blanks rest : List Char} {c : Char} (h : s.Fresh)
    (left : s.rest = blanks ++ c :: rest) (blank : ∀ c ∈ blanks, isSpace c = true)
    (ends : isLineEnd c = true) :
    ∃ u, Skips s u ∧ u.rest = (c :: rest).drop (lineBreak (c :: rest)) ∧
      u.rest.length < s.rest.length := by
  have front : (s.skip blanks.length).rest = c :: rest := by
    change s.rest.drop _ = _
    rw [left, List.drop_left]
  have notBlank : isSpace c = false ∧ c ≠ '#' := by
    simp only [isLineEnd, Bool.or_eq_true, decide_eq_true_eq] at ends
    rcases ends with rfl | rfl <;> decide
  have passed := stepAtIndentation_of_cons front s.indentation
  rw [if_neg notBlank.2, if_pos ends, front] at passed
  exact h.skips left blank notBlank.1 passed

/-- A comment behind blanks is passed, up to the end of the line. -/
theorem Fresh.skips_comment {blanks rest : List Char} (h : s.Fresh)
    (left : s.rest = blanks ++ '#' :: rest) (blank : ∀ c ∈ blanks, isSpace c = true) :
    ∃ u body, Skips s u ∧ rest = body ++ u.rest ∧ u.rest.length < s.rest.length ∧
      (∀ c ∈ body, isLineEnd c = false) ∧ ∀ c more, u.rest = c :: more → isLineEnd c = true := by
  have front : (s.skip blanks.length).rest = '#' :: rest := by
    change s.rest.drop _ = _
    rw [left, List.drop_left]
  have passed := stepAtIndentation_of_cons front s.indentation
  rw [if_pos rfl, front] at passed
  obtain ⟨u, skips, behind, fewer⟩ := h.skips left blank rfl passed
  have behind : u.rest = rest.dropWhile fun c => !isLineEnd c := by
    rw [behind, comment, drop_takeWhile_length]
    rfl
  refine ⟨u, rest.takeWhile fun c => !isLineEnd c, skips, ?_, fewer,
    fun c mem => by simpa using List.mem_takeWhile_imp mem, fun c more eq => ?_⟩
  · rw [behind, List.takeWhile_append_dropWhile]
  · simpa using eq_false_of_dropWhile (behind.symm.trans eq)

/-- The scanner passes lines that hold no token, and comes to a line that is compared with the open
blocks, or to the end of the text. -/
structure Comes (s u : Scanner) : Prop where
  skips : Skips s u
  place : (∃ blanks, Compared blanks u.rest ∧ AfterIdle (· = u.rest) s.rest) ∨
    Bare s.rest ∧ ∀ c ∈ u.rest, isSpace c = true

/-- One more of those lines. -/
theorem Comes.line {line rest : List Char} {c : Char} (h : Comes t u) (skips : Skips s t)
    (left : s.rest = line ++ c :: rest) (idle : IsIdle line) (ends : isLineEnd c = true)
    (behind : t.rest = (c :: rest).drop (lineBreak (c :: rest))) : Comes s u := by
  refine ⟨skips.trans h.skips, ?_⟩
  have place := h.place
  rw [behind] at place
  rw [left]
  rcases place with ⟨blanks, compared, behind⟩ | ⟨bare, blank⟩
  · exact Or.inl ⟨blanks, compared, AfterIdle.line idle ends behind⟩
  · exact Or.inr ⟨AfterIdle.line idle ends bare, blank⟩

/-- **Lines that hold no token are passed.** -/
theorem Fresh.comes (h : s.Fresh) : ∃ u, Comes s u := by
  induction left : s.rest.length using Nat.strongRecOn generalizing s with
  | _ n ih =>
      subst left
      have split : s.rest = s.rest.takeWhile isSpace ++ s.rest.dropWhile isSpace :=
        List.takeWhile_append_dropWhile.symm
      have blank : ∀ c ∈ s.rest.takeWhile isSpace, isSpace c = true := fun c mem =>
        List.mem_takeWhile_imp mem
      generalize s.rest.takeWhile isSpace = blanks at split blank
      -- What stands behind the blanks says whether the line is compared.
      cases behind : s.rest.dropWhile isSpace with
      | nil =>
          rw [behind, List.append_nil] at split
          have bare : Bare s.rest := ⟨[], s.rest, rfl, .nil, isIdle_blanks (split ▸ blank)⟩
          exact ⟨s, ⟨.refl s, h⟩, Or.inr ⟨bare, split ▸ blank⟩⟩
      | cons c rest =>
          rw [behind] at split
          have notBlank := eq_false_of_dropWhile behind
          by_cases isComment : c = '#'
          · subst isComment
            obtain ⟨u, body, skips, rfl, fewer, inLine, stops⟩ := h.skips_comment split blank
            have idle : IsIdle (blanks ++ '#' :: body) := isIdle_comment blank inLine
            cases behind : u.rest with
            | nil =>
                rw [behind, List.append_nil] at split
                have bare : Bare s.rest := ⟨[], s.rest, rfl, .nil, split ▸ idle⟩
                exact ⟨u, skips, Or.inr ⟨bare, by simp [behind]⟩⟩
            | cons d more =>
                have none : ∀ c ∈ ([] : List Char), isSpace c = true := by simp
                have ends := stops d more behind
                obtain ⟨v, skips', behind', fewer'⟩ := skips.fresh.skips_lineEnd behind none ends
                obtain ⟨w, comes⟩ := ih _ (Nat.lt_trans fewer' fewer) skips'.fresh rfl
                have split : s.rest = blanks ++ '#' :: body ++ d :: more := by
                  rw [split, behind, List.append_assoc, List.cons_append]
                exact ⟨w, comes.line (skips.trans skips') split idle ends behind'⟩
          by_cases ends : isLineEnd c = true
          · obtain ⟨u, skips, behind, fewer⟩ := h.skips_lineEnd split blank ends
            obtain ⟨v, comes⟩ := ih _ fewer skips.fresh rfl
            exact ⟨v, comes.line skips split (isIdle_blanks blank) ends behind⟩
          · have compared : Compared blanks s.rest :=
              ⟨c, rest, split, blank, notBlank, isComment, by simpa using ends⟩
            exact ⟨s, ⟨.refl s, h⟩,
              Or.inl ⟨blanks, compared, [], s.rest, rfl, .nil, rfl⟩⟩

/-- The end of the text yields the ends of what is open. -/
theorem finish_eq (quiet : s.pending = []) : ∃ token t, s.finish = (.token [] token, t) ∧
    token :: t.pending = closing s.lineHasContent s.indents.blocks.length s.offset := by
  unfold finish
  rw [quiet]
  cases content : s.lineHasContent with
  | true => exact ⟨_, _, rfl, rfl⟩
  | false =>
      cases blocks : s.indents.blocks.length with
      | zero => exact ⟨_, _, rfl, congrArg (Token.eof s.offset :: ·) quiet⟩
      | succ count => exact ⟨_, _, rfl, rfl⟩

/-- The scanner where a line has begun that is compared with the open blocks. -/
def opened (s : Scanner) (blanks : List Char) : Scanner :=
  (s.skip blanks.length).begun (Indentation.width s.options.tabSize blanks)

theorem rest_opened {blanks : List Char} (compared : Compared blanks s.rest) :
    s.rest = blanks ++ (s.opened blanks).rest := by
  obtain ⟨c, rest, split, -⟩ := compared
  change _ = _ ++ s.rest.drop _
  rw [split, List.drop_left]

theorem Fresh.begun_opened (h : s.Fresh) (blanks : List Char) : (s.opened blanks).Begun :=
  ⟨h.quiet, rfl⟩

/-- A line that is compared begins, with the change that it makes to the open blocks. -/
theorem Fresh.step_compared {blanks : List Char} (h : s.Fresh) (compared : Compared blanks s.rest) :
    ∃ pieces, s.step = match (Indentation.change s.indents.blocks
        (Indentation.width s.options.tabSize blanks)).1 with
      | .stays => ((s.opened blanks).step.1.after pieces, (s.opened blanks).step.2)
      | .opens => (.token pieces ((s.opened blanks).mark .indent), s.opened blanks)
      | .closes count => (.token pieces ((s.opened blanks).mark .dedent),
          { s.opened blanks with
            pending := List.replicate (count - 1) ((s.opened blanks).mark .dedent) })
      | .unmatched => (.fault .unmatchedUnindent (s.opened blanks).offset, s.opened blanks) := by
  obtain ⟨c, rest, split, blank, notBlank, notComment, notEnd⟩ := compared
  have count : spaces s.rest = blanks.length := by
    rw [split, spaces_append blank]
    simp [spaces, notBlank]
  have front : (s.skip blanks.length).rest = c :: rest := by
    change s.rest.drop _ = _
    rw [split, List.drop_left]
  have width : s.indentation = Indentation.width s.options.tabSize blanks := by
    rw [indentation, count, split, List.take_left]
  have stepped := h.step_eq
  rw [count, width, stepAtIndentation_of_cons front, if_neg notComment, if_neg (by simp [notEnd])]
    at stepped
  refine ⟨s.blanks, stepped.trans ?_⟩
  rw [(h.begun_opened blanks).step_eq]
  have same : (s.skip blanks.length).indents.blocks = s.indents.blocks := rfl
  have quiet : (s.skip blanks.length).pending = [] := h.quiet
  rw [same, quiet]
  cases (Indentation.change s.indents.blocks (Indentation.width s.options.tabSize blanks)).1 with
  | stays => rfl
  | opens => exact congrArg (fun pieces => (Found.token pieces _, _)) (List.append_nil s.blanks)
  | closes _ => exact congrArg (fun pieces => (Found.token pieces _, _)) (List.append_nil s.blanks)
  | unmatched => rfl

theorem Finds.of_idles (found : Finds s token t) (idles : Idles s u) : Finds u token t :=
  idles.induction (P := fun u => Finds u token t) found fun stepped found => found.later stepped

/-- What is found behind trivia is found without them. -/
theorem Finds.of_after {pieces : List Trivia} (found : Finds s token t)
    (step : s.step = (u.step.1.after pieces, u.step.2)) : Finds u token t := by
  cases stepped : u.step with
  | mk result v =>
      rw [stepped] at step
      cases result with
      | token more last =>
          obtain ⟨rfl, rfl⟩ := found.of_step step
          exact .token stepped
      | trivia more => exact .trivia stepped (found.later step)
      | fault _ _ => exact absurd found (not_finds_of_fault step)

/-- The first token of a line stands at its front, unless the line is continued there. -/
theorem Begun.stands {blanks : List Char} (h : s.Begun)
    (compared : Compared blanks (blanks ++ s.rest)) (found : Finds s token.plain t) :
    Continued blanks (blanks ++ s.rest) ∨
      token.kind.isLayout = false ∧ s.rest = token.text.toList ++ t.rest := by
  obtain ⟨c, rest, split, blank, notBlank, notComment, notEnd⟩ := compared
  have front : s.rest = c :: rest := List.append_cancel_left split
  by_cases continued : (c = '\\' && rest.head?.any isLineEnd) = true
  · obtain ⟨rfl, ends⟩ : c = '\\' ∧ rest.head?.any isLineEnd = true := by simpa using continued
    cases rest with
    | nil => cases ends
    | cons d rest => exact Or.inl ⟨d, rest, split, blank, ends⟩
  · have step : s.step = s.readToken := by
      rw [h.step_eq, stepInLine_of_cons front, if_neg (by simp [notBlank]), if_neg notComment,
        if_neg continued, if_neg (by simp [notEnd])]
    have left : s.rest ≠ [] := by simp [front]
    have sits := read_sits left
    rw [readToken] at step
    dsimp only at step
    split at step
    · exact absurd found (not_finds_of_fault step)
    · obtain ⟨same, rfl⟩ := found.of_step step
      have kind : token.kind = (Lexeme.read s.rest).kind := congrArg Token.kind same
      have text : token.text.toList = s.rest.take (Lexeme.read s.rest).length :=
        (congrArg (fun token => token.text.toList) same).trans (lexeme_text_of_sits sits)
      refine Or.inr ⟨kind ▸ sits.isLayout_eq_false, ?_⟩
      rw [text]
      exact (List.take_append_drop _ _).symm

/-- Where only blanks are left at the start of a line, what is open ends. -/
theorem Fresh.step_blanks (h : s.Fresh) (blank : ∀ c ∈ s.rest, isSpace c = true) :
    ∃ (v : Scanner) (pieces : List Trivia), v.pending = [] ∧ v.lineHasContent = false ∧
      v.indents.blocks = s.indents.blocks ∧ s.step = (v.finish.1.after pieces, v.finish.2) := by
  have count : spaces s.rest = s.rest.length := by
    simpa [spaces] using spaces_append blank []
  have none : (s.skip s.rest.length).rest = [] := List.drop_length
  refine ⟨s.skip s.rest.length, s.blanks, h.quiet, h.content, rfl, ?_⟩
  rw [h.step_eq, count, stepAtIndentation, none]

/-- Where nothing is left to be compared, the blocks end. -/
theorem Fresh.bare (h : s.Fresh) (blank : ∀ c ∈ s.rest, isSpace c = true)
    (found : Finds s token.plain u) (yields : Yields (u.on token) tokens t)
    (ended : Ended (token :: tokens)) : Closes s.indents.blocks.length (token :: tokens) := by
  obtain ⟨v, pieces, quiet, content, blocks, step⟩ := h.step_blanks blank
  obtain ⟨first, w, finished, all⟩ := finish_eq quiet
  rw [finished] at step
  obtain ⟨same, rfl⟩ := found.of_step step
  have all : (token :: u.pending).map Token.plain =
      (closing false s.indents.blocks.length v.offset).map Token.plain := by
    rw [List.map_cons, same, ← List.map_cons, all, content, blocks]
  exact yields.closes_of_closing ended all

/-- A line with these blanks has begun, as the blocks are behind its marks. -/
structure AtLine (s : Scanner) (blanks : List Char) (u : Scanner) : Prop where
  begun : u.Begun
  content : u.lineHasContent = false
  outside : u.nesting = 0
  options : u.options = s.options
  blocks : u.indents.blocks =
    (Indentation.change s.indents.blocks (Indentation.width s.options.tabSize blanks)).2

/-- The token on which the scanner stands makes no difference. -/
theorem AtLine.on {blanks : List Char} {pending : List Token} (h : AtLine s blanks u)
    (quiet : pending = []) (current : Token) :
    AtLine s blanks { u with pending := pending, current := current } :=
  ⟨⟨quiet, h.begun.begun⟩, h.content, h.outside, h.options, h.blocks⟩

/-- What the tokens begin with at the start of a line: the ends of all blocks if nothing is left to
be compared, or else the marks that are due, with the first token of the line behind them, which is
found where the line has begun. -/
inductive Marked (s : Scanner) (tokens : List Token) (t : Scanner) : Prop
  | bare (bare : Bare s.rest) (closes : Closes s.indents.blocks.length tokens)
  | line {blanks : List Char} {marks more : List Token} {first : Token} {u v : Scanner}
      (compared : Compared blanks (blanks ++ u.rest))
      (behind : AfterIdle (· = blanks ++ u.rest) s.rest)
      (marked :
        (Indentation.change s.indents.blocks
          (Indentation.width s.options.tabSize blanks)).1.marks? =
          some (marks.map Token.kind))
      (split : tokens = marks ++ first :: more) (ended : Ended (first :: more))
      (line : AtLine s blanks u) (found : Finds u first.plain v)
      (front : Yields s (marks ++ [first]) (v.on first)) (later : Yields (v.on first) more t)

/-- Behind the marks the first token of the line is read. -/
theorem Marked.of_yields {blanks : List Char} {marks : List Token}
    (front : Yields s marks u) (later : Yields u more t) (ended : Ended more)
    (compared : Compared blanks (blanks ++ u.rest))
    (behind : AfterIdle (· = blanks ++ u.rest) s.rest)
    (marked : (Indentation.change s.indents.blocks
      (Indentation.width s.options.tabSize blanks)).1.marks? =
      some (marks.map Token.kind))
    (line : AtLine s blanks u) : Marked s (marks ++ more) t := by
  cases later with
  | nil => exact absurd rfl ended.ne_nil
  | cons found later =>
      exact .line compared behind marked rfl ended line
        (finds_of_read (next_of_quiet line.begun.quiet ▸ found))
        (front.append (.cons found (.nil _))) later

/-- **At the start of a line the marks come that are due.** -/
theorem Fresh.marks (h : s.Fresh) (yields : Yields s tokens t) (ended : Ended tokens) :
    Marked s tokens t := by
  -- Idle lines are passed first; the step behind them does what the indentation says.
  obtain ⟨u, comes⟩ := h.comes
  have fresh := comes.skips.fresh
  have alike := comes.skips.idles.alike h.settled h.quiet
  cases yields with
  | nil => exact absurd rfl ended.ne_nil
  | @cons _ v _ token tokens found later =>
      have result : s.readFrom [] = (.ok token, v) := next_of_quiet h.quiet ▸ found
      have finds : Finds u token.plain v := (finds_of_read result).of_idles comes.skips.idles
      rcases comes.place with ⟨blanks, compared, behind⟩ | ⟨bare, blank⟩
      · obtain ⟨pieces, step⟩ := fresh.step_compared compared
        have line : AtLine s blanks (u.opened blanks) :=
          ⟨fresh.begun_opened blanks, fresh.content, fresh.outside, alike.options,
            alike.blocks ▸ alike.options ▸ blocks_begun _ _⟩
        rw [alike.blocks, alike.options] at step
        rw [rest_opened compared] at behind
        have compared := rest_opened compared ▸ compared
        cases change : (Indentation.change s.indents.blocks
            (Indentation.width s.options.tabSize blanks)).1 with
        | stays =>
            rw [change] at step
            have marked : Indentation.Change.stays.marks? = some (List.map Token.kind []) := rfl
            exact .line compared behind (change ▸ marked) rfl ended line (finds.of_after step)
              (.cons found (.nil _)) later
        | opens =>
            rw [change] at step
            obtain ⟨same, rfl⟩ := finds.of_step step
            have kind : token.kind = .indent := congrArg Token.kind same
            have marked : Indentation.Change.opens.marks? = some ([token].map Token.kind) :=
              congrArg (fun kind => some [kind]) kind.symm
            exact .of_yields (.cons found (.nil _)) later (ended.tail (by simp [kind])) compared
              behind (change ▸ marked) (line.on line.begun.quiet token)
        | closes count =>
            rw [change] at step
            obtain ⟨same, rfl⟩ := finds.of_step step
            have kind : token.kind = .dedent := congrArg Token.kind same
            have marked := Indentation.Change.marks?_closes (change_closes change).1 kind
              (rfl : ((u.opened blanks).mark .dedent).kind = .dedent)
            have marking : ∀ mark ∈ List.replicate (count - 1) ((u.opened blanks).mark .dedent),
                mark.kind ≠ .eof := by
              intro mark mem
              rw [List.eq_of_mem_replicate mem]
              exact nofun
            obtain ⟨more, w, rfl, given, later, ended, current, rfl⟩ :=
              later.of_kept (ended.tail (by simp [kind])) (List.append_nil _).symm marking
            exact .of_yields (.cons found given) later ended compared behind (change ▸ marked)
              (line.on rfl current)
        | unmatched =>
            rw [change] at step
            exact absurd finds (not_finds_of_fault step)
      · have closes := fresh.bare blank finds later ended
        rw [alike.blocks] at closes
        exact .bare bare closes

/-- Behind idle lines and the blanks, the first token of the line stands, unless the line is
continued there. -/
theorem Yields.stands {blanks rest : List Char} {marks : List Token}
    (front : Yields s (marks ++ [token]) (t.on token)) (standing : s.Standing text)
    (behind : AfterIdle (· = blanks ++ rest) s.rest)
    (here : Continued blanks (blanks ++ rest) ∨ rest = token.text.toList ++ t.rest) :
    AfterIdle (Continued blanks) s.rest ∨
      ∃ idle, IdleLines idle ∧ writtenOf marks ++ token.lead = idle ++ blanks := by
  rcases here with continued | rfl
  · exact Or.inl (behind.mono fun _ eq => eq ▸ continued)
  · obtain ⟨idle, _, split, idles, rfl⟩ := behind
    exact Or.inr ⟨idle, idles, front.lead_eq standing split⟩

/-- **From the start of a line on, the tokens follow the offside rule.** -/
theorem Fresh.offside (h : s.Fresh) (standing : s.Standing text) (yields : Yields s tokens t)
    (ended : Ended tokens) : Offside s.options.tabSize s.indents.blocks s.rest tokens := by
  -- Each line takes its first token at least, so fewer tokens are left behind it.
  induction left : tokens.length using Nat.strongRecOn generalizing s tokens with
  | _ n ih =>
      subst left
      cases h.marks yields ended with
      | bare bare closes => exact .ends bare closes
      | @line blanks marks tokens first u v compared behind marked split ended' begins found front
          later =>
          subst split
          obtain ⟨begun, content, outside, options, blocks⟩ := begins
          have stands := begun.stands compared found
          cases begun.turn found with
          | reads plain begun' content' blocks' =>
              have running : first.kind ≠ .eof := (TokenKind.ne_of_isLayout plain).2.2.2
              have inLine : (v.on first).Begun := ⟨begun'.quiet, begun'.begun⟩
              obtain ⟨inner, last, more, w, rfl, line, later, goesOn, options', left⟩ :=
                inLine.goesOn content' later (ended'.tail running)
              have moves := found.moves begun.settled begun.quiet
              have nests : v.nesting = nestingAfter u.nesting first.kind :=
                moves.nests _ first.plain rfl
              have goesOn : LineFrom v.nesting inner last := goesOn
              rw [nests, outside] at goesOn
              have indented : Indented blanks s.rest := behind.mono fun _ eq => eq ▸ compared
              have stands := front.stands standing behind (stands.imp_right And.right)
              have passed := front.append line
              obtain ⟨standing', written⟩ := passed.written standing
              rw [List.append_assoc, List.singleton_append] at written
              have blocks : (v.on first).indents.blocks = _ := blocks'.trans blocks
              have whole : marks ++ first :: (inner ++ [last] ++ more) =
                  marks ++ first :: (inner ++ [last]) ++ more := by simp
              have fewer : more.length < (marks ++ first :: (inner ++ [last] ++ more)).length := by
                simp only [List.length_append, List.length_cons]
                omega
              rw [whole]
              refine .line indented marked stands plain goesOn written ?_
              rw [← blocks]
              rcases left with ⟨fresh, same, ended⟩ | ⟨empty, closes⟩
              · rw [← same, ← options'.trans (moves.options.trans options)]
                exact ih _ fewer fresh standing' later ended rfl
              · exact .ends ⟨[], w.rest, rfl, .nil, Or.inl empty⟩ closes
          | breaks _ content' => cases content.symm.trans content'
          | ends empty all =>
              rw [content] at all
              have closes := later.closes_of_closing ended' all
              rcases stands with continued | ⟨plain, -⟩
              · rw [blocks] at closes
                exact .tokenless (behind.mono fun _ eq => eq ▸ continued) marked closes
              · cases plain.symm.trans closes.isLayout

end Scanner

/-- **The offside rule.**  The tokens of a text follow from its lines, with no block open at
first. -/
theorem tokenize_offside {options : Options} {text : List Char} {tokens : List Token}
    (found : tokenize options text = .ok tokens) :
    Offside options.tabSize [] text tokens := by
  obtain ⟨last, yields, ended⟩ := Scanner.exists_yields found
  exact Scanner.Fresh.offside ⟨rfl, rfl, rfl, rfl⟩ (Scanner.initial_standing options text) yields
    ended

/-- A line that is continued at once opens a block, although nothing else stands on it. -/
example : (tokenize {} [' ', ' ', '\\', '\n', '\n', 'x', '\n']).toOption.map (List.map Token.kind) =
    some [.indent, .name, .newline, .dedent, .eof] := by
  decide

end PythonSyntax
