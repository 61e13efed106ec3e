/-
**Edits that change no token.**

Blanks can be put behind any token that is written in the text, and a line that holds nothing, or
nothing but a comment, behind the end of any line.  The scanner comes to the place in the same way
as before, passes what has been put in, and then finds what it would have found.

Main definitions:

* `PythonSyntax.insertAt` — a text with more characters at a place;
* `PythonSyntax.IsIdleLine` — a line of blanks, of a comment, or of both.

Main results:

* `PythonSyntax.tokens_of_insertAt` — **such edits change neither the kinds of the tokens nor what
  they carry**.
-/

import PythonSyntax.Proofs.Lexical.Grafts
import PythonSyntax.Proofs.Lexical.Junction
import PythonSyntax.Proofs.Parsing.Spans

set_option autoImplicit false

namespace PythonSyntax

/-- The text with more characters at a place. -/
def insertAt (text : List Char) (place : Nat) (more : List Char) : List Char :=
  text.take place ++ more ++ text.drop place

/-- A line that holds no token, without its end: blanks, and then a comment or nothing. -/
def IsIdleLine (line : List Char) : Prop :=
  line ≠ [] ∧ ∃ blanks comment, line = blanks ++ comment ∧
    (∀ c ∈ blanks, Lexeme.isSpace c = true) ∧
    (comment = [] ∨ ∃ body, comment = '#' :: body ∧ ∀ c ∈ body, Lexeme.isLineEnd c = false)

open Lexeme

theorem IsIdleLine.separates {c : Char} {line : List Char} (h : IsIdleLine (c :: line)) :
    isSeparator c = true := by
  obtain ⟨-, blanks, comment, eq, blank, written⟩ := h
  cases blanks with
  | cons d blanks =>
      cases eq
      simp [isSeparator, blank]
  | nil =>
      rcases written with rfl | ⟨body, rfl, -⟩
      · cases eq
      · cases eq
        rfl

namespace Scanner

variable {s t u v : Scanner} {token : Token} {rest blanks line : List Char}

/-! ### Behind a token -/

/-- Where the scanner stands behind a token that is written in the text: within a line, or at the
start of the next one. -/
structure Parted (s : Scanner) : Prop where
  lexeme : s.current.kind.isLexeme = true → s.pending = [] ∧ s.atLineStart = false
  newline : s.current.BreaksLine → s.Fresh

/-- A token of a line is read where a line has begun. -/
theorem begun_of_readFrom {trivia : List Trivia} (settled : s.Settled) (quiet : s.pending = [])
    (result : s.readFrom trivia = (.ok token, t))
    (isLexeme : token.kind.isLexeme = true) : t.pending = [] ∧ t.atLineStart = false := by
  obtain ⟨u, pieces, last, front, idles, stepped, rfl⟩ := exists_step_of_read result
  have alike := idles.alike settled quiet
  have acts := step_acts alike.settled alike.quiet
  have notLayout : last.kind.isLayout = false := by
    simp only [TokenKind.isLexeme, Bool.and_eq_true, Bool.not_eq_true'] at isLexeme
    exact isLexeme.1
  rw [stepped] at acts
  cases acts with
  | reads _ quiet _ begun _ _ => exact ⟨quiet, begun⟩
  | breaks newline =>
      rw [newline.1] at notLayout
      cases notLayout
  | opens indent =>
      rw [indent] at notLayout
      cases notLayout
  | closes dedent =>
      rw [dedent] at notLayout
      cases notLayout
  | ends empty all =>
      have mem : last.withTrivia [] ∈ closing u.lineHasContent u.indents.blocks.length t.offset :=
        all ▸ List.mem_cons_self
      exact (closing_not_written mem (Or.inl isLexeme)).elim

theorem ofText_parted {options : Options} {text : List Char} (opened : ofText options text = .ok s) :
    s.Parted := by
  refine ⟨fun isLexeme => ?_, fun breaks => ((ofText_inside opened).breaks breaks).1⟩
  unfold ofText at opened
  split at opened
  · rename_i last u result
    cases opened
    have read : (initial options text).readFrom [] = (.ok last, u) := result
    have begun := begun_of_readFrom (initial_settled options text) rfl read isLexeme
    exact begun
  · cases opened

theorem Parted.advance (h : s.Parted) (ready : s.Ready) (moved : s.advance = (none, t)) :
    t.Parted := by
  by_cases ended : s.current.kind = .eof
  · cases (advance_of_eof ended).symm.trans moved
    exact h
  refine ⟨fun isLexeme => ?_, fun breaks => ((advance_steps ready ended moved).breaks breaks).1⟩
  unfold Scanner.advance at moved
  rw [if_neg ended] at moved
  cases kept : s.pending with
  | nil =>
      rw [next_of_quiet kept] at moved
      split at moved
      · rename_i last u result
        cases moved
        have begun := begun_of_readFrom ready.rested.settled kept result isLexeme
        exact begun
      · cases moved
  | cons first pending =>
      rw [next, kept] at moved
      cases moved
      rcases ready.kept first (kept ▸ List.mem_cons_self) with kind | kind <;>
        (rw [kind] at isLexeme; cases isLexeme)

theorem Parted.of_path {tokens : List Token} (h : s.Parted) (ready : s.Ready)
    (path : Path s tokens t) : t.Parted := by
  induction path with
  | nil => exact h
  | cons _ moved _ ih => exact ih (h.advance ready moved) (ready.of_advance moved)

/-! ### Passing what has been put in -/

theorem spaces_append (blank : ∀ c ∈ blanks, isSpace c = true) (rest : List Char) :
    spaces (blanks ++ rest) = blanks.length + spaces rest := by
  rw [spaces, List.takeWhile_append_of_pos blank, List.length_append, spaces]

/-- **Blanks within a line** make no difference to what is found. -/
theorem finds_blanks (found : Finds s token t) (settled : s.Settled) (quiet : s.pending = [])
    (begun : s.atLineStart = false) (some : blanks ≠ [])
    (blank : ∀ c ∈ blanks, isSpace c = true) :
    ∃ t', Finds (s.withRest (blanks ++ s.rest)) token t' ∧ Beside [] t t' := by
  obtain ⟨c, more, rfl⟩ := List.exists_cons_of_ne_nil some
  have isBlank : isSpace c = true := blank c List.mem_cons_self
  -- The blanks are passed together with those that were there before.
  have stepped : (s.withRest (c :: more ++ s.rest)).step =
      (s.withRest (c :: more ++ s.rest)).passTrivia .whitespace
        ((c :: more).length + spaces s.rest) := by
    rw [step, if_neg (by simp [withRest, begun]), stepInLine_of_cons rfl, if_pos isBlank,
      withRest_rest, spaces_append blank]
  have behind : Finds (s.skip (spaces s.rest)) token t := by
    cases front : s.rest with
    | nil => exact found
    | cons d rest =>
        by_cases other : isSpace d = true
        · have passed : s.step = s.passTrivia .whitespace (spaces s.rest) := by
            rw [step, if_neg (by simp [begun]), stepInLine_of_cons front, if_pos other]
          rw [← front]
          exact found.later passed
        · simpa [spaces, other] using found
  have beside : Beside [] (s.skip (spaces s.rest))
      ((s.withRest (c :: more ++ s.rest)).skip ((c :: more).length + spaces s.rest)) := by
    refine ⟨?_, rfl, rfl, rfl, rfl, rfl, rfl, Or.inr (Or.inl rfl)⟩
    change (c :: more ++ s.rest).drop _ = s.rest.drop _ ++ []
    rw [← List.drop_drop, List.drop_left, List.append_nil]
  rcases behind.beside (settled.skip quiet _) quiet beside with ⟨t', found', beside'⟩ | ⟨none, -⟩
  · exact ⟨t', .trivia stepped found', beside'⟩
  · exact absurd rfl none

theorem Beside.fresh {more : List Char} (h : Beside more s t) (fresh : s.Fresh) : t.Fresh :=
  ⟨List.map_eq_nil_iff.1 (h.pending.trans (congrArg _ fresh.quiet)),
    h.atLineStart.trans fresh.start, h.lineHasContent.trans fresh.content,
    h.nesting.trans fresh.outside⟩

theorem Fresh.withRest (h : s.Fresh) (rest : List Char) : (s.withRest rest).Fresh :=
  ⟨h.quiet, h.start, h.content, h.outside⟩

/-- What a step at the start of a line passes: blanks, and what follows them as trivia. -/
theorem Fresh.step_of_blanks {c : Char} {kind : TriviaKind} {count : Nat} (h : s.Fresh)
    (left : s.rest = blanks ++ c :: rest) (blank : ∀ c ∈ blanks, isSpace c = true)
    (notBlank : isSpace c = false)
    (passed : (s.skip blanks.length).stepAtIndentation s.indentation =
      (s.skip blanks.length).passTrivia kind count) :
    ∃ pieces u, s.step = (.trivia pieces, u) ∧
      Beside [] (s.withRest ((c :: rest).drop count)) u := by
  have count : spaces s.rest = blanks.length := by
    rw [left, spaces_append blank]
    simp [spaces, notBlank]
  have stepped := h.step_eq
  rw [count, passed] at stepped
  refine ⟨_, _, stepped, ?_, rfl, rfl, rfl, rfl, rfl, rfl, Or.inr (Or.inl rfl)⟩
  change (s.rest.drop _).drop _ = (c :: rest).drop _ ++ []
  rw [left, List.drop_left, List.append_nil]

/-- A line end behind blanks is passed. -/
theorem Fresh.step_blank (h : s.Fresh) (blank : ∀ c ∈ blanks, isSpace c = true)
    (rest : List Char) :
    ∃ pieces u, (s.withRest (blanks ++ '\n' :: rest)).step = (.trivia pieces, u) ∧
      Beside [] (s.withRest rest) u := by
  have front : ((s.withRest (blanks ++ '\n' :: rest)).skip blanks.length).rest = '\n' :: rest :=
    List.drop_left
  have passed := stepAtIndentation_of_cons front (s.withRest (blanks ++ '\n' :: rest)).indentation
  rw [if_neg (by decide), if_pos (by rfl), front] at passed
  exact (h.withRest _).step_of_blanks (c := '\n') rfl blank rfl passed

/-- A comment behind blanks is passed. -/
theorem Fresh.step_comment {body : List Char} (h : s.Fresh)
    (blank : ∀ c ∈ blanks, isSpace c = true) (inLine : ∀ c ∈ body, isLineEnd c = false)
    (rest : List Char) :
    ∃ pieces u, (s.withRest (blanks ++ '#' :: body ++ '\n' :: rest)).step = (.trivia pieces, u) ∧
      Beside [] (s.withRest ('\n' :: rest)) u := by
  have split : blanks ++ '#' :: body ++ '\n' :: rest = blanks ++ '#' :: (body ++ '\n' :: rest) :=
    List.append_assoc _ _ _
  rw [split]
  have front : ((s.withRest (blanks ++ '#' :: (body ++ '\n' :: rest))).skip blanks.length).rest =
      '#' :: (body ++ '\n' :: rest) := List.drop_left
  have length : comment ('#' :: (body ++ '\n' :: rest)) = ('#' :: body).length := by
    have all : ∀ c ∈ '#' :: body, (!isLineEnd c) = true := by
      rintro c (_ | ⟨_, mem⟩)
      · rfl
      · simp [inLine c mem]
    rw [comment, ← List.cons_append, List.takeWhile_append_of_pos all]
    simp [isLineEnd]
  have passed := stepAtIndentation_of_cons front
    (s.withRest (blanks ++ '#' :: (body ++ '\n' :: rest))).indentation
  rw [if_pos rfl, front, length] at passed
  have passed := (h.withRest _).step_of_blanks (c := '#') rfl blank rfl passed
  rw [← List.cons_append, List.drop_left] at passed
  exact passed

/-- **A line that holds no token** makes no difference either, at the start of a line. -/
theorem finds_idleLine (found : Finds s token t) (settled : s.Settled) (fresh : s.Fresh)
    (idle : IsIdleLine line) :
    ∃ t', Finds (s.withRest (line ++ '\n' :: s.rest)) token t' ∧ Beside [] t t' := by
  obtain ⟨-, blanks, comment, rfl, blank, written⟩ := idle
  have passed : ∃ v, (∀ {t'}, Finds v token t' →
      Finds (s.withRest (blanks ++ comment ++ '\n' :: s.rest)) token t') ∧ Beside [] s v := by
    rcases written with rfl | ⟨body, rfl, inLine⟩
    · obtain ⟨pieces, u, stepped, beside⟩ := fresh.step_blank blank s.rest
      rw [List.append_nil]
      exact ⟨u, .trivia stepped, beside⟩
    · obtain ⟨pieces, u, stepped, beside⟩ := fresh.step_comment blank inLine s.rest
      have fresh' := beside.fresh (fresh.withRest _)
      have none : ∀ c ∈ ([] : List Char), isSpace c = true := nofun
      have left : u.rest = '\n' :: s.rest := beside.rest.trans (List.append_nil _)
      obtain ⟨pieces', v, stepped', beside'⟩ := fresh'.step_blank none s.rest
      rw [List.nil_append, withRest_self left] at stepped'
      have beside'' : Beside [] (s.withRest s.rest) (u.withRest s.rest) :=
        ⟨(List.append_nil _).symm, beside.options, beside.blocks, beside.nesting,
          beside.atLineStart, beside.lineHasContent, beside.pending, Or.inr (Or.inl rfl)⟩
      exact ⟨v, fun later => .trivia stepped (.trivia stepped' later), beside''.trans beside'⟩
  obtain ⟨v, passes, beside⟩ := passed
  rcases found.beside settled fresh.quiet beside with ⟨t', found', beside'⟩ | ⟨none, -⟩
  · exact ⟨t', passes found', beside'⟩
  · exact absurd rfl none

/-! ### From there on -/

theorem running_of_plain {tokens tokens' : List Token}
    (same : tokens'.map Token.plain = tokens.map Token.plain)
    (running : ∀ token ∈ tokens, token.kind ≠ .eof) : ∀ token ∈ tokens', token.kind ≠ .eof := by
  intro token mem
  have mem := List.mem_map_of_mem (f := Token.plain) mem
  rw [same] at mem
  obtain ⟨other, mem, eq⟩ := List.mem_map.1 mem
  have kind : other.kind = token.kind := (Token.plain_eq_iff.1 eq).1
  exact kind ▸ running other mem

/-- **The tokens of a text with another rest**, if the scanner finds the same behind the place. -/
theorem exists_tokenize_of_finds {options : Options} {text more : List Char} {c : Char}
    {tokens : List Token} (separates : isSeparator c = true)
    (done : tokenize options text = .ok tokens) (mem : token ∈ tokens) (written : token.Written)
    (goesOn : ∀ {s t : Scanner} {next : Token}, s.current = token → s.rest = text.drop token.stop →
      s.Ready → s.Parted → Finds s next t →
        ∃ t', Finds (s.withRest (c :: more)) next t' ∧ Beside [] t t') :
    ∃ tokens', tokenize options (text.take token.stop ++ c :: more) = .ok tokens' ∧
      tokens'.map Token.plain = tokens.map Token.plain := by
  obtain ⟨s, front, t, opened, path, ended, running, rfl⟩ := tokenize_eq_ok_iff.1 done
  have notEof : token.kind ≠ .eof := by
    rintro eof
    rcases written with isLexeme | breaks
    · rw [eof] at isLexeme
      cases isLexeme
    · cases eof.symm.trans breaks.1
  obtain ⟨before, after, rfl⟩ : ∃ before after, front = before ++ token :: after := by
    rcases List.mem_append.1 mem with mem | mem
    · exact List.append_of_mem mem
    · exact absurd (List.mem_singleton.1 mem ▸ ended) notEof
  obtain ⟨u, reached, path⟩ := Path.append_iff.1 path
  obtain ⟨here, v, moved, later⟩ := Path.cons_iff.1 path
  obtain rfl : u.current = token := here
  have moved : u.advance = (none, v) := moved
  have ready := (ofText_inside opened).ready
  have ready' := ready.of_path reached
  have parted := (ofText_parted opened).of_path ready reached
  have placed := (ofText_placed opened).of_path reached fun token mem =>
    running token (List.mem_append_left _ mem)
  have left : u.rest = [] ++ text.drop u.current.stop := by
    rw [placed.stop, placed.standing.rest, List.nil_append]
  -- The scanner comes to the token in the same way.
  obtain ⟨suffix, shorter⟩ := rest_of_path ready reached
  obtain ⟨middle, split, stops⟩ := exists_middle left suffix (Or.inr (shorter written))
  rw [← List.take_append_drop u.current.stop text] at opened
  have opened' : ofText options (text.take u.current.stop ++ c :: more) =
      .ok (s.withRest (middle ++ c :: more)) := ofText_graft separates opened split stops
  have reached' : Path (s.withRest (middle ++ c :: more)) before (u.withRest (c :: more)) :=
    path_graft separates ready reached split left (Or.inr written)
  -- There it finds the next token, and the others after it.
  have quiet : u.pending = [] := written.elim (fun isLexeme => (parted.lexeme isLexeme).1)
    fun breaks => (parted.newline breaks).quiet
  obtain ⟨w, found, eq⟩ := finds_of_advance quiet notEof moved
  obtain ⟨w', found', beside⟩ := goesOn rfl left ready' parted found
  obtain ⟨last, moved', same⟩ := found'.advance quiet notEof
  have along := beside.alongside same
  rw [← eq] at along
  obtain ⟨after', t', later', same', along'⟩ :=
    along.path (ready'.of_advance moved) later (Or.inl rfl)
  have all : (before ++ u.current :: after').map Token.plain =
      (before ++ u.current :: after).map Token.plain := by
    rw [List.map_append, List.map_append, List.map_cons, List.map_cons, same']
  refine ⟨_, tokenize_eq_ok_iff.2 ⟨_, before ++ u.current :: after', t', opened',
    Path.append_iff.2 ⟨_, reached', .cons rfl moved' later'⟩, ?_, running_of_plain all running, rfl⟩,
    ?_⟩
  · exact (congrArg Token.kind along'.current).trans ended
  · rw [List.map_append, all, List.map_singleton, along'.current, ← List.map_singleton,
      ← List.map_append]

end Scanner

/-- **Blanks behind a token, and lines that hold none, change no token**: neither the kinds of the
tokens nor what they carry. -/
theorem tokens_of_insertAt {options : Options} {text : List Char} {tokens : List Token}
    {token : Token} (done : tokenize options text = .ok tokens) (mem : token ∈ tokens) :
    (token.kind ∉ [TokenKind.newline, .indent, .dedent, .eof, .typeComment] →
      ∀ blanks : List Char, (∀ c ∈ blanks, isSpace c = true) →
        ∃ tokens', tokenize options (insertAt text token.stop blanks) = .ok tokens' ∧
          tokens'.map (fun token => (token.kind, token.value)) =
            tokens.map fun token => (token.kind, token.value)) ∧
    (token.kind = .newline → token.value ≠ some "" → ∀ line, IsIdleLine line →
      ∃ tokens', tokenize options (insertAt text token.stop (line ++ ['\n'])) = .ok tokens' ∧
        tokens'.map (fun token => (token.kind, token.value)) =
          tokens.map fun token => (token.kind, token.value)) := by
  have labels : ∀ {tokens' : List Token}, tokens'.map Token.plain = tokens.map Token.plain →
      tokens'.map (fun token => (token.kind, token.value)) =
        tokens.map fun token => (token.kind, token.value) := by
    intro tokens' same
    have same := congrArg (List.map fun token : Token => (token.kind, token.value)) same
    rwa [List.map_map, List.map_map] at same
  constructor
  · intro other blanks blank
    have isLexeme : token.kind.isLexeme = true := by
      cases kind : token.kind <;> simp_all [TokenKind.isLexeme, TokenKind.isLayout]
    cases blanks with
    | nil => exact ⟨tokens, by rwa [insertAt, List.append_nil, List.take_append_drop], rfl⟩
    | cons c more =>
        have separates : isSeparator c = true := by
          simp [isSeparator, blank c List.mem_cons_self]
        obtain ⟨tokens', done', same⟩ := Scanner.exists_tokenize_of_finds separates done mem
          (Or.inl isLexeme)
          fun {s t next} current left ready parted found => by
            obtain ⟨quiet, begun⟩ := parted.lexeme (current ▸ isLexeme)
            have found' := Scanner.finds_blanks found ready.rested.settled quiet begun (by simp)
              blank
            rwa [left] at found'
        exact ⟨tokens', by rwa [insertAt, List.append_assoc], labels same⟩
  · intro newline value line idle
    obtain ⟨c, more, rfl⟩ := List.exists_cons_of_ne_nil idle.1
    obtain ⟨tokens', done', same⟩ := Scanner.exists_tokenize_of_finds idle.separates done mem
      (Or.inr ⟨newline, value⟩)
      fun {s t next} current left ready parted found => by
        have found' := Scanner.finds_idleLine found ready.rested.settled
          (parted.newline (current ▸ ⟨newline, value⟩)) idle
        rwa [left] at found'
    exact ⟨tokens', by simpa [insertAt] using done', labels same⟩

/-- Blanks behind a colon, and a comment between the head of a block and its body, indented like
neither. -/
theorem tokens_of_insertAt_block : ∃ tokens, tokenize {} "if x:\n\ty".toList = .ok tokens ∧
    (∃ colon ∈ tokens, colon.stop = 5 ∧
      ∃ tokens', tokenize {} (insertAt "if x:\n\ty".toList colon.stop "\t ".toList) = .ok tokens' ∧
        tokens'.map (fun token => (token.kind, token.value)) =
          tokens.map fun token => (token.kind, token.value)) ∧
    ∃ newline ∈ tokens, newline.stop = 6 ∧
      ∃ tokens', tokenize {}
          (insertAt "if x:\n\ty".toList newline.stop ("   # z".toList ++ ['\n'])) = .ok tokens' ∧
        tokens'.map (fun token => (token.kind, token.value)) =
          tokens.map fun token => (token.kind, token.value) := by
  obtain ⟨tokens, done, met⟩ : ∃ tokens, tokenize {} "if x:\n\ty".toList = .ok tokens ∧
      (tokens.any (fun token => token.kind = .symbol .colon && token.stop = 5) &&
        tokens.any fun token =>
          token.kind = .newline && token.value = some "\n" && token.stop = 6) = true :=
    exists_ok_of_any (by decide +kernel)
  simp only [Bool.and_eq_true, List.any_eq_true, decide_eq_true_eq] at met
  obtain ⟨⟨colon, mem, kind, stop⟩, newline, mem', ⟨kind', value⟩, stop'⟩ := met
  have idle : IsIdleLine "   # z".toList :=
    ⟨by decide, [' ', ' ', ' '], ['#', ' ', 'z'], rfl, by simp [isSpace],
      Or.inr ⟨[' ', 'z'], rfl, by simp [isLineEnd]⟩⟩
  have blank : ∀ c ∈ ['\t', ' '], isSpace c = true := by simp [isSpace]
  exact ⟨tokens, done,
    ⟨colon, mem, stop, (tokens_of_insertAt done mem).1 (by simp [kind]) _ blank⟩,
    newline, mem', stop', (tokens_of_insertAt done mem').2 kind' (by simp [value]) _ idle⟩

end PythonSyntax
