/-
**Where the scanner stands, and where it finds faults.**

Up to the first fault the scanner never stands inside of a line break, and where it is to measure
the indentation of a line, a line begins.  A fault is found at a literal that is malformed, or
behind the blanks at the beginning of a line that is indented like none of the open blocks.

Main definitions:

* `PythonSyntax.Scanner.Upright` — a scanner that stands where it may;
* `PythonSyntax.FaultPlace` — where a fault is found.

Main results:

* `PythonSyntax.Lexeme.read_unsplit` — a well-formed token does not end inside of a line break;
* `PythonSyntax.Scanner.step_checked` — what a step finds, and where;
* `PythonSyntax.Scanner.advance_fault` — **where the scanner finds faults**.
-/

import PythonSyntax.Proofs.Lexical.LayoutTokens
import PythonSyntax.Proofs.Lexical.LineBreaks
import PythonSyntax.Proofs.Lexical.Seams

set_option autoImplicit false

namespace PythonSyntax

open Text

/-! ### Tokens -/

namespace Quotation

variable {quote : Char} {triple : Bool} {text : List Char}

/-- A well-formed string ends behind a quote. -/
theorem body_unsplit (ordinary : quote ≠ '\r') (formed : (body quote triple text).fault = none) :
    Unsplit text (body quote triple text).length := by
  fun_induction body quote triple text with
  | case1 | case4 | case5 => cases formed
  | case2 text ih =>
      rw [Reading.length_after]
      exact (((ih formed).cons (body_pos formed) _).cons (Nat.succ_pos _) _).cons (Nat.succ_pos _) _
  | case3 c text other ih =>
      rw [Reading.length_after]
      exact ((ih formed).cons (body_pos formed) _).cons (Nat.succ_pos _) _
  | case6 => exact unsplit_one ordinary _
  | case7 text triple three =>
      refine unsplit_of_take fun c mem same => ordinary ?_
      have all : (quote :: text).take 3 = [quote, quote, quote] := congrArg (quote :: ·) three
      rw [all, same] at mem
      exact (by simpa using mem : '\r' = quote).symm
  | case8 text _ _ _ _ _ _ ih =>
      rw [Reading.length_after]
      exact (ih formed).cons (body_pos formed) _
  | case9 c text _ _ _ _ _ ih =>
      rw [Reading.length_after]
      exact (ih formed).cons (body_pos formed) _

theorem read_unsplit (isQuote : isQuote quote = true)
    (formed : (read (quote :: text)).fault = none) :
    Unsplit (quote :: text) (read (quote :: text)).length := by
  have ordinary : quote ≠ '\r' := by
    rintro rfl
    cases isQuote
  simp only [read] at formed ⊢
  split
  · rename_i three
    rw [if_pos three] at formed
    rw [Reading.length_after, Nat.add_comm]
    have inner : Unsplit ((quote :: text).drop 3) (body quote true (text.drop 2)).length :=
      body_unsplit ordinary formed
    exact inner.of_drop (body_pos formed)
  · rename_i notThree
    rw [if_neg notThree] at formed
    rw [Reading.length_after]
    exact (body_unsplit ordinary formed).cons (body_pos formed) _

end Quotation

namespace Lexeme

variable {text rest : List Char} {c : Char}

theorem word_unsplit (formed : (word text).fault = none) : Unsplit text (word text).length := by
  have run : Unsplit text (text.takeWhile isNamePart).length :=
    unsplit_takeWhile (isNamePart_of_special (by decide)) text
  unfold word at formed ⊢
  dsimp only at formed ⊢
  split
  · rename_i string
    rw [if_pos string] at formed
    obtain ⟨quotes, -⟩ := Bool.and_eq_true_iff.1 string
    cases left : text.drop (text.takeWhile isNamePart).length with
    | nil =>
        rw [left] at quotes
        cases quotes
    | cons quote behind =>
        rw [left] at formed quotes
        change Unsplit text (Reading.after _ _).length
        rw [Reading.length_after, Nat.add_comm]
        exact run.add (left ▸ Quotation.read_unsplit quotes formed)
  · split <;> exact run

/-- **A well-formed token does not end inside of a line break.** -/
theorem read_unsplit (inLine : isLineEnd c = false) (formed : (read (c :: rest)).fault = none) :
    Unsplit (c :: rest) (read (c :: rest)).length := by
  simp only [read] at formed ⊢
  split
  · rename_i begins
    rw [if_pos begins] at formed
    exact word_unsplit formed
  rename_i notName
  rw [if_neg notName] at formed
  split
  · refine unsplit_of_take fun d mem => ?_
    exact ne_of_isOrdinary (Numeral.read_ordinary _ d mem) (by decide)
  rename_i notNumber
  rw [if_neg notNumber] at formed
  split
  · rename_i quotes
    rw [if_pos quotes] at formed
    exact Quotation.read_unsplit quotes formed
  split
  · rename_i sign found
    refine unsplit_of_take fun d mem => ?_
    have spelled : (c :: rest).take sign.spelling.length = sign.spelling.toList := by
      simpa [TokenKind.spelling?] using (symbol_sits found).spelled
    rintro rfl
    cases spelling_inLine sign _ (spelled ▸ mem)
  · exact unsplit_one (by rintro rfl; cases inLine) rest

end Lexeme

namespace Scanner

open Lexeme

variable {text : List Char} {s t : Scanner}

/-! ### Steps -/

/-- A line begins at the offset. -/
def LineBegins (text : List Char) (offset : Nat) : Prop :=
  offset = 0 ∨ endsBreak text offset = true

/-- The scanner stands where it may: not inside of a line break, and where the indentation of a line
is to be measured, a line begins.  Behind a comment that stands alone in its line the same line has
still to be ended. -/
structure Upright (text : List Char) (s : Scanner) : Prop where
  unsplit : Unsplit text s.offset
  begins : s.atLineStart = true →
    LineBegins text s.offset ∨ ∀ c, s.rest.head? = some c → isLineEnd c = true

/-- What a step finds, if the scanner stands where it may.  A token begins outside of line breaks.  A
fault is found at a malformed literal, or behind the blanks with which a line begins that is
indented like no open block. -/
inductive Checked (text : List Char) (s : Scanner) : Found → Scanner → Prop
  | trivia {pieces : List Trivia} {t : Scanner} (upright : t.Upright text) :
      Checked text s (.trivia pieces) t
  | token {pieces : List Trivia} {token : Token} {t : Scanner} (upright : t.Upright text)
      (start : Unsplit text token.start) : Checked text s (.token pieces token) t
  | malformed {cause : LexicalFault} {position : Nat} {t : Scanner} (le : s.offset ≤ position)
      (inside : position < text.length) (unsplit : Unsplit text position)
      (fault : (Lexeme.read (text.drop position)).fault = some cause) :
      Checked text s (.fault cause position) t
  | unindent {t : Scanner} (start : s.atLineStart = true)
      (inside : s.offset + spaces s.rest < text.length)
      (unsplit : Unsplit text (s.offset + spaces s.rest))
      (code : ∀ c, text[s.offset + spaces s.rest]? = some c → c ≠ '#' ∧ isLineEnd c = false)
      (unmatched : (Indentation.change s.indents.blocks (Indentation.width s.options.tabSize
        (s.rest.take (spaces s.rest)))).1 = .unmatched) :
      Checked text s (.fault .unmatchedUnindent (s.offset + spaces s.rest)) t

theorem Checked.after {found : Found} (h : Checked text s found t) (pieces : List Trivia) :
    Checked text s (found.after pieces) t := by
  cases h with
  | trivia upright => exact .trivia upright
  | token upright start => exact .token upright start
  | malformed le inside unsplit fault => exact .malformed le inside unsplit fault
  | unindent start inside unsplit code unmatched =>
      exact .unindent start inside unsplit code unmatched

/-- Passing characters that do not end inside of a line break. -/
theorem Standing.unsplit_skip (h : s.Standing text) (here : Unsplit text s.offset) {count : Nat}
    (whole : Unsplit s.rest count) : Unsplit text (s.offset + count) :=
  here.add (h.rest ▸ whole)

theorem unsplit_spaces (rest : List Char) : Unsplit rest (spaces rest) :=
  unsplit_takeWhile (by decide) rest

theorem unsplit_comment (rest : List Char) : Unsplit rest (comment rest) :=
  unsplit_takeWhile (by decide) rest

theorem unsplit_lineBreak (rest : List Char) : Unsplit rest (lineBreak rest) := by
  unfold lineBreak
  split
  · exact (unsplit_one (by decide) _).cons Nat.one_pos _
  · rename_i c rest notBoth
    split
    · intro _ returns feed
      cases rest with
      | nil => cases feed
      | cons d rest => exact notBoth rest (Option.some.inj returns) (by cases feed; rfl)
    · exact unsplit_zero _
  · exact unsplit_zero _

/-- Behind a line break a line begins. -/
theorem lineBegins_lineBreak (h : s.Standing text) {c : Char}
    {rest : List Char} (front : s.rest = c :: rest) (ends : isLineEnd c = true) :
    LineBegins text (s.offset + lineBreak s.rest) := by
  refine Or.inr ?_
  rw [endsBreak_drop (lineBreak_pos front ends), ← h.rest, front]
  unfold lineBreak
  split
  · rename_i eq
    cases eq
    rfl
  · rename_i d more notBoth eq
    cases eq
    rw [if_pos ends]
    rcases Line.isLineEnd_iff.1 ends with rfl | rfl
    · rfl
    · cases rest with
      | nil => rfl
      | cons d rest =>
          have notFeed : d ≠ '\n' := fun feed => notBoth rest rfl (by rw [feed])
          simp [endsBreak, notFeed]
  · rename_i eq
    cases eq

theorem Standing.offset_lt (h : s.Standing text) (left : s.rest ≠ []) : s.offset < text.length := by
  rw [h.rest] at left
  exact Nat.lt_of_not_le (mt List.drop_eq_nil_iff.2 left)

/-- At the end of the text. -/
theorem finish_checked (base : Scanner) (here : Unsplit text s.offset) (empty : s.rest = []) :
    Checked text base s.finish.1 s.finish.2 := by
  have ended : ∀ c, s.rest.head? = some c → isLineEnd c = true := by simp [empty]
  unfold finish
  dsimp only
  split
  · exact .token ⟨here, fun _ => Or.inr ended⟩ here
  · split
    · exact .token ⟨here, fun _ => Or.inr ended⟩ here
    · rename_i first more closing
      have mark : first = s.mark .dedent :=
        List.eq_of_mem_replicate (closing ▸ List.mem_cons_self)
      exact .token ⟨here, fun _ => Or.inr ended⟩ (mark ▸ here)

/-- A step within a line. -/
theorem stepInLine_checked {base : Scanner} (le : base.offset ≤ s.offset) (h : s.Standing text)
    (here : Unsplit text s.offset) (inLine : s.rest ≠ [] → s.atLineStart = false) :
    Checked text base s.stepInLine.1 s.stepInLine.2 := by
  cases front : s.rest with
  | nil =>
      have finish : s.stepInLine = s.finish := by rw [stepInLine, front]
      rw [finish]
      exact finish_checked base here front
  | cons c rest =>
      have begun := inLine (by simp [front])
      have passed : ∀ {count : Nat}, Unsplit s.rest count → (s.skip count).Upright text :=
        fun whole => ⟨h.unsplit_skip here whole, fun start => nomatch start.symm.trans begun⟩
      rw [stepInLine_of_cons front]
      split
      · exact .trivia (passed (unsplit_spaces _))
      split
      · split
        · rename_i count found
          obtain rfl := typeComment?_eq found
          split
          · exact .token (passed (unsplit_comment _)) here
          · exact .trivia (passed (unsplit_comment _))
        · exact .trivia (passed (unsplit_comment _))
      split
      · rename_i continues
        have backslash : c = '\\' := of_decide_eq_true (Bool.and_eq_true_iff.1 continues).1
        refine .trivia (passed ?_)
        rw [front]
        exact (unsplit_one (by rw [backslash]; decide) rest).add (unsplit_lineBreak rest)
      split
      · rename_i ends
        split
        · exact .trivia (passed (unsplit_lineBreak _))
        · refine .token ⟨(passed (unsplit_lineBreak _)).unsplit, fun _ => ?_⟩ here
          exact Or.inl (lineBegins_lineBreak h front ends)
      · rename_i notEnd
        have inLine : isLineEnd c = false := by simpa using notEnd
        have inside := h.offset_lt (by simp [front])
        unfold readToken
        dsimp only
        split
        · rename_i cause fault
          exact .malformed le inside here (h.rest ▸ fault)
        · rename_i formed
          have whole : Unsplit s.rest (Lexeme.read s.rest).length := by
            rw [front] at formed ⊢
            exact read_unsplit inLine formed
          exact .token ⟨(passed whole).unsplit, fun start => nomatch start.symm.trans begun⟩ here

/-- A run ends where something else follows. -/
theorem head?_drop_takeWhile {p : Char → Bool} {rest : List Char} {c : Char}
    (head : (rest.drop (rest.takeWhile p).length).head? = some c) : p c = false := by
  induction rest with
  | nil => cases head
  | cons d rest ih =>
      cases goes : p d with
      | true =>
          rw [List.takeWhile_cons, goes] at head
          exact ih head
      | false =>
          rw [List.takeWhile_cons, goes] at head
          cases head
          exact goes

/-- A comment ends where its line does. -/
theorem lineEnd_of_comment {rest : List Char} {c : Char}
    (head : (rest.drop (comment rest)).head? = some c) : isLineEnd c = true := by
  simpa using head?_drop_takeWhile head

/-- A step behind the blanks with which a line begins. -/
theorem stepAtIndentation_checked (standing : (s.skip (spaces s.rest)).Standing text)
    (start : s.atLineStart = true) (there : Unsplit text (s.offset + spaces s.rest)) :
    Checked text s
      ((s.skip (spaces s.rest)).stepAtIndentation
        (Indentation.width s.options.tabSize (s.rest.take (spaces s.rest)))).1
      ((s.skip (spaces s.rest)).stepAtIndentation
        (Indentation.width s.options.tabSize (s.rest.take (spaces s.rest)))).2 := by
  cases front : (s.skip (spaces s.rest)).rest with
  | nil =>
      have finish := finish_checked s there front
      unfold stepAtIndentation
      rw [front]
      exact finish
  | cons c rest =>
      rw [stepAtIndentation_of_cons front]
      split
      · exact .trivia ⟨standing.unsplit_skip there (unsplit_comment _),
          fun _ => Or.inr fun _ => lineEnd_of_comment⟩
      rename_i notComment
      split
      · rename_i ends
        exact .trivia ⟨standing.unsplit_skip there (unsplit_lineBreak _),
          fun _ => Or.inl (lineBegins_lineBreak standing front ends)⟩
      rename_i notEnd
      cases change : (Indentation.change (s.skip (spaces s.rest)).indents.blocks
        (Indentation.width s.options.tabSize (s.rest.take (spaces s.rest)))).1 with
      | stays =>
          exact stepInLine_checked (s := (s.skip (spaces s.rest)).begun _) (Nat.le_add_right _ _)
            ⟨standing.le, standing.rest, standing.pending⟩ there fun _ => rfl
      | opens => exact .token ⟨there, nofun⟩ there
      | closes count => exact .token ⟨there, nofun⟩ there
      | unmatched =>
          refine .unindent start (standing.offset_lt (by simp [front])) there ?_ change
          intro d here
          have head : (text.drop (s.offset + spaces s.rest)).head? = some c :=
            congrArg List.head? (standing.rest.symm.trans front)
          rw [List.head?_drop, here] at head
          cases head
          exact ⟨notComment, by simpa using notEnd⟩

/-- **What a step finds, and where.** -/
theorem step_checked (h : s.Standing text) (settled : s.Settled) (quiet : s.pending = [])
    (here : Unsplit text s.offset) : Checked text s s.step.1 s.step.2 := by
  unfold step
  split
  · rename_i fresh
    simp only [Bool.and_eq_true, decide_eq_true_eq] at fresh
    exact (stepAtIndentation_checked (h.skip quiet (spaces_le s.rest)) fresh.1
      (h.unsplit_skip here (unsplit_spaces _))).after _
  · rename_i notFresh
    refine stepInLine_checked (Nat.le_refl _) h here fun left => ?_
    cases start : s.atLineStart with
    | false => rfl
    | true =>
        rcases settled.outside start with outside | empty
        · simp [start, outside] at notFresh
        · exact absurd empty left

/-! ### Tokens -/

theorem Checked.upright_of_trivia {pieces : List Trivia} (h : Checked text s (.trivia pieces) t) :
    t.Upright text := by
  cases h with
  | trivia upright => exact upright

theorem Checked.of_token {pieces : List Trivia} {token : Token}
    (h : Checked text s (.token pieces token) t) : t.Upright text ∧ Unsplit text token.start := by
  cases h with
  | token upright start => exact ⟨upright, start⟩

/-- Passing trivia, the scanner stands where it may. -/
theorem Idles.upright {u : Scanner} (idles : Idles s u) (h : s.Standing text) (settled : s.Settled)
    (quiet : s.pending = []) (upright : s.Upright text) : u.Upright text := by
  have kept := idles.induction
    (P := fun u => u.Standing text ∧ u.Settled ∧ u.pending = [] ∧ u.Upright text)
    ⟨h, settled, quiet, upright⟩
  refine (kept ?_).2.2.2
  rintro v t pieces stepped ⟨standing, settled, quiet, upright⟩
  have passes := step_passes standing quiet
  have keeps := step_keeps settled quiet
  have checked := step_checked standing settled quiet upright.unsplit
  rw [stepped] at passes keeps checked
  exact ⟨passes.standing, keeps.settled, passes.quiet pieces rfl, checked.upright_of_trivia⟩

theorem readFrom_upright {trivia : List Trivia} {token : Token} (h : s.Standing text)
    (settled : s.Settled) (quiet : s.pending = []) (upright : s.Upright text)
    (result : s.readFrom trivia = (.ok token, t)) : t.Upright text ∧ Unsplit text token.start := by
  obtain ⟨u, pieces, last, front, idles, stepped, rfl⟩ := exists_step_of_read result
  have alike := idles.alike settled quiet
  have standing := (idles.standing h quiet).1
  have checked := step_checked standing alike.settled alike.quiet
    (idles.upright h settled quiet upright).unsplit
  rw [stepped] at checked
  exact checked.of_token

/-- A token that is kept begins where the scanner stands. -/
theorem Standing.start_of_pending {token : Token} (h : s.Standing text) (mem : token ∈ s.pending) :
    token.start = s.offset := by
  have pieces := (h.pending token mem).1
  have bare : token.trivia = [] := by simpa [Token.pieces] using congrArg List.length pieces
  have piece : token.piece = ⟨s.offset, s.offset, ""⟩ := by simpa [Token.pieces, bare] using pieces
  exact congrArg Piece.start piece

theorem next_upright {token : Token} (h : s.Standing text) (settled : s.Settled)
    (upright : s.Upright text) (result : s.next = (.ok token, t)) :
    t.Upright text ∧ Unsplit text token.start := by
  cases kept : s.pending with
  | nil =>
      rw [next_of_quiet kept] at result
      exact readFrom_upright h settled kept upright result
  | cons first pending =>
      rw [next, kept] at result
      cases result
      refine ⟨⟨upright.unsplit, upright.begins⟩, ?_⟩
      rw [h.start_of_pending (kept ▸ List.mem_cons_self)]
      exact upright.unsplit

/-- Moving to the next token, the scanner stands where it may, and so does the token. -/
theorem advance_upright (h : s.Standing text) (settled : s.Settled) (upright : s.Upright text)
    (start : Unsplit text s.current.start) (moved : s.advance = (none, t)) :
    t.Upright text ∧ Unsplit text t.current.start := by
  unfold advance at moved
  split at moved
  · cases moved
    exact ⟨upright, start⟩
  · split at moved
    · rename_i token u result
      cases moved
      have next := next_upright h settled upright result
      exact ⟨⟨next.1.unsplit, next.1.begins⟩, next.2⟩
    · cases moved

theorem initial_upright (options : Options) (text : List Char) :
    (initial options text).Upright text :=
  ⟨unsplit_zero text, fun _ => Or.inl (Or.inl rfl)⟩

theorem ofText_upright {options : Options} (opened : ofText options text = .ok s) :
    s.Upright text ∧ Unsplit text s.current.start := by
  unfold ofText at opened
  split at opened
  · rename_i token u result
    cases opened
    have next := next_upright (initial_standing options text) (initial_settled options text)
      (initial_upright options text) result
    exact ⟨⟨next.1.unsplit, next.1.begins⟩, next.2⟩
  · cases opened

end Scanner

/-! ### Faults -/

/-- Where a fault is reported, if blocks with the given indentation are open: at the beginning of a
malformed literal; or behind the blanks with which a line begins that is indented less than one of
the blocks, but like none of them. -/
inductive FaultPlace (options : Options) (text : List Char) (levels : List Nat) :
    SyntaxError → Prop
  | malformed {cause : LexicalFault} {position : Nat}
      (fault : (Lexeme.read (text.drop position)).fault = some cause) :
      FaultPlace options text levels ⟨.lexical cause, position⟩
  | unindent {line : Nat} {blanks : List Char} {c : Char} {code : List Char}
      (begins : Scanner.LineBegins text line) (left : text.drop line = blanks ++ c :: code)
      (blank : ∀ c ∈ blanks, Lexeme.isSpace c = true)
      (other : Lexeme.isSpace c = false ∧ Lexeme.isLineEnd c = false ∧ c ≠ '#')
      (less : ∃ level ∈ levels, Indentation.width options.tabSize blanks < level)
      (unmatched : Indentation.width options.tabSize blanks ∉ levels) :
      FaultPlace options text levels ⟨.lexical .unmatchedUnindent, line + blanks.length⟩

namespace Scanner

open Lexeme

variable {text : List Char} {s t : Scanner}

/-- A fault that is met behind the scanner. -/
structure FaultBehind (text : List Char) (s : Scanner) (error : SyntaxError) : Prop where
  behind : s.offset ≤ error.position
  inside : error.position < text.length
  unsplit : Unsplit text error.position
  place : FaultPlace s.options text s.levels error

/-- Of blocks that descend to the margin, those that are left have the width if one of them has. -/
theorem headD_dropWhile {blocks : List Nat} {width : Nat}
    (descending : (blocks ++ [0]).Pairwise (· > ·)) (mem : width ∈ blocks ++ [0]) :
    (blocks.dropWhile (width < ·)).headD 0 = width := by
  induction blocks with
  | nil => exact (List.mem_singleton.1 mem).symm
  | cons block blocks ih =>
      obtain ⟨deeper, descending⟩ := List.pairwise_cons.1 descending
      by_cases less : width < block
      · have mem : width ∈ blocks ++ [0] := by
          rcases List.mem_cons.1 mem with rfl | mem
          · exact absurd less (Nat.lt_irrefl _)
          · exact mem
        rw [List.dropWhile_cons_of_pos (by simpa using less)]
        exact ih descending mem
      · rcases List.mem_cons.1 mem with rfl | mem
        · rw [List.dropWhile_cons_of_neg (by simp)]
          rfl
        · exact absurd (deeper width mem) less

/-- A width that matches no block. -/
theorem change_unmatched {blocks : List Nat} {width : Nat}
    (descending : (blocks ++ [0]).Pairwise (· > ·))
    (h : (Indentation.change blocks width).1 = .unmatched) :
    (∃ level ∈ blocks, width < level) ∧ width ∉ blocks ++ [0] := by
  unfold Indentation.change at h
  dsimp only at h
  split at h
  · cases h
  · split at h
    · rename_i less
      split at h
      · cases h
      · rename_i other
        refine ⟨?_, fun mem => other (headD_dropWhile descending mem)⟩
        cases blocks with
        | nil => exact absurd less (Nat.not_lt_zero _)
        | cons top blocks => exact ⟨top, List.mem_cons_self, less⟩
    · cases h

/-- The fault of a step. -/
theorem step_fault {cause : LexicalFault} {position : Nat} (h : s.Standing text) (nested : s.Nested)
    (quiet : s.pending = []) (upright : s.Upright text)
    (stepped : s.step = (.fault cause position, t)) :
    FaultBehind text s ⟨.lexical cause, position⟩ := by
  have checked := step_checked h nested.settled quiet upright.unsplit
  rw [stepped] at checked
  cases checked with
  | malformed le inside unsplit fault => exact ⟨le, inside, unsplit, .malformed fault⟩
  | unindent start inside unsplit code unmatched =>
      refine ⟨Nat.le_add_right _ _, inside, unsplit, ?_⟩
      have blanks : s.rest.take (spaces s.rest) = s.rest.takeWhile isSpace :=
        take_takeWhile_length isSpace s.rest
      obtain ⟨c, rest, behind⟩ : ∃ c rest, s.rest.drop (spaces s.rest) = c :: rest := by
        refine List.exists_cons_of_ne_nil ?_
        rw [h.rest, List.drop_drop, ← h.rest]
        exact mt List.drop_eq_nil_iff.1 (Nat.not_le_of_lt inside)
      have left : s.rest = s.rest.takeWhile isSpace ++ c :: rest := by
        rw [← behind, ← blanks, List.take_append_drop]
      have notBlank : isSpace c = false :=
        head?_drop_takeWhile (congrArg List.head? behind)
      have here : text[s.offset + spaces s.rest]? = some c := by
        rw [← List.head?_drop, ← List.drop_drop, ← h.rest, behind]
        rfl
      obtain ⟨notComment, notEnd⟩ := code c here
      have begins : LineBegins text s.offset := by
        refine (upright.begins start).resolve_right fun ended => ?_
        -- The line would end at once.
        cases run : s.rest.takeWhile isSpace with
        | nil =>
            rw [run, List.nil_append] at left
            rw [ended c (by rw [left]; rfl)] at notEnd
            cases notEnd
        | cons d more =>
            have blank : isSpace d = true := List.mem_takeWhile_imp (run ▸ List.mem_cons_self)
            rw [run, List.cons_append] at left
            rcases Line.isLineEnd_iff.1 (ended d (by rw [left]; rfl)) with rfl | rfl <;> cases blank
      rw [blanks] at unmatched
      obtain ⟨⟨level, mem, less⟩, other⟩ := change_unmatched nested.descending unmatched
      exact .unindent begins (h.rest.symm.trans left) (fun _ => List.mem_takeWhile_imp)
        ⟨notBlank, notEnd, notComment⟩ ⟨level, by simp [levels_eq, mem], less⟩
        (by simpa [levels_eq, or_comm] using other)

/-- **Where the scanner finds faults.** -/
theorem next_fault {error : SyntaxError} (h : s.Standing text) (nested : s.Nested)
    (upright : s.Upright text) (failed : s.next = (.error error, t)) : FaultBehind text s error := by
  cases kept : s.pending with
  | cons token pending =>
      rw [next, kept] at failed
      cases failed
  | nil =>
      rw [next, kept] at failed
      obtain ⟨u, cause, position, idles, stepped, rfl⟩ :=
        exists_step_of_read_error (Nat.le_refl _) failed
      have alike := idles.alike nested.settled kept
      obtain ⟨standing, quiet, le⟩ := idles.standing h kept
      have fault := step_fault standing ⟨alike.settled, alike.blocks ▸ nested.descending⟩ quiet
        (idles.upright h nested.settled kept upright) stepped
      have levels : u.levels = s.levels := by rw [u.levels_eq, alike.blocks, s.levels_eq]
      exact ⟨Nat.le_trans le fault.behind, fault.inside, fault.unsplit,
        levels ▸ alike.options ▸ fault.place⟩

theorem advance_fault {error : SyntaxError} (h : s.Standing text) (nested : s.Nested)
    (upright : s.Upright text) (failed : s.advance = (some error, t)) :
    FaultBehind text s error := by
  unfold advance at failed
  split at failed
  · cases failed
  · split at failed
    · cases failed
    · rename_i found
      cases failed
      exact next_fault h nested upright found

theorem ofText_fault {options : Options} {error : SyntaxError}
    (failed : ofText options text = .error error) :
    FaultBehind text (initial options text) error := by
  unfold ofText at failed
  split at failed
  · cases failed
  · rename_i found
    cases failed
    exact next_fault (initial_standing options text) (initial_nested options text)
      (initial_upright options text) found

end Scanner

end PythonSyntax
