/-
**Another rest behind the same front.**

Up to a place in a text the scanner takes the same steps whatever follows that place, provided that
a blank or a comment follows there, and that a token has just ended or has not ended yet.

Main definitions:

* `PythonSyntax.Token.Written` — a token of a line, or its end, that is written in the text;
* `PythonSyntax.Scanner.withRest` — a scanner with other characters left;
* `PythonSyntax.Stops` — where the scanner may have come.

Main results:

* `PythonSyntax.Scanner.step_graft` — a step is the same with another rest;
* `PythonSyntax.Scanner.ofText_graft`, `PythonSyntax.Scanner.path_graft` — **so is the way to a
  token**.
-/

import PythonSyntax.Proofs.Lexical.Acts
import PythonSyntax.Proofs.Lexical.Seams

set_option autoImplicit false

namespace PythonSyntax

open Lexeme

/-- The kinds of tokens that are read off a line by themselves, comments apart. -/
def TokenKind.isLexeme (kind : TokenKind) : Bool := !kind.isLayout && kind ≠ .typeComment

/-- A token that is written in the text, and is no comment: one that is read off a line, or the end
of a line. -/
def Token.Written (token : Token) : Prop := token.kind.isLexeme = true ∨ token.BreaksLine

/-- Where a step may have led: not yet to the end of the front, or behind a token. -/
def Stops (front : List Char) (found : Found) : Prop :=
  front ≠ [] ∨ ∃ pieces token, found = .token pieces token ∧ token.Written

variable {front rest behind text : List Char} {c : Char} {count : Nat}

theorem Stops.of_trivia {pieces : List Trivia} (stops : Stops front (.trivia pieces)) :
    front ≠ [] := by
  rcases stops with some | ⟨_, _, eq, -⟩
  · exact some
  · cases eq

theorem Stops.of_token {pieces : List Trivia} {token : Token}
    (stops : Stops front (.token pieces token)) (other : ¬token.Written) : front ≠ [] := by
  rcases stops with some | ⟨_, _, eq, written⟩
  · exact some
  · cases eq
    exact absurd written other

theorem Stops.of_after {found : Found} {pieces : List Trivia}
    (stops : Stops front (found.after pieces)) : Stops front found := by
  rcases stops with some | ⟨more, token, eq, written⟩
  · exact Or.inl some
  · cases found with
    | token more last =>
        cases eq
        exact Or.inr ⟨more, token, rfl, written⟩
    | trivia _ => cases eq
    | fault _ _ => cases eq

theorem not_written {token : Token}
    (other : (token.kind.isLexeme || decide (token.kind = .newline)) = false) :
    ¬token.Written := by
  rw [Bool.or_eq_false_iff, decide_eq_false_iff_not] at other
  rintro (isLexeme | breaks)
  · rw [other.1] at isLexeme
    cases isLexeme
  · exact other.2 breaks.1

/-! ### Pieces of a line -/

theorem takeWhile_graft {p : Char → Bool} (split : text = front ++ rest)
    (short : (text.takeWhile p).length < front.length) :
    (front ++ c :: behind).takeWhile p = text.takeWhile p := by
  subst split
  exact takeWhile_seam (Or.inl short)

theorem spaces_graft (split : text = front ++ rest) (short : spaces text < front.length) :
    spaces (front ++ c :: behind) = spaces text :=
  congrArg List.length (takeWhile_graft split short)

theorem comment_graft (split : text = front ++ rest) (short : comment text < front.length) :
    comment (front ++ c :: behind) = comment text :=
  congrArg List.length (takeWhile_graft split short)

theorem typeComment?_graft (split : text = front ++ rest) (short : comment text < front.length) :
    typeComment? (front ++ c :: behind) = typeComment? text := by
  have le : comment (front ++ rest) ≤ front.length := Nat.le_of_lt (split ▸ short)
  unfold typeComment?
  rw [comment_graft split short, split, List.take_append_of_le_length le,
    List.take_append_of_le_length le]

theorem notLineEnd_of_isSeparator (separates : isSeparator c = true) : isLineEnd c = false :=
  eq_false_of_isSeparator separates (by decide)

theorem lineBreak_graft (separates : isSeparator c = true) (split : text = front ++ rest)
    (some : front ≠ []) (within : lineBreak text ≤ front.length) :
    lineBreak (front ++ c :: behind) = lineBreak text := by
  subst split
  match front with
  | [] => exact absurd rfl some
  | [d] =>
    have notFeed : c ≠ '\n' := ne_of_isSeparator separates (by decide)
    by_cases isReturn : d = '\r'
    · subst isReturn
      cases rest with
      | nil => simp [lineBreak, notFeed]
      | cons e rest =>
          by_cases feed : e = '\n'
          · subst feed
            simp [lineBreak] at within
          · simp [lineBreak, notFeed, feed]
    · simp [lineBreak, isReturn]
  | d :: e :: front =>
    by_cases isReturn : d = '\r' <;> by_cases feed : e = '\n' <;> simp_all [lineBreak]

/-- What is no line end now may have been one before. -/
theorem lineEnd_before (separates : isSeparator c = true)
    (ends : (front ++ c :: behind).head?.any isLineEnd = true) :
    (front ++ rest).head?.any isLineEnd = true := by
  cases front with
  | cons d front => exact ends
  | nil =>
      have isEnd : isLineEnd c = true := ends
      rw [notLineEnd_of_isSeparator separates] at isEnd
      cases isEnd

namespace Scanner

variable {s t u : Scanner} {found : Found} {front' : List Char}

/-! ### Steps -/

/-- The scanner, with other characters left. -/
def withRest (s : Scanner) (rest : List Char) : Scanner := { s with rest := rest }

@[simp] theorem withRest_rest (rest : List Char) : (s.withRest rest).rest = rest := rfl

theorem withRest_self {rest : List Char} (same : s.rest = rest) : s.withRest rest = s := by
  rw [withRest, ← same]

theorem skip_withRest (le : count ≤ front.length) :
    (s.withRest (front ++ behind)).skip count =
      (s.skip count).withRest (front.drop count ++ behind) := by
  simp only [withRest, skip, List.drop_append_of_le_length le]

theorem lexeme_withRest (split : s.rest = front ++ rest) (le : count ≤ front.length)
    (kind : TokenKind) : (s.withRest (front ++ behind)).lexeme kind count = s.lexeme kind count := by
  simp only [withRest, lexeme, split, List.take_append_of_le_length le]

theorem piece_withRest (split : s.rest = front ++ rest) (le : count ≤ front.length)
    (kind : TriviaKind) : (s.withRest (front ++ behind)).piece kind count = s.piece kind count := by
  simp only [withRest, piece, split, List.take_append_of_le_length le]

/-- What has been skipped lies in the front. -/
theorem le_of_skip (split : s.rest = front ++ rest) (within : count ≤ s.rest.length)
    (left : s.rest.drop count = front' ++ rest) :
    count ≤ front.length ∧ front' = front.drop count := by
  have lengths := congrArg List.length left
  have whole := congrArg List.length split
  simp only [List.length_drop, List.length_append] at lengths whole
  have le : count ≤ front.length := by omega
  refine ⟨le, ?_⟩
  rw [split, List.drop_append_of_le_length le] at left
  exact (List.append_cancel_right left).symm

theorem lt_of_skip (split : s.rest = front ++ rest) (within : count ≤ s.rest.length)
    (left : s.rest.drop count = front' ++ rest) (some : front' ≠ []) :
    count < front.length ∧ front' = front.drop count := by
  obtain ⟨-, rfl⟩ := le_of_skip split within left
  exact ⟨by simpa using some, rfl⟩

/-- Passing trivia is the same with another rest. -/
theorem passTrivia_graft (split : s.rest = front ++ rest) (within : count ≤ s.rest.length)
    {kind : TriviaKind} (left : (s.passTrivia kind count).2.rest = front' ++ rest)
    (stops : Stops front' (s.passTrivia kind count).1) :
    count < front.length ∧ (s.withRest (front ++ c :: behind)).passTrivia kind count =
      ((s.passTrivia kind count).1, (s.passTrivia kind count).2.withRest (front' ++ c :: behind)) := by
  obtain ⟨short, rfl⟩ := lt_of_skip split within left stops.of_trivia
  have le := Nat.le_of_lt short
  refine ⟨short, ?_⟩
  unfold passTrivia
  rw [skip_withRest le, piece_withRest split le]

/-- The first character that is left is the first one of the front. -/
theorem exists_front {d : Char} {more : List Char} (split : s.rest = front ++ rest)
    (whole : s.rest = d :: more) (some : front ≠ []) :
    ∃ others, front = d :: others ∧ more = others ++ rest := by
  obtain ⟨e, others, rfl⟩ := List.exists_cons_of_ne_nil some
  rw [split, List.cons_append, List.cons.injEq] at whole
  exact ⟨others, by rw [whole.1], whole.2.symm⟩

theorem front_ne_nil (short : count < front.length) : front ≠ [] :=
  List.length_pos_iff.1 (Nat.zero_lt_of_lt short)

/-- What is found at the end of the text is not written there. -/
theorem finish_not_written {pieces : List Trivia} {token : Token}
    (found : s.finish.1 = .token pieces token) : ¬token.Written := by
  unfold finish at found
  dsimp only at found
  split at found
  · cases found
    rintro (isLexeme | breaks)
    · cases isLexeme
    · exact breaks.2 rfl
  · split at found
    · cases found
      exact not_written rfl
    · rename_i first more closing
      cases found
      rw [List.eq_of_mem_replicate (closing ▸ List.mem_cons_self : token ∈ List.replicate _ _)]
      exact not_written rfl

theorem finish_rest (s : Scanner) : s.finish.2.rest = s.rest := by
  unfold finish
  dsimp only
  split
  · rfl
  · split <;> rfl

/-- At the end of the text no step stops in front of something. -/
theorem not_stops_of_finish (split : s.rest = front ++ rest) (empty : s.rest = [])
    (left : s.finish.2.rest = front' ++ rest) : ¬Stops front' s.finish.1 := by
  obtain ⟨-, rfl⟩ := List.append_eq_nil_iff.1 (split.symm.trans empty)
  rw [finish_rest, empty, List.append_nil] at left
  rintro (some | ⟨pieces, token, found, written⟩)
  · exact some left.symm
  · exact finish_not_written found written

/-- Reading a token is the same with another rest. -/
theorem readToken_graft (separates : isSeparator c = true) (split : s.rest = front ++ rest)
    (some : s.rest ≠ []) (left : s.readToken.2.rest = front' ++ rest)
    (formed : ∀ cause position, s.readToken.1 ≠ .fault cause position) :
    front ≠ [] ∧ (s.withRest (front ++ c :: behind)).readToken =
      (s.readToken.1, s.readToken.2.withRest (front' ++ c :: behind)) := by
  have sits := Lexeme.read_sits some
  unfold readToken at left formed ⊢
  dsimp only at left formed ⊢
  cases fault : (Lexeme.read s.rest).fault with
  | some cause =>
      simp only [fault] at formed
      exact absurd rfl (formed cause s.offset)
  | none =>
      simp only [fault] at left
      obtain ⟨le, rfl⟩ := le_of_skip split sits.within left
      have nonempty : front ≠ [] := List.length_pos_iff.1 (Nat.lt_of_lt_of_le sits.pos le)
      have same : Lexeme.read (s.withRest (front ++ c :: behind)).rest = Lexeme.read s.rest := by
        rw [split] at fault le ⊢
        exact Lexeme.read_seam separates nonempty fault le
      refine ⟨nonempty, ?_⟩
      simp only [same, fault, lexeme_withRest split le, skip_withRest le]
      rfl

/-- Passing a comment is the same with another rest, and it declares a type as before. -/
theorem passComment_graft (split : s.rest = front ++ rest)
    (left : (s.passTrivia .comment (comment s.rest)).2.rest = front' ++ rest)
    (stops : Stops front' (s.passTrivia .comment (comment s.rest)).1) :
    front ≠ [] ∧ typeComment? (front ++ c :: behind) = typeComment? s.rest ∧
      (s.withRest (front ++ c :: behind)).passTrivia .comment (comment (front ++ c :: behind)) =
        ((s.passTrivia .comment (comment s.rest)).1,
          (s.passTrivia .comment (comment s.rest)).2.withRest (front' ++ c :: behind)) := by
  obtain ⟨short, same⟩ := passTrivia_graft split (comment_le _) left stops
  exact ⟨front_ne_nil short, typeComment?_graft split short,
    (congrArg (passTrivia _ _) (comment_graft split short)).trans same⟩

/-- Passing a line end is the same with another rest. -/
theorem passNewline_graft (separates : isSeparator c = true) (split : s.rest = front ++ rest)
    (left : (s.passTrivia .newline (lineBreak s.rest)).2.rest = front' ++ rest)
    (stops : Stops front' (s.passTrivia .newline (lineBreak s.rest)).1) :
    front ≠ [] ∧
      (s.withRest (front ++ c :: behind)).passTrivia .newline (lineBreak (front ++ c :: behind)) =
        ((s.passTrivia .newline (lineBreak s.rest)).1,
          (s.passTrivia .newline (lineBreak s.rest)).2.withRest (front' ++ c :: behind)) := by
  obtain ⟨short, same⟩ := passTrivia_graft split (lineBreak_le _) left stops
  have some := front_ne_nil short
  exact ⟨some,
    (congrArg (passTrivia _ _)
      (lineBreak_graft separates split some (Nat.le_of_lt short))).trans same⟩

/-- Passing a line end behind a backslash is the same with another rest. -/
theorem passContinuation_graft (separates : isSeparator c = true) (split : s.rest = front ++ rest)
    {d : Char} {more : List Char} (whole : s.rest = d :: more)
    (ends : more.head?.any isLineEnd = true)
    (left : (s.passTrivia .continuation (1 + lineBreak more)).2.rest = front' ++ rest)
    (stops : Stops front' (s.passTrivia .continuation (1 + lineBreak more)).1) :
    ∃ others, front = d :: others ∧ (others ++ c :: behind).head?.any isLineEnd = true ∧
      (s.withRest (front ++ c :: behind)).passTrivia .continuation
          (1 + lineBreak (others ++ c :: behind)) =
        ((s.passTrivia .continuation (1 + lineBreak more)).1,
          (s.passTrivia .continuation (1 + lineBreak more)).2.withRest (front' ++ c :: behind)) := by
  have pos : 0 < lineBreak more := by
    cases more with
    | nil => cases ends
    | cons e more => exact lineBreak_pos rfl ends
  have within : 1 + lineBreak more ≤ s.rest.length := by
    have := lineBreak_le more
    rw [whole, List.length_cons]
    omega
  obtain ⟨short, -⟩ := lt_of_skip split within left stops.of_trivia
  obtain ⟨others, rfl, rfl⟩ := exists_front split whole (front_ne_nil short)
  rw [List.length_cons] at short
  have some : others ≠ [] := List.length_pos_iff.1 (by omega)
  have ends' : (others ++ c :: behind).head?.any isLineEnd = true := by
    cases others with
    | nil => exact absurd rfl some
    | cons e others => exact ends
  have within' : lineBreak (others ++ rest) ≤ others.length := by omega
  refine ⟨others, rfl, ends', ?_⟩
  rw [lineBreak_graft separates rfl some within']
  exact (passTrivia_graft split within left stops).2

/-- **A step within a line** is the same with another rest. -/
theorem stepInLine_graft (separates : isSeparator c = true) (split : s.rest = front ++ rest)
    (left : s.stepInLine.2.rest = front' ++ rest) (stops : Stops front' s.stepInLine.1)
    (formed : ∀ cause position, s.stepInLine.1 ≠ .fault cause position) :
    front ≠ [] ∧ (s.withRest (front ++ c :: behind)).stepInLine =
      (s.stepInLine.1, s.stepInLine.2.withRest (front' ++ c :: behind)) := by
  -- What a step passes or reads ends in the front, so the next character decides as it did before.
  cases whole : s.rest with
  | nil =>
      have finish : s.stepInLine = s.finish := by rw [stepInLine, whole]
      rw [finish] at left stops
      exact absurd stops (not_stops_of_finish split whole left)
  | cons d more =>
      have step := stepInLine_of_cons whole
      have graft : ∀ {others}, front = d :: others →
          (s.withRest (front ++ c :: behind)).rest = d :: (others ++ c :: behind) := by
        rintro others rfl
        rfl
      by_cases blank : isSpace d = true
      · rw [if_pos blank] at step
        rw [step] at left stops ⊢
        obtain ⟨short, same⟩ := passTrivia_graft split (spaces_le _) left stops
        obtain ⟨others, eq, -⟩ := exists_front split whole (front_ne_nil short)
        refine ⟨front_ne_nil short, ?_⟩
        rw [stepInLine_of_cons (graft eq), if_pos blank, ← same]
        exact congrArg (passTrivia _ _) (spaces_graft split short)
      rw [if_neg blank] at step
      by_cases mark : d = '#'
      · rw [if_pos mark] at step
        cases found : typeComment? s.rest with
        | none =>
            rw [found] at step
            rw [step] at left stops ⊢
            obtain ⟨some, kind, same⟩ := passComment_graft split left stops
            obtain ⟨others, eq, -⟩ := exists_front split whole some
            refine ⟨some, ?_⟩
            rw [stepInLine_of_cons (graft eq), if_neg blank, if_pos mark, withRest_rest, kind, found]
            exact same
        | some count =>
            rw [found] at step
            dsimp only at step
            obtain rfl := typeComment?_eq found
            by_cases taken : (s.options.typeComments && s.lineHasContent) = true
            · rw [if_pos taken] at step
              rw [step] at left stops ⊢
              obtain ⟨short, rfl⟩ := lt_of_skip split (comment_le _) left
                (stops.of_token (not_written rfl))
              obtain ⟨others, eq, -⟩ := exists_front split whole (front_ne_nil short)
              refine ⟨front_ne_nil short, ?_⟩
              rw [stepInLine_of_cons (graft eq), if_neg blank, if_pos mark, withRest_rest,
                typeComment?_graft split short, found]
              refine (if_pos taken).trans ?_
              rw [lexeme_withRest split (Nat.le_of_lt short), skip_withRest (Nat.le_of_lt short)]
            · rw [if_neg taken] at step
              rw [step] at left stops ⊢
              obtain ⟨some, kind, same⟩ := passComment_graft split left stops
              obtain ⟨others, eq, -⟩ := exists_front split whole some
              refine ⟨some, ?_⟩
              rw [stepInLine_of_cons (graft eq), if_neg blank, if_pos mark, withRest_rest, kind,
                found]
              exact (if_neg taken).trans same
      rw [if_neg mark] at step
      by_cases continues : (d = '\\' && more.head?.any isLineEnd) = true
      · rw [if_pos continues] at step
        rw [step] at left stops ⊢
        obtain ⟨backslash, isEnd⟩ := Bool.and_eq_true_iff.1 continues
        obtain ⟨others, eq, isEnd', same⟩ :=
          passContinuation_graft separates split whole isEnd left stops
        refine ⟨eq ▸ List.cons_ne_nil _ _, ?_⟩
        rw [stepInLine_of_cons (graft eq), if_neg blank, if_neg mark,
          if_pos (Bool.and_eq_true_iff.2 ⟨backslash, isEnd'⟩)]
        exact same
      rw [if_neg continues] at step
      have continues' : ∀ {others}, more = others ++ rest →
          ¬(d = '\\' && (others ++ c :: behind).head?.any isLineEnd) = true := by
        rintro others rfl continues'
        obtain ⟨backslash, isEnd⟩ := Bool.and_eq_true_iff.1 continues'
        exact continues (Bool.and_eq_true_iff.2 ⟨backslash, lineEnd_before separates isEnd⟩)
      by_cases ends : isLineEnd d = true
      · rw [if_pos ends] at step
        by_cases inside : (decide (0 < s.nesting) || !s.lineHasContent) = true
        · rw [if_pos inside] at step
          rw [step] at left stops ⊢
          obtain ⟨some, same⟩ := passNewline_graft separates split left stops
          obtain ⟨others, eq, more⟩ := exists_front split whole some
          refine ⟨some, ?_⟩
          rw [stepInLine_of_cons (graft eq), if_neg blank, if_neg mark, if_neg (continues' more),
            if_pos ends]
          exact (if_pos inside).trans same
        · rw [if_neg inside] at step
          rw [step] at left ⊢
          obtain ⟨le, rfl⟩ := le_of_skip split (lineBreak_le _) left
          have some : front ≠ [] :=
            List.length_pos_iff.1 (Nat.lt_of_lt_of_le (lineBreak_pos whole ends) le)
          obtain ⟨others, eq, more⟩ := exists_front split whole some
          refine ⟨some, ?_⟩
          rw [stepInLine_of_cons (graft eq), if_neg blank, if_neg mark, if_neg (continues' more),
            if_pos ends, withRest_rest, lineBreak_graft separates split some le]
          refine (if_neg inside).trans ?_
          rw [lexeme_withRest split le, skip_withRest le]
          rfl
      · rw [if_neg ends] at step
        rw [step] at left formed ⊢
        obtain ⟨some, same⟩ := readToken_graft separates split (by simp [whole]) left formed
        obtain ⟨others, eq, more⟩ := exists_front split whole some
        refine ⟨some, ?_⟩
        rw [stepInLine_of_cons (graft eq), if_neg blank, if_neg mark, if_neg (continues' more),
          if_neg ends]
        exact same

/-- **A step behind the indentation of a line** is the same with another rest. -/
theorem stepAtIndentation_graft (separates : isSeparator c = true) (split : s.rest = front ++ rest)
    {width : Nat} (left : (s.stepAtIndentation width).2.rest = front' ++ rest)
    (stops : Stops front' (s.stepAtIndentation width).1)
    (formed : ∀ cause position, (s.stepAtIndentation width).1 ≠ .fault cause position) :
    front ≠ [] ∧ (s.withRest (front ++ c :: behind)).stepAtIndentation width =
      ((s.stepAtIndentation width).1,
        (s.stepAtIndentation width).2.withRest (front' ++ c :: behind)) := by
  cases whole : s.rest with
  | nil =>
      have finish : s.stepAtIndentation width = s.finish := by rw [stepAtIndentation, whole]
      rw [finish] at left stops
      exact absurd stops (not_stops_of_finish split whole left)
  | cons d more =>
      have step := stepAtIndentation_of_cons whole width
      have graft : ∀ {others}, front = d :: others →
          (s.withRest (front ++ c :: behind)).rest = d :: (others ++ c :: behind) := by
        rintro others rfl
        rfl
      by_cases mark : d = '#'
      · rw [if_pos mark] at step
        rw [step] at left stops ⊢
        obtain ⟨some, -, same⟩ := passComment_graft split left stops
        obtain ⟨others, eq, -⟩ := exists_front split whole some
        refine ⟨some, ?_⟩
        rw [stepAtIndentation_of_cons (graft eq), if_pos mark]
        exact same
      rw [if_neg mark] at step
      by_cases ends : isLineEnd d = true
      · rw [if_pos ends] at step
        rw [step] at left stops ⊢
        obtain ⟨some, same⟩ := passNewline_graft separates split left stops
        obtain ⟨others, eq, -⟩ := exists_front split whole some
        refine ⟨some, ?_⟩
        rw [stepAtIndentation_of_cons (graft eq), if_neg mark, if_pos ends]
        exact same
      rw [if_neg ends] at step
      cases change : (Indentation.change s.indents.blocks width).1 with
      | stays =>
          rw [change] at step
          rw [step] at left stops formed ⊢
          obtain ⟨some, same⟩ :=
            stepInLine_graft (s := s.begun width) separates split left stops formed
          obtain ⟨others, eq, -⟩ := exists_front split whole some
          refine ⟨some, ?_⟩
          rw [stepAtIndentation_of_cons (graft eq), if_neg mark, if_neg ends]
          have change' : (Indentation.change
              (s.withRest (front ++ c :: behind)).indents.blocks width).1 =
              .stays := change
          rw [change']
          exact same
      | opens =>
          rw [change] at step
          rw [step] at left stops ⊢
          obtain rfl : front' = front := (List.append_cancel_right (split.symm.trans left)).symm
          have some : front' ≠ [] := stops.of_token (not_written rfl)
          obtain ⟨others, eq, -⟩ := exists_front split whole some
          have change' : (Indentation.change
              (s.withRest (front' ++ c :: behind)).indents.blocks width).1 =
              .opens := change
          refine ⟨some, ?_⟩
          rw [stepAtIndentation_of_cons (graft eq), if_neg mark, if_neg ends, change']
          rfl
      | closes count =>
          rw [change] at step
          rw [step] at left stops ⊢
          obtain rfl : front' = front := (List.append_cancel_right (split.symm.trans left)).symm
          have some : front' ≠ [] := stops.of_token (not_written rfl)
          obtain ⟨others, eq, -⟩ := exists_front split whole some
          have change' : (Indentation.change
              (s.withRest (front' ++ c :: behind)).indents.blocks width).1 =
              .closes count := change
          refine ⟨some, ?_⟩
          rw [stepAtIndentation_of_cons (graft eq), if_neg mark, if_neg ends, change']
          rfl
      | unmatched =>
          rw [change] at step
          rw [step] at formed
          exact absurd rfl (formed _ _)

/-- A step at the start of a line is the same with another rest. -/
theorem stepAtLineStart_graft (separates : isSeparator c = true) (quiet : s.pending = [])
    (split : s.rest = front ++ rest) (left : s.stepAtLineStart.2.rest = front' ++ rest)
    (stops : Stops front' s.stepAtLineStart.1)
    (formed : ∀ cause position, s.stepAtLineStart.1 ≠ .fault cause position) :
    (s.withRest (front ++ c :: behind)).stepAtLineStart =
      (s.stepAtLineStart.1, s.stepAtLineStart.2.withRest (front' ++ c :: behind)) := by
  have moves := stepAtIndentation_moves (s := s.skip (spaces s.rest)) quiet
    (Indentation.width s.options.tabSize (s.rest.take (spaces s.rest)))
  unfold stepAtLineStart at left stops formed ⊢
  dsimp only at left stops formed ⊢
  -- What the step leaves was left behind the blanks, so these lie in the front.
  obtain ⟨passed, eq⟩ := moves.suffix
  rw [left, ← List.append_assoc] at eq
  obtain ⟨le, middle⟩ := le_of_skip split (spaces_le _) eq.symm
  have split' : (s.skip (spaces s.rest)).rest = front.drop (spaces s.rest) ++ rest := by
    rw [← eq, middle]
  have graft : front.drop (spaces s.rest) ≠ [] ∧ ((s.skip (spaces s.rest)).withRest
      (front.drop (spaces s.rest) ++ c :: behind)).stepAtIndentation _ = _ :=
    stepAtIndentation_graft separates split' left stops.of_after fun cause position fault =>
      formed cause position (by rw [fault]; rfl)
  have short : spaces s.rest < front.length := by simpa using graft.1
  have taken : (front ++ c :: behind).take (spaces s.rest) = s.rest.take (spaces s.rest) := by
    rw [split, List.take_append_of_le_length (split ▸ le), List.take_append_of_le_length (split ▸ le)]
  rw [withRest_rest, spaces_graft split short, skip_withRest le, piece_withRest split le, taken]
  exact congrArg (fun result : Found × Scanner => (result.1.after _, result.2)) graft.2

/-- **A step is the same with another rest**, if it comes to the end of a token or not that far. -/
theorem step_graft (separates : isSeparator c = true) (quiet : s.pending = [])
    (split : s.rest = front ++ rest) (left : s.step.2.rest = front' ++ rest)
    (stops : Stops front' s.step.1) (formed : ∀ cause position, s.step.1 ≠ .fault cause position) :
    (s.withRest (front ++ c :: behind)).step =
      (s.step.1, s.step.2.withRest (front' ++ c :: behind)) := by
  unfold step at left stops formed ⊢
  split at left
  · rename_i fresh
    rw [if_pos fresh] at stops formed ⊢
    exact (if_pos fresh).trans (stepAtLineStart_graft separates quiet split left stops formed)
  · rename_i inLine
    rw [if_neg inLine] at stops formed ⊢
    exact (if_neg inLine).trans (stepInLine_graft separates split left stops formed).2

/-! ### Tokens -/

/-- What is made up at the end of the text is not written there. -/
theorem closing_not_written {content : Bool} {blocks offset : Nat} {token : Token}
    (mem : token ∈ closing content blocks offset) : ¬token.Written := by
  rcases List.mem_append.1 mem with mem | mem
  · cases content with
    | false => cases mem
    | true =>
        rw [List.mem_singleton.1 mem]
        rintro (isLexeme | breaks)
        · cases isLexeme
        · exact breaks.2 rfl
  · rcases List.mem_append.1 mem with mem | mem
    · rw [List.eq_of_mem_replicate mem]
      exact not_written rfl
    · rw [List.mem_singleton.1 mem]
      exact not_written rfl

/-- A token that is written in the text takes characters of it. -/
theorem lt_of_step {pieces : List Trivia} {token : Token} (settled : s.Settled)
    (quiet : s.pending = []) (stepped : s.step = (.token pieces token, t)) (written : token.Written) :
    t.rest.length < s.rest.length := by
  have acts := step_acts settled quiet
  have moves := step_moves settled quiet
  rw [stepped] at acts moves
  cases acts with
  | reads _ _ _ _ shorter _ => exact shorter
  | breaks newline =>
      rcases (moves.behind _ _ rfl).newline newline.1 with ⟨-, c, -, suffix⟩ | ⟨-, value⟩
      · exact suffix.length_le
      · exact absurd value newline.2
  | opens indent => exact absurd written (not_written (by rw [indent]; rfl))
  | closes dedent => exact absurd written (not_written (by rw [dedent]; rfl))
  | ends empty all =>
      have mem : token.withTrivia [] ∈ closing s.lineHasContent s.indents.blocks.length t.offset :=
        all ▸ List.mem_cons_self
      exact (closing_not_written mem written).elim

/-- What is read off the text is a suffix of it, and a shorter one behind a token that is written
there. -/
theorem rest_of_readFrom {trivia : List Trivia} {token : Token} (settled : s.Settled)
    (quiet : s.pending = []) (result : s.readFrom trivia = (.ok token, t)) :
    t.rest <:+ s.rest ∧ (token.Written → t.rest.length < s.rest.length) := by
  obtain ⟨u, pieces, last, front, idles, stepped, rfl⟩ := exists_step_of_read result
  have alike := idles.alike settled quiet
  have moves := step_moves alike.settled alike.quiet
  rw [stepped] at moves
  exact ⟨moves.suffix.trans alike.suffix, fun written =>
    Nat.lt_of_lt_of_le (lt_of_step alike.settled alike.quiet stepped written)
      alike.suffix.length_le⟩

/-- What was left earlier ends with the same rest; nothing else was left if the end of the front has
been reached and nothing has been passed since. -/
theorem exists_middle {W : Prop} (left : u.rest = front' ++ rest) (suffix : u.rest <:+ s.rest)
    (stops : front' ≠ [] ∨ u.rest.length < s.rest.length ∨ W) :
    ∃ middle, s.rest = middle ++ rest ∧ (middle ≠ [] ∨ W) := by
  obtain ⟨passed, eq⟩ := suffix
  rw [left, ← List.append_assoc] at eq
  refine ⟨passed ++ front', eq.symm, ?_⟩
  rcases stops with some | shorter | other
  · exact Or.inl fun none => some (List.append_eq_nil_iff.1 none).2
  · refine Or.inl fun none => ?_
    rw [left, ← eq, none, (List.append_eq_nil_iff.1 none).2] at shorter
    exact absurd shorter (Nat.lt_irrefl _)
  · exact Or.inr other

/-- **The token that is read is the same with another rest.** -/
theorem readFrom_graft {trivia : List Trivia} {token : Token} (separates : isSeparator c = true)
    (settled : s.Settled) (quiet : s.pending = []) (result : s.readFrom trivia = (.ok token, t))
    (split : s.rest = front ++ rest) (left : t.rest = front' ++ rest)
    (stops : front' ≠ [] ∨ token.Written) :
    (s.withRest (front ++ c :: behind)).readFrom trivia =
      (.ok token, t.withRest (front' ++ c :: behind)) := by
  induction length : s.rest.length using Nat.strongRecOn generalizing s trivia front with
  | ind length ih =>
      subst length
      rw [readFrom_eq] at result ⊢
      cases stepped : s.step with
      | mk found u =>
          rw [stepped] at result
          have formed : ∀ cause position, s.step.1 ≠ .fault cause position := by
            rw [stepped]
            rintro cause position rfl
            cases result
          cases found with
          | fault _ _ => cases result
          | token pieces last =>
              cases result
              rw [step_graft separates quiet split (by rw [stepped]; exact left)
                (by rw [stepped]; exact stops.imp id fun written => ⟨pieces, last, rfl, written⟩)
                formed, stepped]
          | trivia pieces =>
              have keeps := step_keeps settled quiet
              rw [stepped] at keeps
              have settled' := keeps.settled
              have quiet' := (keeps.trivia _ rfl).2
              obtain ⟨suffix, shorter⟩ := rest_of_readFrom settled' quiet' result
              obtain ⟨middle, split', some⟩ := exists_middle (W := False) left suffix
                (stops.imp id fun written => Or.inl (shorter written))
              rw [step_graft separates quiet split (by rw [stepped]; exact split')
                (Or.inl (some.resolve_right id)) formed, stepped]
              exact ih _ (rest_lt_of_step stepped) settled' quiet' result split' rfl

/-! ### Moving on -/

/-- What is left behind the next token, and what was left before it. -/
theorem rest_of_advance (ready : s.Ready) (running : s.current.kind ≠ .eof)
    (moved : s.advance = (none, t)) :
    t.rest <:+ s.rest ∧ (t.current.Written → t.rest.length < s.rest.length) := by
  refine ⟨(advance_steps ready running moved).suffix, fun written => ?_⟩
  unfold advance at moved
  rw [if_neg running] at moved
  cases kept : s.pending with
  | nil =>
      rw [next_of_quiet kept] at moved
      split at moved
      · rename_i token u result
        cases moved
        exact (rest_of_readFrom ready.rested.settled kept result).2 written
      · cases moved
  | cons token pending =>
      rw [next, kept] at moved
      cases moved
      rcases ready.kept token (kept ▸ List.mem_cons_self) with kind | kind <;>
        exact (not_written (by rw [kind]; rfl) written).elim

/-- **Moving to the next token is the same with another rest.** -/
theorem advance_graft (separates : isSeparator c = true) (ready : s.Ready)
    (moved : s.advance = (none, t)) (split : s.rest = front ++ rest)
    (left : t.rest = front' ++ rest) (stops : front' ≠ [] ∨ t.current.Written) :
    (s.withRest (front ++ c :: behind)).advance = (none, t.withRest (front' ++ c :: behind)) := by
  by_cases ended : s.current.kind = .eof
  · cases (advance_of_eof ended).symm.trans moved
    cases List.append_cancel_right (split.symm.trans left)
    exact advance_of_eof ended
  · unfold advance at moved ⊢
    rw [if_neg ended] at moved
    refine (if_neg ended).trans ?_
    cases kept : s.pending with
    | nil =>
        have quiet : (s.withRest (front ++ c :: behind)).pending = [] := kept
        rw [next_of_quiet kept] at moved
        rw [next_of_quiet quiet]
        split at moved
        · rename_i token u result
          cases moved
          rw [readFrom_graft separates ready.rested.settled kept result split left stops]
          rfl
        · cases moved
    | cons token pending =>
        rw [next, kept] at moved
        cases moved
        cases List.append_cancel_right (split.symm.trans left)
        have kept' : (s.withRest (front ++ c :: behind)).pending = token :: pending := kept
        rw [next, kept']
        rfl

theorem rest_of_path {tokens : List Token} (ready : s.Ready) (path : Path s tokens t) :
    t.rest <:+ s.rest ∧
      (t.current.Written → t.rest.length < s.rest.length ∨ s.current.Written) := by
  induction path with
  | nil => exact ⟨List.suffix_refl _, Or.inr⟩
  | @cons s next t token tokens _ moved _ ih =>
      obtain ⟨suffix, shorter⟩ := ih (ready.of_advance moved)
      by_cases ended : s.current.kind = .eof
      · cases (advance_of_eof ended).symm.trans moved
        exact ⟨suffix, shorter⟩
      · obtain ⟨suffix', shorter'⟩ := rest_of_advance ready ended moved
        refine ⟨suffix.trans suffix', fun written => Or.inl ?_⟩
        rcases shorter written with fewer | written'
        · exact Nat.lt_of_lt_of_le fewer suffix'.length_le
        · exact Nat.lt_of_le_of_lt suffix.length_le (shorter' written')

/-- **The way to a token is the same with another rest**, if that comes behind the token. -/
theorem path_graft {tokens : List Token} (separates : isSeparator c = true) (ready : s.Ready)
    (path : Path s tokens t) (split : s.rest = front ++ rest) (left : t.rest = front' ++ rest)
    (stops : front' ≠ [] ∨ t.current.Written) :
    Path (s.withRest (front ++ c :: behind)) tokens (t.withRest (front' ++ c :: behind)) := by
  induction path generalizing front with
  | nil s =>
      cases List.append_cancel_right (split.symm.trans left)
      exact .nil _
  | @cons s next t token tokens here moved path ih =>
      have ready' := ready.of_advance moved
      obtain ⟨suffix, shorter⟩ := rest_of_path ready' path
      obtain ⟨middle, split', stops'⟩ := exists_middle left suffix (stops.imp id shorter)
      exact .cons here (advance_graft separates ready moved split split' stops')
        (ih ready' split' left stops)

/-- So is the first token. -/
theorem ofText_graft {options : Options} (separates : isSeparator c = true)
    (opened : ofText options (front ++ rest) = .ok s) (left : s.rest = front' ++ rest)
    (stops : front' ≠ [] ∨ s.current.Written) :
    ofText options (front ++ c :: behind) = .ok (s.withRest (front' ++ c :: behind)) := by
  unfold ofText at opened ⊢
  split at opened
  · rename_i token u result
    cases opened
    have next : (initial options (front ++ c :: behind)).next =
        (.ok token, u.withRest (front' ++ c :: behind)) :=
      readFrom_graft (s := initial options (front ++ rest)) separates (initial_settled options _)
        rfl result rfl left stops
    rw [next]
    rfl
  · cases opened

end Scanner

end PythonSyntax
