/-
**The tokens cover the text.**

Token by token, first what stands before it and then the token itself, the pieces follow each other
without a gap from the beginning of the text to its end, and each has the text of its span.  So the
text can be written back.

Main definitions:

* `PythonSyntax.Piece`, `PythonSyntax.Token.pieces` — trivia and tokens as spans with their texts;
* `PythonSyntax.Covers` — pieces that follow each other from one offset to another;
* `PythonSyntax.Scanner.Standing` — what the scanner keeps true of the text it reads.

Main results:

* `PythonSyntax.Scanner.step_passes` — a step covers the characters that it passes;
* `PythonSyntax.Scanner.read_covers` — so does the reading of a token;
* `PythonSyntax.tokenize_covers` — the tokens of a text cover it.
-/

import PythonSyntax.Proofs.Lexical.Extent
import PythonSyntax.Lexical.Scanner

set_option autoImplicit false

namespace PythonSyntax

/-! ### Pieces of a text -/

/-- A span of a text, with the text that is written there. -/
structure Piece where
  start : Nat
  stop : Nat
  text : String
  deriving DecidableEq, Repr

/-- Trivia as a piece. -/
def Trivia.piece (trivia : Trivia) : Piece := ⟨trivia.start, trivia.stop, trivia.text⟩

/-- A token as a piece. -/
def Token.piece (token : Token) : Piece := ⟨token.start, token.stop, token.text⟩

/-- What stands before a token, and then the token. -/
def Token.pieces (token : Token) : List Piece := token.trivia.map Trivia.piece ++ [token.piece]

/-- Pieces that follow each other from one offset of a text to another.  Each ends where the next
one starts and has the text of its span. -/
inductive Covers (text : List Char) : Nat → List Piece → Nat → Prop
  | nil (offset : Nat) : Covers text offset [] offset
  | cons {start stop : Nat} {piece : Piece} {rest : List Piece} (starts : piece.start = start)
      (forward : start ≤ piece.stop)
      (slice : piece.text.toList = (text.drop start).take (piece.stop - start))
      (follow : Covers text piece.stop rest stop) : Covers text start (piece :: rest) stop

namespace Covers

variable {text : List Char}

theorem append {a b c : Nat} {first second : List Piece} (h : Covers text a first b)
    (h' : Covers text b second c) : Covers text a (first ++ second) c := by
  induction h with
  | nil => exact h'
  | cons starts forward slice _ ih => exact .cons starts forward slice (ih h')

theorem le {a b : Nat} {pieces : List Piece} (h : Covers text a pieces b) : a ≤ b := by
  induction h with
  | nil => exact Nat.le_refl _
  | cons _ forward _ _ ih => exact Nat.le_trans forward ih

/-- A piece without width covers nothing. -/
theorem mark (offset : Nat) : Covers text offset [⟨offset, offset, ""⟩] offset :=
  .cons rfl (Nat.le_refl _) (by simp) (.nil _)

/-- The texts of the pieces, one after another, are the part of the text that they cover. -/
theorem written {a b : Nat} {pieces : List Piece} (h : Covers text a pieces b) :
    pieces.flatMap (fun piece => piece.text.toList) = (text.drop a).take (b - a) := by
  induction h with
  | nil => simp
  | @cons start stop piece rest _ forward slice follow ih =>
      have split : stop - start = (piece.stop - start) + (stop - piece.stop) := by
        have := follow.le
        omega
      rw [List.flatMap_cons, slice, ih, split, List.take_add, List.drop_drop]
      congr 3
      omega

/-- A piece is written in the text. -/
theorem subset {a b : Nat} {pieces : List Piece} (h : Covers text a pieces b) :
    ∀ piece ∈ pieces, piece.text.toList ⊆ text := by
  induction h with
  | nil => exact nofun
  | cons _ _ slice _ ih =>
      refine List.forall_mem_cons.2 ⟨fun c mem => ?_, ih⟩
      rw [slice] at mem
      exact List.mem_of_mem_drop (List.mem_of_mem_take mem)

/-- The last piece ends where the pieces end. -/
theorem stop_eq {a b : Nat} {pieces : List Piece} {last : Piece}
    (h : Covers text a (pieces ++ [last]) b) : last.stop = b := by
  induction pieces generalizing a with
  | nil =>
      cases h with
      | cons _ _ _ follow => cases follow; rfl
  | cons piece rest ih =>
      cases h with
      | cons _ _ _ follow => exact ih follow

end Covers

/-! ### Standing in a text -/

namespace Scanner

/-- The scanner stands in the text: what is left is what follows its offset, and the tokens that it
keeps are marks without width there.  It keeps the end of the text only at the end. -/
structure Standing (text : List Char) (s : Scanner) : Prop where
  le : s.offset ≤ text.length
  rest : s.rest = text.drop s.offset
  pending : ∀ token ∈ s.pending,
    token.pieces = [⟨s.offset, s.offset, ""⟩] ∧ (token.kind = .eof → s.rest = [])

variable {text : List Char} {s : Scanner}

/-- Passing characters that are there, with no tokens kept. -/
theorem Standing.skip (h : s.Standing text) (quiet : s.pending = []) {count : Nat}
    (le : count ≤ s.rest.length) : (s.skip count).Standing text := by
  have left : s.rest.length = text.length - s.offset := by rw [h.rest, List.length_drop]
  have offset_le := h.le
  refine ⟨?_, ?_, ?_⟩
  · change s.offset + count ≤ text.length
    omega
  · change s.rest.drop count = text.drop (s.offset + count)
    rw [h.rest, List.drop_drop]
  · intro token mem
    change token ∈ s.pending at mem
    simp [quiet] at mem

/-- The characters that are passed, as one piece. -/
theorem Standing.covers_front (h : s.Standing text) (count : Nat) {written : String}
    (front : written.toList = s.rest.take count) :
    Covers text s.offset [⟨s.offset, s.offset + count, written⟩] (s.skip count).offset := by
  refine .cons rfl (Nat.le_add_right _ _) ?_ (.nil _)
  rw [front, h.rest, Nat.add_sub_cancel_left]

/-- At the end of the text nothing is left to cover. -/
theorem Standing.offset_eq (h : s.Standing text) (empty : s.rest = []) :
    s.offset = text.length := by
  have le : text.length ≤ s.offset := List.drop_eq_nil_iff.1 (h.rest ▸ empty)
  exact Nat.le_antisymm h.le le

end Scanner

/-! ### Steps -/

/-- The pieces that a step has found; none after a fault. -/
def Found.pieces? : Found → Option (List Piece)
  | .trivia pieces => some (pieces.map Trivia.piece)
  | .token pieces last => some (pieces.map Trivia.piece ++ [last.piece])
  | .fault _ _ => none

namespace Scanner

/-- What a step from an offset to `t` does: it covers what it passes.  It finds the end of the text
only there, and passing trivia it keeps no tokens. -/
structure Passes (text : List Char) (start : Nat) (found : Found) (t : Scanner) : Prop where
  standing : t.Standing text
  covers : ∀ pieces, found.pieces? = some pieces → Covers text start pieces t.offset
  ended : ∀ pieces token, found = .token pieces token → token.kind = .eof → t.rest = []
  quiet : ∀ pieces, found = .trivia pieces → t.pending = []

variable {text : List Char} {s : Scanner}

theorem passTrivia_passes (h : s.Standing text) (quiet : s.pending = []) (kind : TriviaKind)
    {count : Nat} (le : count ≤ s.rest.length) :
    Passes text s.offset (s.passTrivia kind count).1 (s.passTrivia kind count).2 := by
  refine ⟨h.skip quiet le, ?_, ?_, fun _ _ => quiet⟩
  · intro pieces found
    cases found
    exact h.covers_front count String.toList_ofList
  · intro pieces token found
    cases found

/-- The marks at the end of the text. -/
theorem finish_passes (h : s.Standing text) (quiet : s.pending = []) (empty : s.rest = []) :
    Passes text s.offset s.finish.1 s.finish.2 := by
  have closing : ∀ token ∈ List.replicate s.indents.blocks.length (s.mark .dedent) ++
      [Token.eof s.offset],
      token.pieces = [⟨s.offset, s.offset, ""⟩] ∧ (token.kind = .eof → s.rest = []) := by
    intro token mem
    refine ⟨?_, fun _ => empty⟩
    rcases List.mem_append.1 mem with mem | mem
    · rw [List.eq_of_mem_replicate mem]
      rfl
    · rw [List.mem_singleton.1 mem]
      rfl
  unfold finish
  dsimp only
  split
  · refine ⟨⟨h.le, h.rest, ?_⟩, ?_, fun _ _ _ _ => empty, by simp⟩
    · simpa [quiet] using closing
    · intro pieces found
      cases found
      exact Covers.mark s.offset
  · split
    · refine ⟨h, ?_, fun _ _ _ _ => empty, by simp⟩
      intro pieces found
      cases found
      exact Covers.mark s.offset
    · rename_i first more split
      rw [split] at closing
      refine ⟨⟨h.le, h.rest, ?_⟩, ?_, fun _ _ _ _ => empty, by simp⟩
      · intro token mem
        exact closing token (by simpa [quiet] using Or.inr mem)
      · intro pieces found
        cases found
        have first_pieces := (closing first (by simp)).1
        have trivia_nil : first.trivia = [] := by
          have := congrArg List.length first_pieces
          simpa [Token.pieces] using this
        have first_piece : first.piece = ⟨s.offset, s.offset, ""⟩ := by
          simpa [Token.pieces, trivia_nil] using first_pieces
        rw [first_piece]
        exact Covers.mark s.offset

/-- A token read off the front of the text, in a state that stands behind it. -/
theorem lexeme_passes (h : s.Standing text) (quiet : s.pending = []) {kind : TokenKind}
    {count : Nat} {t : Scanner} (le : count ≤ s.rest.length)
    (spelled : (s.lexeme kind count).text.toList = s.rest.take count) (ne : kind ≠ .eof)
    (offset : t.offset = s.offset + count) (rest : t.rest = s.rest.drop count)
    (kept : t.pending = []) : Passes text s.offset (.token [] (s.lexeme kind count)) t := by
  have standing := h.skip quiet le
  refine ⟨⟨?_, ?_, ?_⟩, ?_, ?_, fun _ _ => kept⟩
  · rw [offset]
    exact standing.le
  · rw [rest, offset]
    exact standing.rest
  · simp [kept]
  · intro pieces found
    cases found
    rw [offset]
    exact h.covers_front count spelled
  · intro pieces token found ended
    cases found
    exact absurd ended ne

/-- A token that carries its text has the text of its span. -/
theorem lexeme_text_of_carriesText {kind : TokenKind} (carries : Lexeme.carriesText kind = true)
    (count : Nat) : (s.lexeme kind count).text.toList = s.rest.take count := by
  simp [lexeme, Token.text, carries]

/-- So has a token whose kind settles its spelling, if it sits at the front of the text. -/
theorem lexeme_text_of_sits {found : Lexeme} (sits : found.Sits s.rest) :
    (s.lexeme found.kind found.length).text.toList = s.rest.take found.length := by
  by_cases carries : Lexeme.carriesText found.kind = true
  · exact lexeme_text_of_carriesText carries _
  · obtain ⟨spelling, same⟩ : ∃ spelling, found.kind.spelling? = some spelling := by
      have notLayout := sits.notLayout
      cases kind : found.kind <;> simp_all [Lexeme.carriesText, TokenKind.spelling?]
    rw [sits.spelled spelling same]
    simp [lexeme, Token.text, carries, same]

theorem readToken_passes (h : s.Standing text) (quiet : s.pending = []) (left : s.rest ≠ []) :
    Passes text s.offset s.readToken.1 s.readToken.2 := by
  have sits := Lexeme.read_sits left
  unfold readToken
  dsimp only
  split
  · refine ⟨h.skip quiet sits.within, ?_, ?_, ?_⟩ <;> simp [Found.pieces?]
  · refine lexeme_passes h quiet sits.within (lexeme_text_of_sits sits) ?_ rfl rfl quiet
    intro eof
    exact sits.notLayout (by simp [eof])

theorem spaces_le (rest : List Char) : Lexeme.spaces rest ≤ rest.length :=
  (List.takeWhile_prefix _).length_le

theorem comment_le (rest : List Char) : Lexeme.comment rest ≤ rest.length :=
  (List.takeWhile_prefix _).length_le

theorem lineBreak_le (rest : List Char) : Lexeme.lineBreak rest ≤ rest.length := by
  unfold Lexeme.lineBreak
  split
  · simp
  · split <;> simp
  · simp

/-- A comment that declares a type is a comment. -/
theorem typeComment?_eq {rest : List Char} {count : Nat}
    (h : Lexeme.typeComment? rest = some count) : count = Lexeme.comment rest := by
  unfold Lexeme.typeComment? at h
  dsimp only at h
  split at h
  · cases h
    exact List.length_take_of_le (comment_le rest)
  · cases h

theorem typeComment?_le {rest : List Char} {count : Nat}
    (h : Lexeme.typeComment? rest = some count) : count ≤ rest.length :=
  typeComment?_eq h ▸ comment_le rest

/-- A step within a line covers what it passes. -/
theorem stepInLine_passes (h : s.Standing text) (quiet : s.pending = []) :
    Passes text s.offset s.stepInLine.1 s.stepInLine.2 := by
  unfold stepInLine
  split
  · rename_i empty
    exact finish_passes h quiet empty
  · rename_i c rest split
    have left : s.rest ≠ [] := by simp [split]
    split
    · exact passTrivia_passes h quiet _ (spaces_le _)
    · split
      · split
        · rename_i count found
          split
          · exact lexeme_passes h quiet (typeComment?_le found)
              (lexeme_text_of_carriesText rfl _) (by simp) rfl rfl quiet
          · exact passTrivia_passes h quiet _ (comment_le _)
        · exact passTrivia_passes h quiet _ (comment_le _)
      · split
        · refine passTrivia_passes h quiet _ ?_
          have := lineBreak_le rest
          rw [split, List.length_cons]
          omega
        · split
          · dsimp only
            split
            · exact passTrivia_passes h quiet _ (lineBreak_le _)
            · exact lexeme_passes h quiet (lineBreak_le _) (lexeme_text_of_carriesText rfl _)
                (by simp) rfl rfl quiet
          · exact readToken_passes h quiet left

/-- A token without width, where the scanner stands. -/
theorem mark_passes {kind : TokenKind} (spelled : kind.spelling? = none)
    (ne : kind ≠ .eof) {t : Scanner} (standing : t.Standing text) (offset : t.offset = s.offset) :
    Passes text s.offset (.token [] (s.mark kind)) t := by
  refine ⟨standing, ?_, ?_, by simp⟩
  · intro pieces found
    cases found
    have piece : (s.mark kind).piece = ⟨s.offset, s.offset, ""⟩ := by
      simp [mark, Token.mark, Token.piece, Token.text, spelled]
    rw [piece, offset]
    exact Covers.mark s.offset
  · intro pieces token found ended
    cases found
    exact absurd ended ne

/-- A step behind the indentation of a line covers what it passes. -/
theorem stepAtIndentation_passes (h : s.Standing text) (quiet : s.pending = []) (width : Nat) :
    Passes text s.offset (s.stepAtIndentation width).1 (s.stepAtIndentation width).2 := by
  unfold stepAtIndentation
  split
  · rename_i empty
    exact finish_passes h quiet empty
  · split
    · exact passTrivia_passes h quiet _ (comment_le _)
    · split
      · exact passTrivia_passes h quiet _ (lineBreak_le _)
      · dsimp only
        split
        · have same : Scanner.Standing text (s.begun width) := ⟨h.le, h.rest, h.pending⟩
          exact stepInLine_passes same quiet
        · exact mark_passes rfl (by simp) ⟨h.le, h.rest, h.pending⟩ rfl
        · refine mark_passes rfl (by simp) ⟨h.le, h.rest, ?_⟩ rfl
          intro token mem
          rw [quiet, List.nil_append] at mem
          rw [List.eq_of_mem_replicate mem]
          exact ⟨rfl, fun ended => by cases ended⟩
        · refine ⟨⟨h.le, h.rest, h.pending⟩, ?_, ?_, ?_⟩ <;> simp [Found.pieces?]

/-- Trivia in front of what a step finds. -/
theorem Passes.after {a b : Nat} {t : Scanner} {found : Found} {pieces : List Trivia}
    (h : Passes text b found t) (front : Covers text a (pieces.map Trivia.piece) b) :
    Passes text a (found.after pieces) t := by
  refine ⟨h.standing, ?_, ?_, ?_⟩
  · intro all found_all
    cases found with
    | trivia more =>
        cases found_all
        rw [List.map_append]
        exact front.append (h.covers _ rfl)
    | token more last =>
        cases found_all
        rw [List.map_append, List.append_assoc]
        exact front.append (h.covers _ rfl)
    | fault _ _ => cases found_all
  · intro all last found_all ended
    cases found with
    | trivia _ => cases found_all
    | token more _ =>
        cases found_all
        exact h.ended more _ rfl ended
    | fault _ _ => cases found_all
  · intro all found_all
    cases found with
    | trivia more => exact h.quiet more rfl
    | token _ _ => cases found_all
    | fault _ _ => cases found_all

/-- A step at the start of a line covers what it passes. -/
theorem stepAtLineStart_passes (h : s.Standing text) (quiet : s.pending = []) :
    Passes text s.offset s.stepAtLineStart.1 s.stepAtLineStart.2 := by
  have le := spaces_le s.rest
  unfold stepAtLineStart
  dsimp only
  refine (stepAtIndentation_passes (h.skip quiet le) quiet _).after ?_
  split
  · rename_i none_there
    rw [none_there]
    exact .nil _
  · exact h.covers_front _ String.toList_ofList

/-- **A step covers the characters that it passes**, by trivia and at most one token. -/
theorem step_passes (h : s.Standing text) (quiet : s.pending = []) :
    Passes text s.offset s.step.1 s.step.2 := by
  unfold step
  split
  · exact stepAtLineStart_passes h quiet
  · exact stepInLine_passes h quiet

/-! ### Tokens -/

/-- What reading a token from an offset does: the token, with what stands before it, covers what is
passed, and it marks the end of the text only there. -/
structure Delivers (text : List Char) (start : Nat) (token : Token) (t : Scanner) : Prop where
  standing : t.Standing text
  covers : Covers text start token.pieces t.offset
  ended : token.kind = .eof → t.rest = []

/-- A step that finds a token delivers it, with the trivia that was passed before. -/
theorem Passes.delivers {a b : Nat} {pieces trivia : List Trivia} {token : Token} {t : Scanner}
    (h : Passes text b (.token pieces token) t) (front : Covers text a (trivia.map Trivia.piece) b) :
    Delivers text a (token.withTrivia (trivia ++ pieces)) t := by
  have covered := front.append (h.covers _ rfl)
  rw [← List.append_assoc, ← List.map_append] at covered
  exact ⟨h.standing, covered, h.ended pieces token rfl⟩

/-- Reading a token covers what is passed, trivia that was passed before included. -/
theorem read_covers {start : Nat} {bound : List Char} {trivia : List Trivia} {token : Token}
    {t : Scanner} (h : s.Standing text) (quiet : s.pending = [])
    (passed : Covers text start (trivia.map Trivia.piece) s.offset)
    (result : read bound trivia s = (.ok token, t)) : Delivers text start token t := by
  induction bound generalizing trivia s with
  | nil =>
      have step := step_passes h quiet
      unfold read at result
      cases eq : s.step with
      | mk found u =>
          rw [eq] at result step
          cases found with
          | token pieces last =>
              cases result
              exact step.delivers passed
          | fault _ _ => cases result
          | trivia _ => cases result
  | cons c bound ih =>
      have step := step_passes h quiet
      unfold read at result
      cases eq : s.step with
      | mk found u =>
          rw [eq] at result step
          cases found with
          | token pieces last =>
              cases result
              exact step.delivers passed
          | fault _ _ => cases result
          | trivia pieces =>
              refine ih step.standing (step.quiet pieces rfl) ?_ result
              rw [List.map_append]
              exact passed.append (step.covers _ rfl)

/-- The next token covers what is passed. -/
theorem next_covers {token : Token} {t : Scanner} (h : s.Standing text)
    (result : s.next = (.ok token, t)) : Delivers text s.offset token t := by
  unfold next at result
  split at result
  · rename_i first pending eq
    cases result
    have kept := h.pending token (by simp [eq])
    refine ⟨⟨h.le, h.rest, ?_⟩, ?_, kept.2⟩
    · intro later mem
      exact h.pending later (by simp [eq, show later ∈ pending from mem])
    · rw [kept.1]
      exact Covers.mark s.offset
  · rename_i quiet
    exact read_covers h quiet (.nil _) result

/-- The tokens after the current one cover the rest of the text. -/
theorem tokensFrom_covers {fuel : Nat} {tokens : List Token} (h : s.Standing text)
    (ended : s.current.kind = .eof → s.rest = []) (result : s.tokensFrom fuel = .ok tokens) :
    ∃ more, tokens = s.current :: more ∧
      Covers text s.offset (more.flatMap Token.pieces) text.length := by
  induction fuel generalizing s tokens with
  | zero => cases result
  | succ fuel ih =>
      unfold tokensFrom at result
      split at result
      · rename_i eof
        cases result
        refine ⟨[], rfl, ?_⟩
        rw [h.offset_eq (ended eof)]
        exact .nil _
      · rename_i running
        split at result
        · cases result
        · rename_i t eq
          unfold advance at eq
          rw [if_neg running] at eq
          split at eq
          · rename_i token u step
            cases eq
            have delivered := next_covers h step
            obtain ⟨more, rest_eq, covered⟩ : ∃ more,
                tokens = s.current :: token :: more ∧
                  Covers text u.offset (more.flatMap Token.pieces) text.length := by
              cases rest : tokensFrom fuel { u with current := token } with
              | error _ => simp [rest, Except.map] at result
              | ok later =>
                  obtain ⟨more, later_eq, covered⟩ := ih
                    (s := { u with current := token })
                    ⟨delivered.standing.le, delivered.standing.rest, delivered.standing.pending⟩
                    delivered.ended rest
                  refine ⟨more, ?_, covered⟩
                  simp only [rest, Except.map, Except.ok.injEq] at result
                  rw [← result, later_eq]
            refine ⟨token :: more, rest_eq, ?_⟩
            rw [List.flatMap_cons]
            exact delivered.covers.append covered
          · cases eq

/-- The last of the tokens marks the end of the text. -/
theorem tokensFrom_last {fuel : Nat} {tokens : List Token}
    (result : s.tokensFrom fuel = .ok tokens) :
    ∃ front last, tokens = front ++ [last] ∧ last.kind = .eof := by
  induction fuel generalizing s tokens with
  | zero => cases result
  | succ fuel ih =>
      unfold tokensFrom at result
      split at result
      · rename_i eof
        cases result
        exact ⟨[], s.current, rfl, eof⟩
      · split at result
        · cases result
        · rename_i t _
          cases rest : tokensFrom fuel t with
          | error _ => simp [rest, Except.map] at result
          | ok later =>
              obtain ⟨front, last, split, eof⟩ := ih rest
              simp only [rest, Except.map, Except.ok.injEq] at result
              exact ⟨s.current :: front, last, by rw [← result, split]; rfl, eof⟩

end Scanner

/-- A scanner before the first token stands at the beginning of the text. -/
theorem Scanner.initial_standing (options : Options) (text : List Char) :
    (Scanner.initial options text).Standing text :=
  ⟨Nat.zero_le _, rfl, by simp [Scanner.initial]⟩

/-- The text of a token with its trivia is that of its pieces. -/
theorem Token.written_eq (token : Token) :
    token.written.toList = token.pieces.flatMap (fun piece => piece.text.toList) := by
  have trivia : (String.join (token.trivia.map Trivia.text)).toList =
      (token.trivia.map Trivia.piece).flatMap (fun piece => piece.text.toList) := by
    rw [String.toList_join, List.flatMap_map, List.flatMap_map]
    rfl
  simp [Token.written, Token.pieces, trivia, Token.piece]

/-- The texts of tokens with their trivia, one after another, are those of their pieces. -/
theorem join_written (tokens : List Token) :
    (String.join (tokens.map Token.written)).toList =
      (tokens.flatMap Token.pieces).flatMap (fun piece => piece.text.toList) := by
  induction tokens with
  | nil => simp
  | cons token more ih =>
      rw [List.map_cons, String.join_cons, String.toList_append, ih, Token.written_eq,
        List.flatMap_cons, List.flatMap_append]

/-- **The tokens of a text cover it.**  Token by token, what stands before it and then the token
itself follow each other without a gap from the beginning of the text to its end, and each has the
text of its span.  The last one marks the end.  Written one after another they are the text. -/
theorem tokenize_covers (options : Options) (text : List Char) (tokens : List Token)
    (h : tokenize options text = .ok tokens) :
    Covers text 0 (tokens.flatMap Token.pieces) text.length ∧
      (∃ front last, tokens = front ++ [last] ∧ last.kind = .eof ∧ last.stop = text.length) ∧
      String.join (tokens.map Token.written) = String.ofList text := by
  simp only [tokenize, Scanner.ofText, bind, Except.bind] at h
  cases first : (Scanner.initial options text).next with
  | mk result s =>
      cases result with
      | error _ => simp [first] at h
      | ok token =>
          simp only [first] at h
          have delivered := Scanner.next_covers (Scanner.initial_standing options text) first
          obtain ⟨more, tokens_eq, covered⟩ := Scanner.tokensFrom_covers
            (s := { s with current := token })
            ⟨delivered.standing.le, delivered.standing.rest, delivered.standing.pending⟩
            delivered.ended h
          have all : Covers text 0 (tokens.flatMap Token.pieces) text.length := by
            rw [tokens_eq, List.flatMap_cons]
            exact delivered.covers.append covered
          refine ⟨all, ?_, ?_⟩
          · obtain ⟨front, last, split, eof⟩ := Scanner.tokensFrom_last h
            refine ⟨front, last, split, eof, ?_⟩
            rw [split, List.flatMap_append, List.flatMap_singleton, Token.pieces,
              ← List.append_assoc] at all
            exact all.stop_eq
          · rw [← String.toList_inj, String.toList_ofList, join_written, all.written]
            simp

/-- A text with a block, a comment and no line break at its end. -/
theorem tokenize_covers_block : ∃ tokens, tokenize {} "if x:\n\ty #c".toList = .ok tokens ∧
    tokens.length = 9 ∧
      Covers "if x:\n\ty #c".toList 0 (tokens.flatMap Token.pieces) 11 ∧
      String.join (tokens.map Token.written) = "if x:\n\ty #c" := by
  refine ⟨_, rfl, by decide +kernel, ?_, ?_⟩
  · exact (tokenize_covers {} "if x:\n\ty #c".toList _ rfl).1
  · rw [(tokenize_covers {} "if x:\n\ty #c".toList _ rfl).2.2]
    exact String.ofList_toList

end PythonSyntax
