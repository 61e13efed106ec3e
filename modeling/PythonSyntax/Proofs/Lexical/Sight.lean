/-
**Looking ahead in the text.**

Whether the rest of a logical line opens a block is read off its characters, before its tokens are
known.  The look comes to what the tokens of the line say: every token leads on to where it ends, and
the look stops where the line does.  There is one exception.  In a string in single quotes the look
passes one character behind a backslash, also if a line break of two characters stands there, and
then takes the other one for the end of the line.

Main definitions:

* `PythonSyntax.Token.wraps` — a string in single quotes holds a line break of two characters;
* `PythonSyntax.Lookahead.Met` — the look has passed a token;
* `PythonSyntax.Lookahead.Tracks` — a look at the text knows what a look at the tokens knows;
* `PythonSyntax.Scanner.Sees` — what a step means for a look at the characters that are left.

Main results:

* `PythonSyntax.Lookahead.passes_read` — the look leads on over a well-formed token;
* `PythonSyntax.Scanner.InLine.sees` — it leads on over what a step passes;
* `PythonSyntax.Scanner.opensBlock_of_path` — **the look at the text agrees with the tokens of the
  line**.
-/

import Mathlib.Data.List.Infix
import PythonSyntax.Proofs.Lexical.Extension
import PythonSyntax.Proofs.Lexical.Finds
import PythonSyntax.Proofs.Syntax.Glance

set_option autoImplicit false

namespace PythonSyntax

/-- A token of the kind is neither a bracket nor a colon. -/
def TokenKind.isOther (kind : TokenKind) : Bool :=
  !kind.opens && !kind.closes && kind != .symbol .colon

/-- The text of a string is in single quotes, and holds a line break of two characters. -/
def Quotation.wraps (text : List Char) : Bool :=
  match text.dropWhile fun c => !isQuote c with
  | [] => false
  | quote :: body => body.take 2 != [quote, quote] && decide (['\r', '\n'] <:+: body)

/-- The token is a string in single quotes that holds a line break of two characters. -/
def Token.wraps (token : Token) : Bool :=
  token.kind = .string && token.value.any fun text => Quotation.wraps text.toList

theorem Token.wraps_plain (token : Token) : token.plain.wraps = token.wraps := rfl

/-- What is not on the line is no string. -/
theorem Token.wraps_of_onLine {token : Token} (h : token.kind.onLine = false) :
    token.wraps = false := by
  have ne : token.kind ≠ .string := by
    intro same
    rw [same] at h
    cases h
  simp [wraps, ne]

open Lexeme

namespace Lookahead

variable {look : Lookahead} {rest : List Char}

/-! ### Characters -/

/-- A look at code, by the character that comes next. -/
theorem ofText_code (c : Char) (rest : List Char) : ofText .code look (c :: rest) =
    if c = '#' then ofText .comment look rest
    else if c = '\\' && rest.head?.any isLineEnd then
      match rest with
      | '\r' :: '\n' :: rest => ofText .code look rest
      | _ :: rest => ofText .code look rest
      | [] => look
    else if isLineEnd c && look.depth = 0 then look
    else if isSpace c || isLineEnd c then ofText .code look rest
    else if Quotation.isQuote c then
      match rest with
      | a :: b :: rest' =>
        if a = c && b = c then ofText (.quoted c true) look.meetOther rest'
        else ofText (.quoted c false) look.meetOther (a :: b :: rest')
      | rest => ofText (.quoted c false) look.meetOther rest
    else if c = ':' then
      match rest with
      | '=' :: rest => ofText .code look.meetOther rest
      | rest => ofText .code (look.meetChar c) rest
    else ofText .code (look.meetChar c) rest :=
  ofText.eq_def ..

/-- A look at a comment. -/
theorem ofText_comment_cons (c : Char) (rest : List Char) : ofText .comment look (c :: rest) =
    if isLineEnd c then if look.depth = 0 then look else ofText .code look rest
    else ofText .comment look rest :=
  ofText.eq_def ..

/-- A character that stands for itself is a piece. -/
theorem ofText_ordinary {c : Char} (h : isOrdinary c = true) :
    ofText .code look (c :: rest) = ofText .code look.meetOther rest := by
  have ne : ∀ d ∈ specials, c ≠ d := fun d special => ne_of_isOrdinary h special
  simp only [specials, List.mem_cons, List.not_mem_nil, or_false, forall_eq_or_imp,
    forall_eq] at ne
  rw [ofText_code]
  simp [ne, isLineEnd, isSpace, Quotation.isQuote, meetChar, meetOther]

/-- The look behind some pieces outside of which nothing is open or closed. -/
def others (look : Lookahead) (count : Nat) : Lookahead := ⟨look.depth, look.pieces + count, false⟩

/-- Characters that stand for themselves are pieces. -/
theorem ofText_run {front : List Char} (some : front ≠ [])
    (h : ∀ c ∈ front, isOrdinary c = true) :
    ofText .code look (front ++ rest) = ofText .code (look.others front.length) rest := by
  induction front generalizing look with
  | nil => exact absurd rfl some
  | cons c front ih =>
      rw [List.cons_append, ofText_ordinary (h c List.mem_cons_self)]
      cases front with
      | nil => rfl
      | cons d front =>
          rw [ih (by simp) fun c mem => h c (List.mem_cons_of_mem _ mem)]
          simp [others, meetOther, meet, Nat.add_assoc, Nat.add_comm 1]

/-- Blanks are passed. -/
theorem ofText_space {c : Char} (h : isSpace c = true) :
    ofText .code look (c :: rest) = ofText .code look rest := by
  have ne : c ≠ '#' ∧ c ≠ '\\' ∧ isLineEnd c = false := by
    simp only [isSpace, Bool.or_eq_true, decide_eq_true_eq] at h
    rcases h with (rfl | rfl) | rfl <;> decide
  rw [ofText_code]
  simp [ne, h]

theorem ofText_spaces (text : List Char) :
    ofText .code look text = ofText .code look (text.drop (spaces text)) := by
  induction text with
  | nil => rfl
  | cons c rest ih =>
      by_cases blank : isSpace c = true
      · rw [ofText_space blank, ih]
        simp [spaces, blank]
      · simp [spaces, blank]

/-- At the end of a line, a look that was in a comment goes on as in code. -/
theorem ofText_comment (text : List Char) :
    ofText .comment look text = ofText .code look (text.drop (comment text)) := by
  induction text with
  | nil => simp [ofText, comment]
  | cons c rest ih =>
      by_cases ends : isLineEnd c = true
      · have ne : c ≠ '#' ∧ c ≠ '\\' := by
          simp only [isLineEnd, Bool.or_eq_true, decide_eq_true_eq] at ends
          rcases ends with rfl | rfl <;> decide
        have stops : comment (c :: rest) = 0 := by simp [comment, ends]
        rw [stops, List.drop_zero, ofText_comment_cons, ofText_code]
        simp [ends, ne]
      · rw [ofText_comment_cons]
        simp [ends, ih, comment]

/-- A line break inside brackets is passed. -/
theorem ofText_lineBreak {c : Char} (ends : isLineEnd c = true) (inside : 0 < look.depth) :
    ofText .code look (c :: rest) =
      ofText .code look ((c :: rest).drop (lineBreak (c :: rest))) := by
  have open_ : look.depth ≠ 0 := Nat.pos_iff_ne_zero.1 inside
  have passed : ∀ {d : Char} {rest : List Char}, isLineEnd d = true →
      ofText .code look (d :: rest) = ofText .code look rest := by
    intro d rest ends
    have ne : d ≠ '#' ∧ d ≠ '\\' := by
      simp only [isLineEnd, Bool.or_eq_true, decide_eq_true_eq] at ends
      rcases ends with rfl | rfl <;> decide
    rw [ofText_code]
    simp [ends, ne, open_]
  rw [passed ends]
  rcases lineBreak_cases ends rest with ⟨more, rfl, rfl⟩ | ⟨-, one⟩
  · exact passed rfl
  · rw [one, List.drop_succ_cons, List.drop_zero]

/-- Outside of brackets the look stops at a line break. -/
theorem ofText_stop {c : Char} (ends : isLineEnd c = true) (outside : look.depth = 0) :
    ofText .code look (c :: rest) = look := by
  have ne : c ≠ '#' ∧ c ≠ '\\' := by
    simp only [isLineEnd, Bool.or_eq_true, decide_eq_true_eq] at ends
    rcases ends with rfl | rfl <;> decide
  rw [ofText_code]
  simp [ends, ne, outside]

/-- A line break behind a backslash is passed. -/
theorem ofText_continuation (broken : rest.head?.any isLineEnd = true) :
    ofText .code look ('\\' :: rest) = ofText .code look (rest.drop (lineBreak rest)) := by
  rw [ofText_code, if_neg (by decide), if_pos (by simp [broken])]
  cases rest with
  | nil => cases broken
  | cons c rest =>
      have ends : isLineEnd c = true := by simpa using broken
      rcases lineBreak_cases ends rest with ⟨more, rfl, rfl⟩ | ⟨notPair, one⟩
      · rfl
      · rw [one, List.drop_succ_cons, List.drop_zero]
        split
        · rename_i eq
          cases eq
          exact (notPair _ rfl rfl).elim
        · rename_i eq
          cases eq
          rfl
        · rename_i eq
          cases eq

/-- A bracket is a piece. -/
theorem ofText_bracket {c : Char} (h : c ∈ ['(', ')', '[', ']', '\x7b', '\x7d']) :
    ofText .code look (c :: rest) = ofText .code (look.meetChar c) rest := by
  have ne : c ≠ '#' ∧ c ≠ '\\' ∧ c ≠ ':' ∧ isLineEnd c = false ∧ isSpace c = false ∧
      Quotation.isQuote c = false := by
    simp only [List.mem_cons, List.not_mem_nil, or_false] at h
    rcases h with rfl | rfl | rfl | rfl | rfl | rfl <;> decide
  rw [ofText_code]
  simp [ne]

/-- A colon is a piece, unless an equals sign stands behind it. -/
theorem ofText_colon (alone : ∀ more, rest ≠ '=' :: more) :
    ofText .code look (':' :: rest) = ofText .code (look.meetChar ':') rest := by
  rw [ofText_code]
  simp [isLineEnd, isSpace, Quotation.isQuote]

/-- A colon and an equals sign are one piece. -/
theorem ofText_colonAssign :
    ofText .code look (':' :: '=' :: rest) = ofText .code look.meetOther rest := by
  rw [ofText_code]
  simp [isLineEnd, isSpace, Quotation.isQuote]

/-! ### Strings -/

/-- A character inside a string that is no backslash. -/
theorem ofText_quoted_cons {quote c : Char} {triple : Bool} (plain : c ≠ '\\')
    (inLine : ¬(!triple && (c = '\n' || c = '\r')) = true) :
    ofText (.quoted quote triple) look (c :: rest) =
      if c = quote then
        if !triple then ofText .code look rest
        else if rest.take 2 = [quote, quote] then ofText .code look (rest.drop 2)
        else ofText (.quoted quote triple) look rest
      else ofText (.quoted quote triple) look rest := by
  rw [ofText.eq_def]
  simp only [plain, isLineEnd, inLine, if_false]
  rcases rest with _ | ⟨a, _ | ⟨b, rest⟩⟩ <;> simp

/-- **A look into a string leads to its end**, if the string is in triple quotes or holds no line
break of two characters. -/
theorem ofText_body {quote : Char} {triple : Bool} {text : List Char}
    (isQuote : Quotation.isQuote quote = true)
    (flat : triple = false →
      ¬ ['\r', '\n'] <:+: text.take (Quotation.body quote triple text).length)
    (formed : (Quotation.body quote triple text).fault = none) :
    ofText (.quoted quote triple) look text =
      ofText .code look (text.drop (Quotation.body quote triple text).length) := by
  fun_induction Quotation.body quote triple text with
  | case1 | case4 | case5 => cases formed
  | case2 text ih =>
      rw [Reading.after, Nat.add_comm] at flat
      cases triple with
      | false => exact absurd ⟨['\\'], _, rfl⟩ (flat rfl)
      | true =>
          have notQuote : '\n' ≠ quote := by
            rintro rfl
            cases isQuote
          rw [ofText.eq_def]
          simp only [if_true]
          rw [ofText_quoted_cons (by decide) (by simp), if_neg notQuote, ih (by simp) formed,
            Reading.after, Nat.add_comm, List.drop_succ_cons, List.drop_succ_cons,
            List.drop_succ_cons]
  | case3 c text other ih =>
      rw [Reading.after, Nat.add_comm] at flat
      have flat' := fun single infix_ => flat single (List.infix_cons (List.infix_cons infix_))
      rw [ofText.eq_def]
      simp only [if_true]
      rw [ih flat' formed, Reading.after, Nat.add_comm, List.drop_succ_cons, List.drop_succ_cons]
  | case6 text single _ other none inLine =>
      rw [ofText_quoted_cons (Quotation.ne_backslash other none) inLine, if_pos rfl, if_pos single,
        List.drop_succ_cons, List.drop_zero]
  | case7 text triple three _ other none inLine =>
      rw [ofText_quoted_cons (Quotation.ne_backslash other none) inLine, if_pos rfl,
        if_neg triple, if_pos three, List.drop_succ_cons]
  | case8 text triple notThree _ other none inLine ih =>
      rw [ofText_quoted_cons (Quotation.ne_backslash other none) inLine, if_pos rfl,
        if_neg triple, if_neg notThree, ih (fun single => (triple (by simp [single])).elim) formed,
        Reading.after, Nat.add_comm, List.drop_succ_cons]
  | case9 c text _ other none inLine notQuote ih =>
      rw [Reading.after, Nat.add_comm] at flat
      have flat' := fun single infix_ => flat single (List.infix_cons infix_)
      rw [ofText_quoted_cons (Quotation.ne_backslash other none) inLine, if_neg notQuote,
        ih flat' formed, Reading.after, Nat.add_comm, List.drop_succ_cons]

/-- What stands before the quotes of a string does not matter. -/
theorem wraps_append {front text : List Char}
    (noQuote : ∀ c ∈ front, Quotation.isQuote c = false) :
    Quotation.wraps (front ++ text) = Quotation.wraps text := by
  unfold Quotation.wraps
  rw [List.dropWhile_append_of_pos fun c mem => by simp [noQuote c mem]]

/-- A string is one piece. -/
theorem ofText_string {quote : Char} {text : List Char} (isQuote : Quotation.isQuote quote = true)
    (flat : Quotation.wraps ((quote :: text).take (Quotation.read (quote :: text)).length) = false)
    (formed : (Quotation.read (quote :: text)).fault = none) :
    ofText .code look (quote :: text) = ofText .code look.meetOther
      ((quote :: text).drop (Quotation.read (quote :: text)).length) := by
  have ne : quote ≠ '#' ∧ quote ≠ '\\' ∧ isLineEnd quote = false ∧ isSpace quote = false := by
    simp only [Quotation.isQuote, Bool.or_eq_true, decide_eq_true_eq] at isQuote
    rcases isQuote with rfl | rfl <;> decide
  have opens : ofText .code look (quote :: text) =
      if text.take 2 = [quote, quote] then
        ofText (.quoted quote true) look.meetOther (text.drop 2)
      else ofText (.quoted quote false) look.meetOther text := by
    rw [ofText_code]
    simp only [ne, isQuote]
    rcases text with _ | ⟨a, _ | ⟨b, rest⟩⟩ <;> simp
  rw [opens]
  unfold Quotation.read at flat formed ⊢
  dsimp only at flat formed ⊢
  by_cases three : text.take 2 = [quote, quote]
  · rw [if_pos three] at formed ⊢
    rw [if_pos three, ofText_body isQuote (by simp) formed,
      List.drop_drop, Reading.after, Nat.add_right_comm 2 1, List.drop_succ_cons]
  · rw [if_neg three] at flat formed ⊢
    rw [Reading.after, Nat.add_comm, List.take_succ_cons] at flat
    have single : ¬ ['\r', '\n'] <:+: text.take (Quotation.body quote false text).length := by
      intro infix_
      have apart : (text.take (Quotation.body quote false text).length).take 2 ≠ [quote, quote] := by
        intro same
        have long := congrArg List.length same
        simp only [List.length_take, List.length_cons, List.length_nil] at long
        rw [List.take_take, Nat.min_eq_left (by omega)] at same
        exact three same
      simp [Quotation.wraps, isQuote, apart, infix_] at flat
    rw [if_neg three, ofText_body isQuote (fun _ => single) formed, Reading.after, Nat.add_comm,
      List.drop_succ_cons]

/-! ### Tokens -/

/-- The look has passed a token of the kind: brackets and colons are as the token says, and there
are more pieces; a colon is one piece. -/
structure Met (look : Lookahead) (kind : TokenKind) (after : Lookahead) : Prop where
  depth : after.depth = (look.meetToken kind).depth
  colon : after.colon = (look.meetToken kind).colon
  pieces : look.pieces < after.pieces
  single : kind = .symbol .colon → after.pieces = look.pieces + 1

theorem Met.of_others {kind : TokenKind} {count : Nat} (other : TokenKind.isOther kind = true)
    (pos : 0 < count) : Met look kind (look.others count) := by
  simp only [TokenKind.isOther, Bool.and_eq_true, Bool.not_eq_true', bne_iff_ne] at other
  obtain ⟨⟨opens, closes⟩, colon⟩ := other
  refine ⟨?_, ?_, Nat.lt_add_of_pos_right pos, fun is => absurd is colon⟩ <;>
    simp [meetToken, meet, others, opens, closes, colon]

theorem Met.refl_token (look : Lookahead) (kind : TokenKind) :
    Met look kind (look.meetToken kind) :=
  ⟨rfl, rfl, Nat.lt_succ_self _, fun _ => rfl⟩

/-- The look at a text passes a token of the kind and the length. -/
def Passes (look : Lookahead) (text : List Char) (kind : TokenKind) (length : Nat) : Prop :=
  ∃ after, Met look kind after ∧ ofText .code look text = ofText .code after (text.drop length)

/-- A token of characters that stand for themselves. -/
theorem passes_of_ordinary {text : List Char} {kind : TokenKind} {length : Nat}
    (other : TokenKind.isOther kind = true) (pos : 0 < length) (within : length ≤ text.length)
    (ordinary : ∀ c ∈ text.take length, isOrdinary c = true) : Passes look text kind length := by
  have some : text.take length ≠ [] := by
    intro none
    have := congrArg List.length none
    rw [List.length_take, Nat.min_eq_left within] at this
    exact absurd this (Nat.ne_of_gt pos)
  have run : Lookahead.ofText .code look (text.take length ++ text.drop length) = _ :=
    ofText_run some ordinary
  rw [List.take_append_drop, List.length_take, Nat.min_eq_left within] at run
  exact ⟨_, .of_others other pos, run⟩

/-- A word, or a string with a mark before its quote. -/
theorem passes_word {c : Char} {rest : List Char} (start : isNameStart c = true)
    (flat : (word (c :: rest)).kind = .string →
      Quotation.wraps ((c :: rest).take (word (c :: rest)).length) = false)
    (formed : (word (c :: rest)).fault = none) :
    Passes look (c :: rest) (word (c :: rest)).kind (word (c :: rest)).length := by
  have part := isNamePart_of_isNameStart start
  generalize text_eq : c :: rest = text at *
  have some : text.takeWhile isNamePart ≠ [] := by
    rw [← text_eq, List.takeWhile_cons, part]
    simp
  have pos : 0 < (text.takeWhile isNamePart).length := List.length_pos_iff.2 some
  have within : (text.takeWhile isNamePart).length ≤ text.length :=
    (List.takeWhile_prefix _).length_le
  have ordinary : ∀ d ∈ text.takeWhile isNamePart, isOrdinary d = true :=
    fun d mem => isOrdinary_of_isNamePart (List.all_eq_true.1 List.all_takeWhile d mem)
  have front := take_takeWhile_length isNamePart text
  unfold word at flat formed ⊢
  dsimp only at flat formed ⊢
  split
  · rename_i string
    rw [if_pos string] at flat formed
    have split : text =
        text.takeWhile isNamePart ++ text.drop (text.takeWhile isNamePart).length := by
      have split := List.take_append_drop (text.takeWhile isNamePart).length text
      rw [front] at split
      exact split.symm
    have run : Lookahead.ofText .code look (text.takeWhile isNamePart ++
        text.drop (text.takeWhile isNamePart).length) = _ := ofText_run some ordinary
    rw [← split] at run
    have flat' : Quotation.wraps ((text.drop (text.takeWhile isNamePart).length).take
        (Quotation.read (text.drop (text.takeWhile isNamePart).length)).length) = false := by
      have flat := flat rfl
      change Quotation.wraps (text.take ((text.takeWhile isNamePart).length + _)) = false at flat
      rw [List.take_add, front, wraps_append] at flat
      · exact flat
      · intro d mem
        have ne := fun other special => ne_of_isOrdinary (d := other) (ordinary d mem) special
        simp [Quotation.isQuote, ne '\'' (by decide), ne '"' (by decide)]
    have begins := (Bool.and_eq_true_iff.1 string).1
    have formed : (Quotation.read (text.drop (text.takeWhile isNamePart).length)).fault = none :=
      formed
    refine ⟨look.others ((text.takeWhile isNamePart).length + 1),
      .of_others rfl (Nat.succ_pos _), ?_⟩
    change _ = ofText .code _ (text.drop ((text.takeWhile isNamePart).length +
      (Quotation.read (text.drop (text.takeWhile isNamePart).length)).length))
    rw [run, ← List.drop_drop]
    generalize text.drop (text.takeWhile isNamePart).length = last at *
    cases last with
    | nil => cases begins
    | cons quote more =>
        exact ofText_string begins flat' formed
  · split <;> exact passes_of_ordinary rfl pos within (by rw [front]; exact ordinary)

theorem passes_symbol {text : List Char} {sign : Symbol} (found : symbol? text = some sign) :
    Passes look text (.symbol sign) sign.spelling.length := by
  obtain ⟨-, within, spelled, -⟩ := symbol_sits found
  have front : text.take sign.spelling.length = sign.spelling.toList := spelled _ rfl
  have special : ∀ sign : Symbol, sign.spelling.toList.all isOrdinary = true ∧
      (TokenKind.symbol sign).isOther = true ∨ sign ∈ [.colonAssign, .colon, .leftParen,
        .rightParen, .leftBracket, .rightBracket, .leftCurly, .rightCurly] := by
    intro sign
    cases sign <;> decide
  rcases special sign with ⟨ordinary, other⟩ | special
  · refine passes_of_ordinary other (by cases sign <;> decide) within ?_
    rw [front]
    exact List.all_eq_true.1 ordinary
  · have split : text = sign.spelling.toList ++ text.drop sign.spelling.length := by
      rw [← front, List.take_append_drop]
    generalize text.drop sign.spelling.length = rest at *
    subst split
    simp only [List.mem_cons, List.not_mem_nil, or_false] at special
    rcases special with rfl | rfl | rfl | rfl | rfl | rfl | rfl | rfl
    · exact ⟨look.others 1, .of_others rfl Nat.one_pos, ofText_colonAssign⟩
    · -- Before an equals sign the colon would be a part of another symbol.
      have alone : ∀ more, rest ≠ '=' :: more := by
        rintro more rfl
        cases found
      exact ⟨_, .refl_token look _, ofText_colon alone⟩
    all_goals exact ⟨_, .refl_token look _, ofText_bracket (by decide)⟩

/-- The characters that begin no token are pieces, and so is a backslash within a line. -/
theorem passes_invalid {c : Char} {rest : List Char} (notSpace : isSpace c = false)
    (notComment : c ≠ '#') (notEnd : isLineEnd c = false)
    (notContinued : ¬(c = '\\' && rest.head?.any isLineEnd) = true)
    (notQuote : Quotation.isQuote c = false) (noSymbol : symbol? (c :: rest) = none) :
    Passes look (c :: rest) .invalid 1 := by
  have notSymbol : c ∉ [':', '(', ')', '[', ']', '\x7b', '\x7d'] := by
    intro mem
    have some : (symbol? (c :: rest)).isSome = true := by
      simp only [List.mem_cons, List.not_mem_nil, or_false] at mem
      rcases mem with rfl | rfl | rfl | rfl | rfl | rfl | rfl
      · rw [symbol?, List.find?_isSome]
        exact ⟨.colon, Symbol.mem_byPriority _, rfl⟩
      all_goals rfl
    rw [noSymbol] at some
    cases some
  simp only [List.mem_cons, List.not_mem_nil, or_false, not_or] at notSymbol
  refine ⟨look.others 1, .of_others rfl Nat.one_pos, ?_⟩
  rw [ofText_code]
  simp [notSpace, notComment, notEnd, notQuote, notSymbol, notContinued, meetChar, others, meet]

/-- **The look leads on over a well-formed token.** -/
theorem passes_read {c : Char} {rest : List Char} (notSpace : isSpace c = false)
    (notComment : c ≠ '#') (notEnd : isLineEnd c = false)
    (notContinued : ¬(c = '\\' && rest.head?.any isLineEnd) = true)
    (flat : (Lexeme.read (c :: rest)).kind = .string →
      Quotation.wraps ((c :: rest).take (Lexeme.read (c :: rest)).length) = false)
    (formed : (Lexeme.read (c :: rest)).fault = none) :
    Passes look (c :: rest) (Lexeme.read (c :: rest)).kind (Lexeme.read (c :: rest)).length := by
  unfold Lexeme.read at flat formed ⊢
  dsimp only at flat formed ⊢
  split
  · rename_i start
    rw [if_pos start] at flat formed
    exact passes_word start flat formed
  rename_i notName
  rw [if_neg notName] at flat formed
  split
  · rename_i starts
    exact passes_of_ordinary rfl (Numeral.read_pos starts) (Numeral.read_within _)
      (Numeral.read_ordinary _)
  rename_i notNumber
  rw [if_neg notNumber] at flat formed
  split
  · rename_i isQuote
    rw [if_pos isQuote] at flat formed
    exact ⟨look.others 1, .of_others rfl Nat.one_pos, ofText_string isQuote (flat rfl) formed⟩
  rename_i notQuote
  split
  · rename_i sign found
    exact passes_symbol found
  · rename_i noSymbol
    exact passes_invalid notSpace notComment notEnd notContinued (by simpa using notQuote) noSymbol

/-- A comment is passed. -/
theorem ofText_hash :
    ofText .code look ('#' :: rest) =
      ofText .code look (('#' :: rest).drop (comment ('#' :: rest))) := by
  have length : comment ('#' :: rest) = comment rest + 1 := by
    simp [comment, isLineEnd]
  rw [length, List.drop_succ_cons, ← ofText_comment, ofText_code]
  simp

end Lookahead

namespace Scanner

open Lookahead

variable {s t : Scanner} {look : Lookahead}

/-! ### Steps -/

/-- The look passes a token; a comment that declares a type is nothing to it. -/
def MetBy (look : Lookahead) (kind : TokenKind) (after : Lookahead) : Prop :=
  kind = .typeComment ∧ after = look ∨ kind ≠ .typeComment ∧ Met look kind after

/-- What a step within a line means for a look at the characters that are left. -/
inductive Sees (look : Lookahead) (s : Scanner) : Found × Scanner → Prop
  | passes {pieces : List Trivia} {t : Scanner} (inLine : t.InLine)
      (nesting : t.nesting = s.nesting)
      (same : Lookahead.ofText .code look s.rest = Lookahead.ofText .code look t.rest) :
      Sees look s (.trivia pieces, t)
  | meets {pieces : List Trivia} {token : Token} {t : Scanner} {after : Lookahead}
      (inLine : t.InLine) (onLine : token.kind.onLine = true) (met : MetBy look token.kind after)
      (level : after.depth = t.nesting)
      (same : Lookahead.ofText .code look s.rest = Lookahead.ofText .code after t.rest) :
      Sees look s (.token pieces token, t)
  | ends {pieces : List Trivia} {token : Token} {t : Scanner} (newline : token.kind = .newline)
      (stops : Lookahead.ofText .code look s.rest = look) : Sees look s (.token pieces token, t)
  | fault {cause : LexicalFault} {position : Nat} {t : Scanner} :
      Sees look s (.fault cause position, t)

theorem InLine.skip (h : s.InLine) (count : Nat) : (s.skip count).InLine :=
  ⟨h.quiet, h.begun, h.content⟩

/-- A comment is passed, or it is a token that is nothing to the look. -/
theorem InLine.sees_comment {rest : List Char} (h : s.InLine) (front : s.rest = '#' :: rest)
    (level : look.depth = s.nesting) :
    Sees look s (match typeComment? s.rest with
      | some count =>
        if s.options.typeComments && s.lineHasContent then
          (.token [] (s.lexeme .typeComment count), s.skip count)
        else s.passTrivia .comment (comment s.rest)
      | none => s.passTrivia .comment (comment s.rest)) := by
  have same : Lookahead.ofText .code look s.rest =
      Lookahead.ofText .code look (s.rest.drop (comment s.rest)) := by
    rw [front, ofText_hash]
  cases found : typeComment? s.rest with
  | none => exact .passes (h.skip _) rfl same
  | some count =>
      dsimp only
      split
      · rw [← typeComment?_eq found] at same
        exact .meets (h.skip _) rfl (Or.inl ⟨rfl, rfl⟩) level same
      · exact .passes (h.skip _) rfl same

/-- A token is met, if it is well-formed. -/
theorem InLine.sees_token {c : Char} {rest : List Char} (h : s.InLine) (front : s.rest = c :: rest)
    (flat : ∀ pieces token t, s.readToken = (.token pieces token, t) → token.wraps = false)
    (level : look.depth = s.nesting) (notSpace : ¬isSpace c = true)
    (notComment : c ≠ '#') (notContinued : ¬(c = '\\' && rest.head?.any isLineEnd) = true)
    (notEnd : ¬isLineEnd c = true) : Sees look s s.readToken := by
  have sits : (Lexeme.read s.rest).Sits s.rest := Lexeme.read_sits (by simp [front])
  unfold readToken at flat ⊢
  cases formed : (Lexeme.read s.rest).fault with
  | some cause =>
      simp only [formed]
      exact .fault
  | none =>
      simp only [formed] at flat ⊢
      have flat' : (Lexeme.read s.rest).kind = .string →
          Quotation.wraps (s.rest.take (Lexeme.read s.rest).length) = false := by
        intro string
        have flat := flat _ _ _ rfl
        simpa [Token.wraps, lexeme, string, carriesText] using flat
      have passes : Lookahead.Passes look (c :: rest) _ _ :=
        passes_read (by simpa using notSpace) notComment (by simpa using notEnd) notContinued
          (front ▸ flat') (front ▸ formed)
      rw [← front] at passes
      obtain ⟨after, met, same⟩ := passes
      have layout := sits.notLayout
      simp only [List.mem_cons, List.not_mem_nil, or_false, not_or] at layout
      refine .meets ⟨h.quiet, h.begun, rfl⟩ ?_ (Or.inr ⟨layout.2.2.2.2, met⟩) ?_ same
      · change (Lexeme.read s.rest).kind.onLine = true
        simp [TokenKind.onLine, layout]
      · -- The look counts brackets as the scanner does.
        rw [met.depth]
        change nestingAfter look.depth _ = nestingAfter s.nesting _
        rw [level]

/-- **Within a line, the look leads on over what a step passes.** -/
theorem InLine.sees (h : s.InLine)
    (flat : ∀ pieces token t, s.step = (.token pieces token, t) → token.wraps = false)
    (level : look.depth = s.nesting) : Sees look s s.step := by
  cases front : s.rest with
  | nil =>
      rw [step_of_rest_nil front, finish, h.content]
      exact .ends rfl (by rw [front, Lookahead.ofText])
  | cons c rest =>
      have stepped : s.step = s.stepInLine := by simp [step, h.begun]
      rw [stepped, stepInLine_of_cons front] at flat
      rw [stepped, stepInLine_of_cons front]
      by_cases space : isSpace c = true
      · rw [if_pos space]
        exact .passes (h.skip _) rfl (ofText_spaces _)
      rw [if_neg space] at flat ⊢
      by_cases comment : c = '#'
      · subst comment
        rw [if_pos rfl]
        exact h.sees_comment front level
      rw [if_neg comment] at flat ⊢
      by_cases continued : (c = '\\' && rest.head?.any isLineEnd) = true
      · obtain ⟨backslash, broken⟩ := Bool.and_eq_true_iff.1 continued
        rw [if_pos continued]
        refine .passes (h.skip _) rfl ?_
        change _ = Lookahead.ofText .code look (s.rest.drop (1 + lineBreak rest))
        rw [front, of_decide_eq_true backslash, Nat.add_comm, List.drop_succ_cons]
        exact ofText_continuation broken
      rw [if_neg continued] at flat ⊢
      by_cases ends : isLineEnd c = true
      · rw [if_pos ends, h.content]
        -- The line goes on only in brackets, for the scanner as for the look.
        split
        · rename_i inside
          simp only [Bool.not_true, Bool.or_false, decide_eq_true_eq] at inside
          refine .passes (h.skip _) rfl ?_
          change _ = Lookahead.ofText .code look (s.rest.drop (lineBreak s.rest))
          rw [front]
          exact ofText_lineBreak ends (level ▸ inside)
        · rename_i outside
          simp only [Bool.not_true, Bool.or_false, decide_eq_true_eq] at outside
          refine .ends rfl ?_
          rw [front]
          exact ofText_stop ends (by omega)
      rw [if_neg ends] at flat ⊢
      exact h.sees_token front flat level space comment continued ends

theorem InLine.settled (h : s.InLine) : s.Settled :=
  ⟨fun start => absurd (h.begun.symm.trans start) Bool.false_ne_true,
    fun start => absurd (h.begun.symm.trans start) Bool.false_ne_true,
    fun some => absurd h.quiet some, by simp [h.quiet]⟩

/-- **Within a line, the look leads on over a token**, or stops with the line. -/
theorem Finds.sees {token : Token} (found : Finds s token t) (h : s.InLine)
    (flat : token.wraps = false) (level : look.depth = s.nesting) :
    (∃ after, t.InLine ∧ token.kind.onLine = true ∧ MetBy look token.kind after ∧
      after.depth = t.nesting ∧
        Lookahead.ofText .code look s.rest = Lookahead.ofText .code after t.rest) ∨
      token.kind = .newline ∧ Lookahead.ofText .code look s.rest = look := by
  induction found with
  | token step =>
      have sees := h.sees (fun pieces token t stepped => by cases step.symm.trans stepped; exact flat)
        level
      rw [step] at sees
      cases sees with
      | meets inLine onLine met level same => exact Or.inl ⟨_, inLine, onLine, met, level, same⟩
      | ends newline stops => exact Or.inr ⟨newline, stops⟩
  | trivia step later ih =>
      have sees := h.sees (fun pieces token t stepped => by cases step.symm.trans stepped) level
      rw [step] at sees
      cases sees with
      | passes inLine nesting same =>
          rw [same]
          exact ih inLine flat (level.trans nesting.symm)

end Scanner

/-! ### Lines -/

namespace Lookahead

/-- A look at the text knows what a look at the tokens knows, and counts at least as many pieces.  A
colon that stands alone is one piece to both. -/
structure Tracks (look tokens : Lookahead) : Prop where
  depth : look.depth = tokens.depth
  colon : look.colon = tokens.colon
  pieces : tokens.pieces ≤ look.pieces
  none : tokens.pieces = 0 → look.pieces = 0
  alone : tokens.colon = true → tokens.pieces = 1 → look.pieces = 1

theorem Tracks.refl (look : Lookahead) : Tracks look look :=
  ⟨rfl, rfl, Nat.le_refl _, id, fun _ => id⟩

theorem Tracks.met {look tokens after : Lookahead} {token : Token} (h : Tracks look tokens)
    (met : Scanner.MetBy look token.kind after) : Tracks after (tokens.meetOne token) := by
  rcases met with ⟨comment, rfl⟩ | ⟨notComment, met⟩
  · rwa [meetOne, if_pos comment]
  · rw [meetOne, if_neg notComment]
    have more := met.pieces
    have pieces := h.pieces
    refine ⟨?_, ?_, ?_, ?_, ?_⟩
    · rw [met.depth]
      simp [meetToken, meet, h.depth]
    · rw [met.colon]
      simp [meetToken, meet, h.depth]
    · change tokens.pieces + 1 ≤ _
      omega
    · exact fun none => absurd none (Nat.succ_ne_zero _)
    · intro colon single
      have first : tokens.pieces = 0 := Nat.succ.inj single
      have isColon : token.kind = .symbol .colon := by
        simp only [meetToken, meet, Bool.and_eq_true, decide_eq_true_eq] at colon
        exact colon.1
      rw [met.single isColon, h.none first]

/-- Whether the line opens a block is the same to both. -/
theorem Tracks.opensBlock {look tokens : Lookahead} (h : Tracks look tokens) :
    look.opensBlock = tokens.opensBlock := by
  unfold Lookahead.opensBlock
  rw [h.colon]
  cases colon : tokens.colon with
  | false => rfl
  | true =>
      have pieces := h.pieces
      have alone := h.alone colon
      have none := h.none
      by_cases two : 2 ≤ tokens.pieces
      · simp [two, Nat.le_trans two pieces]
      · have few : look.pieces < 2 := by omega
        simp [two, Nat.not_le.2 few]

end Lookahead

namespace Scanner

open Lookahead

variable {s t : Scanner}

/-- **The look at the text knows what the tokens of the line say.** -/
theorem InLine.tracks {look tokens : Lookahead} {line more : List Token} {last : Token}
    (h : s.InLine) (level : look.depth = s.nesting) (tracks : Tracks look tokens)
    (running : s.current.kind ≠ .eof)
    (path : Path s (s.current :: (line ++ last :: more)) t)
    (onLine : ∀ token ∈ line, token.kind.onLine = true) (ends : last.kind.onLine = false)
    (flat : ∀ token ∈ line, token.wraps = false) :
    Tracks (Lookahead.ofText .code look s.rest) (tokens.meetAll line) := by
  induction line generalizing s look tokens with
  | nil =>
      obtain ⟨-, next, moved, path⟩ := Path.cons_iff.1 path
      obtain ⟨u, found, same⟩ := finds_of_advance h.quiet running moved
      have here : next.current = last := (Path.cons_iff.1 path).1
      have whole : next.current.plain.wraps = false := by
        rw [Token.wraps_plain, here]
        exact Token.wraps_of_onLine ends
      rcases found.sees h whole level with ⟨_, -, inside, -⟩ | ⟨-, stops⟩
      · rw [Token.plain_kind, here, ends] at inside
        cases inside
      · rw [stops]
        exact tracks
  | cons token line ih =>
      obtain ⟨-, next, moved, path⟩ := Path.cons_iff.1 path
      obtain ⟨u, found, same⟩ := finds_of_advance h.quiet running moved
      have here : next.current = token := (Path.cons_iff.1 path).1
      have inside := onLine token List.mem_cons_self
      have whole : next.current.plain.wraps = false := by
        rw [Token.wraps_plain, here]
        exact flat token List.mem_cons_self
      rcases found.sees h whole level with ⟨after, inLine, -, met, level', same'⟩ | ⟨newline, -⟩
      · rw [Token.plain_kind, here] at met
        have running' : next.current.kind ≠ .eof := by
          intro eof
          rw [here] at eof
          rw [eof] at inside
          cases inside
        have rest : next.rest = u.rest := by rw [same]
        have inLine' : next.InLine := by
          rw [same]
          exact ⟨inLine.quiet, inLine.begun, inLine.content⟩
        have nesting : next.nesting = u.nesting := by rw [same]
        rw [← rest] at same'
        rw [same']
        refine ih inLine' (level'.trans nesting.symm) (tracks.met met) running' ?_
          (fun other mem => onLine other (List.mem_cons_of_mem _ mem))
          fun other mem => flat other (List.mem_cons_of_mem _ mem)
        rwa [here]
      · rw [Token.plain_kind, here] at newline
        rw [newline] at inside
        cases inside

/-- **Whether a line opens a block is seen in its text as in its tokens**, if no bracket is open
before. -/
theorem opensBlock_of_path {line more : List Token} {last : Token} (h : s.InLine)
    (outside : s.nesting = 0) (running : s.current.kind ≠ .eof)
    (path : Path s (s.current :: (line ++ last :: more)) t)
    (onLine : ∀ token ∈ line, token.kind.onLine = true) (ends : last.kind.onLine = false)
    (flat : ∀ token ∈ line, token.wraps = false) :
    s.opensBlock = (Lookahead.start.meetAll line).opensBlock :=
  (h.tracks outside.symm (Tracks.refl .start) running path onLine ends flat).opensBlock

end Scanner

end PythonSyntax
