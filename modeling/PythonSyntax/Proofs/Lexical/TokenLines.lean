/-
**The lines of a token listing.**

The command lists a token on a line of its own: its span, and what a message calls it.  No name,
number, word, sign or mark is called by anything with a line break in it.  But a string is called
by its text, and this may hold line breaks; then the listing has more lines than there are tokens.

Main definitions:

* `PythonSyntax.InLine` — a text without line breaks;
* `PythonSyntax.Token.lineFeeds` — the line feeds in what a message calls a token.

Main results:

* `PythonSyntax.Lexeme.read_inLine` — what is read off a text goes beyond a line only in a string;
* `PythonSyntax.inLine_describe` — so does what a message calls a token;
* `PythonSyntax.Command.splitOn_unlines` — the lines of a text put together from lines;
* `PythonSyntax.Command.listing_lines` — **the listing has a line for each token and one more for
  each line feed in a string**.
-/

import Mathlib.Algebra.Ring.Nat
import Mathlib.Data.List.TakeWhile
import PythonSyntax.Command
import PythonSyntax.Proofs.Lexical.Extension
import PythonSyntax.Proofs.Lexical.TokenLaws

set_option autoImplicit false

namespace PythonSyntax

open Lexeme

/-! ### Texts without line breaks -/

/-- The text has no line breaks. -/
def InLine (text : String) : Prop := ∀ c ∈ text.toList, isLineEnd c = false

instance (text : String) : Decidable (InLine text) :=
  List.decidableBAll (fun c => isLineEnd c = false) text.toList

theorem InLine.append {one two : String} (h : InLine one) (h' : InLine two) :
    InLine (one ++ two) := by
  unfold InLine
  rw [String.toList_append]
  exact List.forall_mem_append.2 ⟨h, h'⟩

theorem InLine.not_mem {text : String} (h : InLine text) : '\n' ∉ text.toList :=
  fun feed => nomatch h _ feed

theorem inLine_toString (number : Nat) : InLine (toString number) := by
  intro c mem
  rw [Nat.toString_eq_repr, Nat.repr_eq_ofList_toDigits, String.toList_ofList] at mem
  have digit := Nat.isDigit_of_mem_toDigits (by decide) (by decide) mem
  rw [isLineEnd, Bool.or_eq_false_iff, decide_eq_false_iff_not, decide_eq_false_iff_not]
  constructor <;> rintro rfl <;> cases digit

theorem inLine_blanks (count : Nat) : InLine ("".pushn ' ' count) := by
  induction count with
  | zero => exact fun _ mem => absurd mem List.not_mem_nil
  | succ count ih =>
      intro c mem
      change c ∈ (("".pushn ' ' count).push ' ').toList at mem
      rw [String.toList_push, List.mem_append] at mem
      rcases mem with mem | mem
      · exact ih c mem
      · rw [List.mem_singleton.1 mem]
        rfl

/-! ### What a message calls a token -/

/-- **What is read off a text stays within the line**, if it is no string. -/
theorem Lexeme.read_inLine {c : Char} {rest : List Char} (inLine : isLineEnd c = false)
    (other : (read (c :: rest)).kind ≠ .string) :
    ∀ d ∈ (c :: rest).take (read (c :: rest)).length, isLineEnd d = false := by
  unfold Lexeme.read at other ⊢
  dsimp only at other ⊢
  split
  · rename_i begins
    rw [if_pos begins] at other
    have run : ∀ d ∈ (c :: rest).takeWhile isNamePart, isLineEnd d = false := fun d mem =>
      isLineEnd_of_isOrdinary (isOrdinary_of_isNamePart (List.mem_takeWhile_imp mem))
    unfold word at other ⊢
    dsimp only at other ⊢
    split
    · rename_i string
      rw [if_pos string] at other
      exact absurd rfl other
    · split <;> (rw [take_takeWhile_length]; exact run)
  · rename_i noName
    rw [if_neg noName] at other
    split
    · exact (Numeral.read_ordinary _).inLine
    · rename_i noNumber
      rw [if_neg noNumber] at other
      split
      · rename_i quote
        rw [if_pos quote] at other
        exact absurd rfl other
      · split
        · rename_i sign found
          rw [(symbol_sits found).spelled sign.spelling rfl]
          exact spelling_inLine sign
        · simpa using inLine

/-- The kinds that are written with one of the words and signs, or with none, are called by names
without line breaks. -/
theorem TokenKind.inLine_describe (kind : TokenKind) : InLine kind.describe := by
  have quoted : InLine "'" := by decide
  cases kind with
  | symbol sign => exact .append (.append quoted (spelling_inLine sign)) quoted
  | keyword word =>
      have spelled : InLine word.spelling := by cases word <;> decide
      exact .append (.append quoted spelled) quoted
  | _ => decide

/-- A token is called by its text if it is a name, a number, a string or unknown, and else by its
kind. -/
theorem Token.inLine_describe {token : Token} (other : token.kind ≠ .string)
    (text : token.kind ∈ [.name, .number, .invalid] → InLine token.text) :
    InLine token.describe := by
  unfold describe
  split
  · rename_i name
    exact .append (.append (by decide) (text (by simp [name]))) (by decide)
  · rename_i number
    exact .append (by decide) (text (by simp [number]))
  · rename_i string
    exact absurd string other
  · rename_i unknown
    exact .append (.append (by decide) (text (by simp [unknown]))) (by decide)
  · exact .append (by decide) (TokenKind.inLine_describe _)
  · exact token.kind.inLine_describe

/-- **Only a string is called by something with a line break**, among the tokens of a text. -/
theorem inLine_law : TokenLaw fun token => token.kind ≠ .string → InLine token.describe where
  layout := by
    intro token marks other
    refine token.inLine_describe other fun written => ?_
    cases kind : token.kind <;> simp_all [TokenKind.isLayout]
  typeComment := by
    intro token typed other
    refine token.inLine_describe other fun written => ?_
    simp [typed] at written
  reads := by
    intro s c rest front inLine formed other
    change (read s.rest).kind ≠ .string at other
    refine Token.inLine_describe other fun written d mem => ?_
    have carries : carriesText (read s.rest).kind = true := by
      change (read s.rest).kind ∈ _ at written
      simp only [List.mem_cons, List.not_mem_nil, or_false] at written
      rcases written with kind | kind | kind <;> rw [kind] <;> rfl
    rw [Scanner.lexeme_text_of_carriesText carries] at mem
    rw [front] at other mem
    exact read_inLine inLine other d mem
  withTrivia _ inLine := inLine

/-! ### Lines -/

/-- The line feeds in what a message calls the token. -/
def Token.lineFeeds (token : Token) : Nat :=
  if token.kind = .string then token.text.toList.count '\n' else 0

/-- The tokens of a text are called by what has as many line feeds as their strings. -/
theorem count_describe {options : Options} {text : List Char} {tokens : List Token}
    (read : tokenize options text = .ok tokens) {token : Token} (mem : token ∈ tokens) :
    token.describe.toList.count '\n' = token.lineFeeds := by
  unfold Token.lineFeeds
  split
  · rename_i string
    have called : token.describe = "string " ++ token.text := by rw [Token.describe, string]
    rw [called, String.toList_append, List.count_append]
    exact Nat.zero_add _
  · rename_i other
    exact List.count_eq_zero.2 (inLine_law.of_tokenize read token mem other).not_mem

namespace Command

/-- In front of what a message calls it stands the span of a token. -/
theorem exists_tokenLine (token : Token) :
    ∃ lead, InLine lead ∧ tokenLine token = lead ++ token.describe := by
  refine ⟨_, ?_, rfl⟩
  have blanks := inLine_blanks
  have number := inLine_toString
  exact .append (.append (.append (.append (.append (blanks _) (number _)) (by decide)) (number _))
    (blanks _)) (by decide)

theorem unlines_cons (line : String) (lines : List String) :
    (unlines (line :: lines)).toList = line.toList ++ '\n' :: (unlines lines).toList := by
  simp [unlines, String.toList_join]

/-- **The lines of a text put together from lines** are those of each of them. -/
theorem splitOn_unlines (lines : List String) :
    (unlines lines).toList.splitOn '\n' =
      lines.flatMap (fun line => line.toList.splitOn '\n') ++ [[]] := by
  induction lines with
  | nil => rfl
  | cons line lines ih =>
      rw [unlines_cons, List.splitOn_append_cons_self, ih, List.flatMap_cons, List.append_assoc]

theorem count_unlines (lines : List String) :
    (unlines lines).toList.count '\n' =
      lines.length + (lines.map fun line => line.toList.count '\n').sum := by
  induction lines with
  | nil => rfl
  | cons line lines ih =>
      rw [unlines_cons, List.count_append, List.count_cons_self, ih, List.map_cons, List.sum_cons,
        List.length_cons]
      omega

variable {invocation : Invocation} {source : List Char} {tokens : List Token}

theorem stdout_list (asked : invocation.tokensOnly = true)
    (read : tokenize { typeComments := invocation.typeComments } source = .ok tokens)
    (input : String) :
    list invocation input source = ⟨0, unlines (tokens.map tokenLine), ""⟩ := by
  unfold list
  rw [if_pos asked, read]

/-- The line for a token has the line feeds of its string. -/
theorem count_tokenLine {options : Options} (read : tokenize options source = .ok tokens)
    {token : Token} (mem : token ∈ tokens) :
    (tokenLine token).toList.count '\n' = token.lineFeeds := by
  obtain ⟨lead, inLine, eq⟩ := exists_tokenLine token
  rw [eq, String.toList_append, List.count_append, List.count_eq_zero.2 inLine.not_mem,
    Nat.zero_add, count_describe read mem]

/-- **The listing has a line for each token, and one more for each line feed in a string.**  The
lines are those for the tokens, in order, each split where a string breaks it; none other is
broken.  So there is one line for each token if and only if no string has a line feed. -/
theorem listing_lines (asked : invocation.tokensOnly = true)
    (read : tokenize { typeComments := invocation.typeComments } source = .ok tokens)
    (input : String) :
    (list invocation input source).stdout.toList.splitOn '\n' =
        tokens.flatMap (fun token => (tokenLine token).toList.splitOn '\n') ++ [[]] ∧
      (∀ token ∈ tokens, token.kind ≠ .string → InLine (tokenLine token)) ∧
      (list invocation input source).stdout.toList.count '\n' =
        tokens.length + (tokens.map Token.lineFeeds).sum ∧
      ((list invocation input source).stdout.toList.count '\n' = tokens.length ↔
        ∀ token ∈ tokens, token.kind = .string → '\n' ∉ token.text.toList) := by
  have count : (list invocation input source).stdout.toList.count '\n' =
      tokens.length + (tokens.map Token.lineFeeds).sum := by
    have feeds : tokens.map (fun token => (tokenLine token).toList.count '\n') =
        tokens.map Token.lineFeeds := List.map_congr_left fun token mem => count_tokenLine read mem
    rw [stdout_list asked read, count_unlines, List.length_map, List.map_map, Function.comp_def,
      feeds]
  refine ⟨?lines, ?others, count, ?one⟩
  case lines => rw [stdout_list asked read, splitOn_unlines, List.flatMap_map]
  case others =>
    intro token mem other
    obtain ⟨lead, inLine, eq⟩ := exists_tokenLine token
    rw [eq]
    exact inLine.append (inLine_law.of_tokenize read token mem other)
  case one =>
    rw [count, Nat.add_eq_left, List.sum_eq_zero_iff_forall_eq_nat, List.forall_mem_map]
    refine forall₂_congr fun token _ => ?_
    unfold Token.lineFeeds
    split
    · rename_i string
      simp [string, List.count_eq_zero]
    · rename_i other
      simp [other]

/-- A string in triple quotes may have a line feed: the listing of these three tokens has four
lines. -/
theorem listing_lines_quotation :
    (tokenize {} "'''a\nb'''\n".toList).toOption.map List.length = some 3 ∧
      (run "pycst" ["--tokens", "input.py"] fun _ => .text "'''a\nb'''\n").stdout =
        "     0..9      string '''a\nb'''\n     9..10     newline\n" ++
          "    10..10     end of file\n" := by
  constructor
  · decide
  · decide

end Command

end PythonSyntax
