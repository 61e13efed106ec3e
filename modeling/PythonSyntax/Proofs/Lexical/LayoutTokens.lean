/-
**The structure of the layout tokens.**

The widths of the open blocks ascend, whatever has been read and whatever has failed.  In the tokens
of a text the starts and ends of blocks are balanced, a block starts where a line does, every line
that ends holds a token, and lines and blocks begin and end outside of all brackets, but for those
that are ended because the text is at its end.

Main definitions:

* `PythonSyntax.Scanner.Reachable` — the states in which a scanner can be;
* `PythonSyntax.Scanner.levels` — the indentation of the open blocks, from the margin on;
* `PythonSyntax.Throughout` — what holds of every token of a list and those before it;
* `PythonSyntax.LaidOut` — what is said of the layout tokens of a text;
* `PythonSyntax.Scanner.Account` — the same of the tokens delivered so far, and of what is to come.

Main results:

* `PythonSyntax.Scanner.head?_levels` — the outermost level is the margin;
* `PythonSyntax.Scanner.Reachable.ascending` — the levels of a scanner ascend;
* `PythonSyntax.Scanner.Account.advance` — moving to the next token keeps the account;
* `PythonSyntax.layout_structure` — **both for all texts**.
-/

import PythonSyntax.Proofs.Lexical.Acts
import PythonSyntax.Proofs.Syntax.LineStarts
import PythonSyntax.Proofs.Syntax.Nesting

set_option autoImplicit false

namespace PythonSyntax

/-! ### The open blocks -/

namespace Scanner

variable {s t u : Scanner} {options : Options} {text : List Char}

/-- The indentation of the open blocks, from the margin on. -/
def levels (s : Scanner) : List Nat := s.indents.widths.reverse

/-- The states in which a scanner over a text can be: on the first token, and after moving on from
any other state, also if that fails. -/
inductive Reachable (options : Options) (text : List Char) : Scanner → Prop
  | first {s : Scanner} (opened : ofText options text = .ok s) : Reachable options text s
  | moved {s : Scanner} (earlier : Reachable options text s) : Reachable options text s.advance.2

/-- **The outermost level is the margin**: no line closes it. -/
theorem head?_levels (s : Scanner) : s.levels.head? = some 0 := by
  rw [levels, List.head?_reverse]
  exact s.indents.margin

theorem levels_eq (s : Scanner) : s.levels = 0 :: s.indents.blocks.reverse := by
  rw [levels, Indents.widths_eq, List.reverse_append]
  rfl

/-- The levels ascend if the open blocks descend to the margin. -/
theorem ascending_iff : s.levels.Pairwise (· < ·) ↔ (s.indents.blocks ++ [0]).Pairwise (· > ·) := by
  rw [levels, List.pairwise_reverse, Indents.widths_eq]

/-- What a step does to blocks that descend, they do afterwards. -/
theorem Acts.descending {found : Found} (h : Acts s found t)
    (before : (s.indents.blocks ++ [0]).Pairwise (· > ·)) :
    (t.indents.blocks ++ [0]).Pairwise (· > ·) := by
  have of_suffix : t.indents.blocks <:+ s.indents.blocks →
      (t.indents.blocks ++ [0]).Pairwise (· > ·) := fun suffix =>
    before.sublist (suffix.sublist.append_right [0])
  cases h with
  | passes _ blocks _ _ _ => exact of_suffix (blocks ▸ List.suffix_refl _)
  | reads _ _ blocks _ _ _ => exact of_suffix (blocks ▸ List.suffix_refl _)
  | breaks _ _ _ _ blocks _ _ => exact of_suffix (blocks ▸ List.suffix_refl _)
  | closes _ _ _ blocks _ _ _ _ _ => exact of_suffix blocks
  | ends _ _ blocks _ => exact of_suffix (blocks ▸ List.nil_suffix)
  | fails blocks => exact of_suffix blocks
  | @opens _ _ _ width _ _ _ _ deeper _ blocks _ _ _ =>
      rw [blocks, List.cons_append, List.pairwise_cons]
      refine ⟨fun other mem => ?_, before⟩
      -- The innermost block so far is deeper than all others.
      cases outer : s.indents.blocks with
      | nil =>
          rw [outer] at deeper mem
          rw [List.mem_singleton.1 mem]
          exact deeper
      | cons top rest =>
          rw [outer] at deeper mem before
          rcases List.mem_cons.1 mem with rfl | mem
          · exact deeper
          · exact Nat.lt_trans ((List.pairwise_cons.1 before).1 other mem) deeper

/-- A settled scanner whose open blocks descend. -/
structure Nested (s : Scanner) : Prop where
  settled : s.Settled
  descending : (s.indents.blocks ++ [0]).Pairwise (· > ·)

theorem Nested.step (h : s.Nested) (quiet : s.pending = []) : s.step.2.Nested :=
  ⟨(step_keeps h.settled quiet).settled, (step_acts h.settled quiet).descending h.descending⟩

theorem Nested.read {bound : List Char} {trivia : List Trivia} (h : s.Nested)
    (quiet : s.pending = []) : (read bound trivia s).2.Nested := by
  induction bound generalizing trivia s with
  | nil =>
      have nested := h.step quiet
      unfold Scanner.read
      cases stepped : s.step with
      | mk found u =>
          rw [stepped] at nested
          cases found <;> exact nested
  | cons c bound ih =>
      have nested := h.step quiet
      have keeps := step_keeps h.settled quiet
      unfold Scanner.read
      cases stepped : s.step with
      | mk found u =>
          rw [stepped] at nested keeps
          cases found with
          | token _ _ => exact nested
          | fault _ _ => exact nested
          | trivia pieces => exact ih nested (keeps.trivia pieces rfl).2

theorem Nested.next (h : s.Nested) : s.next.2.Nested := by
  unfold Scanner.next
  split
  · rename_i token pending kept
    have ended := h.settled.kept (by simp [kept])
    exact ⟨⟨h.settled.start, h.settled.outside, fun _ => ended, fun other mem =>
      h.settled.marks other (kept ▸ List.mem_cons_of_mem _ mem)⟩, h.descending⟩
  · rename_i quiet
    exact h.read quiet

theorem Nested.advance (h : s.Nested) : s.advance.2.Nested := by
  have nested := h.next
  unfold Scanner.advance
  split
  · exact h
  · split
    · rename_i found
      rw [found] at nested
      exact ⟨⟨nested.settled.start, nested.settled.outside, nested.settled.kept,
        nested.settled.marks⟩, nested.descending⟩
    · rename_i failed
      rw [failed] at nested
      exact nested

theorem initial_nested (options : Options) (text : List Char) : (initial options text).Nested :=
  ⟨initial_settled options text, List.pairwise_singleton _ _⟩

theorem Reachable.nested (h : Reachable options text s) : s.Nested := by
  induction h with
  | first opened =>
      have nested := (initial_nested options text).next
      unfold ofText at opened
      split at opened
      · rename_i found
        cases opened
        rw [found] at nested
        exact ⟨⟨nested.settled.start, nested.settled.outside, nested.settled.kept,
          nested.settled.marks⟩, nested.descending⟩
      · cases opened
  | moved _ ih => exact ih.advance

theorem Reachable.after (h : Reachable options text s) (moves : Nat) :
    Reachable options text (Nat.repeat (fun s => s.advance.2) moves s) := by
  induction moves with
  | zero => exact h
  | succ moves ih => exact ih.moved

/-- **The levels of a scanner ascend**, whatever has been read and whatever has failed. -/
theorem Reachable.ascending (h : Reachable options text s) : s.levels.Pairwise (· < ·) :=
  ascending_iff.2 h.nested.descending

end Scanner

/-! ### Places in a list of tokens -/

/-- How many of the tokens are of a kind. -/
def countOf (kind : TokenKind) (tokens : List Token) : Nat :=
  tokens.countP fun token => token.kind = kind

theorem countOf_append (kind : TokenKind) (first second : List Token) :
    countOf kind (first ++ second) = countOf kind first + countOf kind second :=
  List.countP_append

theorem countOf_singleton (kind : TokenKind) (token : Token) :
    countOf kind [token] = if token.kind = kind then 1 else 0 := by
  simp [countOf, List.countP_cons]

/-- At every place: something is said of the token there and of those before it. -/
def Throughout (P : List Token → Token → Prop) (tokens : List Token) : Prop :=
  ∀ before token after, tokens = before ++ token :: after → P before token

variable {P : List Token → Token → Prop} {tokens : List Token}

theorem Throughout.nil : Throughout P [] := by
  intro before token after split
  simp at split

theorem Throughout.snoc {last : Token} (h : Throughout P tokens) (holds : P tokens last) :
    Throughout P (tokens ++ [last]) := by
  intro before token after split
  rcases List.eq_nil_or_concat after with rfl | ⟨others, other, rfl⟩
  · obtain ⟨rfl, same⟩ := List.append_inj' split rfl
    obtain rfl : last = token := by simpa using same
    exact holds
  · rw [List.concat_eq_append, ← List.cons_append, ← List.append_assoc] at split
    exact h before token others (List.append_inj' split rfl).1

/-! ### Layout -/

/-- Behind the last end of a line among the tokens there is one that is no layout. -/
def HoldsToken (tokens : List Token) : Prop :=
  ∃ (before : List Token) (token : Token) (after : List Token),
    tokens = before ++ token :: after ∧ token.kind.isLayout = false ∧
      ∀ other ∈ after, other.kind ≠ .newline

theorem HoldsToken.snoc {last : Token} (h : HoldsToken tokens) (goes : last.kind ≠ .newline) :
    HoldsToken (tokens ++ [last]) := by
  obtain ⟨before, token, after, rfl, plain, others⟩ := h
  refine ⟨before, token, after ++ [last], by simp, plain, fun other mem => ?_⟩
  rcases List.mem_append.1 mem with mem | mem
  · exact others other mem
  · rw [List.mem_singleton.1 mem]
    exact goes

theorem HoldsToken.of_plain {last : Token} (plain : last.kind.isLayout = false) :
    HoldsToken (tokens ++ [last]) :=
  ⟨tokens, last, [], rfl, plain, by simp⟩

/-- It stands behind any end of a line. -/
theorem HoldsToken.exists_mem {before middle : List Token} {one : Token}
    (h : HoldsToken (before ++ one :: middle)) (newline : one.kind = .newline) :
    ∃ token ∈ middle, token.kind.isLayout = false := by
  obtain ⟨front, token, after, split, plain, others⟩ := h
  rcases List.append_eq_append_iff.1 split with ⟨gap, -, eq⟩ | ⟨gap, rfl, eq⟩
  · rcases List.cons_eq_append_iff.1 eq with ⟨-, eq⟩ | ⟨gap, -, rfl⟩
    · cases eq
      rw [newline] at plain
      cases plain
    · exact ⟨token, by simp, plain⟩
  · rcases List.cons_eq_append_iff.1 eq with ⟨-, eq⟩ | ⟨gap, -, rfl⟩
    · cases eq
      rw [newline] at plain
      cases plain
    · exact absurd newline (others one (by simp))

/-- Where a line ends, and where a block starts or ends, no bracket is open. -/
def Flat (before : List Token) (token : Token) : Prop :=
  token.kind = .newline ∨ token.kind = .indent ∨ token.kind = .dedent → nestAll 0 before = 0

/-- The tokens that are made up at the end of a text: the end of a line, if need be, the ends of
blocks, and the end of the text.  They stand at the end and have no width. -/
structure MadeUp (text : List Char) (tokens : List Token) : Prop where
  shape : ∃ (content : Bool) (blocks : Nat), tokens.map Token.kind =
    (if content then [TokenKind.newline] else []) ++
      (List.replicate blocks TokenKind.dedent ++ [TokenKind.eof])
  place : ∀ token ∈ tokens, token.start = text.length ∧ token.stop = text.length

/-- What is said of the layout tokens of a text. -/
structure LaidOut (text : List Char) (tokens : List Token) : Prop where
  /-- No block is closed that has not been opened. -/
  opened : ∀ front, front <+: tokens → countOf .dedent front ≤ countOf .indent front
  /-- Every block is closed. -/
  balanced : countOf .indent tokens = countOf .dedent tokens
  /-- A block starts with the first token, or behind the end of a line. -/
  starts : ∀ (before : List Token) (token : Token) (after : List Token),
    tokens = before ++ token :: after → token.kind = .indent →
      before = [] ∨ ∃ (others : List Token) (last : Token),
        before = others ++ [last] ∧ last.kind = .newline
  /-- There is a token on the first line that ends. -/
  first : ∀ (before : List Token) (token : Token) (after : List Token),
    tokens = before ++ token :: after → token.kind = .newline →
      ∃ other ∈ before, other.kind.isLayout = false
  /-- There is a token between the ends of two lines. -/
  between : ∀ (before : List Token) (one : Token) (middle : List Token) (other : Token)
      (after : List Token), tokens = before ++ one :: (middle ++ other :: after) → one.kind = .newline →
      other.kind = .newline → ∃ token ∈ middle, token.kind.isLayout = false
  /-- The end of the text is marked once, by the last token. -/
  ended : ∃ (front : List Token) (last : Token), tokens = front ++ [last] ∧ last.kind = .eof ∧
    ∀ token ∈ front, token.kind ≠ .eof
  /-- Lines and blocks begin and end outside of all brackets, up to the end of the text; what
  stands there is made up. -/
  level : ∃ front group : List Token, tokens = front ++ group ∧
    (∀ token ∈ front, token.start < text.length) ∧ MadeUp text group ∧
      ∀ (before : List Token) (token : Token) (after : List Token),
        front = before ++ token :: after → Flat before token

/-! ### Accounts of the tokens delivered so far -/

theorem TokenKind.ne_of_isLayout {kind : TokenKind} (plain : kind.isLayout = false) :
    kind ≠ .newline ∧ kind ≠ .indent ∧ kind ≠ .dedent ∧ kind ≠ .eof := by
  refine ⟨?_, ?_, ?_, ?_⟩ <;> (rintro rfl; cases plain)

/-- Among the tokens that are made up there is the end of a text. -/
theorem MadeUp.exists_eof {text : List Char} (h : MadeUp text tokens) :
    ∃ token ∈ tokens, token.kind = .eof := by
  obtain ⟨content, blocks, shape⟩ := h.shape
  have mem : TokenKind.eof ∈ tokens.map Token.kind := by simp [shape]
  exact List.mem_map.1 mem

/-- It is the last of them. -/
theorem MadeUp.eq_nil_of_eof {text : List Char} {front back : List Token} {token : Token}
    (h : MadeUp text (front ++ token :: back)) (eof : token.kind = .eof) : back = [] := by
  obtain ⟨content, blocks, shape⟩ := h.shape
  rcases List.eq_nil_or_concat back with rfl | ⟨others, other, rfl⟩
  · rfl
  · rw [List.concat_eq_append, ← List.cons_append, ← List.append_assoc, ← List.append_assoc,
      List.map_append] at shape
    have among : TokenKind.eof ∈ (if content then [.newline] else []) ++
        List.replicate blocks .dedent := (List.append_inj' shape rfl).1 ▸ by simp [eof]
    cases content <;> simp at among

/-- The trivia before the first of them makes no difference. -/
theorem MadeUp.of_withTrivia {text : List Char} {token : Token} {trivia : List Trivia}
    (h : MadeUp text (token.withTrivia trivia :: tokens)) : MadeUp text (token :: tokens) :=
  ⟨h.shape, List.forall_mem_cons.2 (List.forall_mem_cons.1 h.place)⟩

/-- Behind one of them there are only ends of blocks and the end of the text. -/
theorem MadeUp.behind {text : List Char} {before after : List Token} {token : Token}
    (h : MadeUp text (before ++ token :: after)) :
    ∀ other ∈ after, other.kind = .dedent ∨ other.kind = .eof := by
  intro other mem
  obtain ⟨content, blocks, shape⟩ := h.shape
  have mem := List.mem_map_of_mem (f := Token.kind) mem
  have later : other.kind ∈ List.replicate blocks TokenKind.dedent ++ [TokenKind.eof] := by
    rw [List.map_append, List.map_cons] at shape
    cases content with
    | false =>
        rw [if_neg Bool.false_ne_true, List.nil_append] at shape
        rw [← shape]
        simp [mem]
    | true =>
        rw [if_pos rfl, List.singleton_append] at shape
        cases before with
        | nil =>
            rw [← (List.cons.inj shape).2]
            exact mem
        | cons first before =>
            rw [← (List.cons.inj shape).2]
            simp [mem]
  rcases List.mem_append.1 later with later | later
  · exact Or.inl (List.eq_of_mem_replicate later)
  · exact Or.inr (List.mem_singleton.1 later)

/-- Where a line or a block begins or ends, no bracket is open, unless only what is made up follows
behind. -/
theorem LaidOut.level_or_ended {text : List Char} {before after : List Token} {token : Token}
    (h : LaidOut text tokens) (split : tokens = before ++ token :: after)
    (mark : token.kind.isLineMark = true) :
    nestAll 0 before = 0 ∨ ∀ other ∈ after, other.kind = .dedent ∨ other.kind = .eof := by
  obtain ⟨front, group, rfl, -, madeUp, flat⟩ := h.level
  rcases List.append_eq_append_iff.1 split with ⟨gap, rfl, eq⟩ | ⟨gap, rfl, eq⟩
  · exact Or.inr (eq ▸ madeUp).behind
  · rcases List.cons_eq_append_iff.1 eq with ⟨rfl, eq⟩ | ⟨gap, rfl, rfl⟩
    · exact Or.inr (show MadeUp text ([] ++ token :: after) from eq ▸ madeUp).behind
    · exact Or.inl (flat before token gap rfl (TokenKind.isLineMark_iff.1 mark))

theorem Scanner.closing_madeUp (text : List Char) (content : Bool) (blocks : Nat) :
    MadeUp text (Scanner.closing content blocks text.length) := by
  refine ⟨⟨content, blocks, ?_⟩, fun token mem => ?_⟩
  · cases content <;> simp [closing, Token.mark, Token.eof, Token.literal]
  · rcases List.mem_append.1 mem with mem | mem
    · cases content with
      | false => cases mem
      | true =>
          rw [List.mem_singleton.1 mem]
          exact ⟨rfl, rfl⟩
    · rcases List.mem_append.1 mem with mem | mem
      · rw [List.eq_of_mem_replicate mem]
        exact ⟨rfl, rfl⟩
      · rw [List.mem_singleton.1 mem]
        exact ⟨rfl, rfl⟩

namespace Scanner

variable {s t u : Scanner} {text : List Char} {passed : List Token} {token : Token}
  {pieces : List Trivia}

/-! #### Starts and ends of blocks -/

/-- The ends of blocks that are still to come. -/
def owed (s : Scanner) : Nat := s.indents.blocks.length + countOf .dedent s.pending

theorem countOf_replicate (count : Nat) {mark : Token} (dedent : mark.kind = .dedent) :
    countOf .dedent (List.replicate count mark) = count := by
  rw [countOf, List.countP_replicate, if_pos (decide_eq_true dedent)]

theorem countOf_closing (content : Bool) (blocks offset : Nat) :
    countOf .dedent (closing content blocks offset) = blocks ∧
      countOf .indent (closing content blocks offset) = 0 := by
  have marks : countOf .indent (List.replicate blocks (Token.mark offset offset .dedent)) = 0 := by
    rw [countOf, List.countP_replicate, if_neg (by simp [Token.mark])]
  have dedents : countOf .dedent (List.replicate blocks (Token.mark offset offset .dedent)) =
      blocks := countOf_replicate blocks rfl
  unfold closing
  simp only [countOf_append, dedents, marks]
  cases content <;> simp [countOf, Token.mark, Token.eof, Token.literal]

/-- **A token that starts a block is owed an end**, and one that ends a block pays for it. -/
theorem Acts.owed (h : Acts s (.token pieces token) t) (quiet : s.pending = []) :
    countOf .indent [token] + s.owed = countOf .dedent [token] + t.owed := by
  unfold Scanner.owed
  rw [quiet, countOf_singleton, countOf_singleton]
  cases h with
  | reads plain quiet' blocks _ _ _ =>
      have layout := TokenKind.ne_of_isLayout plain
      rw [quiet', blocks, if_neg layout.2.1, if_neg layout.2.2.1]
  | breaks newline _ _ quiet' blocks _ _ => rw [quiet', blocks, newline.1]; rfl
  | opens indent _ _ _ _ quiet' blocks _ _ _ =>
      rw [quiet', blocks, indent]
      simp only [List.length_cons, if_true, reduceCtorEq, if_false]
      omega
  | closes dedent _ _ _ length kept _ _ _ =>
      rw [kept, countOf_replicate _ rfl, dedent]
      simp only [reduceCtorEq, if_false, if_true, countOf, List.countP_nil]
      omega
  | ends _ all blocks _ =>
      obtain ⟨dedents, indents⟩ := countOf_closing s.lineHasContent s.indents.blocks.length t.offset
      rw [← all, ← List.singleton_append, countOf_append, countOf_singleton] at dedents indents
      have same : (token.withTrivia []).kind = token.kind := rfl
      rw [same] at dedents indents
      rw [blocks, List.length_nil, countOf, List.countP_nil]
      omega

/-- Starts and ends of blocks are balanced but for the ends that are owed. -/
structure Balance (passed : List Token) (s : Scanner) : Prop where
  opened : ∀ front, front <+: passed → countOf .dedent front ≤ countOf .indent front
  balance : countOf .indent passed = countOf .dedent passed + s.owed

theorem Balance.snoc (h : Balance passed s)
    (owed : countOf .indent [token] + s.owed = countOf .dedent [token] + t.owed) :
    Balance (passed ++ [token]) t := by
  have balance := h.balance
  have all : countOf .indent (passed ++ [token]) = countOf .dedent (passed ++ [token]) + t.owed := by
    rw [countOf_append, countOf_append]
    omega
  refine ⟨fun front initial => ?_, all⟩
  rcases List.prefix_concat_iff.1 initial with rfl | initial
  · omega
  · exact h.opened front initial

theorem Balance.of_owed (h : Balance passed s) (same : t.owed = s.owed) : Balance passed t :=
  ⟨h.opened, same ▸ h.balance⟩

/-- A token that has been kept is counted already. -/
theorem owed_kept {pending : List Token} (kept : s.pending = token :: pending)
    (mark : token.kind = .dedent ∨ token.kind = .eof) :
    countOf .indent [token] + s.owed =
      countOf .dedent [token] + Scanner.owed { s with pending := pending } := by
  have split : countOf .dedent s.pending = countOf .dedent [token] + countOf .dedent pending := by
    rw [kept, ← countOf_append, List.singleton_append]
  have none : countOf .indent [token] = 0 := by
    rcases mark with mark | mark <;> simp [countOf_singleton, mark]
  simp only [Scanner.owed]
  omega

/-! #### Lines -/

/-- Where a block starts: with the first token, or behind the end of a line. -/
def StartsLine (before : List Token) : Prop :=
  before = [] ∨ ∃ others last, before = others ++ [last] ∧ last.kind = .newline

/-- Blocks start at the start of a line, and each line that ends holds a token. -/
structure Lines (passed : List Token) (s : Scanner) : Prop where
  starts : Throughout (fun before token => token.kind = .indent → StartsLine before) passed
  holds : Throughout (fun before token => token.kind = .newline → HoldsToken before) passed
  fresh : s.atLineStart = true → s.rest ≠ [] → StartsLine passed
  content : s.lineHasContent = true → HoldsToken passed
  begun : s.pending ≠ [] → s.rest ≠ [] → s.atLineStart = false

theorem Lines.found (h : Lines passed s) (acts : Acts s (.token pieces token) t) :
    Lines (passed ++ [token]) t := by
  have other : token.kind ≠ .newline → token.kind ≠ .indent →
      Throughout (fun before token => token.kind = .indent → StartsLine before) (passed ++ [token]) ∧
      Throughout (fun before token => token.kind = .newline → HoldsToken before)
        (passed ++ [token]) := fun notNewline notIndent =>
    ⟨h.starts.snoc fun indent => absurd indent notIndent,
      h.holds.snoc fun newline => absurd newline notNewline⟩
  cases acts with
  | reads plain _ _ begun _ _ =>
      have layout := TokenKind.ne_of_isLayout plain
      obtain ⟨starts, holds⟩ := other layout.1 layout.2.1
      exact ⟨starts, holds, fun start => (nomatch begun.symm.trans start), fun _ => .of_plain plain,
        fun _ _ => begun⟩
  | breaks newline content _ quiet _ ended _ =>
      have kind := newline.1
      exact ⟨h.starts.snoc fun indent => (nomatch kind.symm.trans indent),
        h.holds.snoc fun _ => h.content content, fun _ _ => Or.inr ⟨passed, token, rfl, kind⟩,
        fun content => (nomatch ended.symm.trans content), fun some => absurd quiet some⟩
  | opens indent start _ left _ _ _ begun content _ =>
      have notNewline : token.kind ≠ .newline := by simp [indent]
      exact ⟨h.starts.snoc fun _ => h.fresh start left,
        h.holds.snoc fun newline => absurd newline notNewline,
        fun start => (nomatch begun.symm.trans start),
        fun some => (h.content (content ▸ some)).snoc notNewline, fun _ _ => begun⟩
  | closes dedent _ _ _ _ _ begun content _ =>
      have notNewline : token.kind ≠ .newline := by simp [dedent]
      obtain ⟨starts, holds⟩ := other notNewline (by simp [dedent])
      exact ⟨starts, holds, fun start => (nomatch begun.symm.trans start),
        fun some => (h.content (content ▸ some)).snoc notNewline, fun _ _ => begun⟩
  | ends empty all _ content =>
      refine ⟨h.starts.snoc fun indent => ?_, h.holds.snoc fun newline => ?_,
        fun _ left => absurd empty left, fun some => (nomatch content.symm.trans some),
        fun _ left => absurd empty left⟩
      · have none := (countOf_closing s.lineHasContent s.indents.blocks.length t.offset).2
        have same : (token.withTrivia []).kind = .indent := indent
        rw [← all, ← List.singleton_append, countOf_append, countOf_singleton, if_pos same] at none
        omega
      · cases some : s.lineHasContent with
        | true => exact h.content some
        | false =>
            have newline : (token.withTrivia []).kind = .newline := newline
            have mem : token.withTrivia [] ∈
                closing s.lineHasContent s.indents.blocks.length t.offset :=
              all ▸ List.mem_cons_self
            rw [some, closing, if_neg Bool.false_ne_true, List.nil_append] at mem
            rcases List.mem_append.1 mem with mem | mem
            · rw [List.eq_of_mem_replicate mem] at newline
              cases newline
            · rw [List.mem_singleton.1 mem] at newline
              cases newline

theorem Lines.kept {pending : List Token} (h : Lines passed s)
    (kept : s.pending = token :: pending) (mark : token.kind = .dedent ∨ token.kind = .eof) :
    Lines (passed ++ [token]) { s with pending := pending } := by
  have notNewline : token.kind ≠ .newline := by rcases mark with mark | mark <;> simp [mark]
  have notIndent : token.kind ≠ .indent := by rcases mark with mark | mark <;> simp [mark]
  have begun := h.begun (by simp [kept])
  exact ⟨h.starts.snoc fun indent => absurd indent notIndent,
    h.holds.snoc fun newline => absurd newline notNewline,
    fun start left => (nomatch (begun left).symm.trans start),
    fun some => (h.content some).snoc notNewline, fun _ => begun⟩

/-! #### Brackets -/

/-- The tokens passed stand before the end of the text, and so do those that are kept. -/
structure Going (text : List Char) (passed : List Token) (s : Scanner) : Prop where
  inside : ∀ token ∈ passed, token.start < text.length ∧ token.kind ≠ .eof
  flat : Throughout Flat passed
  kept : ∀ token ∈ s.pending, token.start < text.length ∧ token.kind = .dedent
  outside : s.pending ≠ [] → s.nesting = 0

/-- The last of the tokens passed, and those that are kept, are made up. -/
structure Ending (text : List Char) (passed : List Token) (s : Scanner) : Prop where
  blocks : s.indents.blocks = []
  split : ∃ front group, passed = front ++ group ∧
    (∀ token ∈ front, token.start < text.length ∧ token.kind ≠ .eof) ∧ Throughout Flat front ∧
    MadeUp text (group ++ s.pending)

theorem Going.snoc (h : Going text passed s) (inside : token.start < text.length)
    (running : token.kind ≠ .eof) (flat : Flat passed token)
    (kept : ∀ token ∈ t.pending, token.start < text.length ∧ token.kind = .dedent)
    (outside : t.pending ≠ [] → t.nesting = 0) : Going text (passed ++ [token]) t := by
  refine ⟨fun other mem => ?_, h.flat.snoc flat, kept, outside⟩
  rcases List.mem_append.1 mem with mem | mem
  · exact h.inside other mem
  · rw [List.mem_singleton.1 mem]
    exact ⟨inside, running⟩

theorem Going.found (h : Going text passed s) (acts : Acts s (.token pieces token) t)
    (level : s.nesting = nestAll 0 passed) (standing : s.Standing text)
    (standing' : t.Standing text) (nests : t.nesting = nestingAfter s.nesting token.kind) :
    Going text (passed ++ [token]) t ∨ Ending text (passed ++ [token]) t := by
  have room : s.offset + s.rest.length = text.length := by
    have le := standing.le
    rw [standing.rest, List.length_drop]
    omega
  cases acts with
  | reads plain quiet _ _ _ inside =>
      have layout := TokenKind.ne_of_isLayout plain
      refine Or.inl (h.snoc (room ▸ inside) layout.2.2.2 ?_ (by simp [quiet])
        fun some => absurd quiet some)
      rintro (newline | indent | dedent)
      · exact absurd newline layout.1
      · exact absurd indent layout.2.1
      · exact absurd dedent layout.2.2.1
  | breaks newline _ outside quiet _ _ inside =>
      exact Or.inl (h.snoc (room ▸ inside) (by simp [newline.1]) (fun _ => level ▸ outside)
        (by simp [quiet]) fun some => absurd quiet some)
  | opens indent _ outside _ _ quiet _ _ _ inside =>
      exact Or.inl (h.snoc (room ▸ inside) (by simp [indent]) (fun _ => level ▸ outside)
        (by simp [quiet]) fun some => absurd quiet some)
  | closes dedent outside left _ _ kept _ _ inside =>
      have before : t.offset < text.length := by
        have le := standing'.le
        have ne : t.offset ≠ text.length := fun eq => left (by rw [standing'.rest, eq]; simp)
        omega
      refine Or.inl (h.snoc (room ▸ inside) (by simp [dedent]) (fun _ => level ▸ outside) ?_
        fun _ => ?_)
      · intro other mem
        rw [kept] at mem
        rw [List.eq_of_mem_replicate mem]
        exact ⟨before, rfl⟩
      · rw [nests, dedent, outside]
        rfl
  | ends empty all blocks _ =>
      have madeUp : MadeUp text (token.withTrivia [] :: t.pending) := by
        rw [all, standing'.offset_eq empty]
        exact closing_madeUp text _ _
      exact Or.inr ⟨blocks, passed, [token], rfl, h.inside, h.flat, madeUp.of_withTrivia⟩

theorem Going.next {pending : List Token} (h : Going text passed s)
    (level : s.nesting = nestAll 0 passed) (kept : s.pending = token :: pending) :
    Going text (passed ++ [token]) { s with pending := pending } := by
  have outside := h.outside (by simp [kept])
  obtain ⟨inside, dedent⟩ := h.kept token (kept ▸ List.mem_cons_self)
  exact h.snoc inside (by simp [dedent]) (fun _ => level ▸ outside)
    (fun other mem => h.kept other (kept ▸ List.mem_cons_of_mem _ mem)) fun _ => outside

theorem Ending.next {pending : List Token} (h : Ending text passed s)
    (kept : s.pending = token :: pending) :
    Ending text (passed ++ [token]) { s with pending := pending } := by
  obtain ⟨front, group, split, inside, flat, madeUp⟩ := h.split
  refine ⟨h.blocks, front, group ++ [token], by rw [split, List.append_assoc], inside, flat, ?_⟩
  rwa [List.append_assoc, List.singleton_append, ← kept]

/-- Where the end of the text has been passed, nothing is kept. -/
theorem Ending.quiet {last : Token} (h : Ending text (passed ++ [last]) s)
    (ended : last.kind = .eof) : s.pending = [] := by
  obtain ⟨front, group, split, inside, -, madeUp⟩ := h.split
  rcases List.eq_nil_or_concat group with rfl | ⟨others, other, rfl⟩
  · have mem : last ∈ front := by
      rw [List.append_nil] at split
      exact split ▸ by simp
    exact absurd ended (inside last mem).2
  · rw [List.concat_eq_append, ← List.append_assoc] at split
    obtain rfl : last = other := by simpa using (List.append_inj' split rfl).2
    rw [List.concat_eq_append, List.append_assoc, List.singleton_append] at madeUp
    exact madeUp.eq_nil_of_eof ended

/-! #### Tokens -/

/-- **The account of the tokens that have been delivered**: what is said of their layout, and what
the scanner keeps of it. -/
structure Account (text : List Char) (passed : List Token) (s : Scanner) : Prop where
  settled : s.Settled
  standing : s.Standing text
  marks : ∀ token ∈ s.pending, token.kind = .dedent ∨ token.kind = .eof
  level : s.nesting = nestAll 0 passed
  balance : Balance passed s
  lines : Lines passed s
  group : Going text passed s ∨ Ending text passed s

theorem initial_account (options : Options) (text : List Char) :
    Account text [] (initial options text) where
  settled := initial_settled options text
  standing := initial_standing options text
  marks := by simp [initial]
  level := rfl
  balance := ⟨fun front initial => by rw [List.prefix_nil.1 initial]; exact Nat.le_refl _, rfl⟩
  lines := ⟨.nil, .nil, fun _ _ => Or.inl rfl, nofun, fun some => absurd rfl some⟩
  group := Or.inl ⟨by simp, .nil, by simp [initial], fun some => absurd rfl some⟩

/-- The token on which the scanner stands makes no difference. -/
theorem Account.current (h : Account text passed s) (current : Token) :
    Account text passed { s with current := current } where
  settled := ⟨h.settled.start, h.settled.outside, h.settled.kept, h.settled.marks⟩
  standing := ⟨h.standing.le, h.standing.rest, h.standing.pending⟩
  marks := h.marks
  level := h.level
  balance := ⟨h.balance.opened, h.balance.balance⟩
  lines := ⟨h.lines.starts, h.lines.holds, h.lines.fresh, h.lines.content, h.lines.begun⟩
  group := h.group.imp (fun going => ⟨going.inside, going.flat, going.kept, going.outside⟩)
    fun ending => ⟨ending.blocks, ending.split⟩

/-- Passing trivia keeps the account. -/
theorem Account.idles (h : Account text passed s) (quiet : s.pending = []) (idles : Idles s u) :
    Account text passed u := by
  have alike := idles.alike h.settled quiet
  have standing := (idles.standing h.standing quiet).1
  have left : u.rest ≠ [] → s.rest ≠ [] := fun left none =>
    left (List.suffix_nil.1 (none ▸ alike.suffix))
  exact {
    settled := alike.settled
    standing := standing
    marks := kept_of_quiet alike.quiet
    level := alike.nesting.trans h.level
    balance := h.balance.of_owed (by rw [owed, owed, alike.blocks, alike.quiet, quiet])
    lines := ⟨h.lines.starts, h.lines.holds, fun start some => h.lines.fresh (alike.start start)
      (left some), fun content => h.lines.content (alike.content ▸ content),
      fun some => absurd alike.quiet some⟩
    group := h.group.imp (fun going => ⟨going.inside, going.flat, by simp [alike.quiet],
        fun some => absurd alike.quiet some⟩)
      fun ending => ⟨alike.blocks.trans ending.blocks, by
        rw [alike.quiet, ← quiet]
        exact ending.split⟩ }

/-- While the end of the text has not been passed, a scanner that keeps nothing goes on. -/
theorem Account.going (h : Account text passed s) (quiet : s.pending = [])
    (running : ∀ token ∈ passed, token.kind ≠ .eof) : Going text passed s := by
  refine h.group.resolve_right fun ending => ?_
  obtain ⟨front, group, rfl, -, -, madeUp⟩ := ending.split
  rw [quiet, List.append_nil] at madeUp
  obtain ⟨token, mem, eof⟩ := madeUp.exists_eof
  exact running token (List.mem_append_right _ mem) eof

/-- **The next token keeps the account.** -/
theorem Account.next (h : Account text passed s) (running : ∀ token ∈ passed, token.kind ≠ .eof)
    (result : s.next = (.ok token, t)) : Account text (passed ++ [token]) t := by
  unfold Scanner.next at result
  split at result
  · rename_i first pending kept
    cases result
    have mark := h.marks token (kept ▸ List.mem_cons_self)
    have among : ∀ other ∈ pending, other ∈ s.pending := fun other mem =>
      kept ▸ List.mem_cons_of_mem _ mem
    exact {
      settled := ⟨h.settled.start, h.settled.outside, fun _ => h.settled.kept (by simp [kept]),
        fun other mem => h.settled.marks other (among other mem)⟩
      standing := ⟨h.standing.le, h.standing.rest, fun other mem =>
        h.standing.pending other (among other mem)⟩
      marks := fun other mem => h.marks other (among other mem)
      level := by
        rw [nestAll_concat, ← h.level]
        rcases mark with mark | mark <;> simp [mark, nestingAfter, TokenKind.opens, TokenKind.closes]
      balance := h.balance.snoc (owed_kept kept mark)
      lines := h.lines.kept kept mark
      group := h.group.imp (·.next h.level kept) (·.next kept) }
  · rename_i quiet
    obtain ⟨u, pieces, last, front, idles, stepped, rfl⟩ := exists_step_of_read result
    have account := h.idles quiet idles
    have quiet' := (idles.alike h.settled quiet).quiet
    have acts := step_acts account.settled quiet'
    have keeps := step_keeps account.settled quiet'
    have moves := step_moves account.settled quiet'
    have passes := step_passes account.standing quiet'
    rw [stepped] at acts keeps moves passes
    have acts := acts.withTrivia front
    have nests := moves.nests pieces last rfl
    exact {
      settled := keeps.settled
      standing := passes.standing
      marks := moves.kept
      level := by rw [nests, account.level, nestAll_concat]; rfl
      balance := account.balance.snoc (acts.owed quiet')
      lines := account.lines.found acts
      group := (account.going quiet' running).found acts account.level account.standing
        passes.standing nests }

/-- Moving to the next token keeps the account. -/
theorem Account.advance (h : Account text (passed ++ [s.current]) s)
    (running : ∀ token ∈ passed ++ [s.current], token.kind ≠ .eof) (moved : s.advance = (none, t)) :
    Account text (passed ++ [s.current] ++ [t.current]) t := by
  unfold Scanner.advance at moved
  rw [if_neg (running s.current (by simp))] at moved
  split at moved
  · rename_i token u found
    cases moved
    exact (h.next running found).current token
  · cases moved

theorem Account.path {tokens : List Token} (h : Account text (passed ++ [s.current]) s)
    (path : Path s tokens t) (running : ∀ token ∈ passed ++ tokens, token.kind ≠ .eof) :
    Account text (passed ++ tokens ++ [t.current]) t := by
  induction path generalizing passed with
  | nil => rwa [List.append_nil]
  | @cons s next t token tokens here moved rest ih =>
      have here : s.current = token := here
      subst here
      have account := h.advance (fun token mem => running token (by
        rcases List.mem_append.1 mem with mem | mem <;> simp_all)) moved
      have all := ih account (by simpa using running)
      simpa using all

theorem ofText_account {options : Options} (h : ofText options text = .ok s) :
    Account text [s.current] s := by
  unfold ofText at h
  split at h
  · rename_i token u found
    cases h
    exact ((initial_account options text).next (by simp) found).current token
  · cases h

/-- At the end of the text the account is what is said of the layout tokens. -/
theorem Account.laidOut {last : Token} (h : Account text (passed ++ [last]) s)
    (running : ∀ token ∈ passed, token.kind ≠ .eof) (ended : last.kind = .eof) :
    LaidOut text (passed ++ [last]) := by
  have ending : Ending text (passed ++ [last]) s :=
    h.group.resolve_left fun going => absurd ended (going.inside last (by simp)).2
  have quiet := ending.quiet ended
  have balance := h.balance.balance
  rw [owed, ending.blocks, quiet] at balance
  obtain ⟨front, group, split, inside, flat, madeUp⟩ := ending.split
  rw [quiet, List.append_nil] at madeUp
  exact {
    opened := h.balance.opened
    balanced := balance
    starts := h.lines.starts
    first := fun before token after split newline => by
      obtain ⟨front, other, back, rfl, plain, -⟩ := h.lines.holds before token after split newline
      exact ⟨other, by simp, plain⟩
    between := fun before one middle other after split newline newline' => by
      have holds := h.lines.holds (before ++ one :: middle) other after (by simp [split]) newline'
      exact holds.exists_mem newline
    ended := ⟨passed, last, rfl, ended, running⟩
    level := ⟨front, group, split, fun token mem => (inside token mem).1, madeUp, flat⟩ }

end Scanner

/-- The tokens of a text are laid out. -/
theorem LaidOut.of_tokenize {options : Options} {text : List Char} {tokens : List Token}
    (h : tokenize options text = .ok tokens) : LaidOut text tokens := by
  obtain ⟨scanner, front, t, opened, path, ended, running, rfl⟩ := tokenize_eq_ok_iff.1 h
  have account : Scanner.Account text ([] ++ [scanner.current]) scanner :=
    Scanner.ofText_account opened
  exact (account.path path running).laidOut running ended

/-- **The structure of the layout tokens.**  In every state that a scanner can reach, also after
moves that failed, the levels of the open blocks ascend from the margin.  In the tokens of a text
blocks are balanced and start where lines do, every line that ends holds a token, the end of the
text is marked once and last, and lines and blocks begin and end outside of all brackets, but for
those that are ended because the text is at its end. -/
theorem layout_structure :
    (∀ options text s, Scanner.Reachable options text s →
      s.levels.head? = some 0 ∧ s.levels.Pairwise (· < ·)) ∧
    ∀ options text tokens, tokenize options text = .ok tokens → LaidOut text tokens := by
  exact ⟨fun options text s reachable => ⟨s.head?_levels, reachable.ascending⟩,
    fun options text tokens => LaidOut.of_tokenize⟩

/-- A line that is indented like no open block, met after seven moves; and a block behind a line
with brackets, in a text without a line break at its end. -/
theorem layout_structure_block :
    (∃ s, Scanner.Reachable {} "if x:\n  y\n z".toList s ∧ s.advance.1.isSome = true ∧
      s.advance.2.levels.head? = some 0 ∧ s.advance.2.levels.Pairwise (· < ·)) ∧
    ∃ tokens, tokenize {} "if (x\n):\n  y".toList = .ok tokens ∧
      countOf .indent tokens = 1 ∧ LaidOut "if (x\n):\n  y".toList tokens := by
  constructor
  · obtain ⟨scanner, opened, failed⟩ : ∃ scanner,
        Scanner.ofText {} "if x:\n  y\n z".toList = .ok scanner ∧
          (Nat.repeat (fun s => s.advance.2) 6 scanner).advance.1.isSome = true :=
      exists_ok_of_any (by decide +kernel)
    have reachable := (Scanner.Reachable.first opened).after 6
    exact ⟨_, reachable, failed, layout_structure.1 _ _ _ reachable.moved⟩
  · obtain ⟨tokens, found, one⟩ : ∃ tokens, tokenize {} "if (x\n):\n  y".toList = .ok tokens ∧
        decide (countOf .indent tokens = 1) = true := exists_ok_of_any (by decide +kernel)
    exact ⟨tokens, found, of_decide_eq_true one, layout_structure.2 _ _ _ found⟩

end PythonSyntax
