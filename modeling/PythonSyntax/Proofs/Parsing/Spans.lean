/-
**Where the nodes of a tree begin and end.**

A node takes its beginning from its first piece and its end from what the session remembers: the end
of the last token taken, but for the marks of blocks.  Pieces are made of the tokens that have been
taken, one after another, so the end that is remembered is that of a token of the node.

Main definitions:

* `PythonSyntax.stopAfter` — the end of the last of some tokens, but for the marks of blocks;
* `PythonSyntax.Tree.Spanned` — how the span of a node has come about;
* `PythonSyntax.Frame.Everywhere` — something holds of all trees in a frame;
* `PythonSyntax.Session.Spans` — the same for all nodes in a frame, and for what is remembered;
* `PythonSyntax.Scanner.Placed` — a scanner that stands just after its current token;
* `PythonSyntax.InRow` — tokens that follow each other.

Main results:

* `PythonSyntax.Session.follows_spans` — following a rule keeps the account of the spans;
* `PythonSyntax.Derives.unmarked` — no node of a derived tree begins with the mark of a block;
* `PythonSyntax.Scanner.inRow_of_path` — the tokens of a scanner follow each other;
* `PythonSyntax.parse_spans` — **every node spans its tokens**, its children lie in it, and they
  follow each other.
-/

import Mathlib.Data.List.Induction
import PythonSyntax.Proofs.Lexical.Coverage
import PythonSyntax.Proofs.Parsing.Lossless

set_option autoImplicit false

namespace PythonSyntax

open Phrase (Matches)

/-! ### The end that is remembered -/

/-- The end of the last of some tokens, but for the marks of blocks, or else the end before. -/
def stopAfter (before : Nat) (tokens : List Token) : Nat :=
  tokens.foldl (fun stop token => if token.kind.isBlockMark then stop else token.stop) before

theorem stopAfter_append (before : Nat) (first second : List Token) :
    stopAfter before (first ++ second) = stopAfter (stopAfter before first) second :=
  List.foldl_append

/-- The tokens but for the marks of blocks. -/
def withoutMarks (tokens : List Token) : List Token :=
  tokens.filter fun token => !token.kind.isBlockMark

theorem stopAfter_eq (before : Nat) {tokens : List Token} {last : Token}
    (h : (withoutMarks tokens).getLast? = some last) : stopAfter before tokens = last.stop := by
  induction tokens using List.reverseRecOn generalizing last with
  | nil => cases h
  | append_singleton front token ih =>
      rw [stopAfter_append]
      rw [withoutMarks, List.filter_append] at h
      cases mark : token.kind.isBlockMark with
      | true =>
          rw [List.filter_cons_of_neg (by simp [mark]), List.filter_nil, List.append_nil] at h
          simpa [stopAfter, mark] using ih h
      | false =>
          rw [List.filter_cons_of_pos (by simp [mark]), List.filter_nil, List.getLast?_concat] at h
          cases h
          simp [stopAfter, mark]

/-! ### Subtrees -/

theorem Tree.mem_subtreesOf {inner : Tree} {children : List Child} :
    inner ∈ subtreesOf children ↔ ∃ child ∈ children, inner ∈ child.2.subtrees := by
  induction children with
  | nil => simp
  | cons child rest ih => simp [ih]

theorem Tree.tokens_sublist {child : Child} {children : List Child} (mem : child ∈ children) :
    child.2.tokens.Sublist (tokensOf children) := by
  obtain ⟨front, back, rfl⟩ := List.append_of_mem mem
  rw [tokensOf_append, tokensOf_cons]
  exact (List.sublist_append_left _ _).trans (List.sublist_append_right _ _)

theorem Tree.mem_subtrees_self (tree : Tree) : tree ∈ tree.subtrees := by
  cases tree <;> exact List.mem_cons_self

mutual

/-- What is in a tree in a tree is in the tree, and so are its tokens, in their order. -/
theorem Tree.subtrees_of_mem {inner : Tree} : (tree : Tree) → inner ∈ tree.subtrees →
    (∀ deep ∈ inner.subtrees, deep ∈ tree.subtrees) ∧ inner.tokens.Sublist tree.tokens
  | .leaf token, mem => by
      rw [List.mem_singleton.1 mem]
      exact ⟨fun _ mem => mem, .refl _⟩
  | .node kind start stop children, mem => by
      rcases List.mem_cons.1 mem with rfl | mem
      · exact ⟨fun _ mem => mem, .refl _⟩
      · obtain ⟨deep, tokens⟩ := subtreesOf_of_mem children mem
        exact ⟨fun tree mem => List.mem_cons_of_mem _ (deep tree mem), tokens⟩

theorem Tree.subtreesOf_of_mem {inner : Tree} : (children : List (Field × Tree)) →
    inner ∈ subtreesOf children →
      (∀ deep ∈ inner.subtrees, deep ∈ subtreesOf children) ∧
        inner.tokens.Sublist (tokensOf children)
  | [], mem => by cases mem
  | (field, tree) :: rest, mem => by
      rcases List.mem_append.1 mem with mem | mem
      · obtain ⟨deep, tokens⟩ := subtrees_of_mem tree mem
        exact ⟨fun tree mem => List.mem_append_left _ (deep tree mem),
          tokens.trans (List.sublist_append_left _ _)⟩
      · obtain ⟨deep, tokens⟩ := subtreesOf_of_mem rest mem
        exact ⟨fun tree mem => List.mem_append_right _ (deep tree mem),
          tokens.trans (List.sublist_append_right _ _)⟩

end

/-! ### Spans -/

/-- A node begins where its first child does, and ends at the end that was remembered. -/
def Tree.Spanned : Tree → Prop
  | .leaf _ => True
  | .node _ start stop children =>
    (∀ first ∈ children.head?, start = first.2.start) ∧
      ∃ before, stop = stopAfter before (tokensOf children)

/-- What is said holds of all trees in a frame. -/
def Frame.Everywhere (P : Tree → Prop) (frame : Frame) : Prop :=
  ∀ child ∈ frame, ∀ inner ∈ child.2.subtrees, P inner

namespace Frame

variable {P : Tree → Prop} {frame more : Frame}

theorem Everywhere.nil : Everywhere P [] := by
  intro child mem
  cases mem

theorem Everywhere.append (h : frame.Everywhere P) (h' : more.Everywhere P) :
    Everywhere P (frame ++ more) := by
  intro child mem
  rcases List.mem_append.1 mem with mem | mem
  · exact h child mem
  · exact h' child mem

theorem Everywhere.cons (h : frame.Everywhere P) (field : Field) {tree : Tree}
    (holds : ∀ inner ∈ tree.subtrees, P inner) : Everywhere P ((field, tree) :: frame) := by
  intro child mem
  rcases List.mem_cons.1 mem with rfl | mem
  · exact holds
  · exact h child mem

theorem Everywhere.map (h : frame.Everywhere P) (field : Field) :
    Everywhere P (frame.map fun child => (field, child.2)) := by
  intro child mem
  obtain ⟨unnamed, found, rfl⟩ := List.mem_map.1 mem
  exact h unnamed found

theorem Everywhere.take (h : frame.Everywhere P) (count : Nat) : Everywhere P (frame.take count) :=
  fun child mem => h child (List.mem_of_mem_take mem)

theorem Everywhere.drop (h : frame.Everywhere P) (count : Nat) : Everywhere P (frame.drop count) :=
  fun child mem => h child (List.mem_of_mem_drop mem)

/-- It holds in the node that is made of the pieces if it holds of the node. -/
theorem Everywhere.build (h : frame.Everywhere P) {kind : NodeKind} {here stop : Nat}
    (root : P (frame.build kind here stop)) :
    ∀ inner ∈ (frame.build kind here stop).subtrees, P inner := by
  intro inner mem
  rcases List.mem_cons.1 mem with rfl | mem
  · exact root
  · obtain ⟨child, mem, inside⟩ := Tree.mem_subtreesOf.1 mem
    exact h child (List.mem_reverse.1 mem) inner inside

theorem Everywhere.relabel (h : frame.Everywhere P) (field : Field) :
    Everywhere P (frame.relabel field) := by
  cases frame with
  | nil => exact h
  | cons child rest =>
      exact Everywhere.cons (fun child mem => h child (List.mem_cons_of_mem _ mem)) field
        (h child List.mem_cons_self)

theorem Everywhere.unwrap (h : frame.Everywhere P) (field : Field) :
    Everywhere P (frame.unwrap field) := by
  match frame with
  | [] => exact h
  | (_, .leaf token) :: rest => exact h
  | (label, .node kind start stop children) :: rest =>
      have inside : Everywhere P children := fun child mem inner inside =>
        h _ List.mem_cons_self inner
          (List.mem_cons_of_mem _ (Tree.mem_subtreesOf.2 ⟨child, mem, inside⟩))
      have backwards : Everywhere P children.reverse := fun child mem =>
        inside child (List.mem_reverse.1 mem)
      exact (backwards.map field).append fun child mem => h child (List.mem_cons_of_mem _ mem)

/-- The node that is made of pieces is spanned, if its end is the one remembered. -/
theorem spanned_build (frame : Frame) (kind : NodeKind) (here : Nat) {before stop : Nat}
    (eq : stop = stopAfter before frame.tokens) : (frame.build kind here stop).Spanned := by
  refine ⟨fun first mem => ?_, before, eq⟩
  rw [List.head?_reverse] at mem
  simp [show frame.getLast? = some first from mem]

end Frame

namespace Session

variable {σ : Type} [Cursor σ]

/-- The account of the spans in a frame: all its nodes are spanned, and the end that the session
remembers is that of the tokens of the frame, or else the one before them. -/
structure Spans (before : Nat) (frame : Frame) (s : Session σ) : Prop where
  nodes : frame.Everywhere Tree.Spanned
  stop : s.lastStop = stopAfter before frame.tokens

/-- **Following a rule keeps the account of the spans**, if its calls do. -/
theorem follows_spans {C : Nonterminal → Session σ → Frame → Session σ → Prop}
    (calls : ∀ name s pieces t, C name s pieces t → Spans s.lastStop pieces t) {rule : Rule}
    {before : Nat} {frame frame' : Frame} {s s' : Session σ}
    (h : Follows C rule frame s frame' s') (spans : Spans before frame s) :
    Spans before frame' s' := by
  induction rule generalizing frame s frame' s' with
  | done =>
      obtain ⟨rfl, rfl⟩ := h
      exact spans
  | seq first second ih ih' =>
      obtain ⟨middle, t, one, two⟩ := h
      exact ih' two (ih one spans)
  | shift field =>
      obtain ⟨token, taken, rfl⟩ := h
      refine ⟨spans.nodes.cons field fun inner mem => ?_, ?_⟩
      · rw [List.mem_singleton.1 mem]
        trivial
      · rw [Frame.tokens_cons, stopAfter_append, ← spans.stop, taken.2.2.1]
        rfl
  | call name field =>
      obtain ⟨pieces, called, rfl⟩ := h
      have inner := calls _ _ _ _ called
      refine ⟨(inner.nodes.map field).append spans.nodes, ?_⟩
      rw [Frame.tokens_append, Frame.tokens_map, stopAfter_append, ← spans.stop]
      exact inner.stop
  | reduce kind =>
      obtain ⟨rfl, rfl⟩ := h
      have made := frame.spanned_build kind s'.position spans.stop
      refine ⟨Frame.Everywhere.nil.cons .left (spans.nodes.build made), ?_⟩
      simpa [Frame.tokens_build] using spans.stop
  | reducePair kind field =>
      obtain ⟨rfl, rfl⟩ := h
      have tokens : frame.tokens = Frame.tokens (frame.drop 2) ++ Frame.tokens (frame.take 2) := by
        rw [← Frame.tokens_append, List.take_append_drop]
      have stop := spans.stop
      rw [tokens, stopAfter_append] at stop
      have made := Frame.spanned_build (frame.take 2) kind s'.position stop
      refine ⟨(spans.nodes.drop 2).cons field ((spans.nodes.take 2).build made), ?_⟩
      rwa [Frame.tokens_cons, Frame.tokens_build, stopAfter_append]
  | relabel field =>
      obtain ⟨rfl, rfl⟩ := h
      exact ⟨spans.nodes.relabel field, by rw [Frame.tokens_relabel]; exact spans.stop⟩
  | unwrap field =>
      obtain ⟨rfl, rfl⟩ := h
      exact ⟨spans.nodes.unwrap field, by rw [Frame.tokens_unwrap]; exact spans.stop⟩
  | branch test yes no ih ih' =>
      rcases h with ⟨-, one⟩ | ⟨-, two⟩
      · exact ih one spans
      · exact ih' two spans
  | loop test body ih =>
      change Loops (fun frame s => s.answers frame test) (Follows C body) frame s frame' s' at h
      induction h with
      | stop _ => exact spans
      | round _ once _ again => exact again (ih once spans)
  | within scope body ih =>
      obtain ⟨t, one, rfl⟩ := h
      obtain ⟨nodes, stop⟩ := ih one ⟨spans.nodes, spans.stop⟩
      exact ⟨nodes, stop⟩
  | refuse complaint place => exact h.elim

/-- A call keeps the account of the spans. -/
theorem reads_spans {grammar : Grammar} {name : Nonterminal} {s t : Session σ} {pieces : Frame}
    (h : Reads grammar name s pieces t) : Spans s.lastStop pieces t := by
  refine Reads.rule_induction (P := fun _ s pieces t => Spans s.lastStop pieces t) ?_ h
  intro name s pieces t followed
  exact follows_spans (fun _ _ _ _ h => h.2) followed ⟨.nil, rfl⟩

/-- All nodes of a tree that is read, by any grammar, are spanned. -/
theorem parseBy_spanned {grammar : Grammar} {entry : Entry} {s t : Session σ} {tree : Tree}
    (h : s.parseBy grammar entry = (.ok tree, t)) : ∀ inner ∈ tree.subtrees, inner.Spanned := by
  unfold parseBy at h
  split at h
  · rename_i frame u ran
    cases h
    have spans : Spans s.lastStop frame t :=
      follows_spans (fun _ _ _ _ => reads_spans) (follows_reads_of_run ran) ⟨.nil, rfl⟩
    exact spans.nodes.build (frame.spanned_build _ _ spans.stop)
  · cases h

end Session

/-! ### Nodes of derived trees -/

/-- No node that the phrase makes by itself is without tokens or begins with a mark of a block. -/
def Phrase.unmarked (p : Phrase) : Bool :=
  p.trees.all fun made =>
    !made.2.nullable && (made.2.heads Nonterminal.heads).disjoint (.ofList [.indent, .dedent])

theorem Nonterminal.unmarked_ebnf (name : Nonterminal) : (ebnf name).unmarked = true :=
  forall_of_all (fun name => (ebnf name).unmarked) (by decide) name

/-- There is a first token, and it does not mark a block. -/
def Unmarked (tokens : List Token) : Prop :=
  ∃ first rest, tokens = first :: rest ∧ first.kind.isBlockMark = false

theorem Begins.unmarked {kinds : KindSet} {tokens : List Token} (h : Begins kinds tokens)
    (disjoint : kinds.disjoint (.ofList [.indent, .dedent]) = true) : Unmarked tokens := by
  obtain ⟨first, rest, rfl, mem⟩ := h
  have other := KindSet.not_mem_of_disjoint disjoint mem
  refine ⟨first, rest, rfl, ?_⟩
  cases kind : first.kind <;> first | rfl | simp [kind] at other

/-- **No node of a derived tree begins with the mark of a block**, or has no token. -/
theorem Derives.unmarked {flow : Flow} {name : Nonterminal} {tree : Tree}
    (h : Derives ebnf flow name tree) :
    ∀ inner ∈ tree.subtrees, inner.kind? ≠ none → Unmarked inner.tokens := by
  refine h.forall_subtrees (P := fun inner => inner.kind? ≠ none → Unmarked inner.tokens)
    (fun token node => absurd rfl node) ?_
  intro name kind inner flow start stop children made matched _
  have checked := List.all_eq_true.1 name.unmarked_ebnf _ made
  simp only [Bool.and_eq_true, Bool.not_eq_true'] at checked
  rcases matched.begins fun _ _ _ part => part.begins with ⟨-, null⟩ | begins
  · rw [checked.1] at null
    cases null
  · exact begins.unmarked checked.2

/-- No node inside of what is parsed begins with the mark of a block, or has no token. -/
theorem Session.parse_children_unmarked {σ : Type} [Cursor σ] {entry : Entry} {s t : Session σ}
    {tree : Tree} (h : s.parse entry = (.ok tree, t)) :
    ∀ inner ∈ Tree.subtreesOf tree.children, inner.kind? ≠ none → Unmarked inner.tokens := by
  obtain ⟨start, stop, children, matched, rfl⟩ := Session.parse_matches h
  intro inner mem node
  have plain : entry.phrase.trees = [] := by cases entry <;> rfl
  have parts : entry.phrase.Matches (fun flow name tree => True ∧ ∀ inner ∈ tree.subtrees,
      inner.kind? ≠ none → Unmarked inner.tokens) s.flow children :=
    matched.mono fun _ _ _ part => ⟨trivial, part.unmarked⟩
  refine parts.forall_subtrees (fun token node => absurd rfl node) ?_ inner mem node
  intro kind inner flow start stop children made
  rw [plain] at made
  cases made

/-- The same for what is parsed, unless nothing is. -/
theorem Session.parse_unmarked {σ : Type} [Cursor σ] {entry : Entry} {s t : Session σ} {tree : Tree}
    (h : s.parse entry = (.ok tree, t)) (filled : tree.tokens ≠ []) :
    ∀ inner ∈ tree.subtrees, inner.kind? ≠ none → Unmarked inner.tokens := by
  obtain ⟨start, stop, children, matched, rfl⟩ := Session.parse_matches h
  intro inner mem node
  rcases List.mem_cons.1 mem with rfl | mem
  · rcases matched.begins fun _ _ _ part => part.begins with ⟨nothing, -⟩ | begins
    · exact absurd nothing filled
    · exact begins.unmarked (by cases entry <;> decide)
  · exact Session.parse_children_unmarked h inner mem node

/-! ### Tokens in a row -/

/-- Tokens that follow each other; each ends at the earliest where it begins. -/
structure InRow (tokens : List Token) : Prop where
  forward : ∀ token ∈ tokens, token.start ≤ token.stop
  follow : tokens.Pairwise fun one next => one.stop ≤ next.start

namespace InRow

variable {tokens fewer : List Token} {first last token : Token}

theorem sublist (h : InRow tokens) (sub : fewer.Sublist tokens) : InRow fewer :=
  ⟨fun token mem => h.forward token (sub.subset mem), h.follow.sublist sub⟩

/-- No token begins before the first. -/
theorem head_le (h : InRow tokens) (head : tokens.head? = some first) (mem : token ∈ tokens) :
    first.start ≤ token.start := by
  cases tokens with
  | nil => cases mem
  | cons other rest =>
      cases head
      rcases List.mem_cons.1 mem with rfl | mem
      · exact Nat.le_refl _
      · exact Nat.le_trans (h.forward _ List.mem_cons_self)
          ((List.pairwise_cons.1 h.follow).1 _ mem)

/-- No token ends behind the last. -/
theorem le_last (h : InRow tokens) (ends : tokens.getLast? = some last) (mem : token ∈ tokens) :
    token.stop ≤ last.stop := by
  obtain ⟨front, rfl⟩ := List.getLast?_eq_some_iff.1 ends
  rcases List.mem_append.1 mem with mem | mem
  · have before := (List.pairwise_append.1 h.follow).2.2 token mem last (List.mem_singleton_self _)
    exact Nat.le_trans before (h.forward last (by simp))
  · rw [List.mem_singleton.1 mem]

end InRow

/-- The last of some pieces lies in what they cover. -/
theorem Covers.last_within {text : List Char} {a b : Nat} {pieces : List Piece} {last : Piece}
    (h : Covers text a (pieces ++ [last]) b) : a ≤ last.start ∧ last.start ≤ last.stop := by
  induction pieces generalizing a with
  | nil =>
      cases h with
      | cons starts forward slice rest => exact ⟨Nat.le_of_eq starts.symm, starts ▸ forward⟩
  | cons piece pieces ih =>
      cases h with
      | cons starts forward slice rest =>
          exact ⟨Nat.le_trans forward (ih rest).1, (ih rest).2⟩

namespace Scanner

/-- A scanner that stands just after its current token. -/
structure Placed (text : List Char) (s : Scanner) : Prop where
  standing : s.Standing text
  forward : s.current.start ≤ s.current.stop
  stop : s.current.stop = s.offset

/-- A token that is delivered lies between where the scanner stood and where it stands. -/
theorem Delivers.placed {text : List Char} {start : Nat} {token : Token} {s : Scanner}
    (h : Delivers text start token s) :
    Placed text { s with current := token } ∧ start ≤ token.start :=
  have within := h.covers.last_within
  ⟨⟨⟨h.standing.le, h.standing.rest, h.standing.pending⟩, within.2, h.covers.stop_eq⟩, within.1⟩

theorem ofText_placed {options : Options} {text : List Char} {s : Scanner}
    (h : ofText options text = .ok s) : s.Placed text := by
  unfold ofText at h
  split at h
  · rename_i token t found
    cases h
    exact (next_covers (initial_standing options text) found).placed.1
  · cases h

theorem Placed.advance {text : List Char} {s t : Scanner} (h : s.Placed text)
    (running : s.current.kind ≠ .eof) (moved : s.advance = (none, t)) :
    t.Placed text ∧ s.current.stop ≤ t.current.start := by
  unfold Scanner.advance at moved
  rw [if_neg running] at moved
  split at moved
  · rename_i token u found
    cases moved
    rw [h.stop]
    exact (next_covers h.standing found).placed
  · cases moved

/-- A scanner that has passed tokens of a text stands just after its current token. -/
theorem Placed.of_path {text : List Char} {s t : Scanner} {tokens : List Token}
    (h : s.Placed text) (path : Path s tokens t) (running : ∀ token ∈ tokens, token.kind ≠ .eof) :
    t.Placed text := by
  induction path with
  | nil => exact h
  | @cons s next t token tokens here moved rest ih =>
      have here : s.current = token := here
      refine ih (h.advance ?_ moved).1 fun token mem => running token (List.mem_cons_of_mem _ mem)
      exact here ▸ running token List.mem_cons_self

/-- **The tokens of a scanner follow each other**, up to the end of the text. -/
theorem inRow_of_path {text : List Char} {s t : Scanner} {tokens : List Token} (h : s.Placed text)
    (path : Path s tokens t) (running : ∀ token ∈ tokens.dropLast, token.kind ≠ .eof) :
    InRow tokens ∧ ∀ token ∈ tokens, s.current.start ≤ token.start := by
  induction path with
  | nil => exact ⟨⟨by simp, .nil⟩, by simp⟩
  | @cons s next t token tokens here moved rest ih =>
      obtain rfl : s.current = token := here
      cases tokens with
      | nil => exact ⟨⟨by simpa using h.forward, List.pairwise_singleton _ _⟩, by simp⟩
      | cons token' tokens =>
          rw [List.dropLast_cons_cons] at running
          obtain ⟨placed, before⟩ := h.advance (running _ List.mem_cons_self) moved
          obtain ⟨row, behind⟩ := ih placed fun token mem =>
            running token (List.mem_cons_of_mem _ mem)
          have follow : ∀ token ∈ token' :: tokens, s.current.stop ≤ token.start :=
            fun token mem => Nat.le_trans before (behind token mem)
          refine ⟨⟨?_, List.pairwise_cons.2 ⟨follow, row.follow⟩⟩, ?_⟩
          · rintro token (_ | ⟨_, mem⟩)
            · exact h.forward
            · exact row.forward token mem
          · rintro token (_ | ⟨_, mem⟩)
            · exact Nat.le_refl _
            · exact Nat.le_trans h.forward (follow token mem)

end Scanner

/-- Only the last token of what is parsed can mark the end of the text. -/
theorem Session.parse_running {σ : Type} [Cursor σ] {entry : Entry} {s t : Session σ} {tree : Tree}
    (h : s.parse entry = (.ok tree, t)) : ∀ token ∈ tree.tokens.dropLast, token.kind ≠ .eof := by
  obtain ⟨start, stop, children, matched, rfl⟩ := Session.parse_matches h
  suffices ∃ front last, Tree.tokensOf children = front ++ last ∧ last.length ≤ 1 ∧
      ∀ token ∈ front, token.kind ≠ .eof by
    obtain ⟨front, last, eq, short, running⟩ := this
    intro token mem
    rw [Tree.tokens_node, eq] at mem
    match last with
    | [] =>
      rw [List.append_nil] at mem
      exact running token (List.dropLast_subset front mem)
    | [mark] =>
      rw [List.dropLast_concat] at mem
      exact running token mem
    | _ :: _ :: _ => simp at short
  cases entry with
  | file =>
      obtain ⟨lines, mark, matchedLines, matchedMark, rfl⟩ := Matches.seq_iff.1 matched
      obtain ⟨eof, -, rfl⟩ := Matches.leaf_iff.1 (Matches.last_iff.1 matchedMark)
      exact ⟨Tree.tokensOf lines, [eof], by simp [Tree.tokensOf_append], Nat.le_refl _,
        matchedLines.ne_eof (by decide)⟩
  | single => exact ⟨_, [], by simp, Nat.zero_le _, matched.ne_eof (by decide)⟩
  | eval =>
      obtain ⟨value, others, matchedValue, matchedOthers, rfl⟩ := Matches.seq_iff.1 matched
      obtain ⟨newlines, mark, matchedNewlines, matchedMark, rfl⟩ := Matches.seq_iff.1 matchedOthers
      obtain ⟨eof, -, rfl⟩ := Matches.leaf_iff.1 (Matches.last_iff.1 matchedMark)
      refine ⟨Tree.tokensOf value ++ Tree.tokensOf newlines, [eof], by simp [Tree.tokensOf_append],
        Nat.le_refl _, fun token mem => ?_⟩
      rcases List.mem_append.1 mem with mem | mem
      · exact matchedValue.ne_eof (by decide) token mem
      · exact matchedNewlines.ne_eof (by decide) token mem

/-! ### Spans and tokens -/

namespace Tree

/-- The tree begins where its first token does, and ends where the last one does that does not mark
a block. -/
def SpansTokens (tree : Tree) : Prop :=
  ∃ first last, tree.tokens.head? = some first ∧ (withoutMarks tree.tokens).getLast? = some last ∧
    tree.start = first.start ∧ tree.stop = last.stop

/-- A tree begins where its first token does, if no node in it is without tokens. -/
theorem start_eq {first : Token} : (tree : Tree) → (∀ inner ∈ tree.subtrees, inner.Spanned) →
    (∀ inner ∈ tree.subtrees, inner.tokens ≠ []) → tree.tokens.head? = some first →
      tree.start = first.start
  | .leaf token, _, _, head => by
      cases head
      rfl
  | .node kind start stop [], _, _, head => by cases head
  | .node kind start stop ((field, tree) :: rest), spanned, filled, head => by
      have inside : ∀ inner ∈ tree.subtrees,
          inner ∈ (node kind start stop ((field, tree) :: rest)).subtrees := fun inner mem =>
        List.mem_cons_of_mem _ (List.mem_append_left _ mem)
      have begins : start = tree.start :=
        (spanned _ List.mem_cons_self).1 (field, tree) (by simp)
      have head' : tree.tokens.head? = some first := by
        rw [tokens_node, tokensOf_cons, List.head?_append] at head
        cases eq : tree.tokens with
        | nil => exact absurd eq (filled tree (inside tree tree.mem_subtrees_self))
        | cons token tokens => simpa [eq] using head
      exact begins.trans (start_eq tree (fun inner mem => spanned inner (inside inner mem))
        (fun inner mem => filled inner (inside inner mem)) head')

/-- What is known of all nodes of a tree that is read: how they came by their spans, and that their
first token does not mark a block. -/
structure Accounted (tree : Tree) : Prop where
  spanned : ∀ inner ∈ tree.subtrees, inner.Spanned
  opened : ∀ inner ∈ tree.subtrees, inner.kind? ≠ none → Unmarked inner.tokens

namespace Accounted

variable {tree inner : Tree}

theorem of_mem (h : tree.Accounted) (mem : inner ∈ tree.subtrees) : inner.Accounted :=
  have deep := (subtrees_of_mem tree mem).1
  ⟨fun tree mem => h.spanned tree (deep tree mem), fun tree mem => h.opened tree (deep tree mem)⟩

/-- What is known of a node is known of its children. -/
theorem child {child : Child} (h : tree.Accounted) (mem : child ∈ tree.children) :
    child.2.Accounted := by
  cases tree with
  | leaf token => cases mem
  | node kind start stop children =>
      exact h.of_mem (List.mem_cons_of_mem _
        (mem_subtreesOf.2 ⟨child, mem, child.2.mem_subtrees_self⟩))

theorem filled (h : tree.Accounted) : tree.tokens ≠ [] := by
  cases tree with
  | leaf token => exact List.cons_ne_nil _ _
  | node kind start stop children =>
      obtain ⟨first, rest, eq, -⟩ := h.opened _ List.mem_cons_self nofun
      exact eq ▸ List.cons_ne_nil _ _

/-- **A node spans its tokens.** -/
theorem spansTokens (h : tree.Accounted) (node : tree.kind? ≠ none) : tree.SpansTokens := by
  obtain ⟨first, rest, eq, other⟩ := h.opened tree tree.mem_subtrees_self node
  have head : tree.tokens.head? = some first := by rw [eq]; rfl
  have some : withoutMarks tree.tokens ≠ [] :=
    List.ne_nil_of_mem (List.mem_filter.2 ⟨eq ▸ List.mem_cons_self, by simp [other]⟩)
  have ends := List.getLast?_eq_some_getLast some
  refine ⟨first, _, head, ends, ?_, ?_⟩
  · exact start_eq tree h.spanned (fun inner mem => (h.of_mem mem).filled) head
  · cases tree with
    | leaf token => exact absurd rfl node
    | node kind start stop children =>
        obtain ⟨-, before, stop⟩ := h.spanned _ List.mem_cons_self
        exact stop.trans (stopAfter_eq before ends)

/-- A tree begins where one of its tokens does. -/
theorem exists_start (h : tree.Accounted) : ∃ token ∈ tree.tokens, tree.start = token.start := by
  cases tree with
  | leaf token => exact ⟨token, List.mem_singleton_self _, rfl⟩
  | node kind start stop children =>
      obtain ⟨first, -, head, -, start, -⟩ := h.spansTokens nofun
      exact ⟨first, List.mem_of_head? head, start⟩

/-- A tree ends where one of its tokens does. -/
theorem exists_stop (h : tree.Accounted) : ∃ token ∈ tree.tokens, tree.stop = token.stop := by
  cases tree with
  | leaf token => exact ⟨token, List.mem_singleton_self _, rfl⟩
  | node kind start stop children =>
      obtain ⟨-, last, -, ends, -, stop⟩ := h.spansTokens nofun
      exact ⟨last, (List.mem_filter.1 (List.mem_of_getLast? ends)).1, stop⟩

/-- **The children of a node follow each other**, if its tokens do. -/
theorem children_follow {children : List Child} (h : ∀ child ∈ children, child.2.Accounted)
    (row : InRow (tokensOf children)) :
    children.Pairwise fun one next => one.2.stop ≤ next.2.start := by
  induction children with
  | nil => exact .nil
  | cons child rest ih =>
      rw [tokensOf_cons] at row
      refine List.pairwise_cons.2 ⟨fun next mem => ?_, ih (fun child mem =>
        h child (List.mem_cons_of_mem _ mem)) (row.sublist (List.sublist_append_right _ _))⟩
      obtain ⟨one, among, stop⟩ := (h child List.mem_cons_self).exists_stop
      obtain ⟨other, among', start⟩ := (h next (List.mem_cons_of_mem _ mem)).exists_start
      rw [stop, start]
      refine (List.pairwise_append.1 row.follow).2.2 one among other ?_
      exact (tokens_sublist mem).subset among'

end Accounted

end Tree

/-- All nodes of what is parsed that have tokens are accounted for. -/
theorem Session.parse_accounted {σ : Type} [Cursor σ] {entry : Entry} {s t : Session σ}
    {tree node : Tree} (parsed : s.parse entry = (.ok tree, t)) (mem : node ∈ tree.subtrees)
    (filled : node.tokens ≠ []) : node.Accounted := by
  have whole : tree.tokens ≠ [] := fun none =>
    filled (List.sublist_nil.1 (none ▸ (Tree.subtrees_of_mem tree mem).2))
  exact Tree.Accounted.of_mem
    ⟨Session.parseBy_spanned parsed, Session.parse_unmarked parsed whole⟩ mem

/-- In a tree whose tokens follow each other, every node spans its tokens, the nodes in it lie inside
of its span, and what it is made of follows each other. -/
theorem Session.spans_of_row {σ : Type} [Cursor σ] {entry : Entry} {s t : Session σ} {tree : Tree}
    (parsed : s.parse entry = (.ok tree, t)) (inRow : InRow tree.tokens) :
    ∀ node ∈ tree.subtrees, node.kind? ≠ none → node.tokens ≠ [] →
      node.SpansTokens ∧
      (∀ child ∈ node.children, child.2.kind? ≠ none →
        node.start ≤ child.2.start ∧ child.2.stop ≤ node.stop) ∧
      node.children.Pairwise fun one next => one.2.stop ≤ next.2.start := by
  intro node mem kind filled
  have accounted := Session.parse_accounted parsed mem filled
  have row : InRow node.tokens := inRow.sublist (Tree.subtrees_of_mem tree mem).2
  have spans := accounted.spansTokens kind
  refine ⟨spans, ?_⟩
  cases node with
  | leaf token => exact absurd rfl kind
  | node kind start stop children =>
      have inside : ∀ child ∈ children, child.2.Accounted := fun _ => accounted.child
      refine ⟨fun child mem inner => ?_, Tree.Accounted.children_follow inside row⟩
      obtain ⟨first, last, head, ends, begins, stops⟩ := spans
      obtain ⟨first', last', head', ends', begins', stops'⟩ := (inside child mem).spansTokens inner
      have tokens := Tree.tokens_sublist mem
      have kept : InRow (withoutMarks (Tree.tokensOf children)) := row.sublist List.filter_sublist
      rw [begins, begins', stops, stops']
      exact ⟨row.head_le head (tokens.subset (List.mem_of_head? head')),
        kept.le_last ends ((tokens.filter _).subset (List.mem_of_getLast? ends'))⟩

/-- **Every node spans its tokens**: it begins where the first of them does and ends where the last
does that does not mark a block.  So the nodes in it lie inside of its span, and what it is made of
follows each other. -/
theorem parse_spans (options : Options) (entry : Entry) (text : List Char) (tree : Tree)
    (h : parse options entry text = .ok tree) :
    ∀ node ∈ tree.subtrees, node.kind? ≠ none → node.tokens ≠ [] →
      node.SpansTokens ∧
      (∀ child ∈ node.children, child.2.kind? ≠ none →
        node.start ≤ child.2.start ∧ child.2.stop ≤ node.stop) ∧
      node.children.Pairwise fun one next => one.2.stop ≤ next.2.start := by
  obtain ⟨scanner, opened, session, parsed⟩ := parse_eq_ok_iff.1 h
  exact Session.spans_of_row parsed (Scanner.inRow_of_path (Scanner.ofText_placed opened)
    (Session.parseBy_path parsed).1 (Session.parse_running parsed)).1

/-- A block before a comment: the `if` statement ends with the line of its block, and the mark of
the end of the block stands behind the comment. -/
theorem parse_spans_block : ∃ tree, parse {} .file "if x:\n  y\n# c\nz\n".toList = .ok tree ∧
    (tree.subtrees.filter fun inner => inner.kind? = some .ifStatement).map
      (fun inner => (inner.start, inner.stop)) = [(0, 10)] ∧
    ∀ node ∈ tree.subtrees, node.kind? ≠ none → node.tokens ≠ [] → node.SpansTokens := by
  obtain ⟨tree, parsed, located⟩ : ∃ tree,
      parse {} .file "if x:\n  y\n# c\nz\n".toList = .ok tree ∧
        decide ((tree.subtrees.filter fun inner => inner.kind? = some .ifStatement).map
          (fun inner => (inner.start, inner.stop)) = [(0, 10)]) = true :=
    exists_ok_of_any (by decide +kernel)
  refine ⟨tree, parsed, of_decide_eq_true located, fun node mem kind filled => ?_⟩
  exact (parse_spans {} .file _ tree parsed node mem kind filled).1

end PythonSyntax
