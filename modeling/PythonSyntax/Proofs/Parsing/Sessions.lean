/-
**Spans over a whole session.**

A parser may be called again and again, also after calls that failed.  What it remembers as the end
of the last token is then older than the token on which it stands; but the scanner only moves
forwards.  So every node that owns a token lies where its tokens are, and the tree of a later call
does not begin before an earlier one has ended.

Main definitions:

* `PythonSyntax.Scanner.Sited` — a scanner that stands in a text, not before the end of its token.

Main results:

* `PythonSyntax.Scanner.Sited.advance` — moving on keeps the scanner in its text, also if it fails;
* `PythonSyntax.Session.run_cursor` — what moves of the cursor do to it, following a rule does;
* `PythonSyntax.Session.parse_spans_of_sited` — the spans of one call, wherever the session stands;
* `PythonSyntax.session_spans` — **the spans of all calls of a session** are in order.
-/

import PythonSyntax.Proofs.Parsing.Guards
import PythonSyntax.Proofs.Parsing.Spans

set_option autoImplicit false

namespace PythonSyntax

namespace Scanner

variable {s before : Scanner} {text : List Char}

/-! ### Steps forwards -/

/-- The scanner has not gone back, and stands on the same token. -/
structure Onwards (before s : Scanner) : Prop where
  le : before.offset ≤ s.offset
  current : s.current = before.current

theorem Onwards.refl (s : Scanner) : Onwards s s := ⟨Nat.le_refl _, rfl⟩

theorem Onwards.skip (h : Onwards before s) (count : Nat) : Onwards before (s.skip count) :=
  ⟨Nat.le_add_right_of_le h.le, h.current⟩

/-- What a step leads to: it goes onwards, and a token that marks the end of the text has no
width. -/
structure Leads (before : Scanner) (found : Found) (t : Scanner) : Prop where
  onwards : Onwards before t
  ended : ∀ pieces token, found = .token pieces token → token.kind = .eof →
    token.start = token.stop

theorem Leads.of_trivia {pieces : List Trivia} {t : Scanner} (onwards : Onwards before t) :
    Leads before (.trivia pieces) t := ⟨onwards, by simp⟩

theorem Leads.of_fault {cause : LexicalFault} {position : Nat} {t : Scanner}
    (onwards : Onwards before t) : Leads before (.fault cause position) t := ⟨onwards, by simp⟩

theorem Leads.of_token {pieces : List Trivia} {token : Token} {t : Scanner}
    (onwards : Onwards before t) (ended : token.kind = .eof → token.start = token.stop) :
    Leads before (.token pieces token) t := by
  refine ⟨onwards, fun _ _ found => ?_⟩
  cases found
  exact ended

theorem Leads.after {found : Found} {t : Scanner} (h : Leads before found t)
    (pieces : List Trivia) : Leads before (found.after pieces) t := by
  cases found with
  | trivia more => exact .of_trivia h.onwards
  | token more last => exact .of_token h.onwards (h.ended more last rfl)
  | fault _ _ => exact .of_fault h.onwards

theorem finish_leads (h : Onwards before s) : Leads before s.finish.1 s.finish.2 := by
  unfold finish
  dsimp only
  split
  · exact .of_token ⟨h.le, h.current⟩ fun _ => rfl
  · split
    · exact .of_token h fun _ => rfl
    · rename_i first more closing
      have mark : first = s.mark .dedent :=
        List.eq_of_mem_replicate (closing ▸ List.mem_cons_self)
      exact .of_token ⟨h.le, h.current⟩ fun _ => mark ▸ rfl

theorem readToken_leads (h : Onwards before s) (left : s.rest ≠ []) :
    Leads before s.readToken.1 s.readToken.2 := by
  have sits := Lexeme.read_sits left
  unfold readToken
  dsimp only
  split
  · exact .of_fault (h.skip _)
  · refine .of_token ⟨(h.skip _).le, h.current⟩ fun ended => ?_
    exact absurd sits.notLayout (by simp [show (Lexeme.read s.rest).kind = .eof from ended])

theorem stepInLine_leads (h : Onwards before s) :
    Leads before s.stepInLine.1 s.stepInLine.2 := by
  unfold stepInLine
  split
  · exact finish_leads h
  · rename_i c rest split
    split
    · exact .of_trivia (h.skip _)
    · split
      · split
        · split
          · exact .of_token (h.skip _) (by simp [lexeme])
          · exact .of_trivia (h.skip _)
        · exact .of_trivia (h.skip _)
      · split
        · exact .of_trivia (h.skip _)
        · split
          · dsimp only
            split
            · exact .of_trivia (h.skip _)
            · exact .of_token ⟨(h.skip _).le, h.current⟩ (by simp [lexeme])
          · exact readToken_leads h (by simp [split])

theorem stepAtIndentation_leads (width : Nat) (h : Onwards before s) :
    Leads before (s.stepAtIndentation width).1 (s.stepAtIndentation width).2 := by
  unfold stepAtIndentation
  split
  · exact finish_leads h
  · split
    · exact .of_trivia (h.skip _)
    · split
      · exact .of_trivia (h.skip _)
      · dsimp only
        split
        · exact stepInLine_leads ⟨h.le, h.current⟩
        · exact .of_token ⟨h.le, h.current⟩ fun _ => rfl
        · exact .of_token ⟨h.le, h.current⟩ fun _ => rfl
        · exact .of_fault ⟨h.le, h.current⟩

/-- A step goes onwards. -/
theorem step_leads (h : Onwards before s) : Leads before s.step.1 s.step.2 := by
  unfold step
  split
  · unfold stepAtLineStart
    exact (stepAtIndentation_leads _ (h.skip _)).after _
  · exact stepInLine_leads h

/-! ### Tokens -/

/-- What reading a token leads to, also if it fails: the scanner goes onwards in the text, and a
token that marks the end of the text has no width. -/
structure Reaches (text : List Char) (before : Scanner) (result : Except SyntaxError Token)
    (t : Scanner) : Prop where
  standing : t.Standing text
  onwards : Onwards before t
  ended : ∀ token, result = .ok token → token.kind = .eof → token.start = token.stop

theorem read_reaches {bound : List Char} {trivia : List Trivia} (h : s.Standing text)
    (quiet : s.pending = []) (onwards : Onwards before s) :
    Reaches text before (read bound trivia s).1 (read bound trivia s).2 := by
  have step := step_passes h quiet
  have leads := step_leads onwards
  induction bound generalizing trivia s with
  | nil =>
      unfold read
      cases eq : s.step with
      | mk found u =>
          rw [eq] at step leads
          cases found with
          | token pieces last =>
              refine ⟨step.standing, leads.onwards, fun token same => ?_⟩
              cases same
              exact leads.ended pieces last rfl
          | fault _ _ => exact ⟨step.standing, leads.onwards, by simp⟩
          | trivia _ => exact ⟨step.standing, leads.onwards, by simp⟩
  | cons c bound ih =>
      unfold read
      cases eq : s.step with
      | mk found u =>
          rw [eq] at step leads
          cases found with
          | token pieces last =>
              refine ⟨step.standing, leads.onwards, fun token same => ?_⟩
              cases same
              exact leads.ended pieces last rfl
          | fault _ _ => exact ⟨step.standing, leads.onwards, by simp⟩
          | trivia pieces =>
              have quiet' : u.pending = [] := step.quiet pieces rfl
              exact ih step.standing quiet' leads.onwards (step_passes step.standing quiet')
                (step_leads leads.onwards)

theorem next_reaches (h : s.Standing text) : Reaches text s s.next.1 s.next.2 := by
  unfold next
  split
  · rename_i first pending eq
    have kept := h.pending first (by simp [eq])
    refine ⟨⟨h.le, h.rest, ?_⟩, ⟨Nat.le_refl _, rfl⟩, fun token same _ => ?_⟩
    · intro later mem
      exact h.pending later (by simp [eq, show later ∈ pending from mem])
    · cases same
      have only := congrArg List.length kept.1
      have bare : first.trivia = [] := by simpa [Token.pieces] using only
      have piece : first.piece = ⟨s.offset, s.offset, ""⟩ := by
        simpa [Token.pieces, bare] using kept.1
      exact (congrArg Piece.start piece).trans (congrArg Piece.stop piece).symm
  · rename_i quiet
    exact read_reaches h quiet (.refl s)

/-- A scanner that stands in a text, not before the end of its current token.  At the end of the
text that token has no width. -/
structure Sited (text : List Char) (s : Scanner) : Prop where
  standing : s.Standing text
  forward : s.current.start ≤ s.current.stop
  behind : s.current.stop ≤ s.offset
  ended : s.current.kind = .eof → s.current.start = s.current.stop

theorem ofText_sited {options : Options} (h : ofText options text = .ok s) : s.Sited text := by
  have placed := ofText_placed h
  refine ⟨placed.standing, placed.forward, Nat.le_of_eq placed.stop, ?_⟩
  unfold ofText at h
  split at h
  · rename_i token t found
    cases h
    have reaches := next_reaches (initial_standing options text)
    rw [found] at reaches
    exact reaches.ended token rfl
  · cases h

/-- **Moving on keeps the scanner in its text**, also if it fails.  If it succeeds, the next token
begins behind the current one. -/
theorem Sited.advance (h : s.Sited text) : s.advance.2.Sited text ∧
    s.current.start ≤ s.advance.2.current.start ∧
      (s.advance.1 = none → s.current.stop ≤ s.advance.2.current.start) := by
  unfold Scanner.advance
  split
  · rename_i eof
    exact ⟨h, Nat.le_refl _, fun _ => Nat.le_of_eq (h.ended eof).symm⟩
  · have reaches := next_reaches h.standing
    split
    · rename_i token t found
      rw [found] at reaches
      obtain ⟨placed, le⟩ := (next_covers h.standing found).placed
      have follows : s.current.stop ≤ token.start := Nat.le_trans h.behind le
      refine ⟨⟨placed.standing, placed.forward, Nat.le_of_eq placed.stop, ?_⟩,
        Nat.le_trans h.forward follows, fun _ => follows⟩
      exact reaches.ended token rfl
    · rename_i error t found
      rw [found] at reaches
      have still : t.current = s.current := reaches.onwards.current
      refine ⟨⟨reaches.standing, ?_, ?_, ?_⟩, ?_, by simp⟩
      · rw [still]
        exact h.forward
      · rw [still]
        exact Nat.le_trans h.behind reaches.onwards.le
      · rw [still]
        exact h.ended
      · exact Nat.le_of_eq (congrArg Token.start still).symm

/-- The tokens that a sited scanner passes follow each other, and it stands behind all of them. -/
theorem Sited.inRow_of_path {t : Scanner} {tokens : List Token} (h : s.Sited text)
    (path : Path s tokens t) :
    InRow tokens ∧ t.Sited text ∧ s.current.start ≤ t.current.start ∧
      ∀ token ∈ tokens, s.current.start ≤ token.start ∧ token.stop ≤ t.current.start := by
  induction path with
  | nil => exact ⟨⟨by simp, .nil⟩, h, Nat.le_refl _, by simp⟩
  | @cons s next t token tokens here moved rest ih =>
      obtain rfl : s.current = token := here
      obtain ⟨sited, le, follows⟩ := h.advance
      rw [show s.advance = (none, next) from moved] at sited le follows
      have follows : s.current.stop ≤ next.current.start := follows rfl
      obtain ⟨row, sited', le', inside⟩ := ih sited
      refine ⟨⟨?_, List.pairwise_cons.2 ⟨?_, row.follow⟩⟩, sited', Nat.le_trans le le', ?_⟩
      · rintro token (_ | ⟨_, mem⟩)
        · exact h.forward
        · exact row.forward token mem
      · exact fun token mem => Nat.le_trans follows (inside token mem).1
      · rintro token (_ | ⟨_, mem⟩)
        · exact ⟨Nat.le_refl _, Nat.le_trans follows le'⟩
        · exact ⟨Nat.le_trans le (inside token mem).1, (inside token mem).2⟩

end Scanner

/-! ### Moves of the cursor -/

namespace Session

section

variable {σ : Type} [Cursor σ] {R : σ → σ → Prop} (refl : ∀ c, R c c)
  (trans : ∀ {a b c}, R a b → R b c → R a c) (moves : ∀ c, R c (Cursor.advance c).2)

include refl trans moves

theorem follow_cursor {grammar : Grammar} {recur : Rule → Frame → Session σ → Outcome σ}
    (calls : ∀ rule frame s, R s.cursor (recur rule frame s).session.cursor) (rule : Rule)
    (frame : Frame) (s : Session σ) :
    R s.cursor (follow grammar recur rule frame s).session.cursor := by
  induction rule generalizing frame s with
  | done | reduce _ | reducePair _ _ | relabel _ | unwrap _ | refuse _ _ => exact refl s.cursor
  | shift field =>
      have moved := moves s.cursor
      unfold follow shift
      dsimp only
      split <;> (rename_i eq; rw [eq] at moved; exact moved)
  | seq first second ih ih' =>
      rw [follow_seq]
      exact Outcome.session_andThen (P := fun t => R s.cursor t.cursor) (ih frame s)
        fun middle t front => trans front (ih' middle t)
  | call name field =>
      rw [follow_call]
      exact Outcome.session_andThen (P := fun t => R s.cursor t.cursor) (calls (grammar name) [] s)
        fun _ _ called => called
  | branch test yes no ih ih' =>
      rw [follow_branch]
      split
      · exact ih frame s
      · exact ih' frame s
  | loop test body ih =>
      rw [follow_loop]
      split
      · exact Outcome.session_andThen (P := fun t => R s.cursor t.cursor) (ih frame s)
          fun middle t once => trans once (calls _ middle t)
      · exact refl s.cursor
  | within scope body ih =>
      rw [follow_within, Outcome.session_withFlow]
      exact ih frame (s.withFlow (s.flow.enter scope))

/-- **What moves of the cursor do to it, following a rule does**, whatever it comes to. -/
theorem run_cursor (grammar : Grammar) (fuel : Nat) (rule : Rule) (frame : Frame)
    (s : Session σ) : R s.cursor (run grammar fuel rule frame s).session.cursor := by
  induction fuel generalizing rule frame s with
  | zero => exact refl s.cursor
  | succ fuel ih => exact follow_cursor refl trans moves ih rule frame s

/-- So does a parse. -/
theorem parse_cursor (s : Session σ) (entry : Entry) :
    R s.cursor (s.parse entry).2.cursor := by
  have ran := run_cursor refl trans moves Grammar.python s.depth entry.rule [] s
  unfold parse parseBy
  split <;> (rename_i eq; rw [eq] at ran; exact ran)

/-- So do the calls of a session. -/
theorem afterCalls_cursor (s : Session σ) (calls : List Entry) :
    R s.cursor (s.afterCalls calls).cursor := by
  induction calls generalizing s with
  | nil => exact refl s.cursor
  | cons entry rest ih => exact trans (parse_cursor refl trans moves s entry) (ih (s.parse entry).2)

end

/-! ### Spans -/

variable {s t : Session Scanner} {text : List Char} {entry : Entry} {tree : Tree}

/-- After any calls the scanner stands in its text, and it has not gone back. -/
theorem afterCalls_sited (h : s.cursor.Sited text) (calls : List Entry) :
    (s.afterCalls calls).cursor.Sited text ∧ s.position ≤ (s.afterCalls calls).position := by
  refine afterCalls_cursor (R := fun c c' => c.Sited text →
    c'.Sited text ∧ c.current.start ≤ c'.current.start) ?_ ?_ ?_ s calls h
  · exact fun _ sited => ⟨sited, Nat.le_refl _⟩
  · intro a b c one two sited
    obtain ⟨sited', le⟩ := one sited
    exact ⟨(two sited').1, Nat.le_trans le (two sited').2⟩
  · exact fun c sited => ⟨sited.advance.1, sited.advance.2.1⟩

/-- A tree that owns no token has nothing in it, and it begins where the session stands. -/
theorem start_eq_of_no_tokens (parsed : s.parse entry = (.ok tree, t)) (none : tree.tokens = []) :
    tree.start = s.position := by
  have empty : tree.children = [] := by
    refine List.eq_nil_iff_forall_not_mem.2 fun child mem => ?_
    have inside : child.2.tokens = [] := by
      obtain ⟨_, _, children, -, rfl⟩ := parse_matches parsed
      exact List.sublist_nil.1 (none ▸ Tree.tokens_sublist mem)
    cases eq : child.2 with
    | leaf token => simp [eq] at inside
    | node kind start stop children =>
        obtain ⟨first, rest, filled, -⟩ := parse_children_unmarked parsed child.2
          (Tree.mem_subtreesOf.2 ⟨child, mem, child.2.mem_subtrees_self⟩) (by simp [eq, Tree.kind?])
        simp [inside] at filled
  have path := (parseBy_path parsed).1
  rw [none, Path.nil_iff] at path
  have same : t.position = s.position := congrArg (fun c => (Cursor.current c).start) path
  unfold parse parseBy at parsed
  split at parsed
  · rename_i frame u ran
    cases parsed
    obtain rfl : frame = [] := List.reverse_eq_nil_iff.1 empty
    exact same
  · cases parsed

/-- A tree begins at the earliest where the session stands.  One that owns a token ends at the
latest where the session stands afterwards. -/
theorem root_within (h : s.cursor.Sited text) (parsed : s.parse entry = (.ok tree, t)) :
    s.position ≤ tree.start ∧ (tree.tokens ≠ [] → tree.stop ≤ t.position) := by
  obtain ⟨row, -, -, inside⟩ := h.inRow_of_path (parseBy_path parsed).1
  by_cases none : tree.tokens = []
  · exact ⟨Nat.le_of_eq (start_eq_of_no_tokens parsed none).symm, fun some => absurd none some⟩
  · have node : tree.kind? ≠ .none := by
      obtain ⟨_, _, _, -, rfl⟩ := parse_matches parsed
      simp [Tree.kind?]
    obtain ⟨⟨first, last, head, ends, begins, stops⟩, -⟩ :=
      spans_of_row parsed row tree tree.mem_subtrees_self node none
    rw [begins, stops]
    refine ⟨(inside first (List.mem_of_head? head)).1, fun _ => (inside last ?_).2⟩
    exact (List.mem_filter.1 (List.mem_of_getLast? ends)).1

end Session

/-- **The spans of all calls of a session are in order.**  Whatever calls are made on a parser over
a text, those included that fail: in a tree that is read, every node that owns a token spans its
tokens, so it does not end before it begins; and the tree of a later call does not begin before the
end of an earlier one that owns a token. -/
theorem session_spans {options : Options} {text : List Char} {scanner : Scanner}
    (opened : Scanner.ofText options text = .ok scanner) (before between : List Entry)
    (one other : Entry) {tree later : Tree} {s t : Session Scanner}
    (first : ((Session.start scanner).afterCalls before).parse one = (.ok tree, s))
    (second : (s.afterCalls between).parse other = (.ok later, t)) :
    (∀ node ∈ tree.subtrees, node.kind? ≠ none → node.tokens ≠ [] →
      node.SpansTokens ∧ node.start ≤ node.stop) ∧
      (tree.tokens ≠ [] → tree.stop ≤ later.start) := by
  have sited := (Session.afterCalls_sited (s := Session.start scanner)
    (Scanner.ofText_sited opened) before).1
  obtain ⟨row, sited', -⟩ := sited.inRow_of_path (Session.parseBy_path first).1
  obtain ⟨sited'', onwards⟩ := Session.afterCalls_sited sited' between
  refine ⟨fun node mem kind filled => ?_, fun filled => ?_⟩
  · have spans := (Session.spans_of_row first row node mem kind filled).1
    refine ⟨spans, ?_⟩
    obtain ⟨first, last, head, ends, begins, stops⟩ := spans
    have inner := row.sublist (Tree.subtrees_of_mem tree mem).2
    have among := (List.mem_filter.1 (List.mem_of_getLast? ends)).1
    rw [begins, stops]
    exact Nat.le_trans (inner.head_le head among) (inner.forward last among)
  · exact Nat.le_trans ((Session.root_within sited first).2 filled)
      (Nat.le_trans onwards (Session.root_within sited'' second).1)

/-- A tree without tokens need not lie in order: behind a blank line, the second statement of this
text is empty, and ends where the first one does. -/
theorem empty_statement_ends_early :
    (Scanner.ofText {} "x\n\n".toList).toOption.map (fun scanner =>
      (((Session.start scanner).afterCalls [.single]).parse .single).1.toOption.map fun tree =>
        (tree.start, tree.stop, tree.tokens)) = some (some (3, 2, [])) := by
  decide +kernel

end PythonSyntax
