/-
**Kinds and two words decide.**

Of a token a parser sees the kind, and whether it is one of the names `match` and `case`.  So it reads
lists that agree on this, token by token, in the same way, call after call: it builds trees of the same
shape out of the tokens at the same places, or it fails at tokens at the same place.  Offsets, texts
and what stands between tokens do not matter.

Main definitions:

* `PythonSyntax.Token.Akin` — tokens of one kind, which are the same of the two words, if any;
* `PythonSyntax.TokenList.ReadAlike` — results that are made of tokens at the same places.

Main results:

* `PythonSyntax.TokenList.akin_ofList` — marks of the end are added to both lists or to none;
* `PythonSyntax.TokenList.prefix_of_path` — the tokens that are passed stand side by side in a list;
* `PythonSyntax.Session.parse_akin` — **akin tokens are read alike**.
-/

import PythonSyntax.Proofs.Parsing.Completeness
import PythonSyntax.Proofs.Parsing.SideBySide

set_option autoImplicit false

namespace PythonSyntax

/-! ### Akin tokens -/

/-- The tokens have one kind, and if one is a word that some places reserve, then so is the other. -/
structure Token.Akin (one two : Token) : Prop where
  kind : two.kind = one.kind
  spells : ∀ word ∈ Token.softWords, two.spells word = one.spells word

instance (one two : Token) : Decidable (one.Akin two) :=
  decidable_of_iff (two.kind = one.kind ∧ ∀ word ∈ Token.softWords, two.spells word = one.spells word)
    ⟨fun ⟨kind, spells⟩ => ⟨kind, spells⟩, fun ⟨kind, spells⟩ => ⟨kind, spells⟩⟩

theorem Token.akin_eof (offset offset' : Nat) : (Token.eof offset).Akin (.eof offset') :=
  ⟨rfl, fun _ _ => rfl⟩

/-- A line opens a block or not by the kinds of its tokens. -/
theorem Lookahead.ofTokens_akin {tokens others : List Token}
    (akin : List.Forall₂ Token.Akin tokens others) (look : Lookahead) :
    ofTokens look others = ofTokens look tokens := by
  induction akin generalizing look with
  | nil => rfl
  | cons first _ ih =>
      unfold ofTokens
      rw [first.kind, ih, ih]

namespace TokenList

variable {tokens others : List Token}

/-- A mark of the end is added to both lists, or to none. -/
theorem akin_ofList (akin : List.Forall₂ Token.Akin tokens others) :
    List.Forall₂ Token.Akin (ofList tokens).toList (ofList others).toList := by
  cases akin with
  | nil => exact .cons (Token.akin_eof 0 0) .nil
  | @cons first first' more more' one rest =>
      have last : (more.getLast?.getD first).Akin (more'.getLast?.getD first') := by
        have reversed := List.rel_reverse rest
        rw [List.getLast?_eq_head?_reverse, List.getLast?_eq_head?_reverse]
        generalize more.reverse = backwards, more'.reverse = backwards' at reversed
        cases reversed with
        | nil => exact one
        | cons last _ => exact last
      refine .cons one ?_
      change List.Forall₂ Token.Akin (closed first more) (closed first' more')
      unfold closed
      dsimp only
      rw [last.kind]
      split
      · exact rest
      · exact List.rel_append rest (.cons (Token.akin_eof _ _) .nil)

/-- The tokens at one place of two lists. -/
def SamePlace (tokens others : List Token) (one two : Token) : Prop :=
  ∃ index : Nat, tokens[index]? = some one ∧ others[index]? = some two

/-- What holds of all pairs of tokens holds of those at one place. -/
theorem SamePlace.of_forall₂ {P : Token → Token → Prop} (h : List.Forall₂ P tokens others)
    {one two : Token} (here : SamePlace tokens others one two) : P one two := by
  obtain ⟨index, stands, stands'⟩ := here
  exact (List.forall₂_iff_zip.1 h).2
    (List.mem_of_getElem? (List.getElem?_zip_eq_some.2 ⟨stands, stands'⟩))

/-- The tokens at one place correspond to each other; so do the offsets at which they begin. -/
def places (akin : List.Forall₂ Token.Akin tokens others) : Likeness where
  token := SamePlace tokens others
  start offset offset' := ∃ one two, SamePlace tokens others one two ∧ offset = one.start ∧
    offset' = two.start
  stop _ _ := True
  kind same := (same.of_forall₂ akin).kind
  spells same := (same.of_forall₂ akin).spells
  start_of same := ⟨_, _, same, rfl, rfl⟩
  stop_of _ := trivial
  begun_of _ := trivial

/-- Cursors that stand at the same place of two lists. -/
def Level (tokens others : List Token) (list list' : TokenList) : Prop :=
  ∃ index, list.toList = tokens.drop index ∧ list'.toList = others.drop index

/-- **Cursors that stand at the same place move together**, and nothing is ever lost, whatever else
corresponds to each other at one place. -/
theorem abreast_of_level {like : Likeness} (akin : List.Forall₂ Token.Akin tokens others)
    (here : ∀ {one two}, SamePlace tokens others one two → like.token one two) :
    Abreast like (fun _ => False) (Level tokens others) := by
  refine ⟨?_, ?_, ?_, id⟩
  · rintro list list' ⟨index, stands, stands'⟩
    refine here ⟨index, ?_, ?_⟩
    · rw [← List.head?_drop, ← stands]
      rfl
    · rw [← List.head?_drop, ← stands']
      rfl
  · rintro list list' ⟨index, stands, stands'⟩
    have rest := List.forall₂_drop index akin
    rw [← stands, ← stands'] at rest
    cases rest with
    | cons _ upcoming => exact congrArg Lookahead.opensBlock (Lookahead.ofTokens_akin upcoming _)
  · rintro list list' ⟨index, stands, stands'⟩
    refine Or.inr ⟨.none, ?_⟩
    have rest := List.forall₂_drop index akin
    rw [← stands, ← stands'] at rest
    obtain ⟨current, upcoming⟩ := list
    obtain ⟨current', upcoming'⟩ := list'
    cases rest with
    | cons _ others =>
      cases others with
      | nil => exact ⟨index, stands, stands'⟩
      | cons _ _ =>
          refine ⟨index + 1, ?_, ?_⟩
          · rw [← List.drop_drop, ← stands]
            rfl
          · rw [← List.drop_drop, ← stands']
            rfl

theorem abreast_of_akin (akin : List.Forall₂ Token.Akin tokens others) :
    Abreast (places akin) (fun _ => False) (Level tokens others) :=
  abreast_of_level akin id

/-! ### Results -/

/-- The tokens that are passed stand side by side in the list, if reading does not go on behind the
mark of the end. -/
theorem prefix_of_path {list list' : TokenList} (good : countdown.good list)
    (path : Path list tokens list') (running : ∀ token ∈ tokens.dropLast, token.kind ≠ .eof) :
    tokens <+: list.toList := by
  induction path with
  | nil => exact List.nil_prefix
  | @cons list next list' token tokens here moved rest ih =>
      obtain rfl : list.current = token := here
      cases tokens with
      | nil => exact List.prefix_append [list.current] list.upcoming
      | cons second tokens =>
          have before : list.upcoming ≠ [] := by
            intro none
            obtain ⟨last, found, ended⟩ := good
            rw [toList, none] at found
            cases found
            exact running _ List.mem_cons_self ended
          obtain ⟨good', -⟩ := countdown.moved good moved
          cases moved
          rw [toList_advance before]
          exact List.cons_prefix_cons.2 ⟨rfl, ih good' fun token mem =>
            running token (List.mem_cons_of_mem _ mem)⟩

/-- Results that are made of the tokens at the same places of two lists: both are trees of one shape,
whose tokens stand side by side from one place on, or both are errors where the tokens at one place
begin. -/
inductive ReadAlike (tokens others : List Token) :
    Except SyntaxError Tree → Except SyntaxError Tree → Prop
  | ok {tree tree' : Tree} (index : Nat)
      (shape : (tree'.sketch fun _ => Token.eof 0) = tree.sketch fun _ => Token.eof 0)
      (inside : tree.tokens <+: tokens.drop index) (inside' : tree'.tokens <+: others.drop index) :
      ReadAlike tokens others (.ok tree) (.ok tree')
  | error {error error' : SyntaxError} {one two : Token} (index : Nat)
      (here : tokens[index]? = some one) (here' : others[index]? = some two)
      (position : error.position = one.start) (position' : error'.position = two.start) :
      ReadAlike tokens others (.error error) (.error error')

end TokenList

open TokenList in
/-- **Akin tokens are read alike.**  On parsers over two lists of tokens that agree, one by one, on
their kinds and on the words `match` and `case`, let the same calls be made, those included that
fail.  Then any further call comes to results that are made of the tokens at the same places. -/
theorem Session.parse_akin {tokens others : List Token}
    (akin : List.Forall₂ Token.Akin tokens others) (calls : List Entry) (entry : Entry) :
    ReadAlike (ofList tokens).toList (ofList others).toList
      (((start (ofList tokens)).afterCalls calls).parse entry).1
      (((start (ofList others)).afterCalls calls).parse entry).1 := by
  have abreast := abreast_of_akin (akin_ofList akin)
  have sides : Sides (places (akin_ofList akin))
      (Level (ofList tokens).toList (ofList others).toList) (start (ofList tokens))
      (start (ofList others)) := ⟨⟨0, rfl, rfl⟩, trivial, rfl⟩
  obtain ⟨sides, good, good'⟩ := afterCalls_alike abreast (fun _ => id) countdown countdown
    (countdown_good_ofList tokens) (countdown_good_ofList others) sides calls
  generalize (start (ofList tokens)).afterCalls calls = s,
    (start (ofList others)).afterCalls calls = t at sides good good'
  obtain ⟨index, here, here'⟩ := sides.cursor
  rcases parse_alike abreast countdown countdown good good' sides entry with never | ⟨result, -⟩
  · exact never.elim
  cases parsed : s.parse entry with
  | mk one s' =>
    cases parsed' : t.parse entry with
    | mk two t' =>
      rw [parsed, parsed'] at result
      cases result with
      | @ok tree tree' trees =>
          refine .ok index (Tree.Like.sketch tree tree' trees) ?_ ?_
          · rw [← here]
            exact prefix_of_path good (parseBy_path parsed).1 (parse_running parsed)
          · rw [← here']
            exact prefix_of_path good' (parseBy_path parsed').1 (parse_running parsed')
      | error errors =>
          obtain ⟨_, _, ⟨place, there, there'⟩, position, position'⟩ := errors.position
          exact .error place there there' position position'

open TokenList in
/-- The second statements of two texts, whose tokens differ in all but their kinds: both are read as
`match` statements. -/
theorem Session.parse_akin_match :
    let read (text : String) : List Token := (tokenize {} text.toList).toOption.getD []
    let tokens := read "x = 1\nmatch y:\n  case 2: z\n"
    let others := read "first=0x1F # c\nmatch  second :\n\tcase 22 :   third\n"
    tokens.length = 16 ∧ (tokens.zip others).all (fun pair => pair.1.stop ≠ pair.2.stop) = true ∧
      (((start (ofList tokens)).afterCalls [.single]).parse .single).1.toOption.map
        (fun tree => tree.tokens.length) = some 11 ∧
      ReadAlike (ofList tokens).toList (ofList others).toList
        (((start (ofList tokens)).afterCalls [.single]).parse .single).1
        (((start (ofList others)).afterCalls [.single]).parse .single).1 := by
  intro read tokens others
  have akin : List.Forall₂ Token.Akin tokens others := by decide +kernel
  exact ⟨by decide +kernel, by decide +kernel, by decide +kernel,
    parse_akin akin [.single] .single⟩

end PythonSyntax
