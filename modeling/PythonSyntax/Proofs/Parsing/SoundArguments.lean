/-
**Arguments and parameters that are read.**

An argument may turn out to be a name for its value, and a comprehension stands alone.  Each
parameter is checked against those before it, and in the end every star has to be answered.

Main results:

* `PythonSyntax.Session.soundWhole_argList`, `PythonSyntax.Session.soundWhole_argument` —
  arguments;
* `PythonSyntax.Session.follows_nextParameter` — a parameter may stand after those before it;
* `PythonSyntax.Session.satisfies_unanswered` — a star without a name is noticed;
* `PythonSyntax.Session.soundWhole_parameters` — parameters.
-/

import Mathlib.Data.List.TakeWhile
import PythonSyntax.Proofs.Parsing.SoundExpressions

set_option autoImplicit false

namespace PythonSyntax

namespace Session

open Phrase Rule

variable {σ : Type} [Cursor σ] {C : Nonterminal → Session σ → Frame → Session σ → Prop}

/-! ### Arguments -/

/-- Arguments that are not refused have no comprehension next to another. -/
theorem loneComprehension_of_answer {s : Session σ} {child : Child} (rest : List Child)
    (alone : s.answers ((child :: rest).reverse)
      (.both (.collected .several) (.collected (.someIs .comprehension))) = false) :
    Ebnf.loneComprehension (child :: rest) = true := by
  simp only [answers, Frame.satisfies, List.length_reverse, List.any_reverse,
    Bool.and_eq_false_iff, decide_eq_false_iff_not] at alone
  simp only [Ebnf.loneComprehension, Bool.or_eq_true, decide_eq_true_eq]
  rcases alone with short | none
  · left
    simp only [List.length_cons] at short ⊢
    omega
  · right
    rw [List.all_eq_not_any_not]
    simpa using none

theorem soundWhole_argList (calls : CallsSound C) :
    SoundWhole C Grammar.argList .full (ebnf .argList) := by
  rintro s frame' s' mem ⟨_, t, one, _, u, two, _, v, ⟨rfl, rfl⟩, rfl, rfl⟩
  obtain ⟨children, matched, rfl⟩ := sound_of_sounds (p := elements .arguments .argument) calls
    (by decide) _ _ _ _ mem one
  obtain ⟨front, back, first, more, rfl⟩ := Matches.seq_iff.1 matched
  rcases two with ⟨-, refused⟩ | ⟨alone, rfl, rfl⟩
  · exact refused.elim
  · rw [List.append_nil, build_reverse]
    refine ⟨_, .tree _ _ (.such (.seq first (Matches.last_iff.1 more)) ?_), rfl⟩
    obtain ⟨tree, -, rfl⟩ := Matches.part_iff.1 first
    rw [List.append_nil] at alone
    exact loneComprehension_of_answer _ alone

theorem soundWhole_argument (calls : CallsSound C) :
    SoundWhole C Grammar.argument .full (ebnf .argument) := by
  refine .branch rfl (soundWhole_of_soundsWhole calls (by decide)) ?_
  refine .branch rfl (soundWhole_of_soundsWhole calls (by decide)) ?_
  rintro s frame' s' mem ⟨_, t, one, _, u, two, rfl, rfl⟩
  obtain ⟨tree, derived, -, rfl⟩ := calls.call (p := .part .target .test) (by decide) mem one
  rw [← calls.flow_eq one] at derived ⊢
  rcases two with ⟨-, two⟩ | ⟨-, ⟨holds, two⟩ | ⟨-, ⟨holds, two⟩ | ⟨-, rfl, -⟩⟩⟩
  · obtain ⟨piece, matched, rfl⟩ := follows_finishComprehension calls (.part derived) two
    exact ⟨piece, .right (.right (.right (.left matched))), rfl⟩
  · obtain ⟨piece, matched, rfl⟩ := follows_namedValue calls derived
      (by simpa [answers, Test.onSymbol] using holds) two
    exact ⟨piece, .right (.right (.right (.right (.left matched)))), rfl⟩
  · obtain ⟨_, v, ⟨isName, rfl, rfl⟩ | ⟨-, refused⟩, _, w, ⟨rfl, rfl⟩, rest⟩ := two
    · obtain ⟨start, stop, token, named, rfl⟩ :=
        derived.leaf_of_name (Frame.isOneOf_singleton.1 isName)
      obtain ⟨start', stop', children, matched, rfl⟩ := calls.tree (.ofList [.symbol .assign])
        .keywordArgument (row [sign .assign .assign, .part .value .test]) (by decide)
        (by simpa [answers, Test.onSymbol] using holds) rest
      refine ⟨_, .right (.right (.right (.right (.right (.tree _ _
        (.cons (.leaf ?_) matched)))))), rfl⟩
      rw [named]
      rfl
    · exact refused.elim
  · exact ⟨_, .right (.right (.left (.part derived))), rfl⟩

/-! ### Parameters -/

/-- What is not refused does not stand after a parameter of the kind. -/
theorem follows_refuseAfter {kind : NodeKind} {complaint : Complaint} {before : List Child}
    {s s' : Session σ} {frame' : Frame}
    (h : Follows C (Grammar.refuseAfter kind complaint) before.reverse s frame' s') :
    Ebnf.holds kind before = false ∧ frame' = before.reverse ∧ s' = s := by
  rcases h with ⟨-, refused⟩ | ⟨none, rfl, rfl⟩
  · exact refused.elim
  · refine ⟨?_, rfl, rfl⟩
    rw [Ebnf.holds, ← List.any_reverse]
    exact none

/-- A parameter misses no default if it stands after a star, has a default, or stands after none
that has one. -/
theorem answers_missesDefault {s : Session σ} {item : Child} {before : List Child}
    (isParameter : item.2.kind? = some .parameter) :
    s.answers (item :: before.reverse) Grammar.missesDefault =
      !(Ebnf.holds .starParameter before || Frame.hasField .defaultValue item.2 ||
        !before.any fun child => Frame.hasField .defaultValue child.2) := by
  have noStar : Frame.isOneOf [.starParameter] item.2 = false := by
    simp [Frame.isOneOf, isParameter]
  simp only [answers, Grammar.missesDefault, Frame.satisfies, List.any_cons, List.any_reverse,
    noStar, Frame.latest?, List.head?_cons, Option.map_some, Option.any_some]
  rw [Ebnf.holds]
  generalize Frame.hasField .defaultValue item.2 = own
  generalize (before.any fun child => Frame.isOneOf [.starParameter] child.2) = star
  generalize (before.any fun child => Frame.hasField .defaultValue child.2) = others
  revert own star others
  decide

/-- **A parameter is read where it may stand after those before it.** -/
theorem follows_nextParameter (calls : CallsSound C) {typed : Bool} {before : List Child}
    {s s' : Session σ} {frame' : Frame}
    (h : Follows C (Grammar.nextParameter typed) before.reverse s frame' s') :
    ∃ item, (Ebnf.anyParameter typed).Matches (Derives ebnf) s.flow [item] ∧
      Ebnf.admits before item = true ∧ frame' = item :: before.reverse := by
  obtain ⟨_, t, one, _, u, two, rfl, rfl⟩ := h
  obtain ⟨noKeywords, rfl, rfl⟩ := follows_refuseAfter one
  rcases two with ⟨slash, _, v, leading, _, w, repeated, _, x, starred, _, y, called, rfl, rfl⟩ |
    ⟨-, ⟨star, _, v, repeated, _, w, called, rfl, rfl⟩ | ⟨-, ⟨stars, called⟩ |
      ⟨-, ⟨-, _, v, called, _, w, unmissed, rfl, rfl⟩ | ⟨-, refused⟩⟩⟩⟩
  · rcases leading with ⟨-, refused⟩ | ⟨some, rfl, rfl⟩
    · exact refused.elim
    obtain ⟨noSlash, rfl, rfl⟩ := follows_refuseAfter repeated
    obtain ⟨noStar, rfl, rfl⟩ := follows_refuseAfter starred
    have slashes : (KindSet.ofList [.symbol .div]).mem x.current.kind = true := by
      simpa [answers, Test.onSymbol] using slash
    have nonempty : before.isEmpty = false := by
      simpa [answers, Frame.satisfies] using some
    obtain ⟨tree, derived, matched, rfl⟩ := calls.call (p := .part .parameters .positionalOnly)
      (by decide) slashes called
    obtain ⟨start, stop, children, -, rfl⟩ := derived.node rfl
    refine ⟨_, .left matched, ?_, rfl⟩
    simp [Ebnf.admits, Tree.kind?, noKeywords, nonempty, noSlash, noStar]
  · obtain ⟨noStar, rfl, rfl⟩ := follows_refuseAfter repeated
    have stars : (KindSet.ofList [.symbol .mul]).mem v.current.kind = true := by
      simpa [answers, Test.onSymbol] using star
    obtain ⟨tree, derived, matched, rfl⟩ := calls.call
      (p := .part .parameters (.starParameter typed)) (by cases typed <;> decide)
      stars called
    obtain ⟨start, stop, children, -, rfl⟩ := derived.node rfl
    refine ⟨_, .right (.left matched), ?_, rfl⟩
    simp [Ebnf.admits, Tree.kind?, noKeywords, noStar]
  · have stars : (KindSet.ofList [.symbol .power]).mem t.current.kind = true := by
      simpa [answers, Test.onSymbol] using stars
    obtain ⟨tree, derived, matched, rfl⟩ := calls.call
      (p := .part .parameters (.doubleStarParameter typed)) (by cases typed <;> decide)
      stars called
    obtain ⟨start, stop, children, -, rfl⟩ := derived.node rfl
    refine ⟨_, .right (.right (.left matched)), ?_, rfl⟩
    simp [Ebnf.admits, Tree.kind?, noKeywords]
  · obtain ⟨tree, derived, matched, rfl⟩ := calls.call
      (p := .part .parameters (.parameter typed true)) (by cases typed <;> decide)
      (KindSet.mem_full _) called
    obtain ⟨start, stop, children, -, rfl⟩ := derived.node rfl
    rcases unmissed with ⟨-, refused⟩ | ⟨unmissed, rfl, -⟩
    · exact refused.elim
    · refine ⟨_, .right (.right (.right matched)), ?_, rfl⟩
      simp only [Ebnf.admits, Tree.kind?, noKeywords, Bool.not_false, Bool.true_and]
      rw [answers_missesDefault rfl, Bool.not_eq_false'] at unmissed
      exact unmissed
  · exact refused.elim

/-- Further parameters are read, each where it may stand. -/
theorem loops_parameters (calls : CallsSound C) {typed : Bool} {closing : Symbol}
    (ne : closing ≠ .comma) (before : List Child) {s s' : Session σ} {frame' : Frame}
    (h : Loops (fun frame s => s.answers frame (.onSymbol .comma)) (Follows C (steps [
        .shift .separators,
        .branch (.onSymbol .comma) (object .doubledComma)
          (.branch (.onSymbol closing) .done (Grammar.nextParameter typed))]))
      before.reverse s frame' s') :
    ∃ rest, (Phrase.further .separators [.symbol .comma] (Ebnf.anyParameter typed)).Matches
        (Derives ebnf) s.flow rest ∧ Ebnf.allAdmitted before rest = true ∧
      frame' = (before ++ rest).reverse := by
  generalize eq : before.reverse = frame at h
  induction h generalizing before with
  | stop _ => exact ⟨[], .noFurther, rfl, by rw [List.append_nil, eq]⟩
  | @round frame middle frame' s t s' holds once rest ih =>
      subst eq
      have flow_eq := calls.flow_eq once
      obtain ⟨_, u, ⟨token, taken, rfl⟩, _, v, ⟨-, refused⟩ | ⟨-, two⟩, rfl, rfl⟩ := once
      · exact refused.elim
      have isComma : [TokenKind.symbol .comma].contains token.kind = true := by
        rw [taken.kind]
        exact holds
      have admitted : Ebnf.admits before (.separators, .leaf token) = true := rfl
      rcases two with ⟨closes, rfl, rfl⟩ | ⟨-, next⟩
      · -- After a comma and the closing sign there is no other comma.
        cases rest with
        | stop _ =>
            refine ⟨[(.separators, .leaf token)], .lastSeparator isComma, ?_, by simp⟩
            simp [Ebnf.allAdmitted, admitted]
        | round again _ _ =>
            simp only [answers, Test.onSymbol, List.contains_cons, List.contains_nil, Bool.or_false,
              beq_iff_eq] at closes again
            rw [closes] at again
            exact absurd (TokenKind.symbol.inj again) ne
      · have next : Follows C (Grammar.nextParameter typed)
            (before ++ [(Field.separators, Tree.leaf token)]).reverse u middle t := by
          rw [List.reverse_append]
          exact next
        obtain ⟨item, matched, admits, rfl⟩ := follows_nextParameter calls next
        have longer : (before ++ [(Field.separators, Tree.leaf token), item]).reverse =
            item :: (before ++ [(Field.separators, Tree.leaf token)]).reverse := by simp
        obtain ⟨back, more, all, rfl⟩ := ih _ longer
        rw [flow_eq] at more
        rw [taken.2.2.2] at matched
        refine ⟨_, .further isComma matched more, ?_, by simp⟩
        simp [Ebnf.allAdmitted, admitted, admits, all]

/-- A star without a name is noticed if no parameter follows it. -/
theorem satisfies_unanswered (children : List Child) :
    Frame.satisfies children.reverse (.unanswered .starParameter .parameter .parameter) =
      !Ebnf.starsAnswered children := by
  induction children with
  | nil => rfl
  | cons item rest ih =>
      simp only [Frame.satisfies] at ih ⊢
      rw [List.reverse_cons, Ebnf.starsAnswered]
      cases answered : Ebnf.holds .parameter rest with
      | true =>
          -- The pieces up to the latest parameter stay the same.
          have stops : (rest.reverse.takeWhile fun child =>
              !Frame.isOneOf [.parameter] child.2).length ≠ rest.reverse.length := by
            intro all
            obtain ⟨child, mem, isParameter⟩ := List.any_eq_true.1 answered
            rw [← List.mem_reverse, ← (List.takeWhile_prefix _).eq_of_length all] at mem
            have other := List.mem_takeWhile_imp mem
            rw [isParameter] at other
            cases other
          rw [List.takeWhile_append, if_neg stops, ih]
          simp
      | false =>
          have none : ∀ child ∈ rest.reverse, (!Frame.isOneOf [.parameter] child.2) = true := by
            intro child mem
            rw [Ebnf.holds, List.any_eq_false] at answered
            simpa using answered child (List.mem_reverse.1 mem)
          rw [List.takeWhile_eq_self_iff.2 none] at ih
          rw [List.takeWhile_append_of_pos none, List.any_append, ih]
          cases isParameter : Frame.isOneOf [.parameter] item.2 with
          | true =>
              have noStar : Frame.isOneOf [.starParameter] item.2 = false := by
                rw [Frame.isOneOf, Frame.isOneOf_singleton.1 isParameter]
                rfl
              simp [isParameter, noStar]
          | false => simp [isParameter, Bool.or_comm, Bool.and_comm]

theorem soundWhole_parameters (calls : CallsSound C) (typed : Bool) :
    SoundWhole C (Grammar.parameters typed) .full (ebnf (.parameters typed)) := by
  rintro s frame' s' mem ⟨_, t, one, _, u, two, _, v, three, _, w, ⟨rfl, rfl⟩, rfl, rfl⟩
  have one : Follows C (Grammar.nextParameter typed) [].reverse s _ t := one
  obtain ⟨first, matched, admits, rfl⟩ := follows_nextParameter calls one
  obtain ⟨rest, more, all, rfl⟩ := loops_parameters calls
    (by cases typed <;> decide) [first] two
  rw [calls.flow_eq one] at more
  rcases three with ⟨-, refused⟩ | ⟨answered, rfl, rfl⟩
  · exact refused.elim
  · have answered : (!Ebnf.starsAnswered (first :: rest)) = false := by
      rw [← satisfies_unanswered]
      exact answered
    have ordered : Ebnf.ordered (first :: rest) = true := by
      rw [Bool.not_eq_false'] at answered
      simp only [Ebnf.ordered, Ebnf.allAdmitted, admits, answered, Bool.true_and, Bool.and_true]
      exact all
    rw [build_reverse]
    exact ⟨_, .tree _ _ (.such (.cons matched more) ordered), by cases typed <;> rfl⟩

/-- A slash is not the first parameter. -/
example : Ebnf.ordered [(.parameters, .node .positionalOnly 0 1 [])] = false := by
  decide

end Session

end PythonSyntax
