/-
**Parsing.**

A session reads its cursor by the rules of a grammar.  It keeps the cursor, the end of the last
token that has a width, and the loops and functions in whose bodies it stands.  After an error the
session goes on from where the error left it.

Main definitions:

* `PythonSyntax.Flow` — the enclosing loops and functions;
* `PythonSyntax.Session` — the state of a session;
* `PythonSyntax.Outcome` — the collected pieces or an error, and the state after either;
* `PythonSyntax.Session.follow` — following a rule, given how other rules are read;
* `PythonSyntax.Session.run` — following a rule with a bound on the depth of calls;
* `PythonSyntax.Session.parse` — reading a module, a statement or an expression;
* `PythonSyntax.parse` — the same, for a text.
-/

import PythonSyntax.Cursor.Basic
import PythonSyntax.Grammar.Python
import PythonSyntax.Session.Frame

set_option autoImplicit false

namespace PythonSyntax

/-- The bodies in which a statement stands. -/
structure Flow where
  /-- The loops around it, inside the innermost function or class. -/
  loops : Nat
  /-- The functions around it, inside the innermost class. -/
  functions : Nat
  deriving DecidableEq, Repr

namespace Flow

/-- Outside all loops and functions. -/
def outside : Flow := ⟨0, 0⟩

/-- Inside one more body. -/
def enter (flow : Flow) : Scope → Flow
  | .loopBody => ⟨flow.loops + 1, flow.functions⟩
  | .functionBody => ⟨0, flow.functions + 1⟩
  | .classBody => outside

end Flow

/-- The state of a parser. -/
structure Session (σ : Type) where
  cursor : σ
  /-- The end of the last token taken, but for the marks of blocks. -/
  lastStop : Nat
  flow : Flow

/-- What following a rule comes to. -/
inductive Outcome (σ : Type) where
  /-- The rule has been read, and these are the pieces. -/
  | done (frame : Frame) (session : Session σ)
  | failed (error : SyntaxError) (session : Session σ)

namespace Session

variable {σ : Type} [Cursor σ]

/-- A session at a cursor. -/
def start (cursor : σ) : Session σ := ⟨cursor, Cursor.position cursor, .outside⟩

/-- The current token. -/
def current (s : Session σ) : Token := Cursor.current s.cursor

/-- The offset of the current token. -/
def position (s : Session σ) : Nat := s.current.start

/-- The answers to the questions that decide which way a rule goes. -/
def answers (s : Session σ) (frame : Frame) : Test → Bool
  | .on kinds => kinds.contains s.current.kind
  | .onName word => s.current.spells word
  | .lineOpensBlock => Cursor.opensBlock s.cursor
  | .inLoop => 0 < s.flow.loops
  | .inFunction => 0 < s.flow.functions
  | .collected shape => frame.satisfies shape
  | .not test => !s.answers frame test
  | .both first second => s.answers frame first && s.answers frame second
  | .either first second => s.answers frame first || s.answers frame second

/-- Taking the current token.  It counts as taken also if the cursor then fails to move. -/
def shift (s : Session σ) (frame : Frame) (field : Field) : Outcome σ :=
  let token := s.current
  let lastStop := if token.kind.isBlockMark then s.lastStop else token.stop
  match Cursor.advance s.cursor with
  | (none, cursor) => .done ((field, .leaf token) :: frame) ⟨cursor, lastStop, s.flow⟩
  | (some error, cursor) => .failed error ⟨cursor, lastStop, s.flow⟩

/-- The offset of a place. -/
def locate (s : Session σ) (frame : Frame) : Place → Nat
  | .here => s.position
  | .latest => (frame.latest?.map Tree.start).getD s.position
  | .firstOf kind => ((frame.firstOf? kind).map Tree.start).getD s.position

/-- The state with another flow. -/
def withFlow (s : Session σ) (flow : Flow) : Session σ := { s with flow := flow }

/-- Following a rule.  `recur` tells how the rules it calls are read. -/
def follow (grammar : Grammar) (recur : Rule → Frame → Session σ → Outcome σ) :
    Rule → Frame → Session σ → Outcome σ
  | .done, frame, s => .done frame s
  | .seq first second, frame, s =>
    match follow grammar recur first frame s with
    | .done frame s => follow grammar recur second frame s
    | .failed error s => .failed error s
  | .shift field, frame, s => s.shift frame field
  | .call name field, frame, s =>
    match recur (grammar name) [] s with
    | .done pieces s => .done (pieces.map (fun child => (field, child.2)) ++ frame) s
    | .failed error s => .failed error s
  | .reduce kind, frame, s => .done [(.left, frame.build kind s.position s.lastStop)] s
  | .reducePair kind field, frame, s =>
    .done ((field, Frame.build (frame.take 2) kind s.position s.lastStop) :: frame.drop 2) s
  | .relabel field, frame, s => .done (frame.relabel field) s
  | .unwrap field, frame, s => .done (frame.unwrap field) s
  | .branch test yes no, frame, s =>
    if s.answers frame test then follow grammar recur yes frame s
    else follow grammar recur no frame s
  | .loop test body, frame, s =>
    if s.answers frame test then
      match follow grammar recur body frame s with
      | .done frame s => recur (.loop test body) frame s
      | .failed error s => .failed error s
    else .done frame s
  | .within scope body, frame, s =>
    match follow grammar recur body frame (s.withFlow (s.flow.enter scope)) with
    | .done frame t => .done frame (t.withFlow s.flow)
    | .failed error t => .failed error (t.withFlow s.flow)
  | .refuse complaint place, frame, s =>
    .failed ⟨.grammatical complaint s.current, s.locate frame place⟩ s

/-- Following a rule, with calls and repetitions at most `fuel` deep. -/
def run (grammar : Grammar) : Nat → Rule → Frame → Session σ → Outcome σ
  | 0, _, _, s => .failed ⟨.exhausted, s.position⟩ s
  | fuel + 1, rule, frame, s => follow grammar (run grammar fuel) rule frame s

/-- How deep calls and repetitions may go: there are fewer than 64 between two tokens. -/
def depth (s : Session σ) : Nat := 64 * (Cursor.budget s.cursor + 1)

/-- Reading by a given grammar. -/
def parseBy (grammar : Grammar) (s : Session σ) (entry : Entry) :
    Except SyntaxError Tree × Session σ :=
  match run grammar s.depth entry.rule [] s with
  | .done frame t => (.ok (frame.build entry.kind t.position t.lastStop), t)
  | .failed error t => (.error error, t)

/-- Reading a module, an interactive statement or an expression. -/
def parse (s : Session σ) (entry : Entry) : Except SyntaxError Tree × Session σ :=
  s.parseBy Grammar.python entry

end Session

/-- The tree of a text. -/
def parse (options : Options) (entry : Entry) (text : List Char) : Except SyntaxError Tree := do
  let scanner ← Scanner.ofText options text
  ((Session.start scanner).parse entry).1

end PythonSyntax
