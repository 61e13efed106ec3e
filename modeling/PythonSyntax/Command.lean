/-
**The command line.**

The command reads a file and lists its syntax tree, or its tokens.

Main definitions:

* `PythonSyntax.Command.Invocation` — what the arguments ask for;
* `PythonSyntax.Command.Contents` — what is found under the name of a file;
* `PythonSyntax.Command.Report` — what is written, and the exit status;
* `PythonSyntax.Command.run` — the report, given the arguments and what the file holds.
-/

import PythonSyntax.Session.Basic
import PythonSyntax.Tree.Listing

set_option autoImplicit false

namespace PythonSyntax.Command

/-- What the arguments ask for. -/
structure Invocation where
  typeComments : Bool := false
  /-- Whether tokens are listed and not the tree. -/
  tokensOnly : Bool := false
  /-- The file; of several, the last. -/
  input : Option String := none
  deriving DecidableEq, Repr

/-- One more argument.  What is no option names the file. -/
def Invocation.take (invocation : Invocation) (argument : String) : Invocation :=
  if argument = "--type-comments" then { invocation with typeComments := true }
  else if argument = "--tokens" then { invocation with tokensOnly := true }
  else { invocation with input := some argument }

/-- What all arguments ask for. -/
def Invocation.ofArguments (arguments : List String) : Invocation :=
  arguments.foldl Invocation.take {}

/-- Why a file that exists cannot be read. -/
inductive Obstacle where
  | directory
  | permission
  /-- The file does not hold text. -/
  | encoding
  deriving DecidableEq, Repr

/-- How an obstacle is reported. -/
def Obstacle.describe : Obstacle → String
  | .directory => "Os \x7b code: 21, kind: IsADirectory, message: \"Is a directory\" \x7d"
  | .permission => "Os \x7b code: 13, kind: PermissionDenied, message: \"Permission denied\" \x7d"
  | .encoding =>
    "Error \x7b kind: InvalidData, message: \"stream did not contain valid UTF-8\" \x7d"

/-- What is found under the name of a file. -/
inductive Contents where
  | missing
  | unreadable (obstacle : Obstacle)
  | text (text : String)
  deriving DecidableEq, Repr

/-- What the command writes, and its exit status. -/
structure Report where
  status : Nat
  stdout : String
  stderr : String
  deriving DecidableEq, Repr

/-- Lines of text, each with its end. -/
def unlines (lines : List String) : String := String.join (lines.map (· ++ "\n"))

/-- A report of failure. -/
def Report.failure (lines : List String) : Report := ⟨1, "", unlines lines⟩

/-- The report of an error in a file. -/
def Report.ofError (input : String) (source : List Char) (error : SyntaxError) : Report :=
  let place := error.location source
  .failure [input ++ ":" ++ toString place.line ++ ":" ++ toString place.column ++ ": "
    ++ error.message]

/-- The line for a token: its span, in columns of six, and what a message calls it. -/
def tokenLine (token : Token) : String :=
  let start := toString token.start
  let stop := toString token.stop
  "".pushn ' ' (6 - start.length) ++ start ++ ".." ++ stop ++ "".pushn ' ' (6 - stop.length)
    ++ " " ++ token.describe

/-- The listing of the tokens of a text, or of its tree. -/
def list (invocation : Invocation) (input : String) (source : List Char) : Report :=
  let options : Options := { typeComments := invocation.typeComments }
  if invocation.tokensOnly then
    match tokenize options source with
    | .ok tokens => ⟨0, unlines (tokens.map tokenLine), ""⟩
    | .error error => .ofError input source error
  else
    match parse options .file source with
    | .ok tree =>
      let count := (tree.childrenAt .statements).length
      ⟨0, unlines tree.listing.lines,
        unlines ["Parsed " ++ toString count ++ " top-level statements."]⟩
    | .error error => .ofError input source error

/-- The report of the command, under the name `program`.  `lookUp` tells what a file holds. -/
def run (program : String) (arguments : List String) (lookUp : String → Contents) : Report :=
  let invocation := Invocation.ofArguments arguments
  match invocation.input with
  | none =>
    .failure [
      "Error: No input file provided",
      "",
      "Usage: " ++ program ++ " [--tokens] [--type-comments] <file.py>"]
  | some input =>
    match lookUp input with
    | .missing => .failure ["Error: File '" ++ input ++ "' not found"]
    | .unreadable obstacle => .failure ["Error: " ++ obstacle.describe]
    | .text text => list invocation input text.toList

end PythonSyntax.Command
