/-
**Listings: a tree with all its fields, one value a line.**

Main definitions:

* `PythonSyntax.Listing` — records, lists and optional values;
* `PythonSyntax.Listing.lines` — how they are written, four blanks deeper at each level;
* `PythonSyntax.Tree.listing` — a tree as a listing, with the fields in the order of its kind.
-/

import PythonSyntax.Text.Quoted
import PythonSyntax.Tree.Outline

set_option autoImplicit false

namespace PythonSyntax

/-- What is listed. -/
inductive Listing where
  /-- A value on one line. -/
  | atom (text : String)
  | record (name : String) (fields : List (String × Listing))
  /-- An optional value that is there. -/
  | present (value : Listing)
  | items (values : List Listing)
  deriving Repr

namespace Listing

/-- The lines one level deeper, the first with `lead` in front and the last with a comma behind. -/
def nest (lead : String) : List String → List String
  | [] => []
  | [line] => ["    " ++ lead ++ line ++ ","]
  | first :: rest =>
    ("    " ++ lead ++ first) ::
      (rest.dropLast.map ("    " ++ ·) ++ [("    " ++ rest.getLast?.getD "") ++ ","])

mutual

/-- How a listing is written. -/
def lines : Listing → List String
  | .atom text => [text]
  | .record name fields => (name ++ " \x7b") :: fieldLines fields ++ ["\x7d"]
  | .present value => "Some(" :: nest "" value.lines ++ [")"]
  | .items [] => ["[]"]
  | .items (value :: values) => "[" :: nest "" value.lines ++ itemLines values ++ ["]"]

/-- The fields of a record. -/
def fieldLines : List (String × Listing) → List String
  | [] => []
  | (name, value) :: rest => nest (name ++ ": ") value.lines ++ fieldLines rest

/-- The values of a list. -/
def itemLines : List Listing → List String
  | [] => []
  | value :: rest => nest "" value.lines ++ itemLines rest

end

/-- An optional value. -/
def optional (value : Option Listing) : Listing :=
  match value with
  | some value => .present value
  | none => .atom "None"

/-- A number. -/
def number (n : Nat) : Listing := .atom (toString n)

/-- A text. -/
def text (text : String) : Listing := .atom (Text.quote text)

end Listing

/-- Trivia as a listing. -/
def Trivia.listing (trivia : Trivia) : Listing :=
  .record "Trivia" [
    ("start", .number trivia.start), ("end", .number trivia.stop),
    ("kind", .atom trivia.kind.label), ("text", .text trivia.text)]

/-- A token as a listing. -/
def Token.listing (token : Token) : Listing :=
  .record "Token" [
    ("start", .number token.start), ("end", .number token.stop),
    ("kind", .atom token.kind.label), ("value", .optional (token.value.map .text)),
    ("trivia", .items (token.trivia.map Trivia.listing))]

/-- The listings of a field among those of all children. -/
def Slot.listing (slot : Slot) (children : List (Field × Listing)) : String × Listing :=
  let values := (children.filter fun child => child.1 = slot.field).map Prod.snd
  (slot.field.label,
    match slot.arity with
    | .one => values.head?.getD (.atom "None")
    | .optional => .optional values.head?
    | .many => .items values)

namespace Tree

mutual

/-- A tree as a listing. -/
def listing : Tree → Listing
  | .leaf token => token.listing
  | .node kind start stop children =>
    let span :=
      if kind.showsSpan then [("start", .number start), ("end", .number stop)] else []
    let listings := listingOf children
    .record kind.label (span ++ kind.slots.map fun slot => slot.listing listings)

/-- Children as listings. -/
def listingOf : List (Field × Tree) → List (Field × Listing)
  | [] => []
  | (field, tree) :: rest => (field, tree.listing) :: listingOf rest

end

end Tree

end PythonSyntax
