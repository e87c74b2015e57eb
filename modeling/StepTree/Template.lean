import StepTree.Json.Printer
import StepTree.Text.Basic

/-! # Templates

A placeholder is a path between double braces, `{{ user.id }}`; the path holds no brace, and blanks
around it do not count. A text is a row of plain characters and placeholders, found from left to right.
Expanding a text replaces each placeholder whose path has a value by the text of that value, and keeps
the others as they are written; what was put in is not looked at again. -/

namespace StepTree.Template

/-- A part of a text. -/
inductive Piece where
  | char (c : Char)
  /-- A placeholder, by what stands between its braces. -/
  | placeholder (inner : List Char)
  deriving DecidableEq

def isBrace (c : Char) : Bool := c = '\x7b' || c = '\x7d'

/-- What stands between the braces of a placeholder at the start of the text, and what follows it. -/
def placeholder? (s : List Char) : Option (List Char × List Char) :=
  match s with
  | '\x7b' :: '\x7b' :: rest =>
    match rest.dropWhile (!isBrace ·) with
    | '\x7d' :: '\x7d' :: after => some (rest.takeWhile (!isBrace ·), after)
    | _ => none
  | _ => none

/-- The parts of a text after its first `skip` characters. -/
def piecesFrom : (skip : Nat) → List Char → List Piece
  | _, [] => []
  | skip + 1, _ :: s => piecesFrom skip s
  | 0, c :: s =>
    match placeholder? (c :: s) with
    | some (inner, _) => .placeholder inner :: piecesFrom (inner.length + 3) s
    | none => .char c :: piecesFrom 0 s

/-- The parts of a text. -/
def pieces (s : List Char) : List Piece := piecesFrom 0 s

/-- A placeholder as it is written. -/
def written (inner : List Char) : List Char := '\x7b' :: '\x7b' :: (inner ++ ['\x7d', '\x7d'])

/-- Where the value of a path comes from. -/
abbrev Lookup := List Char → Option Json

/-- The value of the path of a placeholder; a blank placeholder has none. -/
def valueOf (lookup : Lookup) (inner : List Char) : Option Json :=
  let path := Text.trim inner
  if path.isEmpty then none else lookup path

def expandPiece (lookup : Lookup) : Piece → List Char
  | .char c => [c]
  | .placeholder inner =>
    match valueOf lookup inner with
    | some value => value.plainText.toList
    | none => written inner

/-- The text with its placeholders replaced. -/
def expand (lookup : Lookup) (s : List Char) : List Char := (pieces s).flatMap (expandPiece lookup)

/-- The path of a placeholder that has no value. -/
def missing? (lookup : Lookup) : Piece → Option (List Char)
  | .char _ => none
  | .placeholder inner => if (valueOf lookup inner).isNone then some (Text.trim inner) else none

/-- The paths of the placeholders that have no value, in order. -/
def unresolved (lookup : Lookup) (s : List Char) : List (List Char) := (pieces s).filterMap (missing? lookup)

/-- The path of a text that is one placeholder and nothing else but blanks around it. -/
def single? (s : List Char) : Option (List Char) :=
  match placeholder? (Text.trim s) with
  | some (inner, []) => some (Text.trim inner)
  | _ => none

end StepTree.Template
