import StepTree.Shell.Glob
import StepTree.Shell.Session

/-! # Fields

What the parts of a word stand for is put together to fields: characters of values that are not quoted separate
them, if the variable `IFS` lists them, and a field that is a pattern becomes the names of files that match it. -/

namespace StepTree.Shell

/-- A piece of an expanded word. -/
inductive Atom where
  | char (c : Char) (quoted : Bool)
  /-- A character of a value that is not quoted. -/
  | value (c : Char)
  /-- Separates values that are not quoted, as a blank does. -/
  | gap
  /-- Separates arguments in quotes. -/
  | next
  /-- A value begins, which consists of arguments in quotes or is not quoted. -/
  | region (quoted : Bool)
  /-- Quotes: there is a field even if nothing is in it. -/
  | mark

namespace Atom

/-- A part of a word that is text. -/
def ofText (quoted : Bool) (chars : List Char) : List Atom :=
  let atoms := chars.map fun c => char c quoted
  if quoted then mark :: atoms else atoms

/-- A value in a word. -/
def ofValue (quoted : Bool) (chars : List Char) : List Atom :=
  if quoted then ofText true chars else region false :: chars.map value

/-- The characters of a word that is not separated, and whether they are quoted. -/
def chars (atoms : List Atom) : List (Char × Bool) := atoms.filterMap fun
  | char c quoted => some (c, quoted)
  | value c => some (c, false)
  | _ => none

/-- The text of a word that is not separated. -/
def text (atoms : List Atom) : List Char := (chars atoms).map (·.1)

end Atom

/-- A field, of which each character may be quoted. -/
abbrev Field := List (Char × Bool)

/-- Fields that are being separated. -/
structure Separation where
  /-- The fields that are complete, the last one first. -/
  complete : List Field := []
  /-- The field that has begun, the last character first. -/
  current : Option Field := none
  /-- Separators that follow belong to the one before; a blank lets one follow that is none. -/
  afterSeparator : Option Bool := none
  /-- The last value consists of arguments in quotes. -/
  quoted : Bool := false

namespace Separation

/-- A character of a field. -/
def push (s : Separation) (c : Char) (quoted : Bool) : Separation :=
  { s with current := some ((c, quoted) :: s.current.getD []), afterSeparator := none }

/-- The current field is complete, even if it is empty. -/
def close (s : Separation) : Separation :=
  { s with complete := (s.current.getD []).reverse :: s.complete, current := none }

/-- A character that separates; blanks at the beginning of a field do not count. -/
def separator (s : Separation) (isBlank : Bool) : Separation :=
  match s.afterSeparator, isBlank with
  | some _, true => s
  | some true, false => { s with afterSeparator := some false }
  | _, _ =>
    if isBlank && s.current.isNone then s else { s.close with afterSeparator := some isBlank }

/-- Blanks that separate, if they are listed. -/
def isBlank (c : Char) : Bool := c = ' ' || c = '\t' || c = '\n'

def add (separators : List Char) (s : Separation) : Atom → Separation
  | .char c quoted => s.push c quoted
  | .mark => { s with current := some (s.current.getD []), afterSeparator := none }
  | .value c => if separators.contains c then s.separator (isBlank c) else s.push c false
  | .gap => s.separator true
  | .next => { s.close with afterSeparator := none }
  | .region quoted => { s with afterSeparator := none, quoted }

/-- The fields of a word. -/
def fields (separators : List Char) (atoms : List Atom) : List Field :=
  let s := atoms.foldl (add separators) {}
  (if s.quoted || s.current.isSome then s.close else s).complete.reverse

end Separation

namespace Field

/-- The pieces of a field between slashes. -/
def pieces (f : Field) : List Field :=
  f.foldr (fun c pieces =>
    match pieces with
    | [] => [[c]]
    | piece :: others => if c.1 = '/' then [] :: pieces else (c :: piece) :: others) [[]]

/-- The paths that begin with `start` and go on with names that match the pieces. -/
def paths (s : Session) : (pieces : List Field) → (start : List Char) → List (List Char)
  | [], start => [start]
  | piece :: others, start =>
    let pattern := Glob.ofChars piece
    let names :=
      if Glob.isText pattern then [Glob.text pattern]
      else
        let directory := (s.files.follow s.place (decoded (if start.isEmpty then ['.'] else start)).toList).toOption
        let names := ((directory.filter s.files.isDirectory).map s.files.listing).getD []
        let isHidden := pattern.head? = some (Glob.char '.')
        let names := if isHidden then "." :: ".." :: names else names
        ((names.map encoded).filter fun (name : List Char) =>
          Glob.matchesAll pattern name && (isHidden || name.head? ≠ some '.')).mergeSort
            fun a b => String.ofList a ≤ String.ofList b
    names.flatMap fun name => paths s others (start ++ name ++ if others.isEmpty then [] else ['/'])

/-- The files whose paths match a field, else the field itself. -/
def names (s : Session) (f : Field) : List (List Char) :=
  let text := f.map (·.1)
  if Glob.isText (Glob.ofChars f) || s.has 'f' then [text]
  else
    let found := (paths s f.pieces []).filter fun path => (s.files.find s.place (decoded path).toList).toOption.isSome
    if found.isEmpty then [text] else found

/-- The fields of an expanded word. -/
def ofAtoms (s : Session) (atoms : List Atom) : List (List Char) :=
  (Separation.fields ((s.lookup? "IFS").getD [' ', '\t', '\n']) atoms).flatMap (names s)

end Field

end StepTree.Shell
