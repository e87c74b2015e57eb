import StepTree.Shell.Field
import StepTree.Shell.Utility.Variables

/-! # Values in words

What parameters stand for, how their values are adjusted, and where the home directory takes the place of a tilde. -/

namespace StepTree.Shell

/-- How a word is expanded. -/
structure Manner where
  /-- Values that are not quoted are separated to fields. -/
  separates : Bool := false
  /-- The word stands in the place of a value: its own text is separated as well. -/
  inValue : Bool := false

namespace Session

/-- The text of a parameter, if it is set. -/
def parameter? (s : Session) : Parameter → Option (List Char)
  | .named name => s.lookup? name
  | .argument n => s.arguments[n - 1]?
  | .each => some s.allArguments
  | .all => some s.allArguments
  | .count => some (toString s.arguments.length).toList
  | .status => some (toString s.status).toList
  | .options => some (Utility.optionLetters s)
  | .process => some (toString s.number).toList
  | .background => s.lastJob.map fun n => (toString n).toList
  | .self => some s.self

/-- The arguments one by one, if the parameter stands for them so. -/
def separateArguments? (s : Session) (m : Manner) (quoted : Bool) (p : Parameter) : Option (List Atom) :=
  let all (join : Atom) (atoms : List Char → List Atom) : List Atom :=
    [join].intercalate (s.arguments.map atoms)
  if !m.separates then none
  else match p, quoted with
    | .each, true =>
      some (if s.arguments.isEmpty then [] else Atom.region true :: all .next fun text => text.map fun c => .char c true)
    | .each, false => some (Atom.region false :: all .gap fun text => text.map .value)
    | .all, false => some (Atom.region false :: all .gap fun text => text.map .value)
    | _, _ => none

/-- The value of a parameter in a word. -/
def valueAtoms (s : Session) (m : Manner) (quoted : Bool) (p : Parameter) (value : List Char) : List Atom :=
  match s.separateArguments? m quoted p with
  | some atoms => atoms
  | none => Atom.ofValue quoted value

/-- The home directory of a user; an empty name stands for the one who runs the session. -/
def home? (s : Session) (user : List Char) : Option (List Char) :=
  if user.isEmpty then s.lookup? "HOME" else if user = "root".toList then some "/root".toList else none

end Session

namespace Word

/-- A word in which a tilde at the beginning, and after colons if they count, stands for a home directory. -/
def withHome (s : Session) (afterColons : Bool) (w : Word) : Word :=
  match w with
  | .text false ('~' :: chars) :: rest =>
    let user := chars.takeWhile fun c => c ≠ '/' && !(afterColons && c = ':')
    let after := chars.drop user.length
    match if after.isEmpty && !rest.isEmpty then none else s.home? user with
    | some home => .text true home :: afterColon s afterColons after rest
    | none => .text false ['~'] :: afterColon s afterColons chars rest
  | .text false chars :: rest => afterColon s afterColons chars rest
  | _ => w
where
  /-- Text that is followed by other parts, of which those after a colon may begin with a tilde. -/
  afterColon (s : Session) (afterColons : Bool) (chars : List Char) (rest : Word) : Word :=
    if !afterColons then .text false chars :: rest
    else
      let pieces := Text.split ':' chars
      let expand (isLast : Bool) (piece : List Char) : Word :=
        match piece with
        | '~' :: chars =>
          let user := chars.takeWhile (· ≠ '/')
          let after := chars.drop user.length
          match if after.isEmpty && isLast && !rest.isEmpty then none else s.home? user with
          | some home => [.text true home, .text false after]
          | none => [.text false piece]
        | _ => [.text false piece]
      let others := pieces.drop 1
      let indexed := others.zip (List.range others.length)
      .text false ((pieces.head?).getD []) ::
        (indexed.flatMap fun (piece, n) => .text false [':'] :: expand (n + 1 = others.length) piece) ++ rest

end Word

/-- What is left of the value of a parameter without its shortest or longest beginning or end that matches. -/
def dropMatch (atStart longest : Bool) (pattern : List Glob) (value : List Char) : List Char :=
  let lengths := if atStart then Glob.startLengths pattern value else Glob.endLengths pattern value
  match (if longest then lengths.getLast? else lengths.head?) with
  | none => value
  | some n => if atStart then value.drop n else value.take (value.length - n)

/-! ### Files that redirections open -/

namespace Session

/-- The descriptor that a device stands for. -/
def device? (path : List Char) : Option Nat :=
  match String.ofList path with
  | "/dev/stdin" => some 0
  | "/dev/stdout" => some 1
  | "/dev/stderr" => some 2
  | _ =>
    match Text.after? "/dev/fd/".toList path with
    | some [c] => if c.isDigit then some (c.toNat - 48) else none
    | _ => none

/-- How a file is opened. -/
structure Opening where
  creates : Bool := false
  empties : Bool := false
  appends : Bool := false
  /-- The file must not be there. -/
  isNew : Bool := false

/-- Opens a file as a channel, or says why that is not possible. -/
def openFile (s : Session) (path : List Char) (how : Opening) : Except String (Session × Nat) :=
  let fault (cause : String) : Except String (Session × Nat) :=
    .error ((if how.creates then "cannot create " else "cannot open ") ++ String.ofList path ++ ": " ++ cause)
  let missing := if how.creates then "Directory nonexistent" else "No such file"
  match (device? path).bind fun d => s.descriptors.lookup d with
  | some index => .ok (s, index)
  | none =>
    match s.files.follow s.place (decoded path).toList with
    | .error _ => fault missing
    | .ok place =>
      if s.files.isDirectory place then if how.creates then fault "Is a directory" else .ok (s.attach (.source []))
      else if (s.files.file? place).isSome then
        if how.isNew && place ≠ FileTree.emptyDevice then fault "File exists"
        else
          let s := if how.empties then { s with files := s.files.write place [] } else s
          .ok (s.attach (.file place 0 how.appends))
      else if how.creates && s.files.isDirectory place.parent then
        .ok ({ s with files := s.files.write place [] }.attach (.file place 0 how.appends))
      else fault missing

end Session

end StepTree.Shell
