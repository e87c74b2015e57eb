import StepTree.Shell.Grammar
import StepTree.Shell.Program.Values
import StepTree.Shell.Utility.Control
import StepTree.Shell.Utility.Test

/-! # Finding commands

A name is that of a function, a utility, or a program in one of the directories that the variable `PATH`
lists. -/

namespace StepTree.Shell

namespace Program

/-- Prints its operands, of which the first ones may be options. -/
def echo : Program := fun operands s =>
  let isOption (operand : List Char) : Bool :=
    operand.head? = some '-' && operand.length > 1 && (operand.drop 1).all ['n', 'e', 'E'].contains
  let options := (operands.takeWhile isOption).flatMap (·.drop 1)
  let text := [' '].intercalate (operands.dropWhile isOption)
  let (content, stopped) := if options.contains 'e' then Format.expanded text else (text, false)
  (s.print (if stopped || options.contains 'n' then content else content ++ ['\n'])).withStatus 0

/-- A utility as a program of its own, which names itself in its messages. -/
def ofUtility (name : String) (u : Utility) : Program := fun operands s =>
  { u operands { s with utility := some name } with ending := none, utility := s.utility }

/-- The programs by name. -/
def table : List (String × Program) :=
  [("basename", baseName), ("cat", concatenate), ("chmod", changeMode), ("cp", copy), ("cut", cut),
    ("dirname", directoryNames), ("echo", echo), ("egrep", grep true false), ("expr", expression),
    ("false", fun _ s => s.withStatus 1), ("fgrep", grep false true), ("fold", fold), ("grep", grep false false),
    ("head", head), ("ls", list), ("mkdir", makeDirectories), ("mv", move), ("nl", number), ("paste", paste),
    ("printenv", printEnvironment), ("printf", ofUtility "printf" Utility.printf),
    ("pwd", ofUtility "pwd" Utility.printDirectory), ("readlink", realPath "readlink"),
    ("realpath", realPath "realpath"), ("rev", mirroredLines), ("rm", remove), ("rmdir", removeDirectories), ("sed", sed),
    ("seq", sequence), ("sleep", sleep), ("sort", sort), ("tac", reversedLines), ("tail", tail), ("tee", tee),
    ("test", ofUtility "test" Utility.test), ("[", ofUtility "[" Utility.bracket), ("touch", touch), ("tr", translate),
    ("true", fun _ s => s.withStatus 0), ("uniq", unique), ("wc", count), ("yes", repeatLine)]

/-- The programs that run other commands. -/
def runners : List String := ["dash", "env", "nice", "nohup", "sh", "timeout", "which", "xargs"]

def isKnown (name : String) : Bool := runners.contains name || (table.lookup name).isSome

/-- The directories in which all programs of the system are. -/
def systemPlaces : List Place := [.elsewhere ["usr", "bin"], .elsewhere ["bin"]]

/-- Something that a name stands for outside the session. -/
inductive Found where
  /-- A program of the system. -/
  | known (name : String)
  /-- A file of commands. -/
  | script (place : Place)
  deriving DecidableEq

/-- What may be run at a place. -/
def atPlace? (s : Session) (directory : Place) (name : String) : Option Found :=
  if systemPlaces.contains directory && isKnown name then some (.known name)
  else if s.files.isProgram (directory.child name) then some (.script (directory.child name))
  else none

/-- The program with a name, and its path. -/
def search? (s : Session) (name : List Char) : Option (List Char × Found) :=
  let directories := Text.split ':' ((s.lookup? "PATH").getD [])
  directories.findSome? fun directory =>
    let lead := if directory.isEmpty then [] else directory ++ ['/']
    ((follow s (if directory.isEmpty then ['.'] else directory)).toOption.bind fun place =>
      atPlace? s place (decoded name)).map fun found => (lead ++ name, found)

/-- Why a command cannot be run. -/
inductive LookupFault where
  | notFound
  | notAllowed
  /-- The empty name. -/
  | noName
  deriving DecidableEq

namespace LookupFault

def status : LookupFault → Nat
  | notAllowed => 126
  | _ => 127

def message : LookupFault → String
  | notFound => "not found"
  | _ => "Permission denied"

end LookupFault

/-- What a path, or the name of a program, leads to. -/
def resolve (s : Session) (name : List Char) : Except LookupFault Found :=
  if name.contains '/' then
    match follow s name with
    | .error .notDirectory => .error .notAllowed
    | .error _ => .error .notFound
    | .ok place =>
      match (atPlace? s place.parent ((place.names.getLast?).getD "")) with
      | some found => .ok found
      | none => .error (if s.files.holds place then .notAllowed else .notFound)
  else if name.isEmpty then .error .noName
  else match search? s name with
    | some (_, found) => .ok found
    | none => .error .notFound

/-- Prints the paths of programs. -/
def which : Program := fun operands s =>
  operands.foldl (fun s name =>
    match search? s name with
    | some (path, _) => s.printLine path
    | none => s.withStatus 1) (s.withStatus 0)

end Program

namespace Utility

/-- The utilities of which a mistake in their use or in their redirections ends the session. -/
def isSpecial (name : String) : Bool := specialNames.contains name

/-- The utilities by name, apart from those that run other commands. -/
def table : List (String × Utility) :=
  [(":", succeed), ("[", bracket), ("alias", defineAlias), ("bg", noJob), ("break", leave .leavesLoops),
    ("cd", changeDirectory), ("chdir", changeDirectory), ("continue", leave .nextRound), ("echo", echo), ("exit", exit),
    ("export", exportNames), ("false", fun _ s => s.withStatus 1), ("fg", noJob), ("getopts", getopts),
    ("jobs", succeed), ("kill", kill), ("local", localNames), ("printf", printf), ("pwd", printDirectory),
    ("read", read), ("readonly", fix), ("return", giveBack), ("set", set), ("shift", shift), ("test", test),
    ("times", times), ("trap", trap), ("true", succeed), ("ulimit", ulimit), ("umask", umask), ("unalias", dropAlias),
    ("unset", unset), ("wait", wait)]

/-- The utilities that run or describe other commands. -/
def runners : List String := [".", "command", "eval", "exec", "hash", "type"]

def isKnown (name : String) : Bool := runners.contains name || (table.lookup name).isSome

/-- Describes what a name stands for, at length or in the way in which it could be called. -/
def describe (isLong : Bool) (s : Session) (name : List Char) : Session :=
  let text := String.ofList name
  let say (short : List Char) (long : String) : Session :=
    s.printLine (if isLong then name ++ (" is " ++ long).toList else short)
  if Token.reservedWords.contains text then say name "a shell keyword"
  else match s.aliases.lookup text with
    | some value =>
      say ("alias ".toList ++ name ++ '=' :: quote value) ("an alias for " ++ String.ofList value)
    | none =>
      if (s.functions.lookup text).isSome then say name "a shell function"
      else if isKnown text then say name (if isSpecial text then "a special shell builtin" else "a shell builtin")
      else
        let missing := (if isLong then s.printLine (name ++ ": not found".toList) else s).withStatus 127
        if name.contains '/' then
          match Program.find s name with
          | .ok _ => say name text
          | .error _ => missing
        else match Program.search? s name with
          | some (path, _) =>
            let lead := if s.found.contains text then "a tracked alias for " else ""
            say path (lead ++ String.ofList path)
          | none => missing

/-- Describes what names stand for. -/
def type : Utility := fun operands s => operands.foldl (describe true) (s.withStatus 0)

/-- Remembers where programs are, or lists those that were run. -/
def hash : Utility := fun operands s => withOptions ['r'] [] operands s fun o =>
  if o.has 'r' then { s.withStatus 0 with found := [] }
  else if o.operands.isEmpty then
    let names := s.found.eraseDups.mergeSort fun a b => bucket 31 a ≤ bucket 31 b
    (names.foldl (fun s name =>
      match Program.search? s name.toList with
      | some (path, _) => s.printLine path
      | none => s) s).withStatus 0
  else o.operands.foldl (fun s name =>
    let text := String.ofList name
    if isKnown text || (s.functions.lookup text).isSome then s
    else match Program.search? s name with
      | some _ => { s with found := s.found ++ [text] }
      | none => s.fail 1 (text ++ ": not found")) (s.withStatus 0)

end Utility

end StepTree.Shell
