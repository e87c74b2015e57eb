import StepTree.FileTree
import StepTree.Shell.Syntax
import StepTree.Text.Bytes

/-! # Sessions of a shell

What commands read and change: files, the current directory, variables, options, and where descriptors lead.
A mistake that ends the session, an exit, and a loop or call that is left are marked as the ending of the
commands that are running. -/

namespace StepTree.Shell

/-- A text as a list of bytes, each held as one character. -/
def encoded (s : String) : List Char :=
  s.toList.flatMap fun c => (String.utf8EncodeChar c).map fun b => Char.ofNat b.toNat

/-- The text that bytes are. -/
def decoded (bytes : List Char) : String := String.ofList (Text.ofBytes (bytes.map fun c => c.toNat.toUInt8))

def ofContent (content : List UInt8) : List Char := content.map fun b => Char.ofNat b.toNat

def toContent (bytes : List Char) : List UInt8 := bytes.map fun c => c.toNat.toUInt8

/-- When something happens: the time, and the turn among what happens at that time. -/
structure Moment where
  ms : Nat := 0
  turn : Nat := 0

namespace Moment

def isAtMost (a b : Moment) : Bool := a.ms < b.ms || (a.ms == b.ms && a.turn ≤ b.turn)

def latest (a b : Moment) : Moment := if a.isAtMost b then b else a

/-- The next turn. -/
def next (a : Moment) : Moment := { a with turn := a.turn + 1 }

end Moment

/-- What a descriptor leads to. -/
inductive Channel where
  /-- Gathers what is written; the latest piece comes first. -/
  | gathered (pieces : List (Moment × List Char))
  | file (place : Place) (offset : Nat) (appends : Bool)
  /-- Gives what is left of a text. -/
  | source (rest : List Char)

structure Variable where
  value : Option (List Char) := none
  isExported : Bool := false
  isFixed : Bool := false

/-- Commands that run in the background. -/
structure Job where
  number : Nat
  status : Nat
  finish : Moment
  /-- The signal that ended them. -/
  signal : Option Nat := none

/-- Why the commands that follow do not run. -/
inductive Ending where
  | exited
  /-- A mistake, which ends the session unless it was made by a utility of the common kind. -/
  | aborted
  /-- A signal. -/
  | killed (signal : Nat)
  /-- So many loops are left. -/
  | leavesLoops (n : Nat)
  /-- So many loops are left but for the last one, which goes on to its next round. -/
  | nextRound (n : Nat)
  | returned
  deriving DecidableEq

/-- What was before a running command made variables and options its own. -/
structure Hidden where
  vars : List (String × Option Variable) := []
  options : Option (List Char) := none

structure Session where
  files : FileTree := {}
  place : Place := .inside []
  vars : List (String × Variable) := []
  /-- What the running commands made their own, the innermost first; special utilities make nothing their own. -/
  hidden : List Hidden := []
  arguments : List (List Char) := []
  functions : List (String × Script) := []
  aliases : List (String × List Char) := []
  options : List Char := []
  /-- Commands that answer signals; the end of the session counts as signal zero. -/
  traps : List (Nat × List Char) := []
  /-- Signals that were not answered yet. -/
  pending : List Nat := []
  documents : List (Nat × Word) := []
  documentCount : Nat := 0
  /-- The status of the last command. -/
  status : Nat := 0
  /-- The status of the last commands in a word. -/
  inner : Nat := 0
  channels : Array Channel := #[]
  /-- The channels of the descriptors that are open. -/
  descriptors : List (Nat × Nat) := []
  now : Moment := {}
  /-- The name of the session, which its messages begin with. -/
  self : List Char := "sh".toList
  /-- The number of the process. -/
  number : Nat := 2
  jobs : List Job := []
  /-- The number of the last process that was started in the background. -/
  lastJob : Option Nat := none
  ending : Option Ending := none
  /-- The line of the running command. -/
  line : Nat := 1
  /-- The running utility, which messages name. -/
  utility : Option String := none
  loops : Nat := 0
  calls : Nat := 0
  /-- How far the list of options in one argument was read. -/
  optionOffset : Nat := 0
  /-- The permissions that new files do not get. -/
  mask : Nat := 18
  /-- The programs that were run. -/
  found : List String := []
  /-- Output was written to a descriptor that is not open. -/
  lostOutput : Bool := false

namespace Session

def withStatus (s : Session) (status : Nat) : Session := { s with status }

def has (s : Session) (option : Char) : Bool := s.options.contains option

/-! ### Streams -/

/-- The channel of a descriptor. -/
def channel? (s : Session) (descriptor : Nat) : Option (Nat × Channel) := do
  let index ← s.descriptors.lookup descriptor
  return (index, ← s.channels[index]?)

/-- Puts bytes into the content of a file, after the first `offset` bytes. -/
def splice (content : List UInt8) (offset : Nat) (new : List UInt8) : List UInt8 :=
  content.take offset ++ List.replicate (offset - content.length) 0 ++ new ++ content.drop (offset + new.length)

/-- Writes bytes to a descriptor, if it is open. -/
def send (s : Session) (descriptor : Nat) (bytes : List Char) : Session :=
  match s.channel? descriptor with
  | some (index, .gathered pieces) =>
    if bytes.isEmpty then s
    else { s with channels := s.channels.setIfInBounds index (.gathered ((s.now, bytes) :: pieces)) }
  | some (index, .file place offset appends) =>
    let content := (s.files.file? place).getD []
    let offset := if appends then content.length else offset
    { s with
      files := s.files.write place (splice content offset (toContent bytes))
      channels := s.channels.setIfInBounds index (.file place (offset + bytes.length) appends) }
  | _ => s

/-- What can still be read from a descriptor. -/
def unread (s : Session) (descriptor : Nat) : List Char :=
  match s.channel? descriptor with
  | some (_, .source rest) => rest
  | some (_, .file place offset _) => ofContent (((s.files.file? place).getD []).drop offset)
  | _ => []

/-- Passes over bytes that were read. -/
def advance (s : Session) (descriptor n : Nat) : Session :=
  match s.channel? descriptor with
  | some (index, .source rest) => { s with channels := s.channels.setIfInBounds index (.source (rest.drop n)) }
  | some (index, .file place offset appends) =>
    { s with channels := s.channels.setIfInBounds index (.file place (offset + n) appends) }
  | _ => s

/-- Reads the whole input. -/
def readAll (s : Session) : List Char × Session :=
  let rest := s.unread 0
  (rest, s.advance 0 rest.length)

/-- Opens a new channel. -/
def attach (s : Session) (c : Channel) : Session × Nat := ({ s with channels := s.channels.push c }, s.channels.size)

/-- Makes a descriptor lead to a channel. -/
def redirect (s : Session) (descriptor : Nat) (index : Option Nat) : Session :=
  let others := s.descriptors.filter fun (d, _) => d ≠ descriptor
  { s with descriptors := (index.map fun i => (descriptor, i)).toList ++ others }

/-- What a channel gathered, in the order of time. -/
def gathered (s : Session) (index : Nat) : List Char :=
  match s.channels[index]? with
  | some (.gathered pieces) => (pieces.reverse.mergeSort fun a b => a.1.isAtMost b.1).flatMap (·.2)
  | _ => []

/-- Writes to the output. -/
def print (s : Session) (bytes : List Char) : Session :=
  { s.send 1 bytes with lostOutput := s.lostOutput || (s.descriptors.lookup 1).isNone }

def printLine (s : Session) (line : List Char) : Session := s.print (line ++ ['\n'])

/-- Writes a line to the errors. -/
def report (s : Session) (text : List Char) : Session := s.send 2 (text ++ ['\n'])

/-- Reports what went wrong in the running command. -/
def complain (s : Session) (text : String) : Session :=
  let utility := ((s.utility.map (· ++ ": ")).getD "").toList
  s.report (s.self ++ ": ".toList ++ (toString s.line).toList ++ ": ".toList ++ utility ++ text.toList)

/-- A command failed with a status. -/
def fail (s : Session) (status : Nat) (text : String) : Session := (s.complain text).withStatus status

/-- A mistake. -/
def abort (s : Session) (text : String) : Session := { s.fail 2 text with ending := some .aborted }

/-- Ends the session with a status. -/
def exit (s : Session) (status : Nat) : Session := { s with status, ending := some .exited }

/-! ### Variables -/

def lookup? (s : Session) (name : String) : Option (List Char) := (s.vars.lookup name).bind (·.value)

/-- Puts a variable, or the lack of it, in its place. -/
def put (vars : List (String × Variable)) (name : String) (v : Option Variable) : List (String × Variable) :=
  (v.map fun v => (name, v)).toList ++ vars.filter fun (n, _) => n ≠ name

/-- Changes a variable, which must not be fixed. -/
def change (s : Session) (name : String) (f : Variable → Option Variable) : Session :=
  let v := (s.vars.lookup name).getD {}
  if v.isFixed then s.abort (name ++ ": is read only")
  else
    { s with
      vars := Session.put s.vars name (f v)
      optionOffset := if name = "OPTIND" then 0 else s.optionOffset }

def assign (s : Session) (name : String) (value : List Char) : Session :=
  s.change name fun v => some { v with value := some value, isExported := v.isExported || s.has 'a' }

def unset (s : Session) (name : String) : Session := s.change name fun _ => none

/-- Makes a variable one of the innermost running command. -/
def hide (s : Session) (name : String) : Session :=
  match s.hidden with
  | [] => s
  | h :: others =>
    if (h.vars.lookup name).isSome then s
    else { s with hidden := { h with vars := (name, s.vars.lookup name) :: h.vars } :: others }

/-- Makes the options those of the innermost running command. -/
def hideOptions (s : Session) : Session :=
  match s.hidden with
  | [] => s
  | h :: others => { s with hidden := { h with options := h.options.or (some s.options) } :: others }

/-- Brings back what the innermost running commands made their own, up to so many that still run. -/
def reveal (s : Session) (depth : Nat) : Session :=
  let count := s.hidden.length - depth
  (s.hidden.take count).foldl (fun s h =>
    { s with
      vars := h.vars.foldl (fun vars (name, v) => Session.put vars name v) s.vars
      options := h.options.getD s.options }) { s with hidden := s.hidden.drop count }

/-- Lets other programs see a variable. -/
def share (s : Session) (name : String) : Session :=
  { s with vars := Session.put s.vars name (some { (s.vars.lookup name).getD {} with isExported := true }) }

/-- The variables that other programs see. -/
def environment (s : Session) : List (String × List Char) :=
  s.vars.filterMap fun (name, v) => if v.isExported then v.value.map fun value => (name, value) else none

/-- The first character between several arguments in one text. -/
def joint (s : Session) : List Char := ((s.lookup? "IFS").getD [' ']).take 1

/-- All arguments as one text. -/
def allArguments (s : Session) : List Char := s.joint.intercalate s.arguments

/-! ### Parts of a session -/

/-- Continues a session after commands that could not change it, apart from files, channels and time. -/
def after (s part : Session) : Session :=
  { s with files := part.files, channels := part.channels, now := part.now }

/-- The same session with other descriptors. -/
def withDescriptorsOf (s other : Session) : Session := { s with descriptors := other.descriptors }

/-- What is said about a process that a signal ended. -/
def signalText (signal : Nat) : Option String :=
  [(1, "Hangup"), (3, "Quit"), (4, "Illegal instruction"), (5, "Trace/breakpoint trap"), (6, "Aborted"), (7, "Bus error"),
    (8, "Floating point exception"), (9, "Killed"), (10, "User defined signal 1"), (11, "Segmentation fault"),
    (12, "User defined signal 2"), (14, "Alarm clock"), (15, "Terminated")].lookup signal

/-- Says that a signal ended a process. -/
def tellSignal (s : Session) (signal : Nat) : Session :=
  match signalText signal with
  | some text => s.report text.toList
  | none => s

/-- The time goes on. -/
def pause (s : Session) (ms : Nat) : Session := { s with now := { s.now with ms := s.now.ms + ms } }

end Session

end StepTree.Shell
