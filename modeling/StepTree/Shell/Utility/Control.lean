import StepTree.Shell.Utility.Variables

/-! # Control, signals and directories

The utilities that end a session or leave loops and calls, those that send and answer signals, and those that
change the directory and other settings of the process. -/

namespace StepTree.Shell.Utility

/-! ### Leaving commands -/

/-- Ends the session with the given status, or that of the last command. -/
def exit : Utility := fun operands s =>
  match operands with
  | [] => s.exit s.status
  | operand :: _ => withNumber operand s s.exit

/-- Leaves the running call with the given status, or that of the last command. -/
def giveBack : Utility := fun operands s =>
  let leave (status : Nat) : Session := { s with status, ending := some .returned }
  match operands with
  | [] => leave s.status
  | operand :: _ => withNumber operand s leave

/-- Leaves loops, the innermost one if no number is given. -/
def leave (ending : Nat → Ending) : Utility := fun operands s =>
  let leaveAll (n : Nat) : Session :=
    if s.loops = 0 then s.withStatus 0 else { s.withStatus 0 with ending := some (ending (min n s.loops)) }
  match operands with
  | [] => leaveAll 1
  | operand :: _ => withNumber operand s fun n =>
    if n = 0 then s.abort ("Illegal number: " ++ String.ofList operand) else leaveAll n

/-! ### Signals -/

/-- The signals that end a process, by number and name. -/
def endingSignals : List (Nat × String) :=
  [(1, "HUP"), (2, "INT"), (3, "QUIT"), (4, "ILL"), (5, "TRAP"), (6, "ABRT"), (7, "BUS"), (8, "FPE"), (9, "KILL"),
    (10, "USR1"), (11, "SEGV"), (12, "USR2"), (13, "PIPE"), (14, "ALRM"), (15, "TERM"), (16, "STKFLT"), (24, "XCPU"),
    (25, "XFSZ"), (26, "VTALRM"), (27, "PROF"), (29, "IO"), (30, "PWR"), (31, "SYS")]

/-- The signals that do not end a process. -/
def quietSignals : List (Nat × String) :=
  [(17, "CHLD"), (18, "CONT"), (19, "STOP"), (20, "TSTP"), (21, "TTIN"), (22, "TTOU"), (23, "URG"), (28, "WINCH")]

/-- All signals in order. -/
def signals : List (Nat × String) := (endingSignals ++ quietSignals).mergeSort fun a b => a.1 ≤ b.1

/-- The number of a signal that is given by its number or name. -/
def signal? (withEnd : Bool) (text : List Char) : Option Nat :=
  match natural? text with
  | some n => if n ≤ 64 && text.all Char.isDigit then some n else none
  | none =>
    let name := (String.ofList text).toUpper
    if name = "EXIT" then (if withEnd then some 0 else none)
    else (signals.find? fun (_, signal) => signal = name).map (·.1)

/-- The name of a signal, or of the end of the session. -/
def signalName (n : Nat) : String := if n = 0 then "EXIT" else (signals.lookup n).getD (toString n)

/-- Sets the commands that answer signals, or lists them. -/
def trap : Utility := fun operands s => withOptions [] [] operands s fun o =>
  match o.operands with
  | [] =>
    ((s.traps.mergeSort fun a b => a.1 ≤ b.1).foldl (fun s (n, action) =>
      s.printLine ("trap -- ".toList ++ quote action ++ ' ' :: (signalName n).toList)) s).withStatus 0
  | first :: others =>
    let isReset := others.isEmpty || (natural? first).isSome
    let (action, names) := if isReset then (none, o.operands) else (some first, others)
    names.foldl (fun s name =>
      if s.status = 1 then s
      else match signal? true name with
        | none => (s.report ("trap: " ++ String.ofList name ++ ": bad trap").toList).withStatus 1
        | some n =>
          let rest := s.traps.filter fun (m, _) => m ≠ n
          { s with traps := ((action.filter (· ≠ ['-'])).map fun text => (n, text)).toList ++ rest }) (s.withStatus 0)

def killUsage : String := "Usage: kill [-s sigspec | -signum | -sigspec] [pid | job]... or\nkill -l [exitstatus]"

/-- A signal arrives. -/
def receive (signal : Nat) (s : Session) : Session :=
  if signal = 0 then s
  else match if signal = 9 then none else s.traps.lookup signal with
    | some [] => s
    | some _ => { s with pending := s.pending ++ [signal] }
    | none => if endingSignals.any fun (n, _) => n = signal then { s with ending := some (.killed signal) } else s

/-- Sends a signal to the process itself, or to commands in the background. -/
def sendSignal (signal : Nat) (s : Session) (operand : List Char) : Session :=
  if s.ending.isSome then s
  else withNumber (if operand.head? = some '-' then operand.drop 1 else operand) s fun n =>
    if n = s.number || n = 0 then receive signal s
    else match s.jobs.find? fun job => job.number = n with
      | some job =>
        if job.finish.isAtMost s.now || !(endingSignals.any fun (n, _) => n = signal) then s
        else
          let others := s.jobs.filter fun job => job.number ≠ n
          { s with jobs := { job with status := 128 + signal, finish := s.now, signal } :: others }
      | none => s.fail 1 "No such process\n"

/-- Sends a signal, by default the one that asks to end. -/
def kill : Utility := fun operands s =>
  let send (signal : Nat) (targets : List (List Char)) : Session :=
    if targets.isEmpty then s.abort killUsage else targets.foldl (sendSignal signal) (s.withStatus 0)
  let list (operands : List (List Char)) : Session :=
    match operands with
    | [] => (signals.foldl (fun s (_, name) => s.printLine name.toList) (s.printLine ['0'])).withStatus 0
    | operand :: _ => withNumber operand s fun n =>
      match signals.lookup (if n > 128 then n - 128 else n) with
      | some name => (s.printLine name.toList).withStatus 0
      | none => s.abort ("invalid signal number or exit status: " ++ String.ofList operand)
  match operands with
  | ('-' :: name) :: rest =>
    match signal? false name with
    | some signal => send signal rest
    | none => withOptions ['l'] ['s'] operands s fun o =>
      match o.value? 's' with
      | some name =>
        match signal? false name with
        | some signal => send signal o.operands
        | none => s.abort ("invalid signal number or name: " ++ String.ofList name)
      | none => if o.has 'l' then list o.operands else send 15 o.operands
  | _ => send 15 operands

/-- Waits for commands in the background. -/
def wait : Utility := fun operands s =>
  let awaited (s : Session) (job : Job) : Session := { s with now := (s.now.latest job.finish).next }
  if operands.isEmpty then { s.jobs.foldl awaited s with jobs := [], status := 0 }
  else operands.foldl (fun s operand =>
    if s.ending.isSome then s
    else withNumber operand s fun n =>
      match s.jobs.find? fun job => job.number = n with
      | some job =>
        let s := (awaited s job).withStatus job.status
        match job.signal with
        | some signal => { s.tellSignal signal with jobs := s.jobs.filter fun job => job.number ≠ n }
        | none => s
      | none => s.withStatus 127) s

/-- There are no jobs that could be continued. -/
def noJob : Utility := fun _ s => s.abort "No current job"

/-! ### Settings of the process -/

/-- The place of a path, of which the steps back are taken in the path itself. -/
def placeOf (s : Session) (path : List Char) : Place :=
  let names := (Text.split '/' path).map decoded
  names.foldl (fun place name =>
    if name = "" ∨ name = "." then place else if name = ".." then place.parent else place.child name)
    (if path.head? = some '/' then .elsewhere [] else s.place)

def changeDirectory : Utility := fun operands s => withOptions ['L', 'P'] [] operands s fun o =>
  let (target, isBack) := match o.operands with
    | [] => ((s.lookup? "HOME").getD [], false)
    | ['-'] :: _ => ((s.lookup? "OLDPWD").getD [], true)
    | path :: _ => (path, false)
  let target := if target.isEmpty then ['.'] else target
  let place := placeOf s target
  if s.files.isDirectory place then
    let before := (s.lookup? "PWD").getD (encoded s.place.path)
    let s := ({ s with place }.assign "OLDPWD" before).assign "PWD" (encoded place.path)
    (if isBack then s.printLine (encoded place.path) else s).withStatus 0
  else s.abort ("can't cd to " ++ String.ofList target)

def printDirectory : Utility := fun operands s => withOptions ['L', 'P'] [] operands s fun _ =>
  (s.printLine (encoded s.place.path)).withStatus 0

/-- A number in base eight with four digits. -/
def octalText (n : Nat) : List Char :=
  let digits := Nat.toDigits 8 n
  List.replicate (4 - digits.length) '0' ++ digits

/-- The permissions that new files get, for their owner, its group and others. -/
def permissionText (mask : Nat) : List Char :=
  let rights (n : Nat) : List Char :=
    (if n / 4 % 2 = 0 then ['r'] else []) ++ (if n / 2 % 2 = 0 then ['w'] else []) ++
      if n % 2 = 0 then ['x'] else []
  "u=".toList ++ rights (mask / 64) ++ ",g=".toList ++ rights (mask / 8 % 8) ++ ",o=".toList ++ rights (mask % 8)

/-- The permissions that new files do not get. -/
def umask : Utility := fun operands s => withOptions ['S'] [] operands s fun o =>
  match o.operands with
  | [] => (s.printLine (if o.has 'S' then permissionText s.mask else octalText s.mask)).withStatus 0
  | operand :: _ =>
    if operand.head?.any Char.isDigit then
      match Literal.digits? 8 operand with
      | some mask => { s.withStatus 0 with mask := mask % 512 }
      | none => s.abort ("Illegal number: " ++ String.ofList operand)
    else s.abort ("Illegal mode: " ++ String.ofList operand)

/-- Nothing is limited. -/
def ulimit : Utility := fun operands s =>
  withOptions ("HSatfdscmlpnvwr".toList) [] operands s fun o =>
    if o.operands.isEmpty then (s.printLine "unlimited".toList).withStatus 0 else s.withStatus 0

/-- Commands take no time of the processor. -/
def times : Utility := fun _ s =>
  let line := "0m0.000000s 0m0.000000s".toList
  ((s.printLine line).printLine line).withStatus 0

/-! ### Aliases -/

/-- Defines words that stand for other texts, or lists them. -/
def defineAlias : Utility := fun operands s =>
  let display (s : Session) (name : String) (text : List Char) : Session :=
    s.printLine (name.toList ++ '=' :: quote text)
  if operands.isEmpty then
    ((s.aliases.mergeSort fun a b => bucket 39 a.1 ≤ bucket 39 b.1).foldl (fun s (name, text) => display s name text)
      s).withStatus 0
  else operands.foldl (fun s operand =>
    let start := operand.take 1
    let (name, value) := parts (operand.drop 1)
    let name := String.ofList (start ++ name)
    match value with
    | some text =>
      let others := s.aliases.filter fun (n, _) => n ≠ name
      { s with aliases := others ++ [(name, text)] }
    | none =>
      match s.aliases.lookup name with
      | some text => display s name text
      | none => (s.report ("alias: " ++ name ++ " not found").toList).withStatus 1) (s.withStatus 0)

/-- Forgets words that stand for other texts. -/
def dropAlias : Utility := fun operands s => withOptions ['a'] [] operands s fun o =>
  if o.has 'a' then { s.withStatus 0 with aliases := [] }
  else o.operands.foldl (fun s name =>
    if (s.aliases.lookup (String.ofList name)).isSome then
      { s with aliases := s.aliases.filter fun (n, _) => n ≠ String.ofList name }
    else (s.report ("unalias: " ++ String.ofList name ++ " not found").toList).withStatus 1) (s.withStatus 0)

end StepTree.Shell.Utility
