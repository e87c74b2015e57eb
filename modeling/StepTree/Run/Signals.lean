import StepTree.Trace.Event

/-! # Commands and events of a run

A run looks at the commands that were sent to it at its checkpoints, before every step and every
iteration. Paused, it waits there for further commands; when none can come any more it goes on. Once
cancelled it stays cancelled. What it does is reported as events if somebody listens. -/

namespace StepTree

/-- The commands that were or will be sent to a run. -/
structure Mailbox where
  /-- Commands that have come and were not looked at. -/
  waiting : List Command := []
  /-- Commands that come before each checkpoint from the next one on. -/
  arrivals : List (List Command) := []
  /-- Commands that come one at a time while the run waits in a pause. -/
  later : List Command := []

structure Signals where
  /-- None for a run that takes no commands, or takes none any more. -/
  mailbox : Option Mailbox := none
  /-- The events so far; none for a run to which nobody listens. -/
  events : Option (Array Event) := none
  paused : Bool := false
  cancelRequested : Bool := false

namespace Signals

def emit (s : Signals) (e : Event) : Signals := { s with events := s.events.map (·.push e) }

def reportPhase (s : Signals) (phase : Phase) (message : Option String := none) : Signals :=
  s.emit (.phaseChanged phase message)

/-- Puts commands into the mailbox. -/
def send (s : Signals) (commands : List Command) : Signals :=
  { s with mailbox := s.mailbox.map fun m => { m with waiting := m.waiting ++ commands } }

/-- Obeys a command; one that changes nothing is not reported. -/
def obey (s : Signals) (command : Command) : Signals :=
  match command with
  | .pause =>
    if s.paused || s.cancelRequested then s else { s with paused := true }.reportPhase .paused
  | .resume => if s.paused then { s with paused := false }.reportPhase .running else s
  | .cancel =>
    if s.cancelRequested then s
    else { s with cancelRequested := true, paused := false }.reportPhase .cancelRequested (some "aborting…")

/-- Obeys all commands that have come. -/
def drain (s : Signals) : Signals :=
  match s.mailbox with
  | none => s
  | some m =>
    let s := { s with mailbox := some { m with waiting := [], arrivals := m.arrivals.tail } }
    (m.waiting ++ m.arrivals.headD []).foldl obey s

/-- Obeys commands as long as the run is paused; the commands left over come with the result. A pause
ends when no more commands can come, and then none comes later either. -/
def obeyWhilePaused : List Command → Signals → List Command × Signals
  | [], s => ([], if s.paused then { s with mailbox := none, paused := false } else s)
  | c :: rest, s => if s.paused then obeyWhilePaused rest (s.obey c) else (c :: rest, s)

/-- Waits for the end of a pause. -/
def await (s : Signals) : Signals :=
  match s.mailbox with
  | none => { s with paused := false }
  | some m =>
    let (later, s) := obeyWhilePaused m.later s
    { s with mailbox := s.mailbox.map fun m => { m with later } }

/-- Obeys the commands that have come, and waits if they pause the run. -/
def checkpoint (s : Signals) : Signals :=
  let s := s.drain
  if s.paused then s.await else s

end Signals

end StepTree
