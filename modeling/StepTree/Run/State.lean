import StepTree.Condition.Eval
import StepTree.Library
import StepTree.Run.Action
import StepTree.Run.Signals
import StepTree.Scope.Rendering
import StepTree.Settings

/-! # The state of a run

A run is described by what stays the same, its setup, and by what its steps change: the scope, the actions
carried out, the writes recorded, the workflows entered, and the commands and events. -/

namespace StepTree

/-- What stays the same during a run. A run takes place at one instant, so its records last no time. -/
structure Setup where
  executor : Executor
  settings : Settings := {}
  /-- The workflows that a step can call. -/
  library : Library := []
  /-- The workflow that the run was started for, if it is known. -/
  root : Option String := none
  now : Timestamp := .epoch

structure State where
  scope : Scope
  /-- The actions carried out, in the order of time. -/
  calls : Array Action := #[]
  changes : Array VariableChange := #[]
  /-- The workflows entered through calls, the outermost first. -/
  callStack : List String := []
  cancelled : Bool := false
  signals : Signals := {}

namespace State

def emit (st : State) (e : Event) : State := { st with signals := st.signals.emit e }

/-- Looks at the commands, unless the run was cancelled before. -/
def checkpoint (st : State) : State :=
  if st.cancelled then st
  else
    let signals := st.signals.checkpoint
    { st with signals, cancelled := signals.cancelRequested }

/-- The truth of a condition in the scope of the run. -/
def holds (st : State) (condition : String) : Except Condition.EvalError Bool :=
  Condition.evalBool st.scope.lookup condition

end State

namespace Setup

/-- The text with the secrets in the scope of the run hidden. -/
def redact (u : Setup) (st : State) (text : String) : String := st.scope.redact u.settings.redactionMarker text

/-- The value with the secrets in the scope of the run hidden. -/
def redactValue (u : Setup) (st : State) (value : Json) : Json :=
  st.scope.redactValue u.settings.redactionMarker value

/-- The record, failed with an error. -/
def fail (u : Setup) (st : State) (r : Record) (e : StepError) : Record := r.fail e.kind (u.redact st e.message)

/-- The record of a step that begins. -/
def begin (u : Setup) (s : Step) : Record := (Record.pending s).start u.now

def started (u : Setup) (r : Record) : Event := .stepStarted r.head.stepId r.head.stepName r.head.stepKind u.now

end Setup

/-- The event that reports the end of a step. -/
def Record.finished (r : Record) : Event :=
  .stepFinished r.head.stepId r.head.status r.head.durationMs r.head.attempts r.head.error

namespace State

/-- Skips a step. -/
def skip (st : State) (s : Step) (reason : SkipReason) : Record × State :=
  let r := Record.skipped s reason
  (r, st.emit r.finished)

end State

end StepTree
