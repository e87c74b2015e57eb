import StepTree.Workflow.Basic
import StepTree.Trace.Timestamp

/-! # Traces

Every step that is attempted or skipped leaves one record. The record of a group or of a called workflow
holds the records of its children, that of a loop one record per iteration, and that of a branch the
records of the arm that was taken. -/

namespace StepTree

inductive StepStatus where
  | pending
  | running
  | passed
  | failed
  | skipped
  deriving DecidableEq

/-- Why a step was skipped. -/
inductive SkipReason where
  | condition
  | disabled
  /-- No arm of the branch held. -/
  | noBranchMatched
  /-- An earlier sibling failed. -/
  | priorFailure
  | cancelled
  deriving DecidableEq

/-- What a step failed at. -/
inductive ErrorKind where
  | action
  | evaluation
  | timeout
  | recursion
  deriving DecidableEq

/-- How a loop ended. -/
inductive ExitReason where
  | completed
  | conditionFalse
  | broken
  | maxIterations
  | error
  | cancelled
  deriving DecidableEq

/-- What one record says apart from the records inside it. -/
structure RecordHead where
  stepId : String
  stepName : String
  stepKind : StepTag
  actionType : Option String := none
  status : StepStatus
  skipReason : Option SkipReason := none
  startTime : Option Timestamp := none
  durationMs : UInt64 := 0
  /-- The inputs of an action, redacted. -/
  resolvedInputs : List (String × String) := []
  /-- The fields of the result of an action, redacted. -/
  capturedOutputs : List (String × Json) := []
  error : Option String := none
  errorKind : Option ErrorKind := none
  attempts : UInt32 := 0

/-- What is counted about a loop. -/
structure LoopSummary where
  loopType : Option LoopType
  /-- The planned number of iterations, if it is known. -/
  totalIterations : Option Nat
  maxIterations : UInt32
  completed : Nat := 0
  passed : Nat := 0
  failed : Nat := 0
  skipped : Nat := 0
  exitReason : ExitReason := .completed

structure IterationHead where
  index : Nat
  itemValue : Json
  status : StepStatus
  durationMs : UInt64 := 0
  error : Option String := none

/-- The outcome of looking at the condition of one arm. -/
structure ArmEvaluation where
  index : Nat
  label : String
  condition : String
  result : Bool
  error : Option String := none
  deriving DecidableEq

/-- Which arm was taken. -/
structure Selection where
  index : Nat
  label : String
  isDefault : Bool
  evaluated : List ArmEvaluation
  deriving DecidableEq

mutual

/-- The record of a step. -/
structure Record where
  head : RecordHead
  children : List Record := []
  loop : Option LoopRecord := none
  branch : Option BranchRecord := none

structure LoopRecord where
  summary : LoopSummary
  iterations : List Iteration := []

structure Iteration where
  head : IterationHead
  children : List Record := []

structure BranchRecord where
  selection : Selection
  children : List Record := []

end

namespace Record

/-- The record of a step that was not looked at yet. -/
def pending (s : Step) : Record :=
  { head :=
      { stepId := s.head.id, stepName := s.label, stepKind := s.tag, status := .pending
        actionType := match s.kind with
          | .action spec => some spec.actionType
          | _ => none } }

/-- The same record, skipped. -/
def skip (r : Record) (reason : SkipReason) : Record :=
  { r with head := { r.head with status := .skipped, skipReason := some reason } }

/-- The record of a step that was skipped. -/
def skipped (s : Step) (reason : SkipReason) : Record := (pending s).skip reason

/-- The same record, begun at a time. -/
def start (r : Record) (now : Timestamp) : Record :=
  { r with head := { r.head with status := .running, startTime := some now } }

/-- The same record, failed. -/
def fail (r : Record) (kind : ErrorKind) (message : String) : Record :=
  { r with head := { r.head with status := .failed, error := some message, errorKind := some kind } }

/-- The same record with another status. -/
def withStatus (r : Record) (status : StepStatus) : Record := { r with head := { r.head with status } }

/-- The step failed by itself, not only through a step inside it. -/
def hasOwnFailure (r : Record) : Bool := r.head.status = .failed && r.head.error.isSome

/-- The records directly inside a record. -/
def nested (r : Record) : List Record :=
  let iterations := match r.loop with
    | some l => l.iterations.flatMap (·.children)
    | none => []
  let arm := match r.branch with
    | some b => b.children
    | none => []
  r.children ++ iterations ++ arm

end Record

mutual

/-- A record and all records inside it, each before those inside it. -/
def Record.walk : Record → List Record
  | ⟨head, children, loop, branch⟩ =>
    ⟨head, children, loop, branch⟩ :: (Record.walkAll children ++ LoopRecord.walkOption loop ++
      BranchRecord.walkOption branch)

/-- The records of a list and all records inside them. -/
def Record.walkAll : List Record → List Record
  | [] => []
  | r :: rest => r.walk ++ Record.walkAll rest

def LoopRecord.walkOption : Option LoopRecord → List Record
  | none => []
  | some l => l.walk

/-- All records inside the iterations of a loop. -/
def LoopRecord.walk : LoopRecord → List Record
  | ⟨_, iterations⟩ => Iteration.walkAll iterations

def Iteration.walkAll : List Iteration → List Record
  | [] => []
  | i :: rest => i.walk ++ Iteration.walkAll rest

/-- All records inside an iteration. -/
def Iteration.walk : Iteration → List Record
  | ⟨_, children⟩ => Record.walkAll children

def BranchRecord.walkOption : Option BranchRecord → List Record
  | none => []
  | some b => b.walk

/-- All records inside the arm that was taken. -/
def BranchRecord.walk : BranchRecord → List Record
  | ⟨_, children⟩ => Record.walkAll children

end

/-- A sequence failed if one of its members did. -/
def sequenceStatus (records : List Record) : StepStatus :=
  if records.any fun r => r.head.status = .failed then .failed else .passed

namespace LoopRecord

/-- A loop of which no iteration was recorded yet. -/
def begin (loopType : LoopType) (totalIterations : Option Nat) (maxIterations : UInt32) : LoopRecord :=
  { summary := { loopType := some loopType, totalIterations, maxIterations } }

/-- The same record with one more iteration. -/
def add (l : LoopRecord) (i : Iteration) : LoopRecord :=
  let count (status : StepStatus) (n : Nat) : Nat := if i.head.status = status then n + 1 else n
  { summary :=
      { l.summary with
        completed := l.summary.completed + 1
        passed := count .passed l.summary.passed
        failed := count .failed l.summary.failed
        skipped := count .skipped l.summary.skipped }
    iterations := l.iterations ++ [i] }

/-- The same record with the way in which the loop ended. -/
def ended (l : LoopRecord) (exitReason : ExitReason) : LoopRecord := { l with summary := { l.summary with exitReason } }

/-- The loop was cut short by its limit. -/
def hitLimit (l : LoopRecord) : Bool := l.summary.exitReason = .maxIterations

end LoopRecord

/-- A write that an output of a step made. -/
structure VariableChange where
  stepId : String
  name : String
  /-- The value that the name had before, redacted; none when it had none. -/
  oldValue : Option Json
  /-- The value that was written, redacted; none when the name was left undefined. -/
  newValue : Option Json

inductive RunStatus where
  | passed
  | failed
  | cancelled
  deriving DecidableEq

/-- The number of records by status. -/
structure RunSummary where
  total : Nat := 0
  passed : Nat := 0
  failed : Nat := 0
  skipped : Nat := 0
  deriving DecidableEq

/-- Counts all records of a trace. -/
def RunSummary.of (steps : List Record) : RunSummary :=
  let statuses := (Record.walkAll steps).map (·.head.status)
  { total := statuses.length, passed := statuses.count .passed, failed := statuses.count .failed
    skipped := statuses.count .skipped }

/-- The status of a run: cancelled, else failed if any record failed. -/
def RunStatus.of (steps : List Record) (cancelled : Bool) : RunStatus :=
  if cancelled then .cancelled
  else if (Record.walkAll steps).any fun r => r.head.status = .failed then .failed else .passed

/-- The complete record of a run. -/
structure Trace where
  runId : String
  status : RunStatus
  startedAt : Timestamp
  durationMs : UInt64 := 0
  steps : List Record
  variableChanges : List VariableChange := []
  summary : RunSummary

/-- The first record of a step anywhere in a trace. -/
def Trace.find? (t : Trace) (stepId : String) : Option Record :=
  (Record.walkAll t.steps).find? fun r => r.head.stepId = stepId

end StepTree
