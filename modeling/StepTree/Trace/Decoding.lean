import StepTree.Trace.Encoding
import StepTree.Workflow.Decoding

/-! # Traces and events from documents -/

namespace StepTree

open Node

/-- Several values under their names. -/
def named {α : Type} (name : α → String) (values : List α) : List (String × α) := values.map fun a => (name a, a)

def StepStatus.decode? : Node → Option StepStatus :=
  choice? (named StepStatus.name [.pending, .running, .passed, .failed, .skipped]) []

def SkipReason.decode? : Node → Option SkipReason :=
  choice? (named SkipReason.name [.condition, .disabled, .noBranchMatched, .priorFailure, .cancelled]) []

def ErrorKind.decode? : Node → Option ErrorKind :=
  choice? (named ErrorKind.name [.action, .evaluation, .timeout, .recursion]) []

def ExitReason.decode? : Node → Option ExitReason :=
  choice? (named ExitReason.name [.completed, .conditionFalse, .broken, .maxIterations, .error, .cancelled]) []

def RunStatus.decode? : Node → Option RunStatus :=
  choice? (named RunStatus.name [.passed, .failed, .cancelled]) []

def Phase.decode? : Node → Option Phase := choice? (named Phase.name [.running, .paused, .cancelRequested]) []

def Command.decode? : Node → Option Command := choice? (named Command.name [.pause, .resume, .cancel]) []

def StepTag.decode? : Node → Option StepTag := choice? StepTag.names []

def Timestamp.decode? (n : Node) : Option Timestamp := do Timestamp.ofText? (← n.string?).toList

namespace Node

/-- A natural number of 64 bits. -/
def size? : Node → Option Nat
  | num (.int n) => if 0 ≤ n then some n.toNat else none
  | n => n.natural? Literal.word64

end Node

def RecordHead.names : List String :=
  ["stepId", "stepName", "stepKind", "actionType", "status", "skipReason", "startTime", "durationMs",
    "resolvedInputs", "capturedOutputs", "error", "errorKind", "attempts"]

def RecordHead.decode? (f : Fields) : Option RecordHead := do
  some
    { stepId := ← f.required? "stepId" string?
      stepName := ← f.required? "stepName" string?
      stepKind := ← f.required? "stepKind" StepTag.decode?
      actionType := ← f.optional? "actionType" string?
      status := ← f.required? "status" StepStatus.decode?
      skipReason := ← f.optional? "skipReason" SkipReason.decode?
      startTime := ← f.optional? "startTime" Timestamp.decode?
      durationMs := ← f.withDefault? "durationMs" 0 word?
      resolvedInputs := ← f.withDefault? "resolvedInputs" [] texts?
      capturedOutputs := ← f.withDefault? "capturedOutputs" [] (mapOf? value?)
      error := ← f.optional? "error" string?
      errorKind := ← f.optional? "errorKind" ErrorKind.decode?
      attempts := ← f.withDefault? "attempts" 0 halfWord? }

def LoopSummary.names : List String :=
  ["loopType", "totalIterations", "maxIterations", "completedIterations", "passedIterations", "failedIterations",
    "skippedIterations", "exitReason"]

def LoopSummary.decode? (f : Fields) : Option LoopSummary := do
  some
    { loopType := ← f.nullable? "loopType" LoopType.decode?
      totalIterations := ← f.optional? "totalIterations" size?
      maxIterations := ← f.required? "maxIterations" halfWord?
      completed := ← f.required? "completedIterations" size?
      passed := ← f.required? "passedIterations" size?
      failed := ← f.required? "failedIterations" size?
      skipped := ← f.required? "skippedIterations" size?
      exitReason := ← f.required? "exitReason" ExitReason.decode? }

def ArmEvaluation.decode? (n : Node) : Option ArmEvaluation := do
  let f ← Fields.of? ["index", "label", "condition", "result", "error"] n
  some
    { index := ← f.required? "index" size?
      label := ← f.required? "label" string?
      condition := ← f.required? "condition" string?
      result := ← f.required? "result" bool?
      error := ← f.optional? "error" string? }

def Selection.names : List String := ["selectedBranchIndex", "selectedLabel", "isDefault", "evaluatedConditions"]

def Selection.decode? (f : Fields) : Option Selection := do
  some
    { index := ← f.required? "selectedBranchIndex" size?
      label := ← f.required? "selectedLabel" string?
      isDefault := ← f.required? "isDefault" bool?
      evaluated := ← f.withDefault? "evaluatedConditions" [] (listOf? ArmEvaluation.decode?) }

mutual

/-- A record in which records nest less than `fuel` deep. -/
def Record.decodeWithin? : (fuel : Nat) → Node → Option Record
  | 0, _ => none
  | fuel + 1, n => do
    let f ← Fields.of? (RecordHead.names ++ ["children", "loopExecution", "branchExecution"]) n
    some
      { head := ← RecordHead.decode? f
        children := ← f.withDefault? "children" [] (listOf? (Record.decodeWithin? fuel))
        loop := ← f.optional? "loopExecution" (LoopRecord.decodeWithin? fuel)
        branch := ← f.optional? "branchExecution" (BranchRecord.decodeWithin? fuel) }

def LoopRecord.decodeWithin? : (fuel : Nat) → Node → Option LoopRecord
  | 0, _ => none
  | fuel + 1, n => do
    let f ← Fields.of? (LoopSummary.names ++ ["iterations"]) n
    some
      { summary := ← LoopSummary.decode? f
        iterations := ← f.withDefault? "iterations" [] (listOf? (Iteration.decodeWithin? fuel)) }

def Iteration.decodeWithin? : (fuel : Nat) → Node → Option Iteration
  | 0, _ => none
  | fuel + 1, n => do
    let f ← Fields.of? ["index", "itemValue", "status", "durationMs", "children", "error"] n
    some
      { head :=
          { index := ← f.required? "index" size?
            itemValue := ← f.required? "itemValue" value?
            status := ← f.required? "status" StepStatus.decode?
            durationMs := ← f.required? "durationMs" word?
            error := ← f.optional? "error" string? }
        children := ← f.withDefault? "children" [] (listOf? (Record.decodeWithin? fuel)) }

def BranchRecord.decodeWithin? : (fuel : Nat) → Node → Option BranchRecord
  | 0, _ => none
  | fuel + 1, n => do
    let f ← Fields.of? (Selection.names ++ ["children"]) n
    some
      { selection := ← Selection.decode? f
        children := ← f.withDefault? "children" [] (listOf? (Record.decodeWithin? fuel)) }

end

def Record.decode? (n : Node) : Option Record := Record.decodeWithin? (n.levels + 1) n

def LoopRecord.decode? (n : Node) : Option LoopRecord := LoopRecord.decodeWithin? (n.levels + 1) n

def Iteration.decode? (n : Node) : Option Iteration := Iteration.decodeWithin? (n.levels + 1) n

def VariableChange.decode? (n : Node) : Option VariableChange := do
  let f ← Fields.of? ["stepId", "name", "oldValue", "newValue"] n
  some
    { stepId := ← f.required? "stepId" string?
      name := ← f.required? "name" string?
      oldValue := ← f.nullable? "oldValue" value?
      newValue := ← f.nullable? "newValue" value? }

def RunSummary.decode? (n : Node) : Option RunSummary := do
  let f ← Fields.of? ["total", "passed", "failed", "skipped"] n
  some
    { total := ← f.required? "total" size?
      passed := ← f.required? "passed" size?
      failed := ← f.required? "failed" size?
      skipped := ← f.required? "skipped" size? }

def Trace.decode? (n : Node) : Option Trace := do
  let f ← Fields.of? ["runId", "status", "startedAt", "durationMs", "steps", "variableChanges", "summary"] n
  some
    { runId := ← f.required? "runId" string?
      status := ← f.required? "status" RunStatus.decode?
      startedAt := ← f.required? "startedAt" Timestamp.decode?
      durationMs := ← f.required? "durationMs" word?
      steps := ← f.required? "steps" (listOf? Record.decode?)
      variableChanges := ← f.withDefault? "variableChanges" [] (listOf? VariableChange.decode?)
      summary := ← f.required? "summary" RunSummary.decode? }

namespace Event

/-- How an event of one kind is read from the rest of its table or list. -/
def readers : List (String × (Node → Option Event)) :=
  [("runStarted", fun n => do
      let f ← Fields.of? ["runId", "at"] n
      some (.runStarted (← f.required? "runId" string?) (← f.required? "at" Timestamp.decode?))),
    ("runStatusChanged", fun n => do
      let f ← Fields.of? ["phase", "message"] n
      some (.phaseChanged (← f.required? "phase" Phase.decode?) (← f.nullable? "message" string?))),
    ("stepStarted", fun n => do
      let f ← Fields.of? ["stepId", "stepName", "stepKind", "startedAt"] n
      some (.stepStarted (← f.required? "stepId" string?) (← f.required? "stepName" string?)
        (← f.required? "stepKind" StepTag.decode?) (← f.required? "startedAt" Timestamp.decode?))),
    ("stepFinished", fun n => do
      let f ← Fields.of? ["stepId", "status", "durationMs", "attempts", "error"] n
      some (.stepFinished (← f.required? "stepId" string?) (← f.required? "status" StepStatus.decode?)
        (← f.required? "durationMs" word?) (← f.required? "attempts" halfWord?) (← f.nullable? "error" string?))),
    ("iterationStarted", fun n => do
      let f ← Fields.of? ["stepId", "index", "itemValue"] n
      some (.iterationStarted (← f.required? "stepId" string?) (← f.required? "index" size?)
        (← f.required? "itemValue" value?))),
    ("iterationFinished", fun n => do
      let f ← Fields.of? ["stepId", "index", "status", "durationMs"] n
      some (.iterationFinished (← f.required? "stepId" string?) (← f.required? "index" size?)
        (← f.required? "status" StepStatus.decode?) (← f.required? "durationMs" word?))),
    ("loopFinished", fun n => do
      let f ← Fields.of? ["stepId", "exitReason", "completedIterations"] n
      some (.loopFinished (← f.required? "stepId" string?) (← f.required? "exitReason" ExitReason.decode?)
        (← f.required? "completedIterations" size?))),
    ("branchSelected", fun n => do
      let f ← Fields.of? ["stepId", "index", "label"] n
      some (.branchSelected (← f.required? "stepId" string?) (← f.required? "index" size?)
        (← f.required? "label" string?))),
    ("variableChanged", fun n => do
      let f ← Fields.of? ["stepId", "name", "value"] n
      some (.variableChanged (← f.required? "stepId" string?) (← f.required? "name" string?)
        (← f.nullable? "value" value?))),
    ("runCompleted", fun n => do
      let f ← Fields.of? ["runId", "status", "summary", "finishedAt"] n
      some (.runCompleted (← f.required? "runId" string?) (← f.required? "status" RunStatus.decode?)
        (← f.required? "summary" RunSummary.decode?) (← f.required? "finishedAt" Timestamp.decode?)))]

/-- An event; a list begins with the name of its kind. The types of everything beside this name are decided
before it is known. -/
def decode? : Node → Option Event
  | .table _ entries => do
    let (mark, rest) ← takeMark? "type" entries
    let read ← readers.lookup (← (← mark).string?)
    read (← (Node.table true rest).typed?)
  | .list (mark :: rest) => do
    let read ← readers.lookup (← mark.string?)
    read (← (Node.list rest).typed?)
  | _ => none

end Event

end StepTree
