import StepTree.Trace.Event
import StepTree.Workflow.Validation

/-! # Reports

What the command line prints about a run and about the check of a workflow. -/

namespace StepTree

/-- How the end of a loop is reported. -/
def ExitReason.title : ExitReason → String
  | .completed => "Completed"
  | .conditionFalse => "ConditionFalse"
  | .broken => "Break"
  | .maxIterations => "MaxIterations"
  | .error => "Error"
  | .cancelled => "Cancelled"

def Phase.title : Phase → String
  | .running => "Running"
  | .paused => "Paused"
  | .cancelRequested => "CancelRequested"

def RunStatus.title : RunStatus → String
  | .passed => "Passed"
  | .failed => "Failed"
  | .cancelled => "Cancelled"

/-- The line that reports an event; not every event has one. -/
def Event.line? : Event → Option String
  | .stepStarted stepId stepName .. => some ("▶ " ++ stepName ++ " (" ++ stepId ++ ")")
  | .stepFinished stepId status durationMs _ error =>
    match status, error with
    | .failed, some error => some ("✗ " ++ stepId ++ " failed after " ++ toString durationMs ++ " ms: " ++ error)
    | .failed, none => some ("✗ " ++ stepId ++ " failed after " ++ toString durationMs ++ " ms")
    | .skipped, _ => some ("- " ++ stepId ++ " skipped")
    | _, _ => some ("✓ " ++ stepId ++ " passed in " ++ toString durationMs ++ " ms")
  | .loopFinished stepId exitReason completed =>
    some ("↻ " ++ stepId ++ ": " ++ toString completed ++ " iteration(s), exit " ++ exitReason.title)
  | .branchSelected stepId _ label => some ("⎇ " ++ stepId ++ ": took " ++ label)
  | .phaseChanged phase (some message) => some ("run " ++ phase.title ++ ": " ++ message)
  | .phaseChanged phase none => some ("run " ++ phase.title)
  | _ => none

/-- The line that sums up a run. -/
def Trace.summaryLine (t : Trace) : String :=
  t.status.title ++ ": " ++ toString t.summary.passed ++ " passed, " ++ toString t.summary.failed ++ " failed, " ++
    toString t.summary.skipped ++ " skipped of " ++ toString t.summary.total ++ " steps in " ++ toString t.durationMs ++
    " ms"

/-- The lines that report a run. -/
def Trace.reportLines (t : Trace) (events : List Event) : List String :=
  events.filterMap Event.line? ++ ["", t.summaryLine]

/-- The lines that report the check of a workflow. -/
def Workflow.checkLines (key : String) (w : Workflow) : List String :=
  match validate w.steps with
  | [] => [key ++ ": ok (" ++ toString w.steps.length ++ " root steps)"]
  | issues => (key ++ ": " ++ toString issues.length ++ " issue(s)") :: issues.map fun i => "  - " ++ i.message

end StepTree
