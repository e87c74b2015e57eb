import StepTree.Trace.Basic

/-! # Events and commands

While a run proceeds it reports events, and it accepts commands between its steps. -/

namespace StepTree

/-- A command to a run. -/
inductive Command where
  | pause
  | resume
  | cancel
  deriving DecidableEq

/-- What a run that has not ended is doing. -/
inductive Phase where
  | running
  | paused
  | cancelRequested
  deriving DecidableEq

inductive Event where
  | runStarted (runId : String) (time : Timestamp)
  | phaseChanged (phase : Phase) (message : Option String)
  | stepStarted (stepId stepName : String) (stepKind : StepTag) (startedAt : Timestamp)
  | stepFinished (stepId : String) (status : StepStatus) (durationMs : UInt64) (attempts : UInt32)
      (error : Option String)
  | iterationStarted (stepId : String) (index : Nat) (itemValue : Json)
  | iterationFinished (stepId : String) (index : Nat) (status : StepStatus) (durationMs : UInt64)
  | loopFinished (stepId : String) (exitReason : ExitReason) (completed : Nat)
  | branchSelected (stepId : String) (index : Nat) (label : String)
  | variableChanged (stepId name : String) (value : Option Json)
  | runCompleted (runId : String) (status : RunStatus) (summary : RunSummary) (finishedAt : Timestamp)

end StepTree
