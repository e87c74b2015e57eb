import StepTree.Trace.Event
import StepTree.Workflow.Encoding

/-! # Traces and events as values

The value of a record lists its fields in a fixed order; of the fields that may be left out only those
that say something are listed. -/

namespace StepTree

def StepStatus.name : StepStatus → String
  | .pending => "pending"
  | .running => "running"
  | .passed => "passed"
  | .failed => "failed"
  | .skipped => "skipped"

def SkipReason.name : SkipReason → String
  | .condition => "condition"
  | .disabled => "disabled"
  | .noBranchMatched => "noBranchMatched"
  | .priorFailure => "priorFailure"
  | .cancelled => "cancelled"

def ErrorKind.name : ErrorKind → String
  | .action => "action"
  | .evaluation => "evaluation"
  | .timeout => "timeout"
  | .recursion => "recursion"

def ExitReason.name : ExitReason → String
  | .completed => "completed"
  | .conditionFalse => "conditionFalse"
  | .broken => "break"
  | .maxIterations => "maxIterations"
  | .error => "error"
  | .cancelled => "cancelled"

def RunStatus.name : RunStatus → String
  | .passed => "passed"
  | .failed => "failed"
  | .cancelled => "cancelled"

def Command.name : Command → String
  | .pause => "pause"
  | .resume => "resume"
  | .cancel => "cancel"

def Phase.name : Phase → String
  | .running => "running"
  | .paused => "paused"
  | .cancelRequested => "cancelRequested"

def Timestamp.encode (t : Timestamp) : Json := .str t.text

namespace Json

def ofTime? (t : Option Timestamp) : Json := (t.map Timestamp.encode).getD null

def ofNat? (n : Option Nat) : Json := (n.map ofNat).getD null

def ofValue? (v : Option Json) : Json := v.getD null

end Json

open Json

def SkipReason.encode (r : SkipReason) : Json := str r.name

def ErrorKind.encode (k : ErrorKind) : Json := str k.name

/-- The fields of a record before those that hold other records. -/
def RecordHead.fields (h : RecordHead) : List (String × Json) :=
  [("stepId", str h.stepId), ("stepName", str h.stepName), ("stepKind", h.stepKind.encode)] ++
    fieldOf "actionType" str h.actionType ++ [("status", str h.status.name)] ++
    fieldOf "skipReason" SkipReason.encode h.skipReason ++
    [("startTime", ofTime? h.startTime), ("durationMs", ofWord h.durationMs),
      ("resolvedInputs", ofTexts h.resolvedInputs), ("capturedOutputs", obj h.capturedOutputs)] ++
    fieldOf "error" str h.error ++ fieldOf "errorKind" ErrorKind.encode h.errorKind ++
    [("attempts", ofHalfWord h.attempts)]

def LoopSummary.fields (l : LoopSummary) : List (String × Json) :=
  [("loopType", (l.loopType.map LoopType.encode).getD null), ("totalIterations", ofNat? l.totalIterations),
    ("maxIterations", ofHalfWord l.maxIterations), ("completedIterations", ofNat l.completed),
    ("passedIterations", ofNat l.passed), ("failedIterations", ofNat l.failed),
    ("skippedIterations", ofNat l.skipped), ("exitReason", str l.exitReason.name)]

def ArmEvaluation.encode (e : ArmEvaluation) : Json :=
  obj ([("index", ofNat e.index), ("label", str e.label), ("condition", str e.condition), ("result", bool e.result)] ++
    fieldOf "error" str e.error)

def Selection.fields (s : Selection) : List (String × Json) :=
  [("selectedBranchIndex", ofNat s.index), ("selectedLabel", str s.label), ("isDefault", bool s.isDefault),
    ("evaluatedConditions", arr (s.evaluated.map ArmEvaluation.encode))]

mutual

def Record.encode : Record → Json
  | ⟨head, children, loop, branch⟩ =>
    obj (head.fields ++ (if children.isEmpty then [] else [("children", arr (Record.encodeAll children))]) ++
      LoopRecord.field loop ++ BranchRecord.field branch)

def Record.encodeAll : List Record → List Json
  | [] => []
  | r :: rest => r.encode :: Record.encodeAll rest

def LoopRecord.field : Option LoopRecord → List (String × Json)
  | none => []
  | some l => [("loopExecution", l.encode)]

def LoopRecord.encode : LoopRecord → Json
  | ⟨summary, iterations⟩ => obj (summary.fields ++ [("iterations", arr (Iteration.encodeAll iterations))])

def Iteration.encodeAll : List Iteration → List Json
  | [] => []
  | i :: rest => i.encode :: Iteration.encodeAll rest

def Iteration.encode : Iteration → Json
  | ⟨head, children⟩ =>
    obj ([("index", ofNat head.index), ("itemValue", head.itemValue), ("status", str head.status.name),
      ("durationMs", ofWord head.durationMs), ("children", arr (Record.encodeAll children))] ++
      fieldOf "error" str head.error)

def BranchRecord.field : Option BranchRecord → List (String × Json)
  | none => []
  | some b => [("branchExecution", b.encode)]

def BranchRecord.encode : BranchRecord → Json
  | ⟨selection, children⟩ => obj (selection.fields ++ [("children", arr (Record.encodeAll children))])

end

def VariableChange.encode (c : VariableChange) : Json :=
  obj [("stepId", str c.stepId), ("name", str c.name), ("oldValue", ofValue? c.oldValue),
    ("newValue", ofValue? c.newValue)]

def RunSummary.encode (s : RunSummary) : Json :=
  obj [("total", ofNat s.total), ("passed", ofNat s.passed), ("failed", ofNat s.failed), ("skipped", ofNat s.skipped)]

def Trace.encode (t : Trace) : Json :=
  obj [("runId", str t.runId), ("status", str t.status.name), ("startedAt", t.startedAt.encode),
    ("durationMs", ofWord t.durationMs), ("steps", arr (Record.encodeAll t.steps)),
    ("variableChanges", arr (t.variableChanges.map VariableChange.encode)), ("summary", t.summary.encode)]

def Command.encode (c : Command) : Json := str c.name

/-- The name of the kind of an event. -/
def Event.kind : Event → String
  | .runStarted .. => "runStarted"
  | .phaseChanged .. => "runStatusChanged"
  | .stepStarted .. => "stepStarted"
  | .stepFinished .. => "stepFinished"
  | .iterationStarted .. => "iterationStarted"
  | .iterationFinished .. => "iterationFinished"
  | .loopFinished .. => "loopFinished"
  | .branchSelected .. => "branchSelected"
  | .variableChanged .. => "variableChanged"
  | .runCompleted .. => "runCompleted"

/-- The fields of an event beside its kind. -/
def Event.fields : Event → List (String × Json)
  | .runStarted runId time => [("runId", str runId), ("at", time.encode)]
  | .phaseChanged phase message => [("phase", str phase.name), ("message", ofText? message)]
  | .stepStarted stepId stepName stepKind startedAt =>
    [("stepId", str stepId), ("stepName", str stepName), ("stepKind", stepKind.encode), ("startedAt", startedAt.encode)]
  | .stepFinished stepId status durationMs attempts error =>
    [("stepId", str stepId), ("status", str status.name), ("durationMs", ofWord durationMs),
      ("attempts", ofHalfWord attempts), ("error", ofText? error)]
  | .iterationStarted stepId index itemValue =>
    [("stepId", str stepId), ("index", ofNat index), ("itemValue", itemValue)]
  | .iterationFinished stepId index status durationMs =>
    [("stepId", str stepId), ("index", ofNat index), ("status", str status.name), ("durationMs", ofWord durationMs)]
  | .loopFinished stepId exitReason completed =>
    [("stepId", str stepId), ("exitReason", str exitReason.name), ("completedIterations", ofNat completed)]
  | .branchSelected stepId index label => [("stepId", str stepId), ("index", ofNat index), ("label", str label)]
  | .variableChanged stepId name value => [("stepId", str stepId), ("name", str name), ("value", ofValue? value)]
  | .runCompleted runId status summary finishedAt =>
    [("runId", str runId), ("status", str status.name), ("summary", summary.encode), ("finishedAt", finishedAt.encode)]

def Event.encode (e : Event) : Json := obj (("type", str e.kind) :: e.fields)

end StepTree
