import StepTree.Condition.Comparison
import StepTree.Trace.Event

/-! # Actions and executors

An action step hands an action to an executor. What an executor answers depends on the action and on the
actions that it was given before. -/

namespace StepTree

/-- An action whose inputs are resolved. -/
structure Action where
  stepId : String
  actionType : String
  config : List (String × Json)
  inputs : List (String × String)

/-- The answer to one action. -/
structure Outcome where
  result : Except String Json
  /-- The time that the action took. -/
  elapsedMs : Nat := 0
  /-- The commands to the run that were sent meanwhile. -/
  sends : List Command := []

/-- Answers an action after the actions that came `earlier`, in the order of time. -/
abbrev Executor := (earlier : Array Action) → Action → Outcome

/-- Why a step failed. -/
inductive StepError where
  | action (text : String)
  | evaluation (error : Condition.EvalError)
  | timeout (limitMs : UInt64)
  /-- A call that does not name a workflow. -/
  | missingCallee
  | unknownCallee (id : String)
  | calleeFailed (id : String)
  /-- A call of a workflow that is running already, the running ones listed from the outermost on. -/
  | alreadyRunning (id : String) (active : List String)
  | callDepth (limit : Nat)

namespace StepError

def kind : StepError → ErrorKind
  | .evaluation _ => .evaluation
  | .timeout _ => .timeout
  | .alreadyRunning .. => .recursion
  | .callDepth _ => .recursion
  | _ => .action

def message : StepError → String
  | .action text => text
  | .evaluation error => error.message
  | .timeout limitMs => "action timed out after " ++ toString limitMs ++ " ms"
  | .missingCallee => "workflow action requires config.workflowId"
  | .unknownCallee id => "unknown workflow '" ++ id ++ "'"
  | .calleeFailed id => "sub-workflow '" ++ id ++ "' failed"
  | .alreadyRunning id active =>
    "workflow '" ++ id ++ "' is already running (" ++ " -> ".intercalate (active ++ [id]) ++ ")"
  | .callDepth limit => "workflow call depth limit of " ++ toString limit ++ " reached"

end StepError

end StepTree
