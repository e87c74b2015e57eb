import StepTree.Json.Basic
import StepTree.Text.Basic

/-! # Workflows

A workflow is a list of steps with declared inputs and variables. A step is an action, or it groups,
repeats or selects among other steps; its head holds what all kinds of steps share. -/

namespace StepTree

/-- How often an action is tried again after a failure, and how long to wait between. -/
structure RetryPolicy where
  count : UInt32
  delayMs : UInt64
  deriving DecidableEq

/-- How the iterations of a loop are driven. -/
inductive LoopType where
  /-- Once for each item of an array. -/
  | forEach
  /-- As long as a condition holds. -/
  | whilst
  /-- A number of times. -/
  | times
  deriving DecidableEq

/-- A number of iterations, or an expression for it. -/
inductive CountSpec where
  | literal (n : UInt64)
  | expression (text : String)
  deriving DecidableEq

structure LoopConfig where
  loopType : LoopType
  /-- The array of a `forEach` loop. -/
  source : Option String := none
  /-- The condition of a `whilst` loop, looked at before every iteration. -/
  condition : Option String := none
  /-- The number of iterations of a `times` loop. -/
  count : Option CountSpec := none
  itemVar : String := "item"
  indexVar : String := "i"
  /-- The most iterations; absent or zero leaves it to the settings. -/
  maxIterations : Option UInt32 := none
  /-- Ends the loop before an iteration. -/
  breakCondition : Option String := none
  /-- Skips the body of an iteration. -/
  continueCondition : Option String := none
  /-- Ends the loop after a failed iteration. -/
  stopOnFailure : Bool := false
  deriving DecidableEq

/-- What an executor is to do. -/
structure ActionSpec where
  actionType : String
  /-- Passed to the executor as it is; ordered by key. -/
  config : List (String × Json)

/-- What all kinds of steps share. -/
structure StepHead where
  id : String
  name : String := ""
  /-- The step is skipped unless it holds. -/
  condition : Option String := none
  disabled : Bool := false
  /-- A failure of the step does not stop its later siblings. -/
  continueOnFail : Bool := false
  /-- The time that one attempt of an action may take. -/
  timeoutMs : Option UInt64 := none
  retry : Option RetryPolicy := none
  /-- Templates by parameter name. -/
  inputs : List (String × String) := []
  /-- Variable names by path into the result. -/
  outputs : List (String × String) := []

mutual

structure Step where
  head : StepHead
  kind : StepKind

inductive StepKind where
  | action (spec : ActionSpec)
  | group (children : List Step)
  | loop (config : LoopConfig) (children : List Step)
  | branch (arms : List Arm)

/-- One alternative of a branch. -/
structure Arm where
  condition : String
  label : Option String
  children : List Step

end

/-- The kind of a step without its parts. -/
inductive StepTag where
  | action
  | group
  | loop
  | branch
  deriving DecidableEq

def StepKind.tag : StepKind → StepTag
  | .action _ => .action
  | .group _ => .group
  | .loop .. => .loop
  | .branch _ => .branch

namespace Arm

/-- A blank condition, or `default`, always holds. -/
def isDefault (a : Arm) : Bool :=
  let condition := Text.trimmed a.condition
  condition == "" || condition == "default"

end Arm

namespace Step

abbrev id (s : Step) : String := s.head.id

def tag (s : Step) : StepTag := s.kind.tag

/-- The name shown for a step: its id when the name is blank. -/
def label (s : Step) : String := if Text.allBlank s.head.name then s.head.id else s.head.name

/-- The steps directly inside a step, those of every arm included. -/
def nested (s : Step) : List Step :=
  match s.kind with
  | .action _ => []
  | .group children => children
  | .loop _ children => children
  | .branch arms => arms.flatMap (·.children)

end Step

mutual

/-- A step and all steps inside it, each before those inside it. -/
def Step.subtree : Step → List Step
  | ⟨head, kind⟩ => ⟨head, kind⟩ :: kind.steps

/-- All steps inside a step of this kind. -/
def StepKind.steps : StepKind → List Step
  | .action _ => []
  | .group children => Step.forest children
  | .loop _ children => Step.forest children
  | .branch arms => Arm.forest arms

/-- The steps of a list and all steps inside them. -/
def Step.forest : List Step → List Step
  | [] => []
  | s :: rest => s.subtree ++ Step.forest rest

/-- All steps inside the arms of a list. -/
def Arm.forest : List Arm → List Step
  | [] => []
  | a :: rest => a.steps ++ Arm.forest rest

/-- All steps inside an arm. -/
def Arm.steps : Arm → List Step
  | ⟨_, _, children⟩ => Step.forest children

end

structure WorkflowInput where
  description : Option String := none
  /-- The value when no other source gives one. -/
  default : Option Json := none
  /-- The value is redacted wherever it is recorded. -/
  isSecret : Bool := false

structure Workflow where
  /-- The identifier by which the workflow is called. -/
  id : String := ""
  name : Option String := none
  description : Option String := none
  inputs : List (String × WorkflowInput) := []
  vars : List (String × Json) := []
  steps : List Step := []

/-- The defaults of the declared inputs that have one. -/
def Workflow.inputDefaults (w : Workflow) : List (String × Json) :=
  w.inputs.filterMap fun (name, input) => input.default.map fun value => (name, value)

/-- The names of the inputs that are declared secret. -/
def Workflow.secretInputs (w : Workflow) : List String :=
  (w.inputs.filter (·.2.isSecret)).map (·.1)

end StepTree
