import StepTree.Run.Walk
import StepTree.Workflow.Validation

/-! # Runs

A run of steps gives a trace. A requested run first checks its workflow, makes the root frame from the
sources of variables, and reports its beginning and its end. -/

namespace StepTree

namespace Setup

/-- Runs steps in a state; the state at the end comes with the trace. -/
def run (u : Setup) (runId : String) (steps : List Step) (st : State) : Trace × State :=
  let (records, st) := u.runWithin u.settings.maxCallDepth steps st
  ({ runId, status := .of records st.cancelled, startedAt := u.now, steps := records
     variableChanges := st.changes.toList, summary := .of records }, st)

end Setup

/-- What is needed to run a workflow. -/
structure Request where
  runId : String
  workflow : Workflow
  environment : List EnvironmentVariable := []
  /-- Variables that win over all other sources. -/
  vars : List (String × Json) := []

/-- The reason for which a requested run is refused. -/
structure Refusal where
  workflowId : String
  issues : List Issue

def Refusal.message (r : Refusal) : String :=
  "workflow '" ++ r.workflowId ++ "' is invalid: " ++ "; ".intercalate (r.issues.map Issue.message)

namespace Request

/-- The scope in which the steps of the workflow run. -/
def scope (q : Request) : Scope :=
  let scope := Scope.ofSeed
    { inputDefaults := q.workflow.inputDefaults, environment := q.environment
      vars := Ordered.extend q.workflow.vars q.vars }
  q.workflow.secretInputs.foldl Scope.markSecret scope

/-- The setup of the run, which is for the requested workflow. -/
def setup (q : Request) (u : Setup) : Setup :=
  { u with root := if q.workflow.id = "" then none else some q.workflow.id }

/-- Runs the workflow, unless it has mistakes. -/
def drive (q : Request) (u : Setup) (signals : Signals) : Except Refusal (Trace × State) :=
  match validate q.workflow.steps with
  | [] =>
    let u := q.setup u
    let signals := (signals.emit (.runStarted q.runId u.now)).reportPhase .running
    let (trace, st) := u.run q.runId q.workflow.steps { scope := q.scope, signals }
    .ok (trace, st.emit (.runCompleted trace.runId trace.status trace.summary u.now))
  | issues => .error ⟨q.workflow.id, issues⟩

end Request

end StepTree
