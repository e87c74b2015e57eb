import StepTree.Run.State

/-! # Carrying out actions

An action is tried until it succeeds or its attempts are used up; an attempt that takes longer than its
time limit fails. The result of the last attempt is what the action step records and binds. -/

namespace StepTree

/-- The most attempts at one action. -/
def maxAttempts : Nat := 100

namespace RetryPolicy

/-- The number of attempts that a policy allows. -/
def attempts (r : RetryPolicy) : Nat := min (r.count.toNat + 1) maxAttempts

end RetryPolicy

/-- The number of attempts at the action of a step. -/
def StepHead.attempts (h : StepHead) : Nat := (h.retry.map RetryPolicy.attempts).getD 1

namespace Setup

/-- What an answer means under a time limit. -/
def judge (limit : Option UInt64) (o : Outcome) : Except StepError Json :=
  match limit with
  | some ms => if ms.toNat < o.elapsedMs then .error (.timeout ms) else o.result.mapError .action
  | none => o.result.mapError .action

/-- Tries an action once. -/
def tryOnce (u : Setup) (limit : Option UInt64) (a : Action) (st : State) : Except StepError Json × State :=
  let outcome := u.executor st.calls a
  (judge limit outcome, { st with calls := st.calls.push a, signals := st.signals.send outcome.sends })

/-- Tries an action, and up to `more` times again as long as it fails. The number of attempts comes with
the result; `made` attempts were made before. -/
def tryAction (u : Setup) (limit : Option UInt64) (a : Action) :
    (more made : Nat) → State → Nat × Except StepError Json × State
  | 0, made, st => (made + 1, u.tryOnce limit a st)
  | more + 1, made, st =>
    match u.tryOnce limit a st with
    | (.ok v, st) => (made + 1, .ok v, st)
    | (.error _, st) => u.tryAction limit a more (made + 1) st

/-- The fields of a result as they are recorded. -/
def captured (u : Setup) (st : State) (result : Json) : List (String × Json) :=
  match result with
  | .obj entries => entries.map fun (name, value) => (name, u.redactValue st value)
  | .null => []
  | value => [("result", u.redactValue st value)]

/-- Binds what a path selects from a result to a variable of a frame; the variable stays secret if it
was. -/
def bindOutput (u : Setup) (frame : Nat) (stepId : String) (result : Json) (st : State)
    (output : String × String) : State :=
  let (path, name) := output
  let value := result.select? path.toList
  let previous := st.scope.binding? name
  let scope := st.scope.bindInFrame frame name ⟨value, (previous.map (·.isSecret)).getD false⟩
  let st := { st with scope }
  let newValue := value.map (u.redactValue st)
  let change : VariableChange :=
    { stepId, name, oldValue := (previous.bind (·.value)).map (u.redactValue st), newValue }
  { st.emit (.variableChanged stepId name newValue) with changes := st.changes.push change }

/-- Binds the outputs of a step one after the other. -/
def bindOutputs (u : Setup) (frame : Nat) (head : StepHead) (result : Json) (st : State) : State :=
  head.outputs.foldl (u.bindOutput frame head.id result) st

/-- Ends an action step with the result of its action, whose outputs go into a frame. -/
def conclude (u : Setup) (frame : Nat) (head : StepHead) (r : Record) (result : Except StepError Json)
    (st : State) : Record × State :=
  match result with
  | .ok value =>
    let r := { r with head := { r.head with capturedOutputs := u.captured st value } }
    (r.withStatus .passed, u.bindOutputs frame head value st)
  | .error e => (u.fail st r e, st)

/-- The action of a step, its inputs resolved. -/
def resolved (st : State) (head : StepHead) (spec : ActionSpec) : Action :=
  { stepId := head.id, actionType := spec.actionType, config := spec.config
    inputs := head.inputs.map fun (name, template) => (name, st.scope.resolve template) }

/-- The record with the inputs of its action. -/
def recordInputs (u : Setup) (st : State) (r : Record) (a : Action) : Record :=
  { r with
    head := { r.head with resolvedInputs := a.inputs.map fun (name, text) => (name, u.redact st text) } }

/-- The record with a number of attempts. -/
def recordAttempts (r : Record) (attempts : Nat) : Record :=
  { r with head := { r.head with attempts := UInt32.ofNat attempts } }

/-- Carries out the action of a step through the executor. -/
def perform (u : Setup) (frame : Nat) (head : StepHead) (a : Action) (r : Record) (st : State) :
    Record × State :=
  let limit := u.settings.timeLimit head.timeoutMs
  let (attempts, result, st) := u.tryAction limit a (head.attempts - 1) 0 st
  u.conclude frame head (recordAttempts r attempts) result st

end Setup

end StepTree
