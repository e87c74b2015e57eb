import StepTree.Run.Attempt

/-! # Calling workflows

A call runs a workflow of the library as one step. The callee has a scope of its own, made from its
defaults, its variables and the inputs of the call; what its root frame holds at the end is the result. A
workflow that is running is not entered again, and calls nest only so deep. -/

namespace StepTree

/-- The type of the actions that call a workflow. -/
def callActionType : String := "workflow"

/-- Runs a list of steps. -/
abbrev Body := List Step → State → List Record × State

namespace Setup

/-- The workflows that are running, the outermost first. -/
def active (u : Setup) (st : State) : List String := u.root.toList ++ st.callStack

/-- The workflow that a call names. -/
def calleeId? (a : Action) : Option String :=
  match a.config.lookup "workflowId" with
  | some (.str id) => some id
  | _ => none

/-- The scope of a callee. An input whose text contains a secret of the caller is secret. -/
def calleeScope (w : Workflow) (secrets : Secrets) (inputs : List (String × String)) : Scope :=
  let scope := (Scope.empty.setAll w.inputDefaults).setAll w.vars
  let scope := inputs.foldl (fun s (name, text) =>
    let isSecret := secrets.any fun secret => Text.occursIn secret.toList text.toList
    s.bind name ⟨some (.str text), isSecret⟩) scope
  w.secretInputs.foldl Scope.markSecret scope

/-- Runs a workflow of the library and returns to the scope of the caller: the call goes on top of the
stack and is taken off again when the callee has ended. The scope that the callee leaves comes with the
result. -/
def enter (body : Body) (id : String) (w : Workflow) (a : Action) (st : State) : List Record × Scope × State :=
  let scope := calleeScope w st.scope.secrets a.inputs
  let (children, inner) := body w.steps { st with scope, callStack := st.callStack ++ [id] }
  (children, inner.scope, { inner with scope := st.scope, callStack := inner.callStack.dropLast })

/-- The workflow that a call enters, or why it enters none. No further call may be open when `mayEnter` is
false. -/
def callee (u : Setup) (mayEnter : Bool) (st : State) (a : Action) : Except StepError (String × Workflow) :=
  match calleeId? a with
  | none => .error .missingCallee
  | some id =>
    if (u.active st).contains id then .error (.alreadyRunning id (u.active st))
    else if !mayEnter then .error (.callDepth u.settings.maxCallDepth)
    else match Ordered.get? id u.library with
      | none => .error (.unknownCallee id)
      | some w => .ok (id, w)

/-- Calls a workflow; `body` runs its steps, unless no further call may be open. -/
def call (u : Setup) (body : Option Body) (frame : Nat) (head : StepHead) (a : Action) (r : Record)
    (st : State) : Record × State :=
  let r := recordAttempts r 1
  match u.callee body.isSome st a, body with
  | .error e, _ => u.conclude frame head r (.error e) st
  | .ok _, none => u.conclude frame head r (.error (.callDepth u.settings.maxCallDepth)) st
  | .ok (id, w), some body =>
    let (children, scope, st) := enter body id w a st
    let r := { r with children }
    if st.cancelled then (r.skip .cancelled, st)
    else if sequenceStatus children = .failed then u.conclude frame head r (.error (.calleeFailed id)) st
    else u.conclude frame head r (.ok (.obj scope.root.values)) st

/-- Carries out an action step, whose outputs go into a frame. -/
def act (u : Setup) (body : Option Body) (frame : Nat) (head : StepHead) (spec : ActionSpec) (r : Record)
    (st : State) : Record × State :=
  let a := resolved st head spec
  let r := u.recordInputs st r a
  if a.actionType = callActionType then u.call body frame head a r st else u.perform frame head a r st

end Setup

end StepTree
