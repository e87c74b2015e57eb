import StepTree.Run.Call
import StepTree.Run.Repeat
import StepTree.Run.Select

/-! # Running steps

Steps run one after the other in the order of the document. Within one sequence a step that fails by
itself keeps the later ones from running, unless it may; the steps of an iteration, of an arm and of a
callee are sequences of their own. A cancelled run skips all that is left. -/

namespace StepTree

namespace Setup

/-- What the condition of a step decides before the step begins. -/
inductive Gate where
  | skip (reason : SkipReason)
  | begin
  | failure (error : Condition.EvalError)

/-- Decides whether a step begins. -/
def gate (head : StepHead) (st : State) : Gate :=
  if head.disabled then .skip .disabled
  else match head.condition.map st.holds with
    | some (.ok false) => .skip .condition
    | some (.error e) => .failure e
    | _ => .begin

/-- A failure that keeps the later steps of a sequence from running. -/
def stops (head : StepHead) (r : Record) : Bool := r.hasOwnFailure && !head.continueOnFail

mutual

/-- Runs one step, whose outputs go into a frame; `callee` runs the steps of a called workflow, unless no
further call may be open. -/
def runStep (u : Setup) (callee : Option Body) (frame : Nat) : Step → State → Record × State
  | ⟨head, kind⟩, st =>
    match gate head st with
    | .skip reason => st.skip ⟨head, kind⟩ reason
    | .failure e =>
      let r := u.begin ⟨head, kind⟩
      let st := st.emit (u.started r)
      let r := u.fail st r (.evaluation e)
      (r, st.emit r.finished)
    | .begin =>
      let r := u.begin ⟨head, kind⟩
      let (r, st) := u.runKind callee frame head kind r (st.emit (u.started r))
      (r, st.emit r.finished)

/-- Carries out what the kind of a step asks for. -/
def runKind (u : Setup) (callee : Option Body) (frame : Nat) (head : StepHead) :
    StepKind → Record → State → Record × State
  | .action spec, r, st => u.act callee frame head spec r st
  | .group children, r, st =>
    let (children, st) := u.runSteps callee st.scope.currentFrame false children st
    ({ r with children }.withStatus (sequenceStatus children), st)
  | .loop config children, r, st =>
    u.loop head.id config children.isEmpty (fun st => u.runSteps callee st.scope.currentFrame false children st) r
      st
  | .branch arms, r, st => u.branch head.id arms (fun index st => u.runArm callee index arms st) r st

/-- Runs the steps of the arm at a position. -/
def runArm (u : Setup) (callee : Option Body) : Nat → List Arm → State → List Record × State
  | _, [], st => ([], st)
  | 0, ⟨_, _, children⟩ :: _, st => u.runSteps callee st.scope.currentFrame false children st
  | index + 1, _ :: rest, st => u.runArm callee index rest st

/-- Runs steps one after the other, whose outputs go into a frame: the one that is innermost when the
sequence begins. Once `stopped`, they are skipped. -/
def runSteps (u : Setup) (callee : Option Body) (frame : Nat) :
    (stopped : Bool) → List Step → State → List Record × State
  | _, [], st => ([], st)
  | stopped, s :: rest, st =>
    let st := st.checkpoint
    if st.cancelled then
      let (r, st) := st.skip s .cancelled
      let (records, st) := u.runSteps callee frame stopped rest st
      (r :: records, st)
    else if stopped then
      let (r, st) := st.skip s .priorFailure
      let (records, st) := u.runSteps callee frame stopped rest st
      (r :: records, st)
    else
      let (r, st) := u.runStep callee frame s st
      let (records, st) := u.runSteps callee frame (stops s.head r) rest st
      (r :: records, st)

end

/-- Runs steps that may open up to `depth` calls one inside the other. -/
def runWithin (u : Setup) : (depth : Nat) → Body
  | 0, steps, st => u.runSteps none st.scope.currentFrame false steps st
  | depth + 1, steps, st => u.runSteps (some (u.runWithin depth)) st.scope.currentFrame false steps st

end Setup

end StepTree
