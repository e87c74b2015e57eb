import StepTree.Run.Plan
import StepTree.Run.State

/-! # Running loops

A loop has a frame of its own, and every iteration one inside it, so that nothing an iteration binds
outlives it. Only a `whilst` loop carries the bindings of an iteration over into its own frame, where its
condition and the later iterations find them. -/

namespace StepTree

/-- Why a loop goes no further. -/
inductive Stop where
  | exit (reason : ExitReason)
  | failure (error : Condition.EvalError)

namespace Stop

def reason : Stop → ExitReason
  | .exit reason => reason
  | .failure _ => .error

end Stop

/-- A loop that runs. -/
structure Repetition where
  stepId : String
  config : LoopConfig
  plan : Plan
  limit : UInt32
  /-- The index of the loop's own frame. -/
  frame : Nat
  /-- Runs the steps of one iteration. -/
  body : State → List Record × State

namespace Repetition

/-- The name under which an iteration finds its place in the loop. -/
def placeName : String := "loop"

/-- The place of an iteration in its loop. -/
def place (index : Nat) (total : Option Nat) : Json :=
  .obj [("count", .ofNat (index + 1)), ("first", .bool (index = 0)), ("index", .ofNat index),
    ("last", .bool (total = some (index + 1))), ("total", (total.map Json.ofNat).getD .null)]

/-- Why the iteration at `index` is not begun, its limit left aside. -/
def stopBefore? (l : Repetition) (index : Nat) (st : State) : Option Stop :=
  if st.cancelled then some (.exit .cancelled)
  else match l.plan with
    | .items values => if values.length ≤ index then some (.exit .completed) else none
    | .times count => if count ≤ index then some (.exit .completed) else none
    | .whilst condition =>
      match st.holds condition with
      | .ok true => none
      | .ok false => some (.exit .conditionFalse)
      | .error e => some (.failure e)

/-- The state inside an iteration. -/
def opened (l : Repetition) (index : Nat) (st : State) : State :=
  let scope := st.scope.push
  let scope := if l.plan.isWhilst then scope else scope.set l.config.itemVar (l.plan.item index)
  let scope := (scope.set l.config.indexVar (.ofNat index)).set placeName (place index l.plan.total?)
  { st with scope }

/-- The scope with what an iteration bound written into the frame of the loop. -/
def carry (l : Repetition) (bound : Frame) (s : Scope) : Scope :=
  let carried := bound.filter fun entry => entry.1 != l.config.indexVar && entry.1 != placeName
  carried.foldl (fun s entry => s.bindInFrame l.frame entry.1 entry.2) s

/-- The state after an iteration, and what it bound carried over if the loop does that. -/
def closed (l : Repetition) (st : State) : State :=
  match st.scope.pop? with
  | none => st
  | some (bound, scope) => { st with scope := if l.plan.isWhilst then l.carry bound scope else scope }

/-- What the break condition says inside an iteration. -/
def break? (l : Repetition) (st : State) : Option Stop :=
  match l.config.breakCondition.map st.holds with
  | some (.ok true) => some (.exit .broken)
  | some (.error e) => some (.failure e)
  | _ => none

/-- Runs the steps of an iteration, unless the continue condition holds. -/
def iterate (l : Repetition) (u : Setup) (index : Nat) (item : Json) (st : State) : Iteration × State :=
  match l.config.continueCondition.map st.holds with
  | some (.ok true) => ({ head := { index, itemValue := item, status := .skipped } }, st)
  | some (.error e) =>
    ({ head := { index, itemValue := item, status := .failed, error := some (u.redact st e.message) } }, st)
  | _ =>
    let (children, st) := l.body st
    ({ head := { index, itemValue := item, status := sequenceStatus children }, children }, st)

/-- Runs an iteration that was opened, and closes it. -/
def round (l : Repetition) (u : Setup) (index : Nat) (st : State) : Iteration × State :=
  let item := u.redactValue st (l.plan.item index)
  let (i, st) := l.iterate u index item (st.emit (.iterationStarted l.stepId index item))
  (i, (l.closed st).emit (.iterationFinished l.stepId index i.head.status i.head.durationMs))

/-- Why the loop ends after an iteration. -/
def stopAfter? (l : Repetition) (i : Iteration) (st : State) : Option Stop :=
  if st.cancelled then some (.exit .cancelled)
  else if i.head.status = .failed && l.config.stopOnFailure then some (.exit .error)
  else none

/-- Runs the iterations from `index` on; `left` more are within the limit. -/
def rounds (l : Repetition) (u : Setup) : (left index : Nat) → LoopRecord → State → LoopRecord × Stop × State
  | 0, index, record, st =>
    let st := st.checkpoint
    (record, (l.stopBefore? index st).getD (.exit .maxIterations), st)
  | left + 1, index, record, st =>
    let st := st.checkpoint
    match l.stopBefore? index st with
    | some stop => (record, stop, st)
    | none =>
      let inner := l.opened index st
      match l.break? inner with
      | some stop => (record, stop, { inner with scope := inner.scope.pop })
      | none =>
        let (i, st) := l.round u index inner
        match l.stopAfter? i st with
        | some stop => (record.add i, stop, st)
        | none => l.rounds u left (index + 1) (record.add i) st

/-- The record of a loop step that ended. -/
def ended (u : Setup) (r : Record) (record : LoopRecord) (stop : Stop) (st : State) : Record :=
  let r := { r with loop := some record }
  match stop with
  | .failure e => u.fail st r (.evaluation e)
  | .exit _ => r.withStatus (if 0 < record.summary.failed then .failed else .passed)

/-- Runs a loop. -/
def run (l : Repetition) (u : Setup) (r : Record) (st : State) : Record × State :=
  let record := LoopRecord.begin l.config.loopType l.plan.total? l.limit
  let (record, stop, st) := l.rounds u l.limit.toNat 0 record { st with scope := st.scope.push }
  let st := { st with scope := st.scope.pop }
  let record := record.ended stop.reason
  let st := st.emit (.loopFinished l.stepId stop.reason record.summary.completed)
  (ended u r record stop st, st)

end Repetition

namespace Setup

/-- Carries out a loop step whose steps are run by `body`. -/
def loop (u : Setup) (stepId : String) (config : LoopConfig) (isEmpty : Bool) (body : State → List Record × State)
    (r : Record) (st : State) : Record × State :=
  let limit := u.settings.iterationLimit config.maxIterations
  if isEmpty then
    ({ r with loop := some (LoopRecord.begin config.loopType none limit) }.withStatus .passed, st)
  else match config.plan st.scope.lookup with
    | .error e =>
      let record := (LoopRecord.begin config.loopType none limit).ended .error
      (u.fail st { r with loop := some record } (.evaluation e), st)
    | .ok plan => Repetition.run ⟨stepId, config, plan, limit, st.scope.push.currentFrame, body⟩ u r st

end Setup

end StepTree
