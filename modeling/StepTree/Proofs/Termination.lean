import Mathlib.Data.Finset.Card
import StepTree.Proofs.Frames

/-! # Termination

A run can be carried out by fuel: a sequence, a round of a loop and an attempt at an action each take one unit
of the fuel that is left, and without fuel nothing has an outcome. Carried out so, loops and attempts go on
until the run itself ends them, and a call enters whatever workflow it may. The fuel that is always enough is
read off the tree, the library and the settings: calls go no deeper than the settings allow and enter no
workflow twice, a sequence is as long as it is written, a loop has its limit, and an action has its attempts. -/

namespace StepTree

open Setup

/-! ### Runs by fuel -/

/-- Runs a list of steps, as far as the fuel goes. -/
abbrev FueledBody := List Step → State → Option (List Record × State)

namespace Setup

/-- Tries an action as long as it fails and was not tried `attempts` times. -/
def tryFueled (u : Setup) (limit : Option UInt64) (a : Action) (attempts : Nat) :
    (fuel made : Nat) → State → Option (Nat × Except StepError Json × State)
  | 0, _, _ => none
  | fuel + 1, made, st =>
    match u.tryOnce limit a st with
    | (.ok v, st) => some (made + 1, .ok v, st)
    | (.error e, st) =>
      if made + 1 < attempts then u.tryFueled limit a attempts fuel (made + 1) st
      else some (made + 1, .error e, st)

/-- Carries out an action step: tries its action, or enters the workflow that it calls. -/
def actFueled (u : Setup) (body : FueledBody) (fuel frame : Nat) (head : StepHead) (spec : ActionSpec) (r : Record)
    (st : State) : Option (Record × State) :=
  let a := resolved st head spec
  let r := u.supplied head spec r st
  if spec.actionType = callActionType then
    match u.callee (decide (st.callStack.length < u.settings.maxCallDepth)) st a with
    | .error e => some (u.fail st (recordAttempts r 1) e, st)
    | .ok (id, w) => (body w.steps (calleeState id w a st)).map (u.callEnded frame head r id st)
  else
    (u.tryFueled (u.settings.timeLimit head.timeoutMs) a head.attempts fuel 0 st).map
      fun (attempts, result, st) => u.conclude frame head (recordAttempts r attempts) result st

def branchFueled (u : Setup) (body : FueledBody) (stepId : String) (arms : List Arm) (r : Record) (st : State) :
    Option (Record × State) :=
  match (Arm.evaluateAll u st 0 arms).find? (·.result) with
  | none => some (u.branch stepId arms (fun _ st => ([], st)) r st)
  | some e => do
    let a ← arms[e.index]?
    let out ← body a.children (st.emit (.branchSelected stepId e.index e.label))
    some (u.branch stepId arms (fun _ _ => out) r st)

end Setup

namespace Repetition

/-- Runs an iteration that was opened, and closes it. -/
def roundFueled (l : Repetition) (u : Setup) (body : State → Option (List Record × State)) (index : Nat)
    (st : State) : Option (Iteration × State) :=
  match l.config.continueCondition.map st.holds with
  | some (.ok true) => some (l.round u index st)
  | some (.error _) => some (l.round u index st)
  | _ => do
    let out ← body (st.emit (.iterationStarted l.stepId index (u.redactValue st (l.plan.item index))))
    some ((l.withBody fun _ => out).round u index st)

/-- Runs the iterations from `index` on until the loop ends, at its limit if nothing else ends it. -/
def roundsFueled (l : Repetition) (u : Setup) (body : State → Option (List Record × State)) :
    (fuel index : Nat) → LoopRecord → State → Option (LoopRecord × Stop × State)
  | 0, _, _, _ => none
  | fuel + 1, index, record, st =>
    let st := st.checkpoint
    match l.stopBefore? index st with
    | some stop => some (record, stop, st)
    | none =>
      if l.limit.toNat ≤ index then some (record, .exit .maxIterations, st)
      else match l.break? (l.opened index st) with
        | some stop => some (record, stop, st)
        | none => do
          let (i, st) ← l.roundFueled u body index (l.opened index st)
          match l.stopAfter? i st with
          | some stop => some (record.add i, stop, st)
          | none => l.roundsFueled u body fuel (index + 1) (record.add i) st

end Repetition

namespace Setup

def loopFueled (u : Setup) (body : FueledBody) (fuel : Nat) (stepId : String) (config : LoopConfig)
    (steps : List Step) (r : Record) (st : State) : Option (Record × State) :=
  match steps, config.plan st.scope.lookup with
  | _ :: _, .ok plan =>
    let l : Repetition := ⟨stepId, config, plan, u.settings.iterationLimit config.maxIterations,
      st.scope.push.currentFrame, fun st => ([], st)⟩
    let record := LoopRecord.begin config.loopType plan.total? l.limit
    (l.roundsFueled u (body steps) fuel 0 record { st with scope := st.scope.push }).map fun out =>
      (Repetition.ended u r (out.1.ended out.2.1.reason) out.2.1 (l.left out), l.left out)
  | _, _ => some (u.loop stepId config steps.isEmpty (fun st => ([], st)) r st)

/-- Carries out what the kind of a step asks for. -/
def kindFueled (u : Setup) (body : FueledBody) (fuel frame : Nat) (s : Step) (r : Record) (st : State) :
    Option (Record × State) :=
  match s.kind with
  | .action spec => u.actFueled body fuel frame s.head spec r st
  | .group children =>
    (body children st).map fun (children, st) => ({ r with children }.withStatus (sequenceStatus children), st)
  | .loop config children => u.loopFueled body fuel s.head.id config children r st
  | .branch arms => u.branchFueled body s.head.id arms r st

def visitFueled (u : Setup) (body : FueledBody) (fuel frame : Nat) (stopped : Bool) (s : Step) (st : State) :
    Option (Record × State) :=
  let st := st.checkpoint
  if st.cancelled then some (st.skip s .cancelled)
  else if stopped then some (st.skip s .priorFailure)
  else match gate s.head st with
    | .skip reason => some (st.skip s reason)
    | .failure e => some (u.unmet s e st)
    | .begin => (u.kindFueled body fuel frame s (u.begin s) (u.inside s st)).map reported

/-- Runs steps one after the other, whose outputs go into a frame. -/
def stepsFueled (u : Setup) : (fuel frame : Nat) → (stopped : Bool) → FueledBody
  | 0, _, _, _, _ => none
  | _ + 1, _, _, [], st => some ([], st)
  | fuel + 1, frame, stopped, s :: rest, st => do
    let body : FueledBody := fun steps st => u.stepsFueled fuel st.scope.currentFrame false steps st
    let (r, st) ← u.visitFueled body fuel frame stopped s st
    let (records, st) ← u.stepsFueled fuel frame (stopped || stops s.head r) rest st
    some (r :: records, st)

/-- Runs steps in a state, as far as the fuel goes. -/
def runFueled (u : Setup) (fuel : Nat) (runId : String) (steps : List Step) (st : State) : Option (Trace × State) := do
  let (records, st) ← u.stepsFueled fuel st.scope.currentFrame false steps st
  some
    ({ runId, status := .of records st.cancelled, startedAt := u.now, steps := records
       variableChanges := st.changes.toList, summary := .of records }, st)

end Setup

/-! ### How much fuel is enough -/

mutual

/-- The fuel that a step needs when each of its calls needs `call`. -/
def Step.need (settings : Settings) (call : Nat) : Step → Nat
  | ⟨head, kind⟩ => kind.need settings call head.attempts

def StepKind.need (settings : Settings) (call attempts : Nat) : StepKind → Nat
  | .action _ => max attempts call
  | .group children => Step.needAll settings call children
  | .loop config children =>
    max ((settings.iterationLimit config.maxIterations).toNat + 1) (Step.needAll settings call children)
  | .branch arms => Arm.needAll settings call arms

def Step.needAll (settings : Settings) (call : Nat) : List Step → Nat
  | [] => 1
  | s :: rest => max (s.need settings call) (Step.needAll settings call rest) + 1

def Arm.needAll (settings : Settings) (call : Nat) : List Arm → Nat
  | [] => 0
  | a :: rest => max (a.need settings call) (Arm.needAll settings call rest)

def Arm.need (settings : Settings) (call : Nat) : Arm → Nat
  | ⟨_, _, children⟩ => Step.needAll settings call children

end

namespace Library

/-- The fuel that a call needs when calls nest at most so deep. -/
def need (library : Library) (settings : Settings) : (levels : Nat) → Nat
  | 0 => 0
  | levels + 1 => (library.map fun e => Step.needAll settings (library.need settings levels) e.2.steps).foldr max 0

/-- The identifiers of the workflows that are not being called. -/
def fresh (library : Library) (callStack : List String) : Finset String :=
  (library.map (·.1)).toFinset \ callStack.toFinset

/-- The fuel that is enough for a run: no workflow is entered while it is being called, and calls nest no deeper
than the settings allow. -/
def enough (library : Library) (settings : Settings) (steps : List Step) : Nat :=
  Step.needAll settings (library.need settings (min settings.maxCallDepth (library.fresh []).card)) steps

end Library

theorem Arm.needAll_children_le {settings : Settings} {call : Nat} {arms : List Arm} {a : Arm} (h : a ∈ arms) :
    Step.needAll settings call a.children ≤ Arm.needAll settings call arms := by
  induction arms with
  | nil => cases h
  | cons b rest ih =>
    rw [Arm.needAll]
    rcases List.mem_cons.mp h with rfl | h
    · cases a
      exact Nat.le_max_left _ _
    · exact Nat.le_trans (ih h) (Nat.le_max_right _ _)

namespace Library
variable {library : Library} {settings : Settings}

theorem needAll_steps_le {levels : Nat} {id : String} {w : Workflow} (h : Ordered.get? id library = some w) :
    Step.needAll settings (library.need settings levels) w.steps ≤ library.need settings (levels + 1) := by
  rw [need]
  generalize library.need settings levels = call
  induction library with
  | nil => cases h
  | cons e rest ih =>
    rw [List.map_cons, List.foldr_cons]
    rw [Ordered.get?] at h
    split at h
    · obtain rfl := Option.some.inj h
      exact Nat.le_max_left _ _
    · exact Nat.le_trans (ih h) (Nat.le_max_right _ _)

/-- A workflow that is entered is no longer fresh. -/
theorem card_fresh {callStack : List String} {id : String} {w : Workflow} (h : Ordered.get? id library = some w)
    (new : id ∉ callStack) :
    (library.fresh (callStack ++ [id])).card + 1 = (library.fresh callStack).card := by
  have hmem : id ∈ library.fresh callStack := by
    have hid : id ∈ library.map (·.1) := List.mem_map_of_mem (Ordered.mem_of_get? h)
    simpa [fresh, new] using hid
  have herase : library.fresh (callStack ++ [id]) = (library.fresh callStack).erase id := by
    ext other
    simp only [fresh, Finset.mem_sdiff, List.mem_toFinset, List.mem_append, List.mem_singleton, Finset.mem_erase]
    tauto
  rw [herase, Finset.card_erase_add_one hmem]

end Library

/-! ### Attempts and rounds -/

section Enough
variable {u : Setup}

theorem tryFueled_eq {limit : Option UInt64} {a : Action} {attempts fuel made : Nat} (left : made < attempts)
    (h : attempts ≤ made + fuel) (st : State) :
    u.tryFueled limit a attempts fuel made st = some (u.tryAction limit a (attempts - 1 - made) made st) := by
  induction fuel generalizing made st with
  | zero => omega
  | succ fuel ih =>
    rw [tryFueled]
    by_cases hmore : made + 1 < attempts
    · obtain ⟨more, hleft⟩ : ∃ more, attempts - 1 - made = more + 1 := ⟨attempts - 2 - made, by omega⟩
      have hrest : ∀ st, u.tryFueled limit a attempts fuel (made + 1) st =
          some (u.tryAction limit a (attempts - 1 - (made + 1)) (made + 1) st) := ih hmore (by omega)
      rw [show attempts - 1 - (made + 1) = more by omega] at hrest
      rw [hleft, tryAction]
      rcases u.tryOnce limit a st with ⟨e | v, st'⟩
      · exact (if_pos hmore).trans (hrest st')
      · rfl
    · rw [show attempts - 1 - made = 0 by omega, tryAction]
      rcases u.tryOnce limit a st with ⟨e | v, st'⟩
      · exact if_neg hmore
      · rfl

/-- A body by fuel does what a body does in every state with these open calls. -/
def Matches (callStack : List String) (body : State → Option (List Record × State))
    (total : State → List Record × State) : Prop :=
  ∀ st, st.callStack = callStack → body st = some (total st)

namespace Repetition
variable {l : Repetition} {callStack : List String} {body : State → Option (List Record × State)}
  {total : State → List Record × State}

theorem round_callStack (keeps : ∀ st, Kept st (l.body st).2) (index : Nat) (st : State) :
    (l.round u index st).2.callStack = st.callStack :=
  (l.closed_callStack).trans (iteration_kept keeps index st).callStack

theorem roundFueled_eq (hmatch : Matches callStack body total) (index : Nat) {st : State}
    (h : st.callStack = callStack) :
    l.roundFueled u body index st = some ((l.withBody total).round u index st) := by
  have hstart := hmatch (st.emit (.iterationStarted l.stepId index (u.redactValue st (l.plan.item index)))) h
  have hholds : (st.emit (.iterationStarted l.stepId index (u.redactValue st (l.plan.item index)))).holds = st.holds :=
    rfl
  unfold roundFueled round iterate withBody
  dsimp only
  rw [hholds, hstart]
  rcases l.config.continueCondition.map st.holds with _ | (e | b)
  · rfl
  · rfl
  · cases b <;> rfl

/-- The rounds that are left within the limit are enough fuel for a loop, if each round has its body. -/
theorem roundsFueled_eq (hmatch : Matches callStack body total) (keeps : ∀ st, Kept st (total st).2)
    {fuel left index : Nat} (hleft : index + left = l.limit.toNat) (h : left < fuel) (record : LoopRecord)
    {st : State} (hst : st.callStack = callStack) :
    l.roundsFueled u body fuel index record st = some ((l.withBody total).rounds u left index record st) := by
  induction fuel generalizing left index record st with
  | zero => omega
  | succ fuel ih =>
    have hlook : st.checkpoint.callStack = callStack := by rw [State.checkpoint_callStack, hst]
    rw [roundsFueled]
    cases left with
    | zero =>
      have hstop : (l.withBody total).stopBefore? index st.checkpoint = l.stopBefore? index st.checkpoint := rfl
      rw [rounds_zero, hstop]
      cases l.stopBefore? index st.checkpoint with
      | some stop => rfl
      | none => exact if_pos (by omega)
    | succ left =>
      have hstop : (l.withBody total).stop? index st.checkpoint =
        (l.stopBefore? index st.checkpoint).or (l.break? (l.opened index st.checkpoint)) := rfl
      have hopened : (l.withBody total).opened index st.checkpoint = l.opened index st.checkpoint := rfl
      have hfueled : l.roundFueled u body index (l.opened index st.checkpoint) =
          some ((l.withBody total).round u index (l.opened index st.checkpoint)) := roundFueled_eq hmatch index hlook
      rw [rounds_succ, hstop, hopened, hfueled]
      cases l.stopBefore? index st.checkpoint with
      | some stop => rfl
      | none =>
        dsimp only [Option.none_or]
        rw [if_neg (by omega)]
        cases l.break? (l.opened index st.checkpoint) with
        | some stop => rfl
        | none =>
          have hround : ((l.withBody total).round u index (l.opened index st.checkpoint)).2.callStack = callStack :=
            (round_callStack keeps index _).trans hlook
          dsimp only [Option.bind_eq_bind, Option.bind_some]
          rw [show (l.withBody total).stopAfter? = l.stopAfter? from rfl]
          cases l.stopAfter? _ _ with
          | some stop => rfl
          | none => exact ih (by omega) (by omega) _ hround

end Repetition

/-! ### Steps -/

section Steps
variable {callStack : List String} {body : FueledBody} {fuel depth frame : Nat} {st : State}

/-- Further calls may be open as long as there are fewer than the settings allow. -/
theorem bodyWithin_isSome (hdepth : depth = u.settings.maxCallDepth - callStack.length) :
    (u.bodyWithin depth).isSome = decide (callStack.length < u.settings.maxCallDepth) := by
  cases depth with
  | zero => exact (decide_eq_false (by omega)).symm
  | succ depth => exact (decide_eq_true (by omega)).symm

theorem actFueled_eq (hdepth : depth = u.settings.maxCallDepth - callStack.length)
    (callee : ∀ d id w, depth = d + 1 → Ordered.get? id u.library = some w → id ∉ callStack →
      Matches (callStack ++ [id]) (body w.steps) (u.runWithin d w.steps))
    {head : StepHead} (h : head.attempts ≤ fuel) (spec : ActionSpec) (r : Record) (hst : st.callStack = callStack) :
    u.actFueled body fuel frame head spec r st = some (u.act (u.bodyWithin depth) frame head spec r st) := by
  unfold actFueled act
  have hmay := bodyWithin_isSome hdepth
  by_cases hcall : spec.actionType = callActionType
  · rw [if_pos hcall, if_pos (show (resolved st head spec).actionType = callActionType from hcall), hst, ← hmay]
    unfold call
    cases hc : u.callee (u.bodyWithin depth).isSome st (resolved st head spec) with
    | error e => rfl
    | ok entered =>
      obtain ⟨id, w⟩ := entered
      obtain ⟨-, hnew, henters, hlibrary⟩ := callee_eq_ok.mp hc
      obtain ⟨run, hrun⟩ := Option.isSome_iff_exists.mp henters
      obtain ⟨d, rfl, rfl⟩ := bodyWithin_eq_some hrun
      have hfresh : id ∉ callStack := fun hmem => hnew (by simp [hst, hmem])
      have hout := callee d id w rfl hlibrary hfresh (calleeState id w (resolved st head spec) st)
        (congrArg (· ++ [id]) hst)
      dsimp only
      rw [hout]
      rfl
  · rw [if_neg hcall, if_neg (show (resolved st head spec).actionType ≠ callActionType from hcall)]
    have hattempts := attempts_bounds head
    rw [tryFueled_eq hattempts.1 (by omega)]
    rfl

/-- A branch runs the steps of the arm that it takes, and of no other. -/
theorem branch_congr {stepId : String} {arms : List Arm} {body body' : Nat → State → List Record × State} (r : Record)
    (h : ∀ e, (Arm.evaluateAll u st 0 arms).find? (·.result) = some e →
      body e.index (st.emit (.branchSelected stepId e.index e.label)) =
        body' e.index (st.emit (.branchSelected stepId e.index e.label))) :
    u.branch stepId arms body r st = u.branch stepId arms body' r st := by
  unfold branch
  dsimp only
  cases htaken : (Arm.evaluateAll u st 0 arms).find? (·.result) with
  | none => rfl
  | some e =>
    dsimp only
    rw [h e htaken]

theorem branchFueled_eq {arms : List Arm} {total : Nat → State → List Record × State}
    (hmatch : ∀ (index : Nat) (a : Arm), arms[index]? = some a → Matches callStack (body a.children) (total index))
    (stepId : String) (r : Record) (hst : st.callStack = callStack) :
    u.branchFueled body stepId arms r st = some (u.branch stepId arms total r st) := by
  unfold branchFueled
  split
  · next hnone => exact congrArg some (branch_congr r fun e htaken => by cases hnone.symm.trans htaken)
  · next e htaken =>
    obtain ⟨a, ha⟩ := Arm.find?_isArm htaken
    have hout := hmatch e.index a ha (st.emit (.branchSelected stepId e.index e.label)) hst
    rw [ha]
    dsimp only [Option.bind_eq_bind, Option.bind_some]
    rw [hout]
    refine congrArg some (branch_congr r fun e' htaken' => ?_)
    rw [Option.some.inj (htaken'.symm.trans htaken)]

theorem loopFueled_eq {steps : List Step} {total : State → List Record × State}
    (hmatch : Matches callStack (body steps) total) (keeps : ∀ st, Kept st (total st).2) {config : LoopConfig}
    (h : (u.settings.iterationLimit config.maxIterations).toNat < fuel) (stepId : String) (r : Record)
    (hst : st.callStack = callStack) :
    u.loopFueled body fuel stepId config steps r st = some (u.loop stepId config steps.isEmpty total r st) := by
  cases steps with
  | nil => rfl
  | cons s rest =>
    unfold loopFueled loop
    cases config.plan st.scope.lookup with
    | error e => rfl
    | ok plan =>
      let l : Repetition := ⟨stepId, config, plan, u.settings.iterationLimit config.maxIterations,
        st.scope.push.currentFrame, fun st => ([], st)⟩
      have hrounds : l.roundsFueled u (body (s :: rest)) fuel 0 (LoopRecord.begin config.loopType plan.total? l.limit)
          { st with scope := st.scope.push } = some ((l.withBody total).rounds u l.limit.toNat 0
            (LoopRecord.begin config.loopType plan.total? l.limit) { st with scope := st.scope.push }) :=
        Repetition.roundsFueled_eq hmatch keeps (Nat.zero_add _) h _ hst
      exact congrArg (Option.map _) hrounds

theorem visitFueled_eq {s : Step}
    (kind : ∀ r st, st.callStack = callStack → st.scope.currentFrame = frame →
      u.kindFueled body fuel frame s r st = some (u.runKind (u.bodyWithin depth) frame s.head s.kind r st))
    (stopped : Bool) (hst : st.callStack = callStack) (hframe : st.scope.currentFrame = frame) :
    u.visitFueled body fuel frame stopped s st = some (u.visit (u.bodyWithin depth) frame stopped s st) := by
  have hlook : st.checkpoint.callStack = callStack := by rw [State.checkpoint_callStack, hst]
  have hsame : st.checkpoint.scope.currentFrame = frame := by rw [State.checkpoint_scope, hframe]
  unfold visitFueled
  dsimp only
  rcases u.visit_cases (u.bodyWithin depth) frame stopped s st with ⟨hc, h⟩ | ⟨hc, rfl, h⟩ | ⟨hc, rfl, h⟩ <;> rw [h, hc]
  · rfl
  · rfl
  · rcases u.runStep_cases (u.bodyWithin depth) frame s st.checkpoint with
      ⟨reason, hg, h⟩ | ⟨e, hg, h⟩ | ⟨hg, h⟩ <;> rw [h, hg]
    · rfl
    · rfl
    · exact congrArg (Option.map reported) (kind (u.begin s) (u.inside s st.checkpoint) hlook hsame)

end Steps

/-! ### Runs -/

/-- The fuel that a sequence needs is enough for it, with these calls open. -/
def SequenceFueled (u : Setup) (call : Nat) (callStack : List String) (steps : List Step) : Prop :=
  ∀ fuel stopped st, Step.needAll u.settings call steps ≤ fuel → st.callStack = callStack →
    u.stepsFueled fuel st.scope.currentFrame stopped steps st =
      some (u.runSteps (u.bodyWithin (u.settings.maxCallDepth - callStack.length)) st.scope.currentFrame stopped steps
        st)

/-- The fuel that a step needs is enough for it, with these calls open. -/
def StepFueled (u : Setup) (call : Nat) (callStack : List String) (s : Step) : Prop :=
  ∀ fuel r st, s.need u.settings call ≤ fuel → st.callStack = callStack →
    u.kindFueled (fun steps st => u.stepsFueled fuel st.scope.currentFrame false steps st) fuel st.scope.currentFrame s
        r st =
      some (u.runKind (u.bodyWithin (u.settings.maxCallDepth - callStack.length)) st.scope.currentFrame s.head s.kind r
        st)

theorem fueled_nil {call : Nat} {callStack : List String} : SequenceFueled u call callStack [] := by
  intro fuel stopped st h hst
  rw [Step.needAll] at h
  obtain ⟨fuel, rfl⟩ := Nat.exists_eq_add_of_le' h
  rw [stepsFueled, runSteps_nil]

theorem fueled_cons {call : Nat} {callStack : List String} {s : Step} {rest : List Step}
    (one : StepFueled u call callStack s) (all : SequenceFueled u call callStack rest) :
    SequenceFueled u call callStack (s :: rest) := by
  intro fuel stopped st h hst
  rw [Step.needAll] at h
  obtain ⟨fuel, rfl⟩ := Nat.exists_eq_add_of_le' (Nat.le_trans (Nat.le_add_left 1 _) h)
  generalize hdepth : u.settings.maxCallDepth - callStack.length = depth at *
  have hvisit : u.visitFueled (fun steps st => u.stepsFueled fuel st.scope.currentFrame false steps st) fuel
      st.scope.currentFrame stopped s st = some (u.visit (u.bodyWithin depth) st.scope.currentFrame stopped s st) := by
    refine visitFueled_eq (fun r st' hst' hframe => ?_) stopped hst rfl
    rw [← hframe, ← hdepth]
    exact one fuel r st' (by omega) hst'
  -- The rest begins with the frame and the open calls with which the sequence began.
  have hkept := visit_kept ((u.run_kept depth).1 s) stopped st
  have hrest := all fuel (stopped || stops s.head (u.visit (u.bodyWithin depth) st.scope.currentFrame stopped s st).1) _
    (by omega) (hkept.callStack.trans hst)
  rw [hkept.currentFrame, hdepth] at hrest
  rw [stepsFueled]
  dsimp only [Option.bind_eq_bind]
  rw [hvisit, Option.bind_some, hrest, runSteps_cons]
  rfl

/-- Fuel that is enough for the sequences inside a step, for its rounds and its attempts is enough for the step, if
what a call needs is enough for every callee. -/
theorem steps_fueled {call : Nat} {callStack : List String}
    (callee : ∀ id w, Ordered.get? id u.library = some w → id ∉ callStack →
      callStack.length < u.settings.maxCallDepth →
      ∀ fuel, call ≤ fuel → ∀ st, st.callStack = callStack ++ [id] →
        u.stepsFueled fuel st.scope.currentFrame false w.steps st =
          some (u.runWithin (u.settings.maxCallDepth - (callStack ++ [id]).length) w.steps st))
    (steps : List Step) : SequenceFueled u call callStack steps := by
  have one : ∀ s, StepFueled u call callStack s := by
    refine @Step.tree_induction (StepFueled u call callStack) (SequenceFueled u call callStack) fueled_nil
      (fun s rest => fueled_cons) ?action ?group ?loop ?branch
    case action =>
      intro head spec fuel r st h hst
      rw [Step.need, StepKind.need] at h
      have hattempts : head.attempts ≤ fuel := Nat.le_trans (Nat.le_max_left _ _) h
      rw [kindFueled, runKind]
      refine actFueled_eq rfl (fun d id w hd hlibrary hnew st' hst' => ?_) hattempts spec r hst
      have hcallee := callee id w hlibrary hnew (by omega) fuel (by omega) st' hst'
      rw [hcallee, List.length_append, List.length_singleton]
      rw [show u.settings.maxCallDepth - (callStack.length + 1) = d by omega]
    case group =>
      intro head children all fuel r st h hst
      rw [Step.need, StepKind.need] at h
      rw [kindFueled, runKind]
      dsimp only
      rw [all fuel false st h hst]
      rfl
    case loop =>
      intro head config children all fuel r st h hst
      rw [Step.need, StepKind.need] at h
      rw [kindFueled, runKind]
      exact loopFueled_eq (fun st' hst' => all fuel false st' (by omega) hst')
        (fun st' => (u.run_kept _).2 children false st') (by omega) head.id r hst
    case branch =>
      intro head arms all fuel r st h hst
      rw [Step.need, StepKind.need] at h
      rw [kindFueled, runKind]
      refine branchFueled_eq (fun index a ha st' hst' => ?_) head.id r hst
      have hmem := List.mem_of_getElem? ha
      rw [runArm_eq, ha]
      exact all a hmem fuel false st' (Nat.le_trans (Arm.needAll_children_le hmem) h) hst'
  induction steps with
  | nil => exact fueled_nil
  | cons s rest ih => exact fueled_cons (one s) ih

/-- With the fuel for so many levels of calls, no call is left without. -/
theorem runs_fueled (u : Setup) (levels : Nat) (callStack : List String)
    (h : min (u.settings.maxCallDepth - callStack.length) (u.library.fresh callStack).card ≤ levels)
    (steps : List Step) : SequenceFueled u (u.library.need u.settings levels) callStack steps := by
  -- A call opens one more level and takes its callee out of the fresh ones: each of the two bounds goes down by one.
  induction levels generalizing callStack steps with
  | zero =>
    refine steps_fueled (fun id w hlibrary hnew hdepth => ?_) steps
    have hcard := Library.card_fresh hlibrary hnew
    omega
  | succ levels ih =>
    refine steps_fueled (fun id w hlibrary hnew hdepth fuel hfuel st hst => ?_) steps
    have hcard := Library.card_fresh hlibrary hnew
    have hlevels : min (u.settings.maxCallDepth - (callStack ++ [id]).length)
        (u.library.fresh (callStack ++ [id])).card ≤ levels := by
      rw [List.length_append, List.length_singleton]
      omega
    rw [runWithin_eq]
    exact ih (callStack ++ [id]) hlevels w.steps fuel false st
      (Nat.le_trans (Library.needAll_steps_le hlibrary) hfuel) hst

end Enough

/-- Every run ends: the fuel that is read off the tree, the library and the settings is enough for it, whatever its
executor, its scope and its commands are, and what is left over changes nothing. -/
theorem run_ends (u : Setup) (runId : String) (steps : List Step) (scope : Scope) (signals : Signals) (spare : Nat) :
    u.runFueled (u.library.enough u.settings steps + spare) runId steps { scope, signals } =
      some (u.run runId steps { scope, signals }) := by
  have hlevels : min (u.settings.maxCallDepth - ([] : List String).length) (u.library.fresh []).card ≤
      min u.settings.maxCallDepth (u.library.fresh []).card := Nat.le_refl _
  have hrun := runs_fueled u _ [] hlevels steps (u.library.enough u.settings steps + spare) false { scope, signals }
    (Nat.le_add_right _ _) rfl
  rw [runFueled, run, runWithin_eq]
  dsimp only at hrun ⊢
  rw [hrun]
  rfl

end StepTree
