import StepTree.Run.Basic

/-! # Walking the tree of steps

A run visits the steps of a sequence in their order, and a step that begins runs the sequences inside it.
This file opens the functions of `StepTree/Run/Walk.lean` once: what a visit to a step comes to, how a step
begins, and the induction over trees and over the calls still allowed. -/

namespace StepTree

/-! ### What events and checkpoints leave alone -/

namespace State
variable (st : State)

@[simp] theorem emit_scope (e : Event) : (st.emit e).scope = st.scope := rfl

@[simp] theorem emit_calls (e : Event) : (st.emit e).calls = st.calls := rfl

@[simp] theorem emit_callStack (e : Event) : (st.emit e).callStack = st.callStack := rfl

@[simp] theorem emit_cancelled (e : Event) : (st.emit e).cancelled = st.cancelled := rfl

@[simp] theorem checkpoint_scope : st.checkpoint.scope = st.scope := by
  unfold checkpoint
  split <;> rfl

@[simp] theorem checkpoint_calls : st.checkpoint.calls = st.calls := by
  unfold checkpoint
  split <;> rfl

@[simp] theorem checkpoint_changes : st.checkpoint.changes = st.changes := by
  unfold checkpoint
  split <;> rfl

@[simp] theorem checkpoint_callStack : st.checkpoint.callStack = st.callStack := by
  unfold checkpoint
  split <;> rfl

/-- A run that was cancelled stays so. -/
theorem checkpoint_of_cancelled (h : st.cancelled = true) : st.checkpoint = st := by
  unfold checkpoint
  rw [h]
  rfl

end State

namespace Setup
variable {u : Setup} {callee : Option Body} {frame : Nat}

/-! ### Sequences -/

/-- Comes to a step of a sequence: looks at the commands, and runs the step unless the run is cancelled or
the sequence has stopped. -/
def visit (u : Setup) (callee : Option Body) (frame : Nat) (stopped : Bool) (s : Step) (st : State) :
    Record × State :=
  let st := st.checkpoint
  if st.cancelled then st.skip s .cancelled
  else if stopped then st.skip s .priorFailure
  else u.runStep callee frame s st

theorem visit_of_cancelled {stopped : Bool} {s : Step} {st : State} (h : st.checkpoint.cancelled = true) :
    u.visit callee frame stopped s st = st.checkpoint.skip s .cancelled := by
  simp [visit, h]

theorem visit_after_cancelled {stopped : Bool} {s : Step} {st : State} (h : st.cancelled = true) :
    u.visit callee frame stopped s st = st.skip s .cancelled := by
  have hlook : st.checkpoint = st := st.checkpoint_of_cancelled h
  rw [visit_of_cancelled (by rw [hlook, h]), hlook]

theorem visit_of_stopped {s : Step} {st : State} (h : st.checkpoint.cancelled = false) :
    u.visit callee frame true s st = st.checkpoint.skip s .priorFailure := by
  simp [visit, h]

theorem visit_of_free {s : Step} {st : State} (h : st.checkpoint.cancelled = false) :
    u.visit callee frame false s st = u.runStep callee frame s st.checkpoint := by
  simp [visit, h]

/-- A visit skips the step, or runs it. -/
theorem visit_cases (u : Setup) (callee : Option Body) (frame : Nat) (stopped : Bool) (s : Step) (st : State) :
    (st.checkpoint.cancelled = true ∧ u.visit callee frame stopped s st = st.checkpoint.skip s .cancelled) ∨
    (st.checkpoint.cancelled = false ∧ stopped = true ∧
      u.visit callee frame stopped s st = st.checkpoint.skip s .priorFailure) ∨
    (st.checkpoint.cancelled = false ∧ stopped = false ∧
      u.visit callee frame stopped s st = u.runStep callee frame s st.checkpoint) := by
  cases hc : st.checkpoint.cancelled
  · cases stopped
    · exact Or.inr (Or.inr ⟨rfl, rfl, visit_of_free hc⟩)
    · exact Or.inr (Or.inl ⟨rfl, rfl, visit_of_stopped hc⟩)
  · exact Or.inl ⟨rfl, visit_of_cancelled hc⟩

/-- A step that was skipped stops nothing. -/
@[simp] theorem stops_skipped (head : StepHead) (s : Step) (reason : SkipReason) :
    stops head (Record.skipped s reason) = false := by
  simp [stops, Record.hasOwnFailure, Record.skipped, Record.skip]

@[simp] theorem runSteps_nil (stopped : Bool) (st : State) :
    u.runSteps callee frame stopped [] st = ([], st) := by
  simp [runSteps]

theorem runSteps_cons (stopped : Bool) (s : Step) (rest : List Step) (st : State) :
    u.runSteps callee frame stopped (s :: rest) st =
      let (r, st) := u.visit callee frame stopped s st
      let (records, st) := u.runSteps callee frame (stopped || stops s.head r) rest st
      (r :: records, st) := by
  rw [runSteps]
  cases hc : st.checkpoint.cancelled
  · cases stopped <;> simp [visit, hc, State.skip]
  · simp [visit, hc, State.skip]

/-- A failure among the records of the steps keeps the later steps of their sequence from running. -/
def anyStops (steps : List Step) (records : List Record) : Bool :=
  (steps.zip records).any fun p => stops p.1.head p.2

/-- The steps of two lists run one list after the other. -/
theorem runSteps_append (stopped : Bool) (xs ys : List Step) (st : State) :
    u.runSteps callee frame stopped (xs ++ ys) st =
      let (before, st) := u.runSteps callee frame stopped xs st
      let (after, st) := u.runSteps callee frame (stopped || anyStops xs before) ys st
      (before ++ after, st) := by
  induction xs generalizing stopped st with
  | nil => simp [anyStops]
  | cons s rest ih =>
    simp only [List.cons_append, runSteps_cons, ih]
    simp [anyStops, Bool.or_assoc]

theorem length_runSteps (stopped : Bool) (steps : List Step) (st : State) :
    (u.runSteps callee frame stopped steps st).1.length = steps.length := by
  induction steps generalizing stopped st with
  | nil => simp
  | cons s rest ih => simp [runSteps_cons, ih]

/-- The steps of the arm at a position are a sequence; there is none past the last arm. -/
theorem runArm_eq (index : Nat) (arms : List Arm) (st : State) :
    u.runArm callee index arms st =
      match arms[index]? with
      | none => ([], st)
      | some a => u.runSteps callee st.scope.currentFrame false a.children st := by
  induction arms generalizing index with
  | nil => simp [runArm]
  | cons a rest ih =>
    cases index with
    | zero =>
      cases a
      simp [runArm]
    | succ index => simp [runArm, ih]

/-! ### Steps -/

/-- What decides whether a step begins: its flag, then its condition. -/
theorem gate_cases (head : StepHead) (st : State) :
    (head.disabled = true ∧ gate head st = .skip .disabled) ∨
    (head.disabled = false ∧ head.condition.map st.holds = some (.ok false) ∧ gate head st = .skip .condition) ∨
    (head.disabled = false ∧ (∃ e, head.condition.map st.holds = some (.error e) ∧ gate head st = .failure e)) ∨
    (head.disabled = false ∧ (∀ value ∈ head.condition.map st.holds, value = .ok true) ∧
      gate head st = .begin) := by
  unfold gate
  cases hd : head.disabled
  · rcases hc : head.condition.map st.holds with _ | (e | b)
    · simp
    · simp
    · cases b <;> simp
  · simp

/-- Reports the end of a step. -/
def reported (p : Record × State) : Record × State := (p.1, p.2.emit p.1.finished)

/-- The state in which a step that begins is carried out. -/
def inside (u : Setup) (s : Step) (st : State) : State := st.emit (u.started (u.begin s))

/-- A step whose condition has no value begins and fails. -/
def unmet (u : Setup) (s : Step) (e : Condition.EvalError) (st : State) : Record × State :=
  reported (u.fail (u.inside s st) (u.begin s) (.evaluation e), u.inside s st)

/-- A step that begins is carried out. -/
def begun (u : Setup) (callee : Option Body) (frame : Nat) (s : Step) (st : State) : Record × State :=
  reported (u.runKind callee frame s.head s.kind (u.begin s) (u.inside s st))

theorem runStep_of_skip {s : Step} {st : State} {reason : SkipReason} (h : gate s.head st = .skip reason) :
    u.runStep callee frame s st = st.skip s reason := by
  cases s
  simp only [runStep, h]

theorem runStep_of_failure {s : Step} {st : State} {e : Condition.EvalError} (h : gate s.head st = .failure e) :
    u.runStep callee frame s st = u.unmet s e st := by
  cases s
  simp only [runStep, h]
  rfl

theorem runStep_of_begin {s : Step} {st : State} (h : gate s.head st = .begin) :
    u.runStep callee frame s st = u.begun callee frame s st := by
  cases s
  simp only [runStep, h]
  rfl

/-- A step is skipped, or fails at its condition, or is carried out. -/
theorem runStep_cases (u : Setup) (callee : Option Body) (frame : Nat) (s : Step) (st : State) :
    (∃ reason, gate s.head st = .skip reason ∧ u.runStep callee frame s st = st.skip s reason) ∨
    (∃ e, gate s.head st = .failure e ∧ u.runStep callee frame s st = u.unmet s e st) ∨
    (gate s.head st = .begin ∧ u.runStep callee frame s st = u.begun callee frame s st) := by
  cases h : gate s.head st with
  | skip reason => exact Or.inl ⟨reason, rfl, runStep_of_skip h⟩
  | failure e => exact Or.inr (Or.inl ⟨e, rfl, runStep_of_failure h⟩)
  | begin => exact Or.inr (Or.inr ⟨rfl, runStep_of_begin h⟩)

/-! ### Calls -/

/-- What runs the steps of a callee when up to `depth` calls may be open one inside the other. -/
def bodyWithin (u : Setup) : (depth : Nat) → Option Body
  | 0 => none
  | depth + 1 => some (u.runWithin depth)

theorem runWithin_eq (depth : Nat) (steps : List Step) (st : State) :
    u.runWithin depth steps st = u.runSteps (u.bodyWithin depth) st.scope.currentFrame false steps st := by
  cases depth <;> rfl

theorem bodyWithin_eq_some {depth : Nat} {body : Body} (h : u.bodyWithin depth = some body) :
    ∃ d, depth = d + 1 ∧ body = u.runWithin d := by
  cases depth with
  | zero => cases h
  | succ d => exact ⟨d, rfl, (Option.some.inj h).symm⟩

end Setup

/-! ### Induction -/

/-- What holds of a step of each kind as soon as it holds of the sequences inside it holds of all trees. -/
theorem Step.tree_induction {One : Step → Prop} {All : List Step → Prop} (nil : All [])
    (cons : ∀ s rest, One s → All rest → All (s :: rest)) (action : ∀ head spec, One ⟨head, .action spec⟩)
    (group : ∀ head children, All children → One ⟨head, .group children⟩)
    (loop : ∀ head config children, All children → One ⟨head, .loop config children⟩)
    (branch : ∀ head arms, (∀ a ∈ arms, All a.children) → One ⟨head, .branch arms⟩) (s : Step) : One s :=
  @Step.rec One (fun kind => ∀ head, One ⟨head, kind⟩) (fun a => All a.children) All
    (fun arms => ∀ a ∈ arms, All a.children)
    (fun head _ h => h head) (fun spec head => action head spec) (fun children h head => group head children h)
    (fun config children h head => loop head config children h) (fun arms h head => branch head arms h)
    (fun _ _ _ h => h) nil (fun s rest hs hrest => cons s rest hs hrest) (by simp)
    (fun a rest ha hrest => List.forall_mem_cons.mpr ⟨ha, hrest⟩) s

/-- The induction over a run. It goes over the number of calls that may be open, and for each number over
the tree of steps; an action may enter any workflow, with one call less. -/
theorem run_induction (One : Nat → Step → Prop) (All : Nat → List Step → Prop) (nil : ∀ depth, All depth [])
    (cons : ∀ depth s rest, One depth s → All depth rest → All depth (s :: rest))
    (action : ∀ depth head spec, (∀ d, depth = d + 1 → ∀ steps, All d steps) → One depth ⟨head, .action spec⟩)
    (group : ∀ depth head children, All depth children → One depth ⟨head, .group children⟩)
    (loop : ∀ depth head config children, All depth children → One depth ⟨head, .loop config children⟩)
    (branch : ∀ depth head arms, (∀ a ∈ arms, All depth a.children) → One depth ⟨head, .branch arms⟩)
    (depth : Nat) : (∀ s, One depth s) ∧ ∀ steps, All depth steps := by
  -- The steps of a list follow from its members, so the calls need only the statement about lists.
  have lists : ∀ depth, (∀ s, One depth s) → ∀ steps, All depth steps := by
    intro depth one steps
    induction steps with
    | nil => exact nil depth
    | cons s rest ih => exact cons depth s rest (one s) ih
  have trees : ∀ depth, (∀ d, depth = d + 1 → ∀ steps, All d steps) → ∀ s, One depth s :=
    fun depth callee => Step.tree_induction (nil depth) (cons depth) (fun head spec => action depth head spec callee)
      (group depth) (loop depth) (branch depth)
  have one : ∀ depth, ∀ s, One depth s := by
    intro depth
    induction depth with
    | zero => exact trees 0 fun d h => by cases h
    | succ depth ih =>
      refine trees (depth + 1) fun d h => ?_
      cases h
      exact lists depth ih
  exact ⟨one depth, lists depth (one depth)⟩

/-! ### Requested runs -/

namespace Request

/-- The state in which the steps of a requested run begin. -/
def opening (q : Request) (u : Setup) (signals : Signals) : State where
  scope := q.scope
  signals := (signals.emit (.runStarted q.runId u.now)).reportPhase .running

/-- A requested run is refused just if its workflow has mistakes. -/
theorem drive_cases (q : Request) (u : Setup) (signals : Signals) :
    (validate q.workflow.steps ≠ [] ∧ ∃ refusal, q.drive u signals = .error refusal) ∨
    let out := (q.setup u).run q.runId q.workflow.steps (q.opening (q.setup u) signals)
    q.drive u signals =
      .ok (out.1, out.2.emit (.runCompleted out.1.runId out.1.status out.1.summary (q.setup u).now)) := by
  rw [drive]
  cases validate q.workflow.steps with
  | cons issue issues => exact Or.inl ⟨List.cons_ne_nil _ _, _, rfl⟩
  | nil => exact Or.inr rfl

end Request

end StepTree
