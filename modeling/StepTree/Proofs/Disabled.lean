import StepTree.Proofs.Statuses
import StepTree.Proofs.Uncontrolled

/-! # Disabled steps are inert

A disabled step is skipped before anything about it is looked at. So a run to which no command is sent does the same
when the disabled steps are taken out of its tree and out of the workflows that it can call, as long as no loop loses
all the steps that it repeats: a loop without steps runs no rounds. Its records lose those of the steps taken out. -/

namespace StepTree

open Setup

/-! ### Trees without their disabled steps -/

mutual

/-- The step without the disabled steps inside it. -/
def Step.pruned : Step → Step
  | ⟨head, kind⟩ => ⟨head, kind.pruned⟩

def StepKind.pruned : StepKind → StepKind
  | .action spec => .action spec
  | .group children => .group (Step.prunedAll children)
  | .loop config children => .loop config (Step.prunedAll children)
  | .branch arms => .branch (Arm.prunedAll arms)

/-- The steps that are not disabled, each without the disabled steps inside it. -/
def Step.prunedAll : List Step → List Step
  | [] => []
  | s :: rest => if s.head.disabled then Step.prunedAll rest else s.pruned :: Step.prunedAll rest

def Arm.pruned : Arm → Arm
  | ⟨condition, label, children⟩ => ⟨condition, label, Step.prunedAll children⟩

def Arm.prunedAll : List Arm → List Arm
  | [] => []
  | a :: rest => a.pruned :: Arm.prunedAll rest

end

mutual

/-- No loop inside the step loses all the steps that it repeats; loops inside disabled steps do not matter. -/
def Step.keepsBodies : Step → Bool
  | ⟨_, kind⟩ => kind.keepsBodies

def StepKind.keepsBodies : StepKind → Bool
  | .action _ => true
  | .group children => Step.allKeepBodies children
  | .loop _ children => (children.isEmpty || children.any fun s => !s.head.disabled) && Step.allKeepBodies children
  | .branch arms => Arm.allKeepBodies arms

def Step.allKeepBodies : List Step → Bool
  | [] => true
  | s :: rest => (s.head.disabled || s.keepsBodies) && Step.allKeepBodies rest

def Arm.allKeepBodies : List Arm → Bool
  | [] => true
  | ⟨_, _, children⟩ :: rest => Step.allKeepBodies children && Arm.allKeepBodies rest

end

def Workflow.pruned (w : Workflow) : Workflow := { w with steps := Step.prunedAll w.steps }

/-- The setup with the disabled steps taken out of the workflows that can be called. -/
def Setup.pruned (u : Setup) : Setup := { u with library := u.library.map fun (id, w) => (id, w.pruned) }

@[simp] theorem Step.pruned_head (s : Step) : s.pruned.head = s.head := by
  cases s
  rfl

@[simp] theorem Step.pruned_kind (s : Step) : s.pruned.kind = s.kind.pruned := by
  cases s
  rfl

theorem Step.prunedAll_of_disabled {s : Step} (h : s.head.disabled = true) (rest : List Step) :
    Step.prunedAll (s :: rest) = Step.prunedAll rest := by
  rw [Step.prunedAll, if_pos h]

theorem Step.prunedAll_of_enabled {s : Step} (h : s.head.disabled = false) (rest : List Step) :
    Step.prunedAll (s :: rest) = s.pruned :: Step.prunedAll rest := by
  rw [Step.prunedAll, if_neg (Bool.eq_false_iff.mp h)]

theorem Arm.prunedAll_eq (arms : List Arm) : Arm.prunedAll arms = arms.map Arm.pruned := by
  induction arms with
  | nil => rfl
  | cons a rest ih => rw [Arm.prunedAll, ih, List.map_cons]

@[simp] theorem Arm.pruned_isDefault (a : Arm) : a.pruned.isDefault = a.isDefault := by
  cases a
  rfl

@[simp] theorem Arm.pruned_children (a : Arm) : a.pruned.children = Step.prunedAll a.children := by
  cases a
  rfl

theorem Arm.keepsBodies_of_mem {arms : List Arm} (h : Arm.allKeepBodies arms = true) {a : Arm} (ha : a ∈ arms) :
    Step.allKeepBodies a.children = true := by
  induction arms with
  | nil => cases ha
  | cons b rest ih =>
    obtain ⟨condition, label, children⟩ := b
    rw [Arm.allKeepBodies, Bool.and_eq_true] at h
    rcases List.mem_cons.mp ha with rfl | ha
    · exact h.1
    · exact ih h.2 ha

theorem Step.prunedAll_eq_nil {steps : List Step} :
    Step.prunedAll steps = [] ↔ ¬(steps.any fun s => !s.head.disabled) = true := by
  induction steps with
  | nil => simp [Step.prunedAll]
  | cons s rest ih =>
    cases hd : s.head.disabled
    · simp [Step.prunedAll_of_enabled hd, hd]
    · rw [Step.prunedAll_of_disabled hd, ih, List.any_cons, hd]
      rfl

theorem Step.isEmpty_prunedAll {config : LoopConfig} {children : List Step}
    (h : (StepKind.loop config children).keepsBodies = true) :
    (Step.prunedAll children).isEmpty = children.isEmpty := by
  rw [StepKind.keepsBodies, Bool.and_eq_true, Bool.or_eq_true, List.isEmpty_iff] at h
  rcases h.1 with rfl | hany
  · rfl
  · have hne : Step.prunedAll children ≠ [] := fun hnil => Step.prunedAll_eq_nil.mp hnil hany
    have hne' : children ≠ [] := by
      rintro rfl
      cases hany
    rw [List.isEmpty_eq_false_iff.mpr hne, List.isEmpty_eq_false_iff.mpr hne']

theorem Record.pending_pruned (s : Step) : Record.pending s.pruned = Record.pending s := by
  obtain ⟨head, kind⟩ := s
  cases kind <;> rfl

/-! ### Records without those of disabled steps -/

namespace Step

/-- The steps that a step runs as one sequence: those of a group, or of the workflow that an action calls. -/
def entered (library : Library) (s : Step) : List Step :=
  match s.kind with
  | .group children => children
  | .action spec =>
    match spec.config.lookup "workflowId" with
    | some (.str id) => ((Ordered.get? id library).map (·.steps)).getD []
    | _ => []
  | _ => []

/-- The steps that a loop repeats. -/
def repeated (s : Step) : List Step :=
  match s.kind with
  | .loop _ children => children
  | _ => []

/-- The steps of the arm at a position of a branch. -/
def arm (s : Step) (index : Nat) : List Step :=
  match s.kind with
  | .branch arms => (arms[index]?.map (·.children)).getD []
  | _ => []

end Step

mutual

/-- The record of a step without the records of the disabled steps inside it. -/
def Record.pruned (library : Library) (s : Step) : Record → Record
  | ⟨head, children, loop, branch⟩ =>
    ⟨head, Record.prunedAll library (s.entered library) children, LoopRecord.prunedOption library s loop,
      BranchRecord.prunedOption library s branch⟩

/-- The records of steps without those of the disabled steps among them, which were skipped. -/
def Record.prunedAll (library : Library) : List Step → List Record → List Record
  | _, [] => []
  | [], r :: rest => r :: rest
  | s :: steps, r :: rest =>
    if s.head.disabled && r.head.status = .skipped then Record.prunedAll library steps rest
    else r.pruned library s :: Record.prunedAll library steps rest

def LoopRecord.prunedOption (library : Library) (s : Step) : Option LoopRecord → Option LoopRecord
  | none => none
  | some ⟨summary, iterations⟩ => some ⟨summary, Iteration.prunedAll library s.repeated iterations⟩

def Iteration.prunedAll (library : Library) (steps : List Step) : List Iteration → List Iteration
  | [] => []
  | ⟨head, children⟩ :: rest =>
    ⟨head, Record.prunedAll library steps children⟩ :: Iteration.prunedAll library steps rest

def BranchRecord.prunedOption (library : Library) (s : Step) : Option BranchRecord → Option BranchRecord
  | none => none
  | some ⟨selection, children⟩ =>
    some ⟨selection, Record.prunedAll library (s.arm selection.index) children⟩

end

namespace Record
variable {library : Library} {s : Step} {steps : List Step} {r : Record} {records : List Record}

@[simp] theorem pruned_head (library : Library) (s : Step) (r : Record) : (r.pruned library s).head = r.head := by
  cases r
  rfl

@[simp] theorem prunedAll_nil (library : Library) (steps : List Step) : prunedAll library steps [] = [] := by
  cases steps <;> rfl

theorem prunedAll_of_skipped (disabled : s.head.disabled = true) (skipped : r.head.status = .skipped) :
    prunedAll library (s :: steps) (r :: records) = prunedAll library steps records := by
  rw [prunedAll, disabled, skipped]
  rfl

theorem prunedAll_of_enabled (enabled : s.head.disabled = false) :
    prunedAll library (s :: steps) (r :: records) = r.pruned library s :: prunedAll library steps records := by
  rw [prunedAll, enabled]
  rfl

/-- A record that holds no others stays as it is. -/
theorem pruned_plain (library : Library) (s : Step) (head : RecordHead) :
    (⟨head, [], none, none⟩ : Record).pruned library s = ⟨head, [], none, none⟩ := by
  rw [pruned, prunedAll_nil]
  rfl

end Record

/-- The second records are the first ones without those of disabled steps, which did not fail. -/
structure PrunesTo (library : Library) (steps : List Step) (records records' : List Record) : Prop where
  made : records' = Record.prunedAll library steps records
  status : sequenceStatus records' = sequenceStatus records

namespace PrunesTo
variable {library : Library} {s : Step} {steps : List Step} {r : Record} {records records' : List Record}

theorem balanced (library : Library) (steps : List Step) : Balanced (PrunesTo library steps) where
  nil := ⟨(Record.prunedAll_nil library steps).symm, rfl⟩
  status h := h.status

theorem skipped (h : PrunesTo library steps records records') (disabled : s.head.disabled = true)
    (skipped : r.head.status = .skipped) : PrunesTo library (s :: steps) (r :: records) records' where
  made := by rw [h.made, Record.prunedAll_of_skipped disabled skipped]
  status := by
    rw [h.status]
    simp [sequenceStatus, skipped]

theorem enabled (h : PrunesTo library steps records records') (enabled : s.head.disabled = false) :
    PrunesTo library (s :: steps) (r :: records) (r.pruned library s :: records') where
  made := by rw [h.made, Record.prunedAll_of_enabled enabled]
  status := by
    have hrest := h.status
    unfold sequenceStatus at hrest ⊢
    rw [List.any_cons, List.any_cons, Record.pruned_head]
    cases hf : decide (r.head.status = .failed)
    · simpa using hrest
    · rfl

theorem group {head : StepHead} {children : List Step} (h : PrunesTo library children records records')
    (record : RecordHead) :
    (⟨record, records', none, none⟩ : Record) =
      (⟨record, records, none, none⟩ : Record).pruned library ⟨head, .group children⟩ := by
  rw [h.made]
  rfl

theorem call {head : StepHead} {spec : ActionSpec} {id : String} {w : Workflow}
    (h : PrunesTo library w.steps records records') (names : spec.config.lookup "workflowId" = some (.str id))
    (found : Ordered.get? id library = some w) (record : RecordHead) :
    (⟨record, records', none, none⟩ : Record) =
      (⟨record, records, none, none⟩ : Record).pruned library ⟨head, .action spec⟩ := by
  have hentered : Step.entered library ⟨head, .action spec⟩ = w.steps := by simp [Step.entered, names, found]
  rw [h.made, Record.pruned, hentered]
  rfl

theorem iterations {before after : List Iteration}
    (h : List.Forall₂ (Iteration.Like (PrunesTo library steps)) before after) :
    after = Iteration.prunedAll library steps before := by
  induction h with
  | nil => rfl
  | @cons i i' _ _ like _ ih =>
    obtain ⟨head, children⟩ := i
    obtain ⟨head', children'⟩ := i'
    obtain ⟨hhead, hchildren⟩ := like
    obtain rfl : head' = head := hhead
    obtain rfl : children' = Record.prunedAll library steps children := hchildren.made
    rw [Iteration.prunedAll, ih]

theorem loop (head : StepHead) (config : LoopConfig) {children : List Step} (record : RecordHead) {l l' : LoopRecord}
    (h : l.Like (PrunesTo library children) l') :
    (⟨record, [], some l', none⟩ : Record) =
      (⟨record, [], some l, none⟩ : Record).pruned library ⟨head, .loop config children⟩ := by
  obtain ⟨summary, before⟩ := l
  obtain ⟨summary', after⟩ := l'
  obtain rfl : summary' = summary := h.summary
  obtain rfl : after = Iteration.prunedAll library children before := iterations h.iterations
  rw [Record.pruned, Record.prunedAll_nil]
  rfl

theorem branch (record : RecordHead) {selection : Selection}
    (h : PrunesTo library (s.arm selection.index) records records') :
    (⟨record, [], none, some ⟨selection, records'⟩⟩ : Record) =
      (⟨record, [], none, some ⟨selection, records⟩⟩ : Record).pruned library s := by
  rw [Record.pruned, Record.prunedAll_nil, BranchRecord.prunedOption, h.made]
  rfl

end PrunesTo

/-! ### Sequences and steps of a run -/

namespace Setup
variable {u : Setup} {m : Moment} {depth frame : Nat} {st st' : State}

theorem pruned_simulates (u : Setup) : Simulates u u.pruned (fun _ _ => True) u.InStep := InStep.simulates rfl rfl rfl

/-- The step does the same without the disabled steps inside it whenever a run from `m` takes it up. -/
def StepPrunes (u : Setup) (m : Moment) (depth : Nat) (s : Step) : Prop :=
  s.keepsBodies = true → ∀ {frame : Nat} {st st' : State}, Reaches u m (.step depth frame s st) → u.InStep st st' →
    Agree (fun r r' => r' = r.pruned u.library s) u.InStep (u.runStep (u.bodyWithin depth) frame s st)
      (u.pruned.runStep (u.pruned.bodyWithin depth) frame s.pruned st')

/-- The sequence does the same without disabled steps whenever a run from `m` comes to it. -/
def SequencePrunes (u : Setup) (m : Moment) (depth : Nat) (steps : List Step) : Prop :=
  Step.allKeepBodies steps = true → ∀ {frame : Nat} {stopped : Bool} {st st' : State},
    Reaches u m (.sequence depth frame stopped steps st) → u.InStep st st' →
      Agree (PrunesTo u.library steps) u.InStep (u.runSteps (u.bodyWithin depth) frame stopped steps st)
        (u.pruned.runSteps (u.pruned.bodyWithin depth) frame stopped (Step.prunedAll steps) st')

theorem skipped_pruned (library : Library) (s : Step) (reason : SkipReason) :
    Record.skipped s.pruned reason = (Record.skipped s reason).pruned library s := by
  have hplain : (Record.skipped s reason).pruned library s = Record.skipped s reason := Record.pruned_plain library s _
  rw [hplain, Record.skipped, Record.pending_pruned]
  rfl

/-- A sequence that writes into the frame which is innermost when it begins. -/
theorem SequencePrunes.sequence {steps : List Step} (all : SequencePrunes u m depth steps)
    (keeps : Step.allKeepBodies steps = true)
    (reaches : Reaches u m (.sequence depth st.scope.currentFrame false steps st)) (h : u.InStep st st') :
    Agree (PrunesTo u.library steps) u.InStep (u.runSteps (u.bodyWithin depth) st.scope.currentFrame false steps st)
      (u.pruned.runSteps (u.pruned.bodyWithin depth) st'.scope.currentFrame false (Step.prunedAll steps) st') := by
  rw [h.scope]
  exact all keeps reaches h

/-- A disabled step is skipped. -/
theorem visit_of_disabled (u : Setup) (callee : Option Body) (frame : Nat) (stopped : Bool) {s : Step} (st : State)
    (disabled : s.head.disabled = true) :
    ∃ reason, u.visit callee frame stopped s st = st.checkpoint.skip s reason := by
  have hgate : gate s.head st.checkpoint = .skip .disabled := by simp [gate, disabled]
  rcases u.visit_cases callee frame stopped s st with ⟨-, h⟩ | ⟨-, -, h⟩ | ⟨-, -, h⟩ <;> rw [h]
  · exact ⟨_, rfl⟩
  · exact ⟨_, rfl⟩
  · exact ⟨_, runStep_of_skip hgate⟩

theorem visit_pruned {stopped : Bool} {s : Step} {rest : List Step} (one : StepPrunes u m depth s)
    (keeps : s.keepsBodies = true) (reaches : Reaches u m (.sequence depth frame stopped (s :: rest) st))
    (h : u.InStep st st') :
    Agree (fun r r' => r' = r.pruned u.library s) u.InStep (u.visit (u.bodyWithin depth) frame stopped s st)
      (u.pruned.visit (u.pruned.bodyWithin depth) frame stopped s.pruned st') := by
  have hlook := h.checkpoint
  rcases u.visit_cases (u.bodyWithin depth) frame stopped s st with ⟨hc, -⟩ | ⟨-, rfl, h'⟩ | ⟨hc, rfl, h'⟩
  · exact absurd (hc.symm.trans hlook.free.goes) nofun
  · rw [h', visit_of_stopped hlook.free'.goes]
    exact ⟨skipped_pruned _ s _, hlook.emit _ _⟩
  · rw [h', visit_of_free hlook.free'.goes]
    exact one keeps (reaches.tail (.take hc)) hlook

theorem sequence_pruned {s : Step} {rest : List Step} (one : StepPrunes u m depth s)
    (all : SequencePrunes u m depth rest) : SequencePrunes u m depth (s :: rest) := by
  intro keeps frame stopped st st' reaches h
  rw [Step.allKeepBodies, Bool.and_eq_true, Bool.or_eq_true] at keeps
  have hrest := reaches.tail .next
  rw [runSteps_cons]
  cases hd : s.head.disabled
  · have hvisit := visit_pruned one (keeps.1.resolve_left (by simp [hd])) reaches h
    have hstops : stops s.pruned.head (u.pruned.visit (u.pruned.bodyWithin depth) frame stopped s.pruned st').1 =
        stops s.head (u.visit (u.bodyWithin depth) frame stopped s st).1 := by
      rw [hvisit.made, Step.pruned_head, stops, stops, Record.hasOwnFailure, Record.hasOwnFailure, Record.pruned_head]
    have hall := all keeps.2 hrest hvisit.states
    rw [Step.prunedAll_of_enabled hd, runSteps_cons]
    dsimp only
    rw [hstops, hvisit.made]
    exact ⟨hall.made.enabled hd, hall.states⟩
  · obtain ⟨reason, hskip⟩ := u.visit_of_disabled (u.bodyWithin depth) frame stopped st hd
    rw [hskip] at hrest ⊢
    have hstops : (stopped || stops s.head (st.checkpoint.skip s reason).1) = stopped := by
      rw [State.skip, stops_skipped, Bool.or_false]
    have hpassed : u.InStep (st.checkpoint.skip s reason).2 st' := (h.symm.checked.emitted _).symm
    have hall := all keeps.2 (hstops ▸ hrest) hpassed
    rw [Step.prunedAll_of_disabled hd]
    dsimp only
    rw [hstops]
    exact ⟨hall.made.skipped hd rfl, hall.states⟩

theorem begin_pruned (u : Setup) (s : Step) : u.pruned.begin s.pruned = u.begin s := by
  rw [begin, begin, Record.pending_pruned]
  rfl

theorem inside_pruned (u : Setup) (s : Step) (st : State) : u.pruned.inside s.pruned st = u.pruned.inside s st := by
  rw [Setup.inside, Setup.inside, begin_pruned]
  rfl

/-- A step prunes as soon as it does when it begins. -/
theorem step_pruned {callee callee' : Option Body} {s : Step} (h : u.InStep st st')
    (kind : gate s.head st = .begin → Agree (fun r r' => r' = r.pruned u.library s) u.InStep
      (u.runKind callee frame s.head s.kind (u.begin s) (u.inside s st))
      (u.pruned.runKind callee' frame s.head s.kind.pruned (u.begin s) (u.pruned.inside s st'))) :
    Agree (fun r r' => r' = r.pruned u.library s) u.InStep (u.runStep callee frame s st)
      (u.pruned.runStep callee' frame s.pruned st') := by
  have hinside := u.pruned_simulates.inside h s
  have hgate : gate s.pruned.head st' = gate s.head st := by rw [Step.pruned_head, u.pruned_simulates.gate_eq h]
  cases hg : gate s.head st with
  | skip reason =>
    rw [runStep_of_skip hg, runStep_of_skip (hgate.trans hg)]
    exact ⟨skipped_pruned _ s reason, h.emit _ _⟩
  | failure e =>
    have hfail : u.pruned.fail (u.pruned.inside s st') (u.begin s) (.evaluation e) =
        (u.fail (u.inside s st) (u.begin s) (.evaluation e)).pruned u.library s := by
      rw [u.pruned_simulates.fail_eq hinside]
      exact (Record.pruned_plain _ s _).symm
    rw [runStep_of_failure hg, runStep_of_failure (hgate.trans hg), unmet, unmet, begin_pruned, inside_pruned]
    exact ⟨hfail, hinside.emit _ _⟩
  | begin =>
    have hkind := kind hg
    rw [runStep_of_begin hg, runStep_of_begin (hgate.trans hg), begun, begun, begin_pruned, inside_pruned,
      Step.pruned_head, Step.pruned_kind]
    exact ⟨hkind.made, hkind.states.emit _ _⟩

/-! ### Steps of each kind -/

theorem get?_pruned (u : Setup) (id : String) :
    Ordered.get? id u.pruned.library = (Ordered.get? id u.library).map Workflow.pruned := by
  change Ordered.get? id (u.library.map fun (id, w) => (id, w.pruned)) = _
  induction u.library with
  | nil => rfl
  | cons e rest ih =>
    obtain ⟨name, w⟩ := e
    rw [List.map_cons, Ordered.get?, Ordered.get?]
    split
    · rfl
    · exact ih

/-- A call enters the same workflow, without its disabled steps. -/
theorem callee_pruned (h : st'.callStack = st.callStack) (mayEnter : Bool) (a : Action) :
    u.pruned.callee mayEnter st' a = (u.callee mayEnter st a).map fun (id, w) => (id, w.pruned) := by
  have hactive : u.pruned.active st' = u.active st := by
    rw [active, active, h]
    rfl
  unfold callee
  rw [hactive]
  cases calleeId? a with
  | none => rfl
  | some id =>
    dsimp only
    rw [get?_pruned]
    split
    · rfl
    · split
      · rfl
      · cases Ordered.get? id u.library <;> rfl

theorem call_pruned {head : StepHead} {spec : ActionSpec}
    (library : ∀ e ∈ u.library, Step.allKeepBodies e.2.steps = true)
    (all : ∀ d, depth = d + 1 → ∀ steps, SequencePrunes u m d steps)
    (reaches : Reaches u m (.step depth frame ⟨head, .action spec⟩ st)) (hg : gate head st = .begin)
    (isCall : spec.actionType = callActionType) (h : u.InStep st st') (record : RecordHead) :
    let began := u.inside ⟨head, .action spec⟩ st
    let began' := u.pruned.inside ⟨head, .action spec⟩ st'
    Agree (fun r r' => r' = r.pruned u.library ⟨head, .action spec⟩) u.InStep
      (u.call (u.bodyWithin depth) frame head (resolved began head spec) ⟨record, [], none, none⟩ began)
      (u.pruned.call (u.pruned.bodyWithin depth) frame head (resolved began head spec) ⟨record, [], none, none⟩
        began') := by
  intro began began'
  have hbegan : u.InStep began began' := u.pruned_simulates.inside h _
  have hsome : (u.pruned.bodyWithin depth).isSome = (u.bodyWithin depth).isSome := by cases depth <;> rfl
  have hcallee := callee_pruned (u := u) hbegan.callStack (u.bodyWithin depth).isSome (resolved began head spec)
  cases hc : u.callee (u.bodyWithin depth).isSome began (resolved began head spec) with
  | error e =>
    rw [hc, ← hsome] at hcallee
    rw [call_of_error hc, call_of_error hcallee]
    refine ⟨?_, hbegan⟩
    dsimp only
    rw [u.pruned_simulates.fail_eq hbegan]
    exact (Record.pruned_plain _ _ _).symm
  | ok entered =>
    obtain ⟨id, w⟩ := entered
    obtain ⟨names, -, hmayEnter, found⟩ := callee_eq_ok.mp hc
    obtain ⟨run, hrun⟩ := Option.isSome_iff_exists.mp hmayEnter
    obtain ⟨d, rfl, rfl⟩ := bodyWithin_eq_some hrun
    have hkeeps : Step.allKeepBodies w.steps = true := library (id, w) (Ordered.mem_of_get? found)
    have hbody := (all d rfl w.steps).sequence hkeeps (reaches.tail (.call hg isCall hc))
      (u.pruned_simulates.calleeState hbegan id w (resolved began head spec))
    rw [hc] at hcallee
    rw [show u.bodyWithin (d + 1) = some (u.runWithin d) from rfl,
      show u.pruned.bodyWithin (d + 1) = some (u.pruned.runWithin d) from rfl, call_of_ok hc, call_of_ok hcallee,
      runWithin_eq, runWithin_eq]
    exact u.pruned_simulates.callEnded (PrunesTo.balanced _ _) (fun record _ _ h => h.call names found record) hbegan
      head _ id hbody

theorem act_pruned {head : StepHead} {spec : ActionSpec}
    (library : ∀ e ∈ u.library, Step.allKeepBodies e.2.steps = true)
    (all : ∀ d, depth = d + 1 → ∀ steps, SequencePrunes u m d steps)
    (reaches : Reaches u m (.step depth frame ⟨head, .action spec⟩ st)) (hg : gate head st = .begin)
    (h : u.InStep st st') (record : RecordHead) :
    Agree (fun r r' => r' = r.pruned u.library ⟨head, .action spec⟩) u.InStep
      (u.act (u.bodyWithin depth) frame head spec ⟨record, [], none, none⟩ (u.inside ⟨head, .action spec⟩ st))
      (u.pruned.act (u.pruned.bodyWithin depth) frame head spec ⟨record, [], none, none⟩
        (u.pruned.inside ⟨head, .action spec⟩ st')) := by
  have hbegan := u.pruned_simulates.inside h ⟨head, .action spec⟩
  have hresolved := u.pruned_simulates.resolved_eq hbegan head spec
  have hsupplied := u.pruned_simulates.supplied_eq hbegan head spec ⟨record, [], none, none⟩
  by_cases hcall : spec.actionType = callActionType
  · rw [act_of_call hcall, act_of_call hcall, hresolved, hsupplied]
    exact call_pruned library all reaches hg hcall h _
  · rw [act_of_action hcall, act_of_action hcall, hresolved, hsupplied]
    exact u.pruned_simulates.perform hbegan head _ _ fun head => (Record.pruned_plain _ _ head).symm

/-- What a branch does depends on its arms only through their conditions and labels. -/
theorem branch_pruned (u : Setup) (stepId : String) (arms : List Arm) (body : Nat → State → List Record × State)
    (r : Record) (st : State) : u.branch stepId (Arm.prunedAll arms) body r st = u.branch stepId arms body r st := by
  have hempty : (Arm.prunedAll arms).isEmpty = arms.isEmpty := by cases arms <;> rfl
  have hlooked : ∀ index, Arm.evaluateAll u st index (Arm.prunedAll arms) = Arm.evaluateAll u st index arms := by
    induction arms with
    | nil => exact fun _ => rfl
    | cons a rest ih =>
      intro index
      obtain ⟨condition, label, children⟩ := a
      have hone : (Arm.mk condition label children).pruned.evaluate u st index =
          (Arm.mk condition label children).evaluate u st index := rfl
      rw [Arm.prunedAll, Arm.evaluateAll, Arm.evaluateAll, hone, ih (by cases rest <;> rfl)]
  have hdefault : ∀ index : Nat, (Arm.prunedAll arms)[index]?.map Arm.isDefault = arms[index]?.map Arm.isDefault := by
    intro index
    rw [Arm.prunedAll_eq, List.getElem?_map]
    cases arms[index]? <;> simp
  unfold Setup.branch
  simp only [hempty, hlooked, hdefault]

/-- A run prunes: steps that are not disabled do the same when the disabled ones among and inside them are gone. -/
theorem run_prunes (library : ∀ e ∈ u.library, Step.allKeepBodies e.2.steps = true) (m : Moment) (depth : Nat) :
    (∀ s, StepPrunes u m depth s) ∧ ∀ steps, SequencePrunes u m depth steps := by
  refine run_induction (StepPrunes u m) (SequencePrunes u m) ?nil ?cons ?action ?group ?loop ?branch depth
  case nil =>
    intro depth _ frame stopped st st' _ h
    rw [Step.prunedAll, runSteps_nil, runSteps_nil]
    exact ⟨(PrunesTo.balanced _ _).nil, h⟩
  case cons => exact fun depth s rest one all => sequence_pruned one all
  case action =>
    intro depth head spec all _ frame st st' reaches h
    refine step_pruned h fun hg => ?_
    rw [StepKind.pruned, runKind, runKind]
    exact act_pruned library all reaches hg h _
  case group =>
    intro depth head children all keeps frame st st' reaches h
    refine step_pruned h fun hg => ?_
    have hout := all.sequence keeps (reaches.tail (.group hg)) (u.pruned_simulates.inside h ⟨head, .group children⟩)
    rw [StepKind.pruned, runKind, runKind]
    dsimp only
    rw [hout.made.status]
    exact ⟨hout.made.group _, hout.states⟩
  case loop =>
    intro depth head config children all keeps frame st st' reaches h
    have hloop : (StepKind.loop config children).keepsBodies = true := keeps
    have hkeeps : Step.allKeepBodies children = true := by
      rw [StepKind.keepsBodies, Bool.and_eq_true] at hloop
      exact hloop.2
    refine step_pruned h fun hg => ?_
    rw [StepKind.pruned, runKind, runKind, Step.isEmpty_prunedAll hloop]
    refine u.pruned_simulates.loop (PrunesTo.balanced _ _) (fun reaches h => all.sequence hkeeps reaches h)
      (fun record _ _ h => PrunesTo.loop head config record h) (fun plan hne hplan => ?_) (u.pruned_simulates.inside h _) _
    exact reaches.tail (.loop hg hne hplan)
  case branch =>
    intro depth head arms all keeps frame st st' reaches h
    refine step_pruned h fun hg => ?_
    rw [StepKind.pruned, runKind, runKind, branch_pruned]
    refine u.pruned_simulates.branch (A := fun index => PrunesTo u.library (Step.arm ⟨head, .branch arms⟩ index))
      (Q := fun r r' => r' = r.pruned u.library ⟨head, .branch arms⟩) (fun _ => PrunesTo.balanced _ _)
      (fun _ => (Record.pruned_plain _ _ _).symm) (fun record _ _ _ h => PrunesTo.branch record h)
      (u.pruned_simulates.inside h _) _ _ _ fun e htaken => ?_
    obtain ⟨a, ha⟩ := Arm.find?_isArm htaken
    have hkeeps := Arm.keepsBodies_of_mem keeps (List.mem_of_getElem? ha)
    have harm : Step.arm ⟨head, .branch arms⟩ e.index = a.children := by simp [Step.arm, ha]
    have ha' : (Arm.prunedAll arms)[e.index]? = some a.pruned := by
      rw [Arm.prunedAll_eq, List.getElem?_map, ha]
      rfl
    rw [Setup.inside, Arm.evaluateAll_emit] at htaken
    rw [runArm_eq, runArm_eq, ha, ha', harm]
    dsimp only
    rw [Arm.pruned_children]
    exact (all a (List.mem_of_getElem? ha)).sequence hkeeps (reaches.tail (.arm hg htaken ha))
      (u.pruned_simulates.emit (u.pruned_simulates.inside h _) trivial)

/-- A run that was not cancelled ends as the sequence of its steps does. -/
theorem run_status_of_goes {runId : String} {steps : List Step}
    (goes : (u.run runId steps st).2.cancelled = false) :
    (u.run runId steps st).1.status =
      if sequenceStatus (u.run runId steps st).1.steps = .failed then .failed else .passed := by
  have hstatus : (u.run runId steps st).1.status = .of (u.run runId steps st).1.steps false := by
    rw [← goes]
    rfl
  have hfailed := runStatus_eq_failed (run_steps_surface goes)
  rw [← sequenceStatus_eq_failed] at hfailed
  rw [hstatus]
  split
  · next h => exact hfailed.mpr h
  · next h =>
    have hpassed : ∀ records, RunStatus.of records false = .failed ∨ RunStatus.of records false = .passed := by
      intro records
      simp only [RunStatus.of, Bool.false_eq_true, ↓reduceIte]
      split
      · exact Or.inl rfl
      · exact Or.inr rfl
    exact (hpassed _).resolve_left fun hf => h (hfailed.mp hf)

end Setup

/-- Disabled steps are inert. A run to which no command is sent makes the same calls and the same writes, and ends in the
same scope with the same status, when all disabled steps are taken out of its tree and of the workflows that it can
call; its records are the same but for those of the steps taken out, all of which were skipped. -/
theorem disabled_steps_inert (u : Setup) (runId : String) {steps : List Step} {st : State} (free : u.Free st)
    (keeps : Step.allKeepBodies steps = true) (library : ∀ e ∈ u.library, Step.allKeepBodies e.2.steps = true) :
    let whole := u.run runId steps st
    let pruned := u.pruned.run runId (Step.prunedAll steps) st
    pruned.2.calls = whole.2.calls ∧ pruned.1.variableChanges = whole.1.variableChanges ∧
      pruned.2.scope = whole.2.scope ∧ pruned.1.status = whole.1.status ∧
      pruned.1.steps = Record.prunedAll u.library steps whole.1.steps := by
  intro whole pruned
  have hagree : Agree (PrunesTo u.library steps) u.InStep (whole.1.steps, whole.2) (pruned.1.steps, pruned.2) := by
    have hsequence := ((run_prunes library (.first u steps st) u.settings.maxCallDepth).2 steps).sequence keeps .refl
      (.refl free)
    rw [← runWithin_eq, ← runWithin_eq] at hsequence
    exact hsequence
  obtain ⟨hmade, hstates⟩ := hagree
  refine ⟨hstates.calls, congrArg Array.toList hstates.changes, hstates.scope, ?_, hmade.made⟩
  rw [run_status_of_goes hstates.free'.goes, run_status_of_goes hstates.free.goes, hmade.status]

/-- A loop of two rounds and the workflow called in each of them lose their disabled steps, which have conditions without
a value. -/
theorem disabled_steps_inert_in_calls :
    let off (id : String) : Step := ⟨{ id, disabled := true, condition := some "1 +" }, .action ⟨"ask", []⟩⟩
    let inner : Workflow := { steps := [off "never", ⟨{ id := "ask" }, .action ⟨"ask", []⟩⟩] }
    let u : Setup := { executor := fun _ _ => { result := .ok .null }, library := [("inner", inner)] }
    let call : Step := ⟨{ id := "call" }, .action ⟨"workflow", [("workflowId", .str "inner")]⟩⟩
    let steps : List Step := [off "first",
      ⟨{ id := "twice" }, .loop { loopType := .times, count := some (.literal 2) } [off "second", call]⟩]
    let st : State := { scope := .empty }
    let whole := u.run "run" steps st
    let pruned := u.pruned.run "run" (Step.prunedAll steps) st
    u.Free st ∧ Step.allKeepBodies steps = true ∧ (∀ e ∈ u.library, Step.allKeepBodies e.2.steps = true) ∧
      pruned.1.steps = Record.prunedAll u.library steps whole.1.steps ∧
      (Record.walkAll whole.1.steps).map (·.head.stepId) = ["first", "twice", "second", "call", "never", "ask",
        "second", "call", "never", "ask"] ∧
      (Record.walkAll pruned.1.steps).map (·.head.stepId) = ["twice", "call", "ask", "call", "ask"] := by
  -- The two runs stay written out: to compare them with a name for them is to evaluate them.
  intro off inner u call steps st
  have free : u.Free st := ⟨rfl, rfl, rfl, fun _ hm => by cases hm⟩
  have keeps : Step.allKeepBodies steps = true := by decide +kernel
  have library : ∀ e ∈ u.library, Step.allKeepBodies e.2.steps = true := by
    intro e he
    obtain rfl : e = ("inner", inner) := List.mem_singleton.mp he
    decide +kernel
  obtain ⟨-, -, -, -, records⟩ := disabled_steps_inert u "run" free keeps library
  exact ⟨free, keeps, library, records, by decide +kernel, by decide +kernel⟩

end StepTree
