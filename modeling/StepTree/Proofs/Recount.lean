import StepTree.Proofs.Containment
import StepTree.Proofs.Mirror
import StepTree.Proofs.Signals

/-! # Events recount the trace

The events of a run, its changes of phase left aside, recount its trace: the start and the end of every
record enclose what is told of the records inside it, in their order, and the writes of its outputs. -/

namespace StepTree

open Setup

/-! ### Events of records -/

/-- The event that tells of a write. -/
def VariableChange.event (c : VariableChange) : Event := .variableChanged c.stepId c.name c.newValue

/-- The event tells of a write. -/
def Event.isWrite : Event → Bool
  | .variableChanged .. => true
  | _ => false

/-- The event that tells of the start of a step. -/
def Record.started (r : Record) (time : Timestamp) : Event :=
  .stepStarted r.head.stepId r.head.stepName r.head.stepKind time

namespace Iteration

/-- The event that tells of the start of an iteration. -/
def started (stepId : String) (i : Iteration) : Event := .iterationStarted stepId i.head.index i.head.itemValue

/-- The event that tells of the end of an iteration. -/
def finished (stepId : String) (i : Iteration) : Event :=
  .iterationFinished stepId i.head.index i.head.status i.head.durationMs

end Iteration

/-- The event that tells of the end of a loop. -/
def LoopRecord.finished (stepId : String) (l : LoopRecord) : Event :=
  .loopFinished stepId l.summary.exitReason l.summary.completed

/-- The event that tells which arm was taken. -/
def Selection.event (stepId : String) (s : Selection) : Event := .branchSelected stepId s.index s.label

/-- The plan of a loop was built: the number of its iterations is recorded, or it goes by a condition that is
there. -/
def LoopConfig.Planned (c : LoopConfig) (l : LoopRecord) : Prop :=
  match c.loopType with
  | .whilst => c.condition.isSome = true
  | _ => l.summary.totalIterations.isSome = true

mutual

/-- The events recount the record of a step, in which the changes were written. -/
inductive Recounts (u : Setup) : Step → Record → List VariableChange → List Event → Prop
  | skipped {s : Step} {r : Record} (start : r.head.startTime = none) (nested : r.nested = []) :
    Recounts u s r [] [r.finished]
  | begun {s : Step} {r : Record} {time : Timestamp} {changes : List VariableChange} {events : List Event}
    (start : r.head.startTime = some time) (inside : RecountsInside u s r changes events) :
    Recounts u s r changes (r.started time :: (events ++ [r.finished]))

/-- The events recount what happened between the start of a step and its end. -/
inductive RecountsInside (u : Setup) : Step → Record → List VariableChange → List Event → Prop
  /-- Only an action writes. -/
  | alone {s : Step} {h : RecordHead} {own : List VariableChange} (byStep : ∀ c ∈ own, c.stepId = h.stepId)
    (byAction : own ≠ [] → s.tag = .action) :
    RecountsInside u s ⟨h, [], none, none⟩ own (own.map VariableChange.event)
  /-- A call writes when its callee has ended. -/
  | call {head : StepHead} {spec : ActionSpec} {h : RecordHead} {id : String} {w : Workflow} {children : List Record}
    {inner own : List VariableChange} {events : List Event} (callee : Ordered.get? id u.library = some w)
    (inside : RecountsAll u w.steps children inner events) (byStep : ∀ c ∈ own, c.stepId = h.stepId) :
    RecountsInside u ⟨head, .action spec⟩ ⟨h, children, none, none⟩ (inner ++ own)
      (events ++ own.map VariableChange.event)
  | group {head : StepHead} {steps : List Step} {h : RecordHead} {children : List Record}
    {changes : List VariableChange} {events : List Event} (inside : RecountsAll u steps children changes events) :
    RecountsInside u ⟨head, .group steps⟩ ⟨h, children, none, none⟩ changes events
  /-- A loop that has no steps, or whose plan could not be built. -/
  | idleLoop {head : StepHead} {config : LoopConfig} {steps : List Step} {h : RecordHead} {l : LoopRecord}
    (idle : steps = [] ∨ ¬config.Planned l) (iterations : l.iterations = []) :
    RecountsInside u ⟨head, .loop config steps⟩ ⟨h, [], some l, none⟩ [] []
  | loop {head : StepHead} {config : LoopConfig} {steps : List Step} {h : RecordHead} {l : LoopRecord}
    {changes : List VariableChange} {events : List Event} (some_step : steps ≠ []) (planned : config.Planned l)
    (inside : RecountsRounds u h.stepId steps l.iterations changes events) :
    RecountsInside u ⟨head, .loop config steps⟩ ⟨h, [], some l, none⟩ changes (events ++ [l.finished h.stepId])
  | arm {head : StepHead} {arms : List Arm} {h : RecordHead} {selection : Selection} {children : List Record} {a : Arm}
    {changes : List VariableChange} {events : List Event} (isArm : arms[selection.index]? = some a)
    (inside : RecountsAll u a.children children changes events) :
    RecountsInside u ⟨head, .branch arms⟩ ⟨h, [], none, some ⟨selection, children⟩⟩ changes
      (selection.event h.stepId :: events)

/-- The events recount the records of a sequence one after the other. -/
inductive RecountsAll (u : Setup) : List Step → List Record → List VariableChange → List Event → Prop
  | nil : RecountsAll u [] [] [] []
  | cons {s : Step} {r : Record} {changes : List VariableChange} {events : List Event} {steps : List Step}
    {records : List Record} {changes' : List VariableChange} {events' : List Event}
    (first : Recounts u s r changes events) (rest : RecountsAll u steps records changes' events') :
    RecountsAll u (s :: steps) (r :: records) (changes ++ changes') (events ++ events')

/-- The events recount the iterations of a loop one after the other. An iteration runs all steps of the loop
or none. -/
inductive RecountsRounds (u : Setup) :
    String → List Step → List Iteration → List VariableChange → List Event → Prop
  | none {stepId : String} {steps : List Step} : RecountsRounds u stepId steps [] [] []
  | round {stepId : String} {steps : List Step} {before : List Iteration} {changes : List VariableChange}
    {events : List Event} {i : Iteration} {run : List Step} {changes' : List VariableChange} {events' : List Event}
    (earlier : RecountsRounds u stepId steps before changes events) (whole : run = [] ∨ run = steps)
    (inside : RecountsAll u run i.children changes' events') :
    RecountsRounds u stepId steps (before ++ [i]) (changes ++ changes')
      (events ++ i.started stepId :: (events' ++ [i.finished stepId]))

end

/-! ### What a part of a run adds -/

namespace State

/-- The events so far, changes of phase left aside; none if nobody listens. -/
def told (st : State) : Option (List Event) := st.signals.heard.map (List.filter (!·.isPhase))

theorem told_emit (st : State) {e : Event} (h : e.isPhase = false) : (st.emit e).told = st.told.map (· ++ [e]) := by
  unfold told emit
  rw [Signals.heard_emit]
  cases st.signals.heard <;> simp [h]

/-- Changes of phase are not told. -/
theorem told_of_hears {st st' : State} (h : st.signals.Hears Event.isPhase st'.signals) : st'.told = st.told := by
  obtain ⟨phases, hphases, heard⟩ := h
  have hnone : phases.filter (!·.isPhase) = [] := by
    rw [List.filter_eq_nil_iff]
    intro e he
    simp [hphases e he]
  unfold told
  rw [heard]
  cases st.signals.heard <;> simp [hnone]

@[simp] theorem told_checkpoint (st : State) : st.checkpoint.told = st.told := by
  unfold checkpoint
  split
  · rfl
  · exact told_of_hears (Signals.checkpoint_hears st.signals)

end State

/-- From `st` to `st'` the events were told and the changes were recorded. -/
structure Adds (st st' : State) (changes : List VariableChange) (events : List Event) : Prop where
  told : st'.told = st.told.map (· ++ events)
  changes : st'.changes.toList = st.changes.toList ++ changes

namespace Adds
variable {st st' st'' : State} {changes changes' : List VariableChange} {events events' : List Event}

/-- Nothing was told or recorded if neither the signals nor the changes differ. -/
theorem same (signals : st'.signals = st.signals) (changes : st'.changes = st.changes) : Adds st st' [] [] where
  told := by
    have htold : st'.told = st.told := by rw [State.told, State.told, signals]
    simp [htold]
  changes := by simp [changes]

theorem refl (st : State) : Adds st st [] [] := same rfl rfl

theorem trans (h : Adds st st' changes events) (h' : Adds st' st'' changes' events') :
    Adds st st'' (changes ++ changes') (events ++ events') where
  told := by
    rw [h'.told, h.told]
    cases st.told <;> simp
  changes := by rw [h'.changes, h.changes, List.append_assoc]

theorem emit (h : Adds st st' changes events) {e : Event} (he : e.isPhase = false) :
    Adds st (st'.emit e) changes (events ++ [e]) where
  told := by
    rw [State.told_emit st' he, h.told]
    cases st.told <;> simp
  changes := h.changes

theorem checkpoint (st : State) : Adds st st.checkpoint [] [] := ⟨by simp, by simp⟩

end Adds

section Kinds
variable {u : Setup} {callee : Option Body} {frame : Nat}

/-- A write is recorded and told at once. -/
theorem bindOutput_adds (u : Setup) (frame : Nat) (stepId : String) (result : Json) (st : State)
    (o : String × String) :
    ∃ c : VariableChange, c.stepId = stepId ∧ Adds st (u.bindOutput frame stepId result st o) [c] [c.event] := by
  refine ⟨_, ?_, ?_, Array.toList_push⟩
  · rfl
  · exact State.told_emit { st with scope := _ } rfl

theorem bindOutputs_adds (u : Setup) (frame : Nat) (head : StepHead) (result : Json) (st : State) :
    ∃ own : List VariableChange, (∀ c ∈ own, c.stepId = head.id) ∧
      Adds st (u.bindOutputs frame head result st) own (own.map VariableChange.event) := by
  refine bindOutputs_keep (P := fun st' => ∃ own : List VariableChange, (∀ c ∈ own, c.stepId = head.id) ∧
    Adds st st' own (own.map VariableChange.event)) ?_ ⟨[], List.forall_mem_nil _, Adds.refl st⟩
  rintro st' o - ⟨own, hown, hadds⟩
  obtain ⟨c, hc, hadd⟩ := bindOutput_adds u frame head.id result st' o
  refine ⟨own ++ [c], List.forall_mem_append.mpr ⟨hown, List.forall_mem_singleton.mpr hc⟩, ?_⟩
  rw [List.map_append]
  exact hadds.trans hadd

/-- An action that ends tells of its writes, if it passes. -/
theorem conclude_adds (u : Setup) (frame : Nat) (head : StepHead) (r : Record) (result : Except StepError Json)
    (st : State) :
    ∃ own : List VariableChange, (∀ c ∈ own, c.stepId = head.id) ∧
      Adds st (u.conclude frame head r result st).2 own (own.map VariableChange.event) := by
  cases result with
  | ok value => exact bindOutputs_adds u frame head value st
  | error e => exact ⟨[], List.forall_mem_nil _, Adds.refl st⟩

/-- From `st` on the steps of a sequence were run, and the events recount their records. -/
def Recounted (u : Setup) (steps : List Step) (st : State) (out : List Record × State) : Prop :=
  ∃ changes events, RecountsAll u steps out.1 changes events ∧ Adds st out.2 changes events

/-- From `st` on a step was carried out, and the events recount what happened inside it. -/
def RecountedInside (u : Setup) (s : Step) (st : State) (out : Record × State) : Prop :=
  ∃ changes events, RecountsInside u s out.1 changes events ∧ Adds st out.2 changes events

theorem recounted_alone {s : Step} {h : RecordHead} (st : State) :
    RecountedInside u s st (⟨h, [], none, none⟩, st) :=
  ⟨[], [], .alone (List.forall_mem_nil _) fun hne => (hne rfl).elim, Adds.refl st⟩

theorem recounted_act
    (hbody : ∀ run ∈ callee, ∀ steps st, Recounted u steps st (run steps st)) {head : StepHead} (spec : ActionSpec)
    (st : State) :
    RecountedInside u ⟨head, .action spec⟩ st (u.act callee frame head spec (u.begin ⟨head, .action spec⟩) st) := by
  rcases u.act_cases callee frame head spec (u.begin ⟨head, .action spec⟩) st with
    ⟨-, n, commands, result, -, -, h⟩ | ⟨-, e, -, h⟩ | ⟨-, run, id, w, hrun, henters, h⟩ <;> rw [h]
  · obtain ⟨own, hown, hadds⟩ := conclude_adds u frame head
      (recordAttempts (u.supplied head spec (u.begin ⟨head, .action spec⟩) st) n) result
      (st.handed (resolved st head spec) n commands)
    refine ⟨own, own.map VariableChange.event, ?_, hadds.told, hadds.changes⟩
    cases result <;> exact .alone hown fun _ => rfl
  · exact recounted_alone st
  · have hlibrary := (callee_eq_ok.mp henters).2.2.2
    obtain ⟨inner, events, hinside, hcallee⟩ := hbody run hrun w.steps (calleeState id w (resolved st head spec) st)
    generalize run w.steps (calleeState id w (resolved st head spec) st) = out at hinside hcallee ⊢
    -- What the callee told and wrote is still there when the scope of the caller is back.
    have hback : Adds st (returned st out.2) inner events := ⟨hcallee.told, hcallee.changes⟩
    have hfails : ∀ h : RecordHead, RecountsInside u ⟨head, .action spec⟩ ⟨h, out.1, none, none⟩ inner events := by
      intro h
      have hcall : RecountsInside u ⟨head, .action spec⟩ ⟨h, out.1, none, none⟩ (inner ++ []) (events ++ [].map _) :=
        .call hlibrary hinside (List.forall_mem_nil _)
      rwa [List.map_nil, List.append_nil, List.append_nil] at hcall
    rcases u.callEnded_cases frame head (u.supplied head spec (u.begin ⟨head, .action spec⟩) st) id st out with
      ⟨-, h⟩ | ⟨-, -, h⟩ | ⟨-, -, h⟩ <;> rw [h]
    · exact ⟨inner, events, hfails _, hback⟩
    · exact ⟨inner, events, hfails _, hback⟩
    · obtain ⟨own, hown, hadds⟩ := conclude_adds u frame head
        { recordAttempts (u.supplied head spec (u.begin ⟨head, .action spec⟩) st) 1 with children := out.1 }
        (.ok (.obj out.2.scope.root.values)) (returned st out.2)
      exact ⟨_, _, .call hlibrary hinside hown, hback.trans hadds⟩

theorem recounted_branch {head : StepHead} {arms : List Arm} {body : Nat → State → List Record × State}
    (hbody : ∀ (index : Nat) (a : Arm), arms[index]? = some a → ∀ st, Recounted u a.children st (body index st))
    (st : State) :
    RecountedInside u ⟨head, .branch arms⟩ st (u.branch head.id arms body (u.begin ⟨head, .branch arms⟩) st) := by
  rcases u.branch_cases head.id arms body (u.begin ⟨head, .branch arms⟩) st with ⟨-, h⟩ | ⟨-, -, h⟩ | ⟨e, htaken, h⟩
  · rw [h]
    exact recounted_alone st
  · rw [h, noneTaken]
    split <;> exact recounted_alone st
  · obtain ⟨a, ha⟩ := Arm.find?_isArm htaken
    have hselected : Adds st (st.emit (.branchSelected head.id e.index e.label)) [] [_] := (Adds.refl st).emit rfl
    obtain ⟨changes, events, hinside, hadds⟩ := hbody e.index a ha (st.emit (.branchSelected head.id e.index e.label))
    dsimp only at h
    rw [h]
    exact ⟨changes, _, .arm ha hinside, hselected.trans hadds⟩

end Kinds

/-! ### Loops -/

namespace LoopConfig
variable {c : LoopConfig} {lookup : Template.Lookup} {l : LoopRecord}

/-- A loop that has a plan is recorded with the number of iterations that the plan foresees. -/
theorem planned_of_plan {plan : Plan} (h : c.plan lookup = .ok plan) (total : l.summary.totalIterations = plan.total?) :
    c.Planned l := by
  unfold LoopConfig.plan at h
  unfold Planned
  cases ht : c.loopType <;> simp only [ht] at h ⊢
  · split at h
    · cases h
    · next source hs =>
      cases hv : Condition.evalArray lookup source <;> rw [hv] at h <;> cases h
      rw [total]
      rfl
  · split at h
    · cases h
    · next condition hs =>
      rw [hs]
      rfl
  · split at h
    · cases h
    · next spec hs =>
      cases hv : spec.eval lookup <;> rw [hv] at h <;> cases h
      rw [total]
      rfl

theorem not_planned {e : Condition.EvalError} (h : c.plan lookup = .error e)
    (total : l.summary.totalIterations = none) :
    ¬c.Planned l := by
  unfold LoopConfig.plan at h
  unfold Planned
  cases ht : c.loopType <;> simp only [ht] at h ⊢
  · simp [total]
  · split at h
    · next hs => simp [hs]
    · cases h
  · simp [total]

end LoopConfig

section Rounds
variable {u : Setup} {l : Repetition} {steps : List Step}

/-- A round tells of the start and the end of its iteration, and in between of the steps that it ran. -/
theorem recounted_round (hbody : ∀ st, Recounted u steps st (l.body st)) (index : Nat) (st : State) :
    let out := l.round u index (l.opened index st)
    ∃ run changes events, (run = [] ∨ run = steps) ∧ RecountsAll u run out.1.children changes events ∧
      Adds st out.2 changes (out.1.started l.stepId :: (events ++ [out.1.finished l.stepId])) := by
  have hopened : Adds st (l.opened index st) [] [] := Adds.same rfl rfl
  have hstart : ∀ item, Adds st ((l.opened index st).emit (.iterationStarted l.stepId index item)) []
      [.iterationStarted l.stepId index item] := fun item => hopened.emit rfl
  have hclosed : ∀ {inner : State} {changes events}, Adds st inner changes events →
      Adds st (l.closed inner) changes events := by
    intro inner changes events h
    obtain ⟨scope, hscope⟩ := l.closed_eq inner
    rw [hscope]
    exact ⟨h.told, h.changes⟩
  rw [Repetition.round_eq, Repetition.iteration]
  dsimp only
  rcases l.iterate_cases u index (u.redactValue (l.opened index st) (l.plan.item index)) _ with
    ⟨-, h⟩ | ⟨e, -, h⟩ | ⟨-, h⟩ <;> rw [h]
  · exact ⟨[], [], [], Or.inl rfl, .nil, (hclosed (hstart _)).emit rfl⟩
  · exact ⟨[], [], [], Or.inl rfl, .nil, (hclosed (hstart _)).emit rfl⟩
  · obtain ⟨changes, events, hinside, hadds⟩ := hbody ((l.opened index st).emit _)
    exact ⟨steps, changes, events, Or.inr rfl, hinside, (hclosed ((hstart _).trans hadds)).emit rfl⟩

/-- What the rounds of a loop come to, told from the state in which the loop began. -/
theorem recounted_turns (hbody : ∀ st, Recounted u steps st (l.body st)) (st : State) :
    ∃ changes events, RecountsRounds u l.stepId steps (l.turns u st).1.iterations changes events ∧
      Adds st (l.turns u st).2.2 changes events := by
  refine Repetition.rounds_keep (P := fun record st' => ∃ changes events,
    RecountsRounds u l.stepId steps record.iterations changes events ∧ Adds st st' changes events) ?look ?round _ _
    ?first
  case first => exact ⟨[], [], .none, Adds.same rfl rfl⟩
  case look =>
    rintro record st' ⟨changes, events, hinside, hadds⟩
    refine ⟨changes, events, hinside, ?_⟩
    simpa using hadds.trans (Adds.checkpoint st')
  case round =>
    rintro index record st' ⟨changes, events, hinside, hadds⟩
    obtain ⟨run, changes', events', hrun, hround, hadd⟩ := recounted_round hbody index st'
    exact ⟨_, _, .round hinside hrun hround, hadds.trans hadd⟩

/-- Rounds change neither the type of their loop nor the number of iterations that was planned. -/
theorem turns_total (l : Repetition) (u : Setup) (st : State) :
    (l.turns u st).1.summary.totalIterations = l.plan.total? :=
  Repetition.rounds_keep (P := fun record _ => record.summary.totalIterations = l.plan.total?) (fun _ _ h => h)
    (fun _ _ _ h => h) _ _ rfl

theorem recounted_loop {head : StepHead} {config : LoopConfig} {body : State → List Record × State}
    (hbody : ∀ st, Recounted u steps st (body st)) (st : State) :
    RecountedInside u ⟨head, .loop config steps⟩ st
      (u.loop head.id config steps.isEmpty body (u.begin ⟨head, .loop config steps⟩) st) := by
  rcases u.loop_cases head.id config steps.isEmpty body (u.begin ⟨head, .loop config steps⟩) st with
    ⟨hempty, h⟩ | ⟨-, e, hplan, h⟩ | ⟨hne, plan, hplan, h⟩
  · rw [h]
    exact ⟨[], [], .idleLoop (Or.inl (List.isEmpty_iff.mp hempty)) rfl, Adds.refl st⟩
  · rw [h]
    exact ⟨[], [], .idleLoop (Or.inr (LoopConfig.not_planned hplan rfl)) rfl, Adds.refl st⟩
  · have hsteps : steps ≠ [] := by simpa using hne
    rw [h, Repetition.run_eq]
    generalize hl : (⟨head.id, config, plan, u.settings.iterationLimit config.maxIterations,
      st.scope.push.currentFrame, body⟩ : Repetition) = l
    have hid : l.stepId = head.id := by rw [← hl]
    have hplanned : config.Planned ((l.turns u st).1.ended (l.turns u st).2.1.reason) :=
      LoopConfig.planned_of_plan hplan (by rw [← hl]; exact turns_total _ u st)
    obtain ⟨changes, events, hinside, hadds⟩ := recounted_turns (l := l) (by rw [← hl]; exact hbody) st
    rw [hid] at hinside
    have hleft : Adds st (l.left (l.turns u st)) changes
        (events ++ [((l.turns u st).1.ended (l.turns u st).2.1.reason).finished head.id]) := by
      rw [← hid]
      have hpop : Adds st { (l.turns u st).2.2 with scope := (l.turns u st).2.2.scope.pop } changes events :=
        ⟨hadds.told, hadds.changes⟩
      exact hpop.emit rfl
    refine ⟨changes, _, ?_, hleft⟩
    dsimp only
    rcases Repetition.ended_cases u (u.begin ⟨head, .loop config steps⟩) _ _ _ with ⟨e, -, h⟩ | ⟨reason, -, h⟩ <;>
      rw [h]
    · exact .loop hsteps hplanned hinside
    · exact .loop hsteps hplanned hinside

end Rounds

/-! ### Whole runs -/

section Runs
variable {u : Setup} {depth frame : Nat}

/-- From `st` on a step was come to, and the events recount its record. -/
def RecountedStep (u : Setup) (s : Step) (st : State) (out : Record × State) : Prop :=
  ∃ changes events, Recounts u s out.1 changes events ∧ Adds st out.2 changes events

theorem recounted_skip (st : State) (s : Step) (reason : SkipReason) : RecountedStep u s st (st.skip s reason) :=
  ⟨[], _, .skipped rfl rfl, (Adds.refl st).emit rfl⟩

/-- The start of a step is told as the start of its record. -/
theorem begun_started {s : Step} {st : State} (h : gate s.head st = .begin) :
    (u.begun (u.bodyWithin depth) frame s st).1.started u.now = u.started (u.begin s) := by
  have hmirrors := (run_mirrors u (.step depth frame s st) depth).1 s frame st .refl
  rw [runStep_of_begin h] at hmirrors
  obtain ⟨hid, hname, hkind, -⟩ := hmirrors.labels
  rw [Record.started, hid, hname, hkind]
  rfl

theorem recounted_step {s : Step} {st : State}
    (inside : RecountedInside u s (u.inside s st)
      (u.runKind (u.bodyWithin depth) frame s.head s.kind (u.begin s) (u.inside s st))) :
    RecountedStep u s st (u.runStep (u.bodyWithin depth) frame s st) := by
  have hstart : Adds st (u.inside s st) [] [u.started (u.begin s)] := (Adds.refl st).emit rfl
  rcases u.runStep_cases (u.bodyWithin depth) frame s st with ⟨reason, -, h⟩ | ⟨e, -, h⟩ | ⟨hg, h⟩ <;> rw [h]
  · exact recounted_skip st s reason
  · exact ⟨[], _, .begun rfl (.alone (List.forall_mem_nil _) fun hne => (hne rfl).elim), hstart.emit rfl⟩
  · obtain ⟨changes, events, hinside, hadds⟩ := inside
    have hstamped := u.begun_follows (u.bodyWithin depth) frame s st
    refine ⟨changes, _, .begun hstamped.1 hinside, ?_⟩
    rw [begun_started hg]
    exact (hstart.trans hadds).emit rfl

theorem recounted_visit {stopped : Bool} {s : Step} {st : State}
    (one : ∀ st, RecountedStep u s st (u.runStep (u.bodyWithin depth) frame s st)) :
    RecountedStep u s st (u.visit (u.bodyWithin depth) frame stopped s st) := by
  have hlook : ∀ {out}, RecountedStep u s st.checkpoint out → RecountedStep u s st out := by
    rintro out ⟨changes, events, hrecounts, hadds⟩
    exact ⟨changes, events, hrecounts, (Adds.checkpoint st).trans hadds⟩
  rcases u.visit_cases (u.bodyWithin depth) frame stopped s st with ⟨-, h⟩ | ⟨-, -, h⟩ | ⟨-, -, h⟩ <;> rw [h]
  · exact hlook (recounted_skip st.checkpoint s .cancelled)
  · exact hlook (recounted_skip st.checkpoint s .priorFailure)
  · exact hlook (one st.checkpoint)

/-- The events recount the record of every step, and the records of every sequence. -/
theorem run_recounts (u : Setup) (depth : Nat) :
    (∀ s frame st, RecountedStep u s st (u.runStep (u.bodyWithin depth) frame s st)) ∧
    ∀ steps frame stopped st, Recounted u steps st (u.runSteps (u.bodyWithin depth) frame stopped steps st) := by
  refine run_induction
    (fun depth s => ∀ frame st, RecountedStep u s st (u.runStep (u.bodyWithin depth) frame s st))
    (fun depth steps => ∀ frame stopped st,
      Recounted u steps st (u.runSteps (u.bodyWithin depth) frame stopped steps st))
    ?nil ?cons ?action ?group ?loop ?branch depth
  case nil =>
    intro depth frame stopped st
    rw [runSteps_nil]
    exact ⟨[], [], .nil, Adds.refl st⟩
  case cons =>
    intro depth s rest one all frame stopped st
    rw [runSteps_cons]
    obtain ⟨changes, events, hfirst, hadds⟩ : RecountedStep u s st (u.visit (u.bodyWithin depth) frame stopped s st) :=
      recounted_visit (one frame)
    obtain ⟨changes', events', hrest, hadds'⟩ := all frame _ _
    exact ⟨_, _, .cons hfirst hrest, hadds.trans hadds'⟩
  case action =>
    intro depth head spec callee frame st
    refine recounted_step ?_
    rw [runKind]
    refine recounted_act (fun run hrun steps st => ?_) spec _
    obtain ⟨d, hd, rfl⟩ := bodyWithin_eq_some hrun
    rw [runWithin_eq]
    exact callee d hd steps _ _ st
  case group =>
    intro depth head children all frame st
    refine recounted_step ?_
    rw [runKind]
    obtain ⟨changes, events, hinside, hadds⟩ := all _ _ (u.inside ⟨head, .group children⟩ st)
    exact ⟨changes, events, .group hinside, hadds⟩
  case loop =>
    intro depth head config children all frame st
    refine recounted_step ?_
    rw [runKind]
    exact recounted_loop (fun st => all _ _ st) _
  case branch =>
    intro depth head arms all frame st
    refine recounted_step ?_
    rw [runKind]
    refine recounted_branch (fun index a ha st => ?_) _
    rw [runArm_eq, ha]
    exact all a (List.mem_of_getElem? ha) _ _ st

end Runs

/-! ### The stream of a run -/

theorem filter_isWrite (changes : List VariableChange) :
    (changes.map VariableChange.event).filter Event.isWrite = changes.map VariableChange.event := by
  rw [List.filter_eq_self]
  intro e he
  obtain ⟨c, -, rfl⟩ := List.mem_map.mp he
  rfl

-- What is told of writes while a record is recounted are its changes, in their order.
mutual

theorem Recounts.writes {u : Setup} {s : Step} {r : Record} {changes : List VariableChange} {events : List Event} :
    Recounts u s r changes events → events.filter Event.isWrite = changes.map VariableChange.event
  | .skipped _ _ => rfl
  | .begun _ inside => by simp [inside.writes, Record.started, Record.finished, Event.isWrite]

theorem RecountsInside.writes {u : Setup} {s : Step} {r : Record} {changes : List VariableChange}
    {events : List Event} :
    RecountsInside u s r changes events → events.filter Event.isWrite = changes.map VariableChange.event
  | .alone _ _ => filter_isWrite _
  | .call _ inside _ => by rw [List.filter_append, inside.writes, filter_isWrite, List.map_append]
  | .group inside => inside.writes
  | .idleLoop _ _ => rfl
  | .loop _ _ inside => by simp [inside.writes, LoopRecord.finished, Event.isWrite]
  | .arm _ inside => by simp [inside.writes, Selection.event, Event.isWrite]

theorem RecountsAll.writes {u : Setup} {steps : List Step} {records : List Record} {changes : List VariableChange}
    {events : List Event} :
    RecountsAll u steps records changes events → events.filter Event.isWrite = changes.map VariableChange.event
  | .nil => rfl
  | .cons first rest => by rw [List.filter_append, first.writes, rest.writes, List.map_append]

theorem RecountsRounds.writes {u : Setup} {stepId : String} {steps : List Step} {iterations : List Iteration}
    {changes : List VariableChange} {events : List Event} :
    RecountsRounds u stepId steps iterations changes events →
      events.filter Event.isWrite = changes.map VariableChange.event
  | .none => rfl
  | .round earlier _ inside => by
    simp [earlier.writes, inside.writes, Iteration.started, Iteration.finished, Event.isWrite]

end

/-- The record of a loop that begins with steps in it shows whether the plan of the loop was built. -/
theorem planned_iff {u : Setup} {depth frame : Nat} {head : StepHead} {config : LoopConfig} {steps : List Step}
    {st : State} {l : LoopRecord} (begins : gate head st = .begin) (some_step : steps ≠ [])
    (h : (u.runStep (u.bodyWithin depth) frame ⟨head, .loop config steps⟩ st).1.loop = some l) :
    config.Planned l ↔ ∃ plan, config.plan st.scope.lookup = .ok plan := by
  rw [runStep_of_begin begins, begun, runKind] at h
  rcases u.loop_cases head.id config steps.isEmpty _ (u.begin ⟨head, .loop config steps⟩)
    (u.inside ⟨head, .loop config steps⟩ st) with ⟨hempty, -⟩ | ⟨-, e, hplan, h'⟩ | ⟨-, plan, hplan, h'⟩
  · exact absurd (List.isEmpty_iff.mp hempty) some_step
  · rw [h'] at h
    have hplan : config.plan st.scope.lookup = .error e := hplan
    obtain rfl := Option.some.inj h
    constructor
    · exact fun planned => absurd planned (LoopConfig.not_planned hplan rfl)
    · rintro ⟨plan, hbuilt⟩
      cases hbuilt.symm.trans hplan
  · have hplan : config.plan st.scope.lookup = .ok plan := hplan
    rw [h', Repetition.run_eq] at h
    dsimp only at h
    refine ⟨fun _ => ⟨plan, hplan⟩, fun _ => LoopConfig.planned_of_plan hplan ?_⟩
    rcases Repetition.ended_cases u (u.begin ⟨head, .loop config steps⟩) _ _ _ with ⟨e, -, h'⟩ | ⟨reason, -, h'⟩ <;>
      rw [h'] at h <;> obtain rfl := Option.some.inj h <;> exact turns_total _ u _

/-- The events of a requested run recount its trace: between the start of the run and its end, and changes of
phase left aside, they recount the records of its steps, and every change at the step that wrote it. -/
theorem events_recount_trace (q : Request) (u : Setup) (mailbox : Option Mailbox) :
    (validate q.workflow.steps ≠ [] ∧ ∃ refusal, q.drive u { mailbox, events := some #[] } = .error refusal) ∨
    ∃ trace st events, q.drive u { mailbox, events := some #[] } = .ok (trace, st) ∧
      st.told = some (.runStarted q.runId u.now ::
        (events ++ [.runCompleted trace.runId trace.status trace.summary u.now])) ∧
      RecountsAll (q.setup u) q.workflow.steps trace.steps trace.variableChanges events ∧
      events.filter Event.isWrite = trace.variableChanges.map VariableChange.event ∧
      -- Which loops were planned is read off their records.
      ∀ depth frame head config steps now l, gate head now = .begin → steps ≠ [] →
        ((q.setup u).runStep ((q.setup u).bodyWithin depth) frame ⟨head, .loop config steps⟩ now).1.loop = some l →
        (config.Planned l ↔ ∃ plan, config.plan now.scope.lookup = .ok plan) := by
  rcases q.drive_cases u { mailbox, events := some #[] } with refused | hdrive
  · exact Or.inl refused
  · obtain ⟨changes, events, hrecounts, htold, hchanges⟩ := (run_recounts (q.setup u)
      (q.setup u).settings.maxCallDepth).2 q.workflow.steps _ false
        (q.opening (q.setup u) { mailbox, events := some #[] })
    rw [← runWithin_eq] at hrecounts htold hchanges
    have hevents : ((q.setup u).run q.runId q.workflow.steps
        (q.opening (q.setup u) { mailbox, events := some #[] })).2.told =
        some (.runStarted q.runId u.now :: events) := htold
    have htrace : ((q.setup u).run q.runId q.workflow.steps
        (q.opening (q.setup u) { mailbox, events := some #[] })).1.variableChanges = changes := hchanges
    refine Or.inr ⟨_, _, events, hdrive, ?_, htrace.symm ▸ hrecounts, htrace.symm ▸ hrecounts.writes, ?_⟩
    · exact (State.told_emit _ rfl).trans (congrArg (Option.map (· ++ [_])) hevents)
    · exact fun depth frame head config steps now l begins some_step h => planned_iff begins some_step h

end StepTree
