import StepTree.Proofs.Uncontrolled
import StepTree.Proofs.Validity

/-! # Requested runs and plain ones

A requested run to which no command is sent does what a run of the steps of its workflow does, whoever listens. That it
was requested for a workflow is seen in the refusals alone: calls of that workflow itself are refused, and where a call
of another running workflow is refused, the text lists the requested workflow as the outermost that is running. -/

namespace StepTree

open Setup

/-! ### Records with other texts -/

/-- Two records are the same but for the texts of errors, of which `E` relates the one to the other. -/
inductive Record.Reworded (E : String → String → Prop) : Record → Record → Prop
  | same (r : Record) : Reworded E r r
  | error {head : RecordHead} {text text' : String} {children : List Record} {loop : Option LoopRecord}
    {branch : Option BranchRecord} (h : E text text') :
    Reworded E ⟨{ head with error := some text }, children, loop, branch⟩
      ⟨{ head with error := some text' }, children, loop, branch⟩
  | children {head : RecordHead} {c c' : List Record} (h : List.Forall₂ (Reworded E) c c') :
    Reworded E ⟨head, c, none, none⟩ ⟨head, c', none, none⟩
  | loop {head : RecordHead} {summary : LoopSummary} {iterations iterations' : List Iteration}
    (heads : iterations'.map (·.head) = iterations.map (·.head))
    (inside : List.Forall₂ (List.Forall₂ (Reworded E)) (iterations.map (·.children)) (iterations'.map (·.children))) :
    Reworded E ⟨head, [], some ⟨summary, iterations⟩, none⟩ ⟨head, [], some ⟨summary, iterations'⟩, none⟩
  | branch {head : RecordHead} {selection : Selection} {c c' : List Record} (h : List.Forall₂ (Reworded E) c c') :
    Reworded E ⟨head, [], none, some ⟨selection, c⟩⟩ ⟨head, [], none, some ⟨selection, c'⟩⟩

namespace Record.Reworded
variable {E : String → String → Prop} {r r' : Record}

theorem refl_all (records : List Record) : List.Forall₂ (Reworded E) records records :=
  List.forall₂_same.mpr fun r _ => .same r

theorem status (h : Reworded E r r') : r'.head.status = r.head.status := by cases h <;> rfl

theorem ownFailure (h : Reworded E r r') : r'.hasOwnFailure = r.hasOwnFailure := by cases h <;> rfl

theorem nested (h : Reworded E r r') : List.Forall₂ (Reworded E) r.nested r'.nested := by
  cases h with
  | same => exact refl_all _
  | error => exact refl_all _
  | children h =>
    rw [nested_children, nested_children]
    exact h
  | loop _ inside =>
    rw [nested_loop, nested_loop, List.flatMap_def, List.flatMap_def]
    exact List.rel_flatten inside
  | branch h => exact h

theorem walk_statuses (h : Reworded E r r') :
    r'.walk.map (·.head.status) = r.walk.map (·.head.status) := by
  induction r using nested_induction generalizing r' with
  | inside r ih =>
    have hnested := h.nested
    have hall : ∀ records records', (∀ c ∈ records, c ∈ r.nested) → List.Forall₂ (Reworded E) records records' →
        (walkAll records').map (·.head.status) = (walkAll records).map (·.head.status) := by
      intro records records' hsub hall
      induction hall with
      | nil => rfl
      | cons hc _ ihrest =>
        rw [walkAll_cons, walkAll_cons, List.map_append, List.map_append, ih _ (hsub _ List.mem_cons_self) hc,
          ihrest fun c hc => hsub c (List.mem_cons_of_mem _ hc)]
    rw [walk_eq, walk_eq r, List.map_cons, List.map_cons, h.status, hall _ _ (fun _ hc => hc) hnested]

theorem walkAll_statuses {records records' : List Record} (h : List.Forall₂ (Reworded E) records records') :
    (walkAll records').map (·.head.status) = (walkAll records).map (·.head.status) := by
  induction h with
  | nil => rfl
  | cons hr _ ih => rw [walkAll_cons, walkAll_cons, List.map_append, List.map_append, hr.walk_statuses, ih]

theorem summary {records records' : List Record} (h : List.Forall₂ (Reworded E) records records') :
    RunSummary.of records' = .of records := by
  unfold RunSummary.of
  rw [walkAll_statuses h]

theorem runStatus {records records' : List Record} (h : List.Forall₂ (Reworded E) records records')
    (cancelled : Bool) : RunStatus.of records' cancelled = .of records cancelled := by
  have hany : ∀ records : List Record, ((walkAll records).any fun r => r.head.status = .failed) =
      ((walkAll records).map (·.head.status)).any (· = .failed) := by
    intro records
    rw [List.any_map]
    rfl
  unfold RunStatus.of
  rw [hany, walkAll_statuses h, ← hany]

theorem congruent : Congruent (Reworded E) fun _ _ => True where
  refl := .same
  status := status
  ownFailure := ownFailure
  finished _ := trivial
  children _ _ _ h := .children h
  branch _ _ _ _ h := .branch h
  loop head l l' h := by
    obtain ⟨summary, iterations⟩ := l
    obtain ⟨summary', iterations'⟩ := l'
    obtain ⟨hsummary, hiterations⟩ := h
    obtain rfl : summary' = summary := hsummary
    refine .loop ?_ ?_
    · dsimp only at hiterations
      induction hiterations with
      | nil => rfl
      | cons hi _ ih => rw [List.map_cons, List.map_cons, hi.head, ih]
    · rw [List.forall₂_map_left_iff, List.forall₂_map_right_iff]
      exact hiterations.imp fun _ _ hi => hi.children

end Record.Reworded

/-! ### Calls -/

namespace Request
variable {q : Request} {u : Setup} {signals : Signals}

/-- The requested run carries out a call of the workflow with an identifier, in a state. -/
def Names (q : Request) (u : Setup) (signals : Signals) (id : String) (now : State) : Prop :=
  ∃ depth frame head spec, Reaches (q.setup u) (.first (q.setup u) q.workflow.steps (q.opening (q.setup u) signals))
      (.step depth frame ⟨head, .action spec⟩ now) ∧
    gate head now = .begin ∧ spec.actionType = callActionType ∧ spec.config.lookup "workflowId" = some (.str id)

/-- The texts for which a call of a running workflow is refused, by a run that was requested for a workflow and by a
plain one. -/
def Relisted (requested marker text text' : String) : Prop :=
  ∃ (scope : Scope) (callee : String) (running : List String),
    text = scope.redact marker (StepError.alreadyRunning callee (requested :: running)).message ∧
    text' = scope.redact marker (StepError.alreadyRunning callee running).message

/-- The setup of a plain run. -/
def plainSetup (u : Setup) : Setup := { u with root := none }

section Calls
variable {st st' : State} {a : Action} {id : String}

theorem simulates_plain (q : Request) (u : Setup) :
    Simulates (q.setup u) (plainSetup u) (fun _ _ => True) (q.setup u).InStep := InStep.simulates rfl rfl rfl

/-- A call of a workflow that is neither running nor the requested one is the same in both runs. -/
theorem callee_plain (same : (q.setup u).InStep st st') (named : calleeId? a = some id) (other : id ≠ q.workflow.id)
    (idle : id ∉ st.callStack) (mayEnter : Bool) :
    (plainSetup u).callee mayEnter st' a = (q.setup u).callee mayEnter st a := by
  have hroot : id ∉ (q.setup u).root.toList := by
    have hsetup : (q.setup u).root = if q.workflow.id = "" then none else some q.workflow.id := rfl
    rw [hsetup]
    split
    · exact List.not_mem_nil
    · exact fun h => other (List.mem_singleton.mp h)
  have hfresh : id ∉ (q.setup u).active st := fun h => (List.mem_append.mp h).elim hroot idle
  have hfresh' : id ∉ (plainSetup u).active st' := by
    rw [active, same.callStack]
    exact idle
  have hlibrary : (plainSetup u).library = (q.setup u).library := rfl
  have hsettings : (plainSetup u).settings = (q.setup u).settings := rfl
  unfold callee
  rw [named]
  simp only [List.contains_iff_mem, hfresh, hfresh', hlibrary, hsettings, ↓reduceIte]

/-- Both runs refuse a call of a running workflow. -/
theorem callee_running (same : (q.setup u).InStep st st') (named : calleeId? a = some id) (running : id ∈ st.callStack)
    (mayEnter : Bool) :
    (q.setup u).callee mayEnter st a = .error (.alreadyRunning id ((q.setup u).active st)) ∧
      (plainSetup u).callee mayEnter st' a = .error (.alreadyRunning id st.callStack) := by
  have hmem : id ∈ (q.setup u).active st := List.mem_append_right _ running
  have hactive : (plainSetup u).active st' = st.callStack := same.callStack
  unfold callee
  rw [named]
  simp only [List.contains_iff_mem, hmem, hactive, running, ↓reduceIte, and_self]

theorem relisted (same : (q.setup u).InStep st st') (r : Record) :
    Record.Reworded (Relisted q.workflow.id u.settings.redactionMarker)
      ((q.setup u).fail st r (.alreadyRunning id ((q.setup u).active st)))
      ((plainSetup u).fail st' r (.alreadyRunning id st.callStack)) := by
  rw [(simulates_plain q u).fail_eq same]
  by_cases unnamed : q.workflow.id = ""
  · have hactive : (q.setup u).active st = st.callStack := by
      have hroot : (q.setup u).root = none := if_pos unnamed
      rw [active, hroot]
      rfl
    rw [hactive]
    exact .same _
  · have hactive : (q.setup u).active st = q.workflow.id :: st.callStack := by
      have hroot : (q.setup u).root = some q.workflow.id := if_neg unnamed
      rw [active, hroot]
      rfl
    rw [hactive]
    exact @Record.Reworded.error _ { r.head with status := .failed, errorKind := some .recursion } _ _ r.children
      r.loop r.branch ⟨st.scope, id, st.callStack, rfl, rfl⟩

/-- The runs do the same at every call that does not name the requested workflow, or refuse it with records related as
those for a running workflow are. -/
theorem sameCall {Q : Record → Record → Prop} (same : (q.setup u).InStep st st') (refl : ∀ r, Q r r)
    (others : ∀ id, calleeId? a = some id → id ≠ q.workflow.id)
    (refusals : ∀ id, calleeId? a = some id → id ∈ st.callStack → ∀ r,
      Q ((q.setup u).fail st r (.alreadyRunning id ((q.setup u).active st)))
        ((plainSetup u).fail st' r (.alreadyRunning id st.callStack)))
    (mayEnter : Bool) : SameCall (q.setup u) (plainSetup u) Q mayEnter st st' a := by
  have alike : ∀ e r, Q ((q.setup u).fail st r e) ((plainSetup u).fail st' r e) :=
    fun e r => (simulates_plain q u).fail_eq same r e ▸ refl _
  cases named : calleeId? a with
  | none =>
    have refuses : ∀ (u : Setup) (st : State), u.callee mayEnter st a = .error .missingCallee := by
      intro u st
      unfold callee
      rw [named]
    exact .refused (refuses _ _) (refuses _ _) (alike _)
  | some id =>
    by_cases running : id ∈ st.callStack
    · obtain ⟨refuses, refuses'⟩ := callee_running same named running mayEnter
      exact .refused refuses refuses' (refusals id named running)
    · have hcallee := callee_plain same named (others id named) running mayEnter
      cases hc : (q.setup u).callee mayEnter st a with
      | ok entered => exact .entered hc (hcallee.trans hc)
      | error e => exact .refused hc (hcallee.trans hc) (alike e)

theorem names_of {depth frame : Nat} {head : StepHead} {spec : ActionSpec}
    (reaches : Reaches (q.setup u) (.first (q.setup u) q.workflow.steps (q.opening (q.setup u) signals))
      (.step depth frame ⟨head, .action spec⟩ st))
    (go : gate head st = .begin) (isCall : spec.actionType = callActionType)
    (named : calleeId? (resolved st head spec) = some id) : q.Names u signals id st :=
  ⟨depth, frame, head, spec, reaches, go, isCall, calleeId?_eq_some.mp named⟩

end Calls

/-- The steps that carry out calls are steps of the workflow that the open calls are in. -/
theorem Names.part {id : String} {now : State} (h : q.Names u signals id now) :
    ∃ w, Owner u.library q.workflow now.callStack w ∧
      ∃ head spec, ⟨head, .action spec⟩ ∈ Step.forest w.steps ∧ spec.actionType = callActionType ∧
        spec.config.lookup "workflowId" = some (.str id) := by
  obtain ⟨depth, frame, head, spec, reaches, -, isCall, named⟩ := h
  obtain ⟨w, owner, steps⟩ := reaches.owned rfl ⟨q.workflow, .requested rfl, List.Subset.refl _⟩
  exact ⟨w, owner, head, spec, steps (Step.mem_subtree _), isCall, named⟩

/-! ### Runs -/

theorem inStep_opening (q : Request) (undisturbed : u.Undisturbed signals) :
    (q.setup u).InStep (q.opening (q.setup u) signals) { scope := q.scope } where
  scope := rfl
  calls := rfl
  changes := rfl
  callStack := rfl
  free := by
    have h : (q.setup u).Undisturbed signals := ⟨undisturbed.running, undisturbed.unasked, undisturbed.silent⟩
    exact ⟨rfl, (h.emit _).emit _⟩
  free' := ⟨rfl, rfl, rfl, fun _ hm => by cases hm⟩

/-- A requested run that is told nothing, of a valid workflow that no call in it names, hands over the same actions as a
plain run of its steps, writes the same, and leaves the same records but for texts of refused calls: a running workflow
that is called lists the requested one before those that it lists in a plain run. If no running workflow is called, the
records are the same. -/
theorem drive_agrees (q : Request) (u : Setup) (signals : Signals) (runId : String)
    (valid : validate q.workflow.steps = []) (undisturbed : u.Undisturbed signals)
    (others : ∀ id now, q.Names u signals id now → id ≠ q.workflow.id) :
    let plain := (plainSetup u).run runId q.workflow.steps { scope := q.scope }
    ∃ trace last, q.drive u signals = .ok (trace, last) ∧ last.calls = plain.2.calls ∧
      trace.variableChanges = plain.1.variableChanges ∧ trace.summary = plain.1.summary ∧
      trace.status = plain.1.status ∧
      List.Forall₂ (Record.Reworded (Relisted q.workflow.id u.settings.redactionMarker)) trace.steps plain.1.steps ∧
      ((∀ id now, q.Names u signals id now → id ∉ now.callStack) → trace.steps = plain.1.steps) := by
  intro plain
  have sim := simulates_plain q u
  have hstart := q.inStep_opening undisturbed
  have hreworded : Agree (List.Forall₂ (Record.Reworded (Relisted q.workflow.id u.settings.redactionMarker)))
      (q.setup u).InStep
      ((q.setup u).runWithin u.settings.maxCallDepth q.workflow.steps (q.opening (q.setup u) signals))
      ((plainSetup u).runWithin u.settings.maxCallDepth q.workflow.steps { scope := q.scope }) := by
    refine sim.runWithin_agree Record.Reworded.congruent hstart fun reaches go isCall same mayEnter => ?_
    exact sameCall same .same (fun id named => others id _ (names_of reaches go isCall named))
      (fun _ _ _ => relisted same) mayEnter
  have hsame : (∀ id now, q.Names u signals id now → id ∉ now.callStack) → Agree (List.Forall₂ Eq)
      (q.setup u).InStep
      ((q.setup u).runWithin u.settings.maxCallDepth q.workflow.steps (q.opening (q.setup u) signals))
      ((plainSetup u).runWithin u.settings.maxCallDepth q.workflow.steps { scope := q.scope }) := by
    intro idle
    refine sim.runWithin_agree (.eq fun _ => trivial) hstart fun reaches go isCall same mayEnter => ?_
    exact sameCall same (fun _ => rfl) (fun id named => others id _ (names_of reaches go isCall named))
      (fun id named running => absurd running (idle id _ (names_of reaches go isCall named))) mayEnter
  rcases q.drive_cases u signals with ⟨mistaken, -⟩ | hdrive
  · exact absurd valid mistaken
  · refine ⟨_, _, hdrive, hreworded.states.calls.symm, congrArg Array.toList hreworded.states.changes.symm,
      (Record.Reworded.summary hreworded.made).symm, ?_, hreworded.made, fun idle => ?_⟩
    · have hcancelled := hreworded.states.free'.goes.trans hreworded.states.free.goes.symm
      exact ((congrArg (RunStatus.of _) hcancelled).trans (Record.Reworded.runStatus hreworded.made _)).symm
    · exact List.forall₂_eq_eq_eq ▸ (hsame idle).made

/-- A called workflow does what is asked of it, under the eyes of a listener who could send commands. -/
theorem watched_call_agrees :
    let note : Step := ⟨{ id := "note", inputs := [("text", "{{ text }}")] }, .action ⟨"note", []⟩⟩
    let child : Workflow := { id := "child", steps := [note] }
    let go : Step := ⟨{ id := "go", inputs := [("text", "hello")] },
      .action ⟨callActionType, [("workflowId", .str "child")]⟩⟩
    let q : Request := { runId := "run", workflow := { id := "main", steps := [go] } }
    let u : Setup := { executor := fun _ _ => { result := .ok .null }, library := [("child", child)] }
    let signals : Signals := { mailbox := some {}, events := some #[] }
    let plain := (plainSetup u).run "plain" q.workflow.steps { scope := q.scope }
    validate q.workflow.steps = [] ∧ u.Undisturbed signals ∧ (∀ id now, q.Names u signals id now → id ≠ "main") ∧
      ∃ trace last, q.drive u signals = .ok (trace, last) ∧ last.calls = plain.2.calls ∧
        trace.steps = plain.1.steps ∧ plain.2.calls.toList.map (·.inputs) = [[("text", "hello")]] := by
  intro note child go q u signals plain
  have valid : validate q.workflow.steps = [] := by decide +kernel
  have undisturbed : u.Undisturbed signals := by
    refine ⟨rfl, rfl, fun m hm => ?_⟩
    obtain rfl : ({} : Mailbox) = m := Option.some.inj hm
    exact ⟨rfl, List.forall_mem_nil _, fun _ _ => rfl⟩
  have names : ∀ id now, q.Names u signals id now → id = "child" ∧ now.callStack = [] := by
    intro id now h
    obtain ⟨w, owner, head, spec, part, isCall, named⟩ := h.part
    cases owner with
    | requested closed =>
      rw [StepKind.action.inj (Step.mk.inj (List.mem_singleton.mp part)).2] at named
      cases named
      exact ⟨rfl, closed⟩
    | called last known =>
      obtain ⟨-, rfl⟩ := Prod.mk.inj (List.mem_singleton.mp (Ordered.mem_of_get? known))
      rw [StepKind.action.inj (Step.mk.inj (List.mem_singleton.mp part)).2] at isCall
      exact absurd isCall (by decide)
  have others : ∀ id now, q.Names u signals id now → id ≠ "main" := by
    intro id now h
    rw [(names id now h).1]
    decide
  obtain ⟨trace, last, hdrive, calls, -, -, -, -, same⟩ := drive_agrees q u signals "plain" valid undisturbed others
  have idle : ∀ id now, q.Names u signals id now → id ∉ now.callStack := by
    intro id now h
    rw [(names id now h).2]
    exact List.not_mem_nil
  exact ⟨valid, undisturbed, others, trace, last, hdrive, calls, same idle, by decide +kernel⟩

/-- A called workflow calls itself. -/
theorem refusal_lists_requested :
    let call (id : String) : ActionSpec := ⟨callActionType, [("workflowId", .str id)]⟩
    let child : Workflow := { id := "child", steps := [⟨{ id := "again" }, .action (call "child")⟩] }
    let q : Request :=
      { runId := "run", workflow := { id := "main", steps := [⟨{ id := "go" }, .action (call "child")⟩] } }
    let u : Setup := { executor := fun _ _ => { result := .ok .null }, library := [("child", child)] }
    let plain := (plainSetup u).run "run" q.workflow.steps { scope := q.scope }
    let errors (t : Trace) := (Record.walkAll t.steps).filterMap (·.head.error)
    validate q.workflow.steps = [] ∧ u.Undisturbed {} ∧ (∀ id now, q.Names u {} id now → id ≠ "main") ∧
      (∀ trace last, q.drive u {} = .ok (trace, last) → trace.steps ≠ plain.1.steps) ∧
      (q.drive u {}).toOption.map (fun out => errors out.1) = some ["sub-workflow 'child' failed",
        "workflow 'child' is already running (main -> child -> child)"] ∧
      errors plain.1 = ["sub-workflow 'child' failed", "workflow 'child' is already running (child -> child)"] := by
  intro call child q u plain errors
  have valid : validate q.workflow.steps = [] := by decide +kernel
  have undisturbed : u.Undisturbed {} := ⟨rfl, rfl, fun _ hm => by cases hm⟩
  have others : ∀ id now, q.Names u {} id now → id ≠ "main" := by
    intro id now h
    obtain ⟨w, owner, head, spec, part, -, named⟩ := h.part
    have hspec : spec = call "child" := by
      cases owner with
      | requested => exact StepKind.action.inj (Step.mk.inj (List.mem_singleton.mp part)).2
      | called last known =>
        obtain ⟨-, rfl⟩ := Prod.mk.inj (List.mem_singleton.mp (Ordered.mem_of_get? known))
        exact StepKind.action.inj (Step.mk.inj (List.mem_singleton.mp part)).2
    rw [hspec] at named
    cases named
    decide
  have driven : (q.drive u {}).toOption.map (fun out => errors out.1) = some ["sub-workflow 'child' failed",
      "workflow 'child' is already running (main -> child -> child)"] := by decide +kernel
  have plainly : errors plain.1 = ["sub-workflow 'child' failed",
      "workflow 'child' is already running (child -> child)"] := by decide +kernel
  refine ⟨valid, undisturbed, others, fun trace last hdrive same => ?_, driven, plainly⟩
  have hsame : errors trace = errors plain.1 :=
    congrArg (fun steps => (Record.walkAll steps).filterMap (·.head.error)) same
  rw [hdrive] at driven
  have htexts := (Option.some.inj driven).symm.trans (hsame.trans plainly)
  exact absurd htexts (by decide)

end Request

end StepTree
