import StepTree.Proofs.Kinds
import StepTree.Proofs.Records

/-! # Invocations

A trace tells which actions were handed to the executor: in the order of its walk, the record of an action
that is no call stands for as many invocations as it counts attempts. What every step adds to the actions
carried out is what its record tells, and so are the steps of a run one after the other. -/

namespace StepTree

open Setup

/-! ### What records tell -/

/-- The invocations that a record tells of, by step id; those of the records inside it left aside. -/
def Record.invocations (r : Record) : List String :=
  match r.head.actionType with
  | some actionType => if actionType = callActionType then [] else List.replicate r.head.attempts.toNat r.head.stepId
  | none => []

/-- The invocations that records and all records inside them tell of. -/
def Record.allInvocations (records : List Record) : List String := (walkAll records).flatMap invocations

/-- The invocations so far, by step id. -/
def State.invoked (st : State) : List String := st.calls.toList.map (·.stepId)

namespace Record
variable {r : Record}

@[simp] theorem allInvocations_nil : allInvocations [] = [] := rfl

@[simp] theorem allInvocations_append (before after : List Record) :
    allInvocations (before ++ after) = allInvocations before ++ allInvocations after := by
  simp [allInvocations]

/-- A record tells of its own invocations, and then of those inside it. -/
theorem allInvocations_singleton (r : Record) : allInvocations [r] = r.invocations ++ allInvocations r.nested := by
  simp [allInvocations, walk_eq]

theorem invocations_of_call (h : r.head.actionType = some callActionType) : r.invocations = [] := by
  unfold invocations
  rw [h]
  exact if_pos rfl

theorem invocations_of_attempts_zero (h : r.head.attempts = 0) : r.invocations = [] := by
  unfold invocations
  rw [h]
  split
  · split <;> rfl
  · rfl

/-- The attempts at an action are recorded as they are, since there are at most a hundred. -/
theorem invocations_of_attempts {spec : ActionSpec} {n : Nat} (hne : spec.actionType ≠ callActionType)
    (hn : n ≤ maxAttempts) (hr : r.head.actionType = some spec.actionType) (h : r.head.attempts = UInt32.ofNat n) :
    r.invocations = List.replicate n r.head.stepId := by
  have hlt : n < UInt32.size := Nat.lt_of_le_of_lt hn (by decide)
  unfold invocations
  rw [hr, h]
  dsimp only
  rw [if_neg hne, UInt32.toNat_ofNat_of_lt' hlt]

end Record

/-! ### What steps add -/

/-- What a run from `st` hands over is what its records tell of. -/
def Tells (st : State) (out : List Record × State) : Prop := out.2.invoked = st.invoked ++ Record.allInvocations out.1

section Kinds
variable {u : Setup} {callee : Option Body} {frame : Nat}

theorem Tells.nil (st : State) : Tells st ([], st) := by
  simp [Tells]

/-- What comes first is told first. -/
theorem Tells.append {before after : List Record} {st st' st'' : State} (h : Tells st (before, st'))
    (h' : Tells st' (after, st'')) : Tells st (before ++ after, st'') := by
  rw [Tells] at h h' ⊢
  rw [h', h, Record.allInvocations_append, List.append_assoc]

/-- A step tells of the attempts that it made by itself. -/
theorem tells_of_attempts {r : Record} {a : Action} {n : Nat} {st st' : State}
    (hst : st'.calls = st.calls ++ Array.replicate n a) (hr : r.invocations = List.replicate n a.stepId)
    (hnested : r.nested = []) : Tells st ([r], st') := by
  rw [Tells, Record.allInvocations_singleton, hr, hnested]
  simp [State.invoked, hst]

/-- A step that hands nothing over leaves a record that tells of nothing. -/
theorem tells_of_nothing {r : Record} {st st' : State} (hst : st'.calls = st.calls) (hr : r.invocations = [])
    (hnested : r.nested = []) : Tells st ([r], st') := by
  rw [Tells, Record.allInvocations_singleton, hr, hnested]
  simp [State.invoked, hst]

/-- A step tells of what a sequence inside it tells of if it hands nothing over by itself. -/
theorem tells_of_sequence {r : Record} {records : List Record} {st st' inner : State} (h : Tells st (records, inner))
    (hst : st'.calls = inner.calls) (hr : r.invocations = []) (hnested : r.nested = records) : Tells st ([r], st') := by
  rw [Tells] at h ⊢
  rw [Record.allInvocations_singleton, hr, hnested, List.nil_append, ← h]
  simp [State.invoked, hst]

@[simp] theorem bindOutputs_calls (head : StepHead) (result : Json) (st : State) :
    (u.bindOutputs frame head result st).calls = st.calls :=
  bindOutputs_keep (P := fun st' => st'.calls = st.calls) (fun _ _ _ h => h) rfl

@[simp] theorem conclude_calls (head : StepHead) (r : Record) (result : Except StepError Json) (st : State) :
    (u.conclude frame head r result st).2.calls = st.calls := by
  cases result with
  | ok value => exact bindOutputs_calls head value st
  | error e => rfl

theorem tells_act (hbody : ∀ run ∈ callee, ∀ steps st, Tells st (run steps st)) {head : StepHead} (spec : ActionSpec)
    (st : State) :
    let out := u.act callee frame head spec (u.begin ⟨head, .action spec⟩) st
    Tells st ([out.1], out.2) := by
  rcases u.act_cases callee frame head spec (u.begin ⟨head, .action spec⟩) st with
    ⟨hne, n, commands, result, -, hn, h⟩ | ⟨heq, e, -, h⟩ | ⟨heq, run, id, w, hrun, -, h⟩ <;> rw [h] <;> dsimp only
  -- Whether the action succeeds or fails, its attempts are counted and nothing is recorded inside.
  · refine tells_of_attempts (a := resolved st head spec) (conclude_calls ..) ?_ ?_
    · cases result <;> exact Record.invocations_of_attempts hne hn rfl rfl
    · cases result <;> rfl
  · exact tells_of_nothing rfl (Record.invocations_of_call (congrArg some heq)) rfl
  · have hcallee : Tells st (run w.steps (calleeState id w (resolved st head spec) st)) := hbody run hrun w.steps _
    generalize run w.steps (calleeState id w (resolved st head spec) st) = out at hcallee ⊢
    have hcall : (u.begin ⟨head, .action spec⟩).head.actionType = some callActionType := congrArg some heq
    rcases u.callEnded_cases frame head (u.supplied head spec (u.begin ⟨head, .action spec⟩) st) id st out with
      ⟨-, h⟩ | ⟨-, -, h⟩ | ⟨-, -, h⟩ <;> rw [h]
    · exact tells_of_sequence hcallee rfl (Record.invocations_of_call hcall) (Record.nested_children _ _)
    · exact tells_of_sequence hcallee rfl (Record.invocations_of_call hcall) (Record.nested_children _ _)
    · exact tells_of_sequence hcallee (conclude_calls ..) (Record.invocations_of_call hcall)
        (Record.nested_children _ _)

theorem tells_branch {stepId : String} {arms : List Arm} {body : Nat → State → List Record × State}
    (hbody : ∀ index st, Tells st (body index st)) (head : StepHead) (st : State) :
    let out := u.branch stepId arms body (u.begin ⟨head, .branch arms⟩) st
    Tells st ([out.1], out.2) := by
  rcases u.branch_cases stepId arms body (u.begin ⟨head, .branch arms⟩) st with ⟨-, h⟩ | ⟨-, -, h⟩ | ⟨e, -, h⟩
  · rw [h]
    exact tells_of_nothing rfl rfl rfl
  · rw [h, noneTaken]
    split <;> exact tells_of_nothing rfl rfl rfl
  · dsimp only at h
    rw [h]
    exact tells_of_sequence (hbody e.index (st.emit _)) rfl rfl (Record.nested_branch _ _)

theorem tells_round {l : Repetition} (hbody : ∀ st, Tells st (l.body st)) (index : Nat) (st : State) :
    Tells st ((l.round u index (l.opened index st)).1.children, (l.round u index (l.opened index st)).2) := by
  rw [Repetition.round_eq, Repetition.iteration]
  rcases l.iterate_cases u index (u.redactValue (l.opened index st) (l.plan.item index)) _ with
    ⟨-, h⟩ | ⟨e, -, h⟩ | ⟨-, h⟩ <;> rw [h] <;> unfold Tells State.invoked <;>
    simp only [State.emit_calls, Repetition.closed_calls]
  · exact Tells.nil st
  · exact Tells.nil st
  · exact hbody ((l.opened index st).emit _)

/-- The iterations of a loop tell of what was handed over since the loop began. -/
theorem tells_turns {l : Repetition} (hbody : ∀ st, Tells st (l.body st)) (st : State) :
    Tells st ((l.turns u st).1.iterations.flatMap (·.children), (l.turns u st).2.2) := by
  refine Repetition.rounds_keep (P := fun record st' => Tells st (record.iterations.flatMap (·.children), st'))
    ?look ?round _ _ ?first
  case first => exact Tells.nil st
  case look =>
    intro record st' h
    unfold Tells State.invoked at h ⊢
    rwa [State.checkpoint_calls]
  case round =>
    intro index record st' h
    have hadd : (record.add (l.round u index (l.opened index st')).1).iterations.flatMap (·.children) =
        record.iterations.flatMap (·.children) ++ (l.round u index (l.opened index st')).1.children := by
      simp [LoopRecord.add]
    rw [hadd]
    exact h.append (tells_round hbody index st')

theorem tells_loop {stepId : String} {config : LoopConfig} {isEmpty : Bool} {steps : List Step}
    {body : State → List Record × State} (hbody : ∀ st, Tells st (body st)) (head : StepHead) (st : State) :
    let out := u.loop stepId config isEmpty body (u.begin ⟨head, .loop config steps⟩) st
    Tells st ([out.1], out.2) := by
  rcases u.loop_cases stepId config isEmpty body (u.begin ⟨head, .loop config steps⟩) st with
    ⟨-, h⟩ | ⟨-, e, -, h⟩ | ⟨-, plan, -, h⟩
  · rw [h]
    exact tells_of_nothing rfl rfl rfl
  · rw [h]
    exact tells_of_nothing rfl rfl rfl
  · rw [h, Repetition.run_eq]
    dsimp only
    rcases Repetition.ended_cases u (u.begin ⟨head, .loop config steps⟩) _ _ _ with ⟨e, -, h⟩ | ⟨reason, -, h⟩ <;>
      rw [h]
    · exact tells_of_sequence (tells_turns hbody st) rfl rfl (Record.nested_loop _ _)
    · exact tells_of_sequence (tells_turns hbody st) rfl rfl (Record.nested_loop _ _)

end Kinds

/-! ### What runs add -/

section Runs
variable {u : Setup} {callee : Option Body} {frame : Nat}

theorem tells_skip (st : State) (s : Step) (reason : SkipReason) :
    Tells st ([(st.skip s reason).1], (st.skip s reason).2) :=
  tells_of_nothing rfl (Record.invocations_of_attempts_zero rfl) rfl

theorem tells_step {s : Step} {st : State}
    (begun : Tells st ([(u.begun callee frame s st).1], (u.begun callee frame s st).2)) :
    Tells st ([(u.runStep callee frame s st).1], (u.runStep callee frame s st).2) := by
  rcases u.runStep_cases callee frame s st with ⟨reason, -, h⟩ | ⟨e, -, h⟩ | ⟨-, h⟩ <;> rw [h]
  · exact tells_skip st s reason
  · exact tells_of_nothing rfl (Record.invocations_of_attempts_zero rfl) rfl
  · exact begun

theorem tells_visit {stopped : Bool} {s : Step} {st : State}
    (one : ∀ st, Tells st ([(u.runStep callee frame s st).1], (u.runStep callee frame s st).2)) :
    Tells st ([(u.visit callee frame stopped s st).1], (u.visit callee frame stopped s st).2) := by
  have hlook : Tells st ([], st.checkpoint) := by simp [Tells, State.invoked]
  rcases u.visit_cases callee frame stopped s st with ⟨-, h⟩ | ⟨-, -, h⟩ | ⟨-, -, h⟩ <;> rw [h]
  · exact hlook.append (tells_skip st.checkpoint s .cancelled)
  · exact hlook.append (tells_skip st.checkpoint s .priorFailure)
  · exact hlook.append (one st.checkpoint)

/-- The record of every step, and the records of every sequence, tell of what was handed over. -/
theorem run_tells (u : Setup) (depth : Nat) :
    (∀ s frame st, Tells st ([(u.runStep (u.bodyWithin depth) frame s st).1],
      (u.runStep (u.bodyWithin depth) frame s st).2)) ∧
    ∀ steps frame stopped st, Tells st (u.runSteps (u.bodyWithin depth) frame stopped steps st) := by
  refine run_induction
    (fun depth s => ∀ frame st, Tells st ([(u.runStep (u.bodyWithin depth) frame s st).1],
      (u.runStep (u.bodyWithin depth) frame s st).2))
    (fun depth steps => ∀ frame stopped st, Tells st (u.runSteps (u.bodyWithin depth) frame stopped steps st))
    ?nil ?cons ?action ?group ?loop ?branch depth
  case nil =>
    intro depth frame stopped st
    rw [runSteps_nil]
    exact Tells.nil st
  case cons =>
    intro depth s rest one all frame stopped st
    rw [runSteps_cons]
    exact Tells.append (tells_visit (one frame)) (all _ _ _)
  case action =>
    intro depth head spec callee frame st
    refine tells_step ?_
    rw [begun, runKind]
    refine tells_act (fun run hrun steps st => ?_) spec (u.inside ⟨head, .action spec⟩ st)
    obtain ⟨d, hd, rfl⟩ := bodyWithin_eq_some hrun
    rw [runWithin_eq]
    exact callee d hd steps _ _ st
  case group =>
    intro depth head children all frame st
    refine tells_step ?_
    rw [begun, runKind]
    exact tells_of_sequence (all _ _ (u.inside ⟨head, .group children⟩ st)) rfl rfl (Record.nested_children _ _)
  case loop =>
    intro depth head config children all frame st
    refine tells_step ?_
    rw [begun, runKind]
    exact tells_loop (fun st => all _ _ st) head (u.inside ⟨head, .loop config children⟩ st)
  case branch =>
    intro depth head arms all frame st
    refine tells_step ?_
    rw [begun, runKind]
    refine tells_branch (fun index st => ?_) head (u.inside ⟨head, .branch arms⟩ st)
    rw [runArm_eq]
    split
    · exact Tells.nil st
    · next a ha => exact all a (List.mem_of_getElem? ha) _ _ st

end Runs

/-- The actions that a run hands over, by step id and in the order of time, are those that the walk of its
trace tells of, each record of an action that is no call as many times as it counts attempts. -/
theorem invocations_eq_walk (u : Setup) (runId : String) (steps : List Step) (st : State) :
    (u.run runId steps st).2.invoked =
      st.invoked ++ (Record.walkAll (u.run runId steps st).1.steps).flatMap Record.invocations := by
  have hrun : Tells st (u.runWithin u.settings.maxCallDepth steps st) := by
    rw [runWithin_eq]
    exact (run_tells u _).2 steps _ _ st
  exact hrun

end StepTree
