import StepTree.Proofs.Moments
import StepTree.Proofs.Records

/-! # Failures

A group, a loop or a branch fails by itself only at an expression of its own; otherwise it fails because a
step inside it did. In a run that is not cancelled every failure reaches the records around it, and a call
turns the failures of its callee into one of its own. -/

namespace StepTree

open Setup

/-! ### Failures of their own -/

/-- Why a group, a loop or a branch fails by itself when it is taken up; the rounds are among the moments
reached from `m`. -/
inductive OwnCause (u : Setup) (m : Moment) (depth : Nat) (s : Step) (st : State) : Prop
  | condition {e : Condition.EvalError} (fails : gate s.head st = .failure e)
  /-- The expression that drives the loop has no value. -/
  | plan {config : LoopConfig} {steps : List Step} {e : Condition.EvalError} (isLoop : s.kind = .loop config steps)
    (fails : config.plan st.scope.lookup = .error e)
  /-- The condition of a `whilst` loop or the break condition has no value at a round. -/
  | round {config : LoopConfig} {steps : List Step} {plan : Plan} {left index : Nat} {st' : State}
    {e : Condition.EvalError} (isLoop : s.kind = .loop config steps)
    (reaches : Reaches u m (.round depth steps (u.repetition depth s.head config steps plan st) left index st'))
    (fails : (u.repetition depth s.head config steps plan st).stop? index st'.checkpoint = some (.failure e))
  /-- No arm fits, and the condition of one has no value. -/
  | arms {arms : List Arm} (isBranch : s.kind = .branch arms) (unfit : ∀ a ∈ arms, ¬a.Fits st)
    (fails : ∃ a ∈ arms, ∃ e, st.holds a.condition = .error e)

section Own
variable {u : Setup} {m : Moment} {depth : Nat} {st : State}

/-- A loop fails only at one of its rounds. -/
theorem rounds_failure {l : Repetition} {steps : List Step} {left index : Nat} {record : LoopRecord}
    {e : Condition.EvalError} (h : Reaches u m (.round depth steps l left index st))
    (fails : (l.rounds u left index record st).2.1 = .failure e) :
    ∃ left' index' st', Reaches u m (.round depth steps l left' index' st') ∧
      l.stop? index' st'.checkpoint = some (.failure e) := by
  induction left generalizing index record st with
  | zero =>
    refine ⟨0, index, st, h, ?_⟩
    rw [Repetition.rounds_zero] at fails
    unfold Repetition.stop?
    cases hb : l.stopBefore? index st.checkpoint with
    | none => simp [hb] at fails
    | some stop =>
      rw [hb] at fails
      rw [Option.some_or, ← fails]
      rfl
  | succ left ih =>
    rw [Repetition.rounds_succ] at fails
    split at fails
    · next stop hstop => exact ⟨left + 1, index, st, h, hstop.trans (congrArg some fails)⟩
    · next goes =>
      dsimp only at fails
      split at fails
      · next stop hstop =>
        obtain ⟨reason, rfl⟩ := Repetition.stopAfter?_eq_some hstop
        cases fails
      · next goesOn => exact ih (h.tail (.again goes goesOn)) fails

theorem loop_own {frame : Nat} {head : StepHead} {config : LoopConfig} {steps : List Step}
    (h : Reaches u m (.step depth frame ⟨head, .loop config steps⟩ st)) (hg : gate head st = .begin)
    (error : (u.begun (u.bodyWithin depth) frame ⟨head, .loop config steps⟩ st).1.head.error.isSome = true) :
    OwnCause u m depth ⟨head, .loop config steps⟩ st := by
  rw [begun, runKind] at error
  rcases u.loop_cases head.id config steps.isEmpty _ (u.begin ⟨head, .loop config steps⟩)
    (u.inside ⟨head, .loop config steps⟩ st) with ⟨-, h'⟩ | ⟨-, e, hplan, h'⟩ | ⟨hne, plan, hplan, h'⟩ <;>
    rw [h'] at error
  · cases error
  · exact .plan rfl hplan
  · have hsteps : steps ≠ [] := by simpa using hne
    have hloop : Reaches u m (.loop depth steps (u.repetition depth head config steps plan st)
        (u.inside ⟨head, .loop config steps⟩ st)) := h.tail (.loop hg hsteps hplan)
    rw [Repetition.run_eq] at error
    obtain ⟨e, hstop⟩ := Repetition.ended_error rfl error
    obtain ⟨left, index, st', hround, hfails⟩ := rounds_failure (hloop.tail .rounds) hstop
    exact .round rfl hround hfails

theorem branch_own {callee : Option Body} {frame : Nat} {head : StepHead} {arms : List Arm}
    (error : (u.begun callee frame ⟨head, .branch arms⟩ st).1.head.error.isSome = true) :
    OwnCause u m depth ⟨head, .branch arms⟩ st := by
  rw [begun, runKind] at error
  rcases u.branch_cases head.id arms (fun index st => u.runArm callee index arms st)
    (u.begin ⟨head, .branch arms⟩) (u.inside ⟨head, .branch arms⟩ st) with ⟨-, h'⟩ | ⟨-, hnone, h'⟩ | ⟨e, -, h'⟩ <;>
    rw [h'] at error
  · cases error
  · rcases Arm.find?_evaluateAll u st 0 arms with ⟨-, hunfit⟩ | ⟨before, a, after, -, -, -, hfind⟩
    · rw [inside, Arm.evaluateAll_emit] at error
      exact .arms rfl hunfit (noneTaken_error (u.begin ⟨head, .branch arms⟩) rfl error)
    · rw [inside, Arm.evaluateAll_emit, hfind] at hnone
      cases hnone
  · cases error

/-- A group, a loop or a branch that has an error failed at an expression of its own. -/
theorem own_cause {frame : Nat} {s : Step} (h : Reaches u m (.step depth frame s st)) (compound : s.tag ≠ .action)
    (error : (u.runStep (u.bodyWithin depth) frame s st).1.head.error.isSome = true) : OwnCause u m depth s st := by
  rcases u.runStep_cases (u.bodyWithin depth) frame s st with ⟨reason, -, h'⟩ | ⟨e, hg, -⟩ | ⟨hg, h'⟩
  · rw [h'] at error
    cases error
  · exact .condition hg
  · rw [h'] at error
    obtain ⟨head, kind⟩ := s
    cases kind with
    | action spec => exact absurd rfl compound
    | group steps =>
      rw [begun, runKind] at error
      cases error
    | loop config steps => exact loop_own h hg error
    | branch arms => exact branch_own error

end Own

/-! ### Failures inside a record -/

/-- A failure makes all records around it fail, up to the record itself. -/
def Record.Surfaces (r : Record) : Prop :=
  ∀ outer ∈ r.walk, (∃ c ∈ outer.walk, c.head.status = .failed) → outer.head.status = .failed

namespace Record
variable {r : Record}

/-- A failure anywhere inside the record makes the step fail. -/
theorem Surfaces.failed (h : r.Surfaces) (inside : ∃ c ∈ r.walk, c.head.status = .failed) : r.head.status = .failed :=
  h r (mem_walk.mpr (Or.inl rfl)) inside

theorem surfaces_of_nested (inside : ∀ c ∈ r.nested, c.Surfaces)
    (direct : (∃ c ∈ r.nested, c.head.status = .failed) → r.head.status = .failed) : r.Surfaces := by
  intro outer houter failed
  rcases mem_walk.mp houter with rfl | ⟨n, hn, houter⟩
  · obtain ⟨c, hc, hfailed⟩ := failed
    rcases mem_walk.mp hc with rfl | ⟨n, hn, hc⟩
    · exact hfailed
    · exact direct ⟨n, hn, (inside n hn).failed ⟨c, hc, hfailed⟩⟩
  · exact inside n hn outer houter failed

theorem surfaces_of_nested_nil (h : r.nested = []) : r.Surfaces := by
  refine surfaces_of_nested ?_ ?_ <;> rw [h]
  · exact List.forall_mem_nil _
  · rintro ⟨c, hc, -⟩
    cases hc

end Record

theorem sequenceStatus_eq_failed {records : List Record} :
    sequenceStatus records = .failed ↔ ∃ r ∈ records, r.head.status = .failed := by
  simp [sequenceStatus]

theorem no_failure_inside : ¬∃ c ∈ Record.walkAll [], c.head.status = .failed := by
  rintro ⟨c, hc, -⟩
  cases hc

/-- Failures anywhere inside records that they surface in make their sequence fail. -/
theorem sequenceStatus_of_surfaces {records : List Record} (h : ∀ r ∈ records, r.Surfaces)
    (failed : ∃ c ∈ Record.walkAll records, c.head.status = .failed) : sequenceStatus records = .failed := by
  obtain ⟨c, hc, hfailed⟩ := failed
  obtain ⟨r, hr, hc⟩ := Record.mem_walkAll.mp hc
  exact sequenceStatus_eq_failed.mpr ⟨r, hr, (h r hr).failed ⟨c, hc, hfailed⟩⟩

/-- A record surfaces the failures inside it if it fails with the sequence inside it. -/
theorem Record.surfaces_of_sequence {r : Record} {records : List Record} (h : r.nested = records)
    (inside : ∀ c ∈ records, c.Surfaces) (status : sequenceStatus records = .failed → r.head.status = .failed) :
    r.Surfaces := by
  subst h
  exact surfaces_of_nested inside fun failed => status (sequenceStatus_eq_failed.mpr failed)

/-- In the iterations of a loop failures surface, and the failed iterations are counted. -/
structure LoopRecord.Surfaces (l : LoopRecord) : Prop where
  inside : ∀ i ∈ l.iterations, ∀ r ∈ i.children, r.Surfaces
  counted : (∃ i ∈ l.iterations, ∃ r ∈ i.children, r.head.status = .failed) → 0 < l.summary.failed

theorem LoopRecord.Surfaces.add {l : LoopRecord} {i : Iteration} (h : l.Surfaces)
    (inside : ∀ r ∈ i.children, r.Surfaces)
    (status : i.children ≠ [] → i.head.status = sequenceStatus i.children) : (l.add i).Surfaces where
  inside := by
    intro j hj
    rcases List.mem_append.mp hj with hj | hj
    · exact h.inside j hj
    · rwa [List.mem_singleton.mp hj]
  counted := by
    rintro ⟨j, hj, r, hr, hfailed⟩
    rcases List.mem_append.mp hj with hj | hj
    · have hbefore := h.counted ⟨j, hj, r, hr, hfailed⟩
      unfold LoopRecord.add
      dsimp only
      split <;> omega
    · rw [List.mem_singleton.mp hj] at hr
      have hstatus : i.head.status = .failed := by
        rw [status (List.ne_nil_of_mem hr)]
        exact sequenceStatus_eq_failed.mpr ⟨r, hr, hfailed⟩
      simp [LoopRecord.add, hstatus]

theorem LoopRecord.Surfaces.ended {l : LoopRecord} (h : l.Surfaces) (reason : ExitReason) :
    (l.ended reason).Surfaces := ⟨h.inside, h.counted⟩

/-- The record of a loop surfaces the failures inside it if it fails with the iterations. -/
theorem Record.surfaces_of_loop {r : Record} {l : LoopRecord} (h : l.Surfaces)
    (nested : r.nested = l.iterations.flatMap (·.children)) (status : 0 < l.summary.failed → r.head.status = .failed) :
    r.Surfaces := by
  refine surfaces_of_nested ?_ ?_ <;> rw [nested]
  · intro c hc
    obtain ⟨i, hi, hc⟩ := List.mem_flatMap.mp hc
    exact h.inside i hi c hc
  · rintro ⟨c, hc, hfailed⟩
    obtain ⟨i, hi, hc⟩ := List.mem_flatMap.mp hc
    exact status (h.counted ⟨i, hi, c, hc, hfailed⟩)

section Inside
variable {u : Setup} {callee : Option Body} {frame : Nat}

/-- A run that is cancelled before a sequence is cancelled after it. -/
theorem runSteps_of_cancelled {stopped : Bool} {steps : List Step} {st : State} (h : st.cancelled = true) :
    (u.runSteps callee frame stopped steps st).2.cancelled = true := by
  induction steps generalizing stopped st with
  | nil =>
    rw [runSteps_nil]
    exact h
  | cons s rest ih =>
    rw [runSteps_cons, visit_after_cancelled h]
    exact ih h

/-- A run that is not cancelled was not cancelled before. -/
theorem uncancelled_before {st st' : State} (mono : st.cancelled = true → st'.cancelled = true)
    (h : st'.cancelled = false) : st.cancelled = false := by
  cases hc : st.cancelled
  · rfl
  · cases (mono hc).symm.trans h

/-- In the records of a sequence that ends uncancelled failures surface. -/
def Surfacing (run : State → List Record × State) : Prop :=
  ∀ st, (run st).2.cancelled = false → ∀ r ∈ (run st).1, r.Surfaces

theorem act_surfaces {body : Option Body} (hbody : ∀ run ∈ body, ∀ steps, Surfacing (run steps)) {s : Step}
    (spec : ActionSpec) {st : State} (h : (u.act body frame s.head spec (u.begin s) st).2.cancelled = false) :
    (u.act body frame s.head spec (u.begin s) st).1.Surfaces := by
  rcases u.act_cases body frame s.head spec (u.begin s) st with
    ⟨-, n, commands, result, -, -, h'⟩ | ⟨-, e, -, h'⟩ | ⟨-, run, id, w, hrun, -, h'⟩ <;> rw [h'] at h ⊢
  · cases result <;> exact Record.surfaces_of_nested_nil rfl
  · exact Record.surfaces_of_nested_nil rfl
  · have hcallee := hbody run hrun w.steps (calleeState id w (resolved st s.head spec) st)
    generalize run w.steps (calleeState id w (resolved st s.head spec) st) = out at h hcallee ⊢
    rcases u.callEnded_cases frame s.head (u.supplied s.head spec (u.begin s) st) id st out with
      ⟨hc, h'⟩ | ⟨hc, -, h'⟩ | ⟨hc, hs, h'⟩
    · rw [h'] at h
      cases hc.symm.trans h
    · rw [h']
      exact Record.surfaces_of_sequence (Record.nested_children _ _) (hcallee hc) fun _ => rfl
    · rw [h']
      exact Record.surfaces_of_sequence (Record.nested_children _ _) (hcallee hc) fun failed => absurd failed hs

/-- A round that does not end cancelled adds an iteration in which failures surface. -/
theorem round_surfaces {l : Repetition} (mono : ∀ st, st.cancelled = true → (l.body st).2.cancelled = true)
    (hbody : Surfacing l.body) (index : Nat) {record : LoopRecord} {st : State}
    (hrecord : st.cancelled = false → record.Surfaces)
    (h : (l.round u index (l.opened index st)).2.cancelled = false) :
    (record.add (l.round u index (l.opened index st)).1).Surfaces := by
  rw [Repetition.round_eq] at h ⊢
  simp only [State.emit_cancelled, Repetition.closed_cancelled] at h ⊢
  unfold Repetition.iteration at h ⊢
  rcases l.iterate_cases u index (u.redactValue (l.opened index st) (l.plan.item index)) _ with
    ⟨-, h'⟩ | ⟨e, -, h'⟩ | ⟨-, h'⟩ <;> rw [h'] at h ⊢
  · exact (hrecord h).add (List.forall_mem_nil _) fun hne => (hne rfl).elim
  · exact (hrecord h).add (List.forall_mem_nil _) fun hne => (hne rfl).elim
  · have hbefore : st.cancelled = false := uncancelled_before (mono ((l.opened index st).emit _)) h
    exact (hrecord hbefore).add (hbody _ h) fun _ => rfl

theorem turns_surface {l : Repetition} (mono : ∀ st, st.cancelled = true → (l.body st).2.cancelled = true)
    (hbody : Surfacing l.body) {st : State} (h : (l.turns u st).2.2.cancelled = false) : (l.turns u st).1.Surfaces := by
  refine Repetition.rounds_keep (P := fun record st' => st'.cancelled = false → record.Surfaces) ?_ ?_ _ _ ?_ h
  · exact fun record st' hrecord hc => hrecord (uncancelled_before (Kept.checkpoint st').cancelled hc)
  · exact fun index record st' hrecord hc => round_surfaces mono hbody index hrecord hc
  · refine fun _ => ⟨List.forall_mem_nil _, ?_⟩
    rintro ⟨i, hi, -⟩
    cases hi

theorem loop_surfaces {stepId : String} {config : LoopConfig} {isEmpty : Bool} {body : State → List Record × State}
    (mono : ∀ st, st.cancelled = true → (body st).2.cancelled = true) (hbody : Surfacing body) {s : Step} {st : State}
    (h : (u.loop stepId config isEmpty body (u.begin s) st).2.cancelled = false) :
    (u.loop stepId config isEmpty body (u.begin s) st).1.Surfaces := by
  rcases u.loop_cases stepId config isEmpty body (u.begin s) st with ⟨-, h'⟩ | ⟨-, e, -, h'⟩ | ⟨-, plan, -, h'⟩
  · rw [h']
    exact Record.surfaces_of_nested_nil rfl
  · rw [h']
    exact Record.surfaces_of_nested_nil rfl
  · rw [h', Repetition.run_eq] at h
    rw [h', Repetition.run_eq]
    have hturns := (turns_surface mono hbody h).ended
    dsimp only
    rcases Repetition.ended_cases u (u.begin s) _ _ _ with ⟨e, -, h'⟩ | ⟨reason, -, h'⟩ <;> rw [h']
    · exact Record.surfaces_of_loop (hturns _) (Record.nested_loop _ _) fun _ => rfl
    · exact Record.surfaces_of_loop (hturns _) (Record.nested_loop _ _) fun failed => if_pos failed

theorem branch_surfaces {stepId : String} {arms : List Arm} {body : Nat → State → List Record × State}
    (hbody : ∀ index, Surfacing (body index)) {s : Step} {st : State}
    (h : (u.branch stepId arms body (u.begin s) st).2.cancelled = false) :
    (u.branch stepId arms body (u.begin s) st).1.Surfaces := by
  rcases u.branch_cases stepId arms body (u.begin s) st with ⟨-, h'⟩ | ⟨-, -, h'⟩ | ⟨e, -, h'⟩
  · rw [h']
    exact Record.surfaces_of_nested_nil rfl
  · rw [h', noneTaken]
    split <;> exact Record.surfaces_of_nested_nil rfl
  · dsimp only at h'
    rw [h'] at h ⊢
    exact Record.surfaces_of_sequence (Record.nested_branch _ _) (hbody e.index _ h) id

theorem runStep_surfaces {s : Step} {st : State}
    (begun : (u.begun callee frame s st).2.cancelled = false → (u.begun callee frame s st).1.Surfaces)
    (h : (u.runStep callee frame s st).2.cancelled = false) : (u.runStep callee frame s st).1.Surfaces := by
  rcases u.runStep_cases callee frame s st with ⟨reason, -, h'⟩ | ⟨e, -, h'⟩ | ⟨-, h'⟩ <;> rw [h'] at h ⊢
  · exact Record.surfaces_of_nested_nil rfl
  · exact Record.surfaces_of_nested_nil rfl
  · exact begun h

theorem visit_surfaces {stopped : Bool} {s : Step} {st : State}
    (one : ∀ st, (u.runStep callee frame s st).2.cancelled = false → (u.runStep callee frame s st).1.Surfaces)
    (h : (u.visit callee frame stopped s st).2.cancelled = false) : (u.visit callee frame stopped s st).1.Surfaces := by
  rcases u.visit_cases callee frame stopped s st with ⟨-, h'⟩ | ⟨-, -, h'⟩ | ⟨-, -, h'⟩ <;> rw [h'] at h ⊢
  · exact Record.surfaces_of_nested_nil rfl
  · exact Record.surfaces_of_nested_nil rfl
  · exact one _ h

/-- In a run that is not cancelled every failure surfaces. -/
theorem run_surfaces (u : Setup) (depth : Nat) :
    (∀ s frame st, (u.runStep (u.bodyWithin depth) frame s st).2.cancelled = false →
      (u.runStep (u.bodyWithin depth) frame s st).1.Surfaces) ∧
    ∀ steps frame stopped, Surfacing (u.runSteps (u.bodyWithin depth) frame stopped steps) := by
  refine run_induction
    (fun depth s => ∀ frame st, (u.runStep (u.bodyWithin depth) frame s st).2.cancelled = false →
      (u.runStep (u.bodyWithin depth) frame s st).1.Surfaces)
    (fun depth steps => ∀ frame stopped, Surfacing (u.runSteps (u.bodyWithin depth) frame stopped steps))
    ?nil ?cons ?action ?group ?loop ?branch depth
  case nil =>
    intro depth frame stopped st _
    rw [runSteps_nil]
    exact List.forall_mem_nil _
  case cons =>
    intro depth s rest one all frame stopped st h
    rw [runSteps_cons] at h ⊢
    -- Nothing ends a cancellation, so the first step was not cancelled either.
    have hfirst : (u.visit (u.bodyWithin depth) frame stopped s st).2.cancelled = false :=
      uncancelled_before runSteps_of_cancelled h
    exact List.forall_mem_cons.mpr ⟨visit_surfaces (one frame) hfirst, all _ _ _ h⟩
  case action =>
    intro depth head spec callee frame st
    refine runStep_surfaces fun h => ?_
    rw [begun, runKind] at h ⊢
    refine act_surfaces (fun run hrun steps st => ?_) spec h
    obtain ⟨d, hd, rfl⟩ := bodyWithin_eq_some hrun
    rw [runWithin_eq]
    exact callee d hd steps _ _ st
  case group =>
    intro depth head children all frame st
    refine runStep_surfaces fun h => ?_
    rw [begun, runKind] at h ⊢
    exact Record.surfaces_of_sequence (Record.nested_children _ _) (all _ _ _ h) id
  case loop =>
    intro depth head config children all frame st
    refine runStep_surfaces fun h => ?_
    rw [begun, runKind] at h ⊢
    exact loop_surfaces (fun st hc => runSteps_of_cancelled hc) (fun st => all _ _ st) h
  case branch =>
    intro depth head arms all frame st
    refine runStep_surfaces fun h => ?_
    rw [begun, runKind] at h ⊢
    refine branch_surfaces (fun index st => ?_) h
    rw [runArm_eq]
    split
    · exact fun _ => List.forall_mem_nil _
    · next a ha => exact all a (List.mem_of_getElem? ha) _ _ st

/-- A call with a failure anywhere in its callee fails by itself, unless the run is cancelled. -/
theorem act_fails {depth : Nat} {s : Step} {spec : ActionSpec} {st : State}
    (failed : ∃ c ∈ Record.walkAll (u.act (u.bodyWithin depth) frame s.head spec (u.begin s) st).1.children,
      c.head.status = .failed) :
    (u.act (u.bodyWithin depth) frame s.head spec (u.begin s) st).2.cancelled = true ∨
      (u.act (u.bodyWithin depth) frame s.head spec (u.begin s) st).1.hasOwnFailure = true := by
  rcases u.act_cases (u.bodyWithin depth) frame s.head spec (u.begin s) st with
    ⟨-, n, commands, result, -, -, h⟩ | ⟨-, e, -, h⟩ | ⟨-, run, id, w, hrun, -, h⟩ <;> rw [h] at failed ⊢
  · cases result <;> exact absurd failed no_failure_inside
  · exact absurd failed no_failure_inside
  · obtain ⟨d, rfl, rfl⟩ := bodyWithin_eq_some hrun
    rw [runWithin_eq] at failed ⊢
    have hcallee := (run_surfaces u d).2 w.steps (calleeState id w (resolved st s.head spec) st).scope.currentFrame
      false (calleeState id w (resolved st s.head spec) st)
    generalize u.runSteps (u.bodyWithin d) _ false w.steps _ = out at hcallee failed ⊢
    rcases u.callEnded_cases frame s.head (u.supplied s.head spec (u.begin s) st) id st out with
      ⟨hc, h⟩ | ⟨-, -, h⟩ | ⟨hc, hs, h⟩ <;> rw [h] at failed ⊢
    · exact Or.inl hc
    · exact Or.inr rfl
    · exact absurd (sequenceStatus_of_surfaces (hcallee hc) failed) hs

end Inside
end StepTree
