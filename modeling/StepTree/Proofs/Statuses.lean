import StepTree.Proofs.Failures
import StepTree.Proofs.Provenance

/-! # Statuses

Every record of a trace has ended, and its status goes with what else the record says: it has a reason to be skipped
just if it was, it has an error only if it failed, and if it failed it has an error or something directly inside it
failed. So the counts of a trace add up to its records, and a run that is not cancelled has the status of its own
steps. -/

namespace StepTree

open Setup

/-! ### Consistent records -/

/-- The status of something that has ended. -/
def StepStatus.Ended (s : StepStatus) : Prop := s = .passed ∨ s = .failed ∨ s = .skipped

/-- The status of an iteration goes with its error and with the records inside it. -/
structure Iteration.Consistent (i : Iteration) : Prop where
  ended : i.head.status.Ended
  error : i.head.error.isSome = true → i.head.status = .failed
  cause : i.head.status = .failed → i.head.error.isSome = true ∨ ∃ c ∈ i.children, c.head.status = .failed
  fails : (∃ c ∈ i.children, c.head.status = .failed) → i.head.status = .failed

namespace Record

/-- An iteration or a record directly inside the record failed. -/
def FailsInside (r : Record) : Prop :=
  (∃ l ∈ r.loop, ∃ i ∈ l.iterations, i.head.status = .failed) ∨ ∃ c ∈ r.nested, c.head.status = .failed

/-- The status of a record goes with what else it says. -/
structure Consistent (r : Record) : Prop where
  ended : r.head.status.Ended
  reason : r.head.skipReason.isSome = true ↔ r.head.status = .skipped
  error : r.head.error.isSome = true → r.head.status = .failed
  errorKind : r.head.errorKind.isSome = r.head.error.isSome
  cause : r.head.status = .failed → r.head.error.isSome = true ∨ r.FailsInside

end Record

/-- The record has neither a reason to be skipped nor an error. -/
structure RecordHead.Unmarked (h : RecordHead) : Prop where
  reason : h.skipReason = none
  error : h.error = none
  errorKind : h.errorKind = none

theorem RecordHead.Unmarked.not_error {h : RecordHead} (unmarked : h.Unmarked) : ¬h.error.isSome = true := by
  rw [unmarked.error]
  exact nofun

theorem RecordHead.Unmarked.errorKind_isSome {h : RecordHead} (unmarked : h.Unmarked) :
    h.errorKind.isSome = h.error.isSome := by
  rw [unmarked.error, unmarked.errorKind]
  rfl

theorem sequenceStatus_cases (records : List Record) :
    sequenceStatus records = .passed ∨ sequenceStatus records = .failed := by
  unfold sequenceStatus
  split
  · exact Or.inr rfl
  · exact Or.inl rfl

namespace Record
variable {r : Record}

theorem consistent_skip {reason : SkipReason} (h : r.head.Unmarked) : (r.skip reason).Consistent where
  ended := Or.inr (Or.inr rfl)
  reason := iff_of_true rfl rfl
  error herror := absurd herror h.not_error
  errorKind := h.errorKind_isSome
  cause hfailed := by cases hfailed

theorem consistent_fail {kind : ErrorKind} {message : String} (h : r.head.Unmarked) :
    (r.fail kind message).Consistent where
  ended := Or.inr (Or.inl rfl)
  reason := by
    change r.head.skipReason.isSome = true ↔ StepStatus.failed = .skipped
    rw [h.reason]
    exact iff_of_false nofun nofun
  error _ := rfl
  errorKind := rfl
  cause _ := Or.inl rfl

theorem consistent_withStatus {status : StepStatus} (h : r.head.Unmarked) (ends : status = .passed ∨ status = .failed)
    (cause : status = .failed → r.FailsInside) : (r.withStatus status).Consistent where
  ended := ends.imp_right Or.inl
  reason := by
    change r.head.skipReason.isSome = true ↔ status = .skipped
    rw [h.reason]
    refine iff_of_false nofun ?_
    rintro rfl
    rcases ends with ends | ends <;> cases ends
  error herror := absurd herror h.not_error
  errorKind := h.errorKind_isSome
  cause failed := Or.inr (cause failed)

theorem consistent_passed (h : r.head.Unmarked) : (r.withStatus .passed).Consistent :=
  consistent_withStatus h (Or.inl rfl) nofun

/-- A record that ends as the sequence inside it does. -/
theorem consistent_sequence {records : List Record} (h : r.head.Unmarked) (nested : r.nested = records) :
    (r.withStatus (sequenceStatus records)).Consistent := by
  refine consistent_withStatus h (sequenceStatus_cases records) fun failed => Or.inr ?_
  rw [nested]
  exact sequenceStatus_eq_failed.mp failed

end Record

/-! ### Steps and rounds -/

namespace Setup
variable {u : Setup} {callee : Option Body} {frame : Nat} {head : StepHead} {r : Record} {st : State}

theorem unmarked_begin (u : Setup) (s : Step) : (u.begin s).head.Unmarked := ⟨rfl, rfl, rfl⟩

theorem conclude_consistent {result : Except StepError Json} (h : r.head.Unmarked) :
    (u.conclude frame head r result st).1.Consistent := by
  cases result with
  | error e => exact Record.consistent_fail h
  | ok value => exact Record.consistent_passed ⟨h.reason, h.error, h.errorKind⟩

theorem act_consistent {spec : ActionSpec} (h : r.head.Unmarked) :
    (u.act callee frame head spec r st).1.Consistent := by
  have hattempted : ∀ n, (recordAttempts (u.supplied head spec r st) n).head.Unmarked :=
    fun _ => ⟨h.reason, h.error, h.errorKind⟩
  rcases u.act_cases callee frame head spec r st with
    ⟨-, n, commands, result, -, -, h'⟩ | ⟨-, e, -, h'⟩ | ⟨-, run, id, w, -, -, h'⟩ <;> rw [h']
  · exact conclude_consistent (hattempted n)
  · exact Record.consistent_fail (hattempted 1)
  · generalize run w.steps (calleeState id w (resolved st head spec) st) = out
    rcases u.callEnded_cases frame head (u.supplied head spec r st) id st out with
      ⟨-, h'⟩ | ⟨-, -, h'⟩ | ⟨-, -, h'⟩ <;> rw [h']
    · exact Record.consistent_skip (hattempted 1)
    · exact Record.consistent_fail (hattempted 1)
    · exact conclude_consistent (hattempted 1)

/-- A loop counts only iterations that failed as failed. -/
theorem turns_failed {l : Repetition} (failed : 0 < (l.turns u st).1.summary.failed) :
    ∃ i ∈ (l.turns u st).1.iterations, i.head.status = .failed := by
  refine Repetition.rounds_keep
    (P := fun record _ => 0 < record.summary.failed → ∃ i ∈ record.iterations, i.head.status = .failed)
    (fun _ _ h => h) (fun index record st' h => ?_) _ _ (fun hnone => absurd hnone (Nat.lt_irrefl 0)) failed
  generalize (l.round u index (l.opened index st')).1 = i
  intro hcount
  by_cases hi : i.head.status = .failed
  · exact ⟨i, List.mem_append_right _ (List.mem_singleton_self i), hi⟩
  · have hbefore : (record.add i).summary.failed = record.summary.failed := if_neg hi
    obtain ⟨j, hj, hfailed⟩ := h (hbefore ▸ hcount)
    exact ⟨j, List.mem_append_left _ hj, hfailed⟩

theorem loop_consistent {stepId : String} {config : LoopConfig} {isEmpty : Bool} {body : State → List Record × State}
    (h : r.head.Unmarked) : (u.loop stepId config isEmpty body r st).1.Consistent := by
  rcases u.loop_cases stepId config isEmpty body r st with ⟨-, h'⟩ | ⟨-, e, -, h'⟩ | ⟨-, plan, -, h'⟩ <;> rw [h']
  · exact Record.consistent_passed h
  · exact Record.consistent_fail h
  · rw [Repetition.run_eq]
    dsimp only
    rcases Repetition.ended_cases u r _ _ _ with ⟨e, -, h'⟩ | ⟨reason, -, h'⟩ <;> rw [h']
    · exact Record.consistent_fail h
    · split
      · next failed =>
        exact Record.consistent_withStatus h (Or.inr rfl) fun _ => Or.inl ⟨_, rfl, turns_failed failed⟩
      · exact Record.consistent_passed h

theorem branch_consistent {stepId : String} {arms : List Arm} {body : Nat → State → List Record × State} (s : Step) :
    (u.branch stepId arms body (u.begin s) st).1.Consistent := by
  have h := u.unmarked_begin s
  rcases u.branch_cases stepId arms body (u.begin s) st with ⟨-, h'⟩ | ⟨-, -, h'⟩ | ⟨e, -, h'⟩
  · rw [h']
    exact Record.consistent_passed h
  · rw [h', noneTaken]
    split
    · exact Record.consistent_skip h
    · exact Record.consistent_fail h
  · dsimp only at h'
    rw [h']
    exact Record.consistent_sequence h (Record.nested_branch _ _)

/-- Whatever runs the steps inside it, a step that was taken up leaves a consistent record. -/
theorem runStep_consistent (u : Setup) (callee : Option Body) (frame : Nat) (s : Step) (st : State) :
    (u.runStep callee frame s st).1.Consistent := by
  rcases u.runStep_cases callee frame s st with ⟨reason, -, h⟩ | ⟨e, -, h⟩ | ⟨-, h⟩ <;> rw [h]
  · exact Record.consistent_skip ⟨rfl, rfl, rfl⟩
  · exact Record.consistent_fail (u.unmarked_begin s)
  · obtain ⟨head, kind⟩ := s
    rw [begun]
    cases kind with
    | action spec =>
      rw [runKind]
      exact act_consistent (u.unmarked_begin _)
    | group children =>
      rw [runKind]
      exact Record.consistent_sequence (u.unmarked_begin _) (Record.nested_children _ _)
    | loop config children =>
      rw [runKind]
      exact loop_consistent (u.unmarked_begin _)
    | branch arms =>
      rw [runKind]
      exact branch_consistent _

theorem round_consistent (l : Repetition) (u : Setup) (index : Nat) (st : State) :
    (l.round u index st).1.Consistent := by
  rw [Repetition.round_eq, Repetition.iteration]
  dsimp only
  rcases l.iterate_cases u index (u.redactValue st (l.plan.item index)) _ with
    ⟨-, h⟩ | ⟨e, -, h⟩ | ⟨-, h⟩ <;> rw [h]
  · refine ⟨Or.inr (Or.inr rfl), fun error => (by cases error), fun failed => (by cases failed), ?_⟩
    rintro ⟨c, hc, -⟩
    cases hc
  · exact ⟨Or.inr (Or.inl rfl), fun _ => rfl, fun _ => Or.inl rfl, fun _ => rfl⟩
  · exact ⟨(sequenceStatus_cases _).imp_right Or.inl, fun error => (by cases error),
      fun failed => Or.inr (sequenceStatus_eq_failed.mp failed), sequenceStatus_eq_failed.mpr⟩

end Setup

theorem Traced.consistent {u : Setup} {m : Moment} {r : Record} (h : Traced u m r) :
    r.Consistent ∧ ∀ l ∈ r.loop, ∀ i ∈ l.iterations, i.Consistent := by
  refine ⟨?_, fun l hl i hi => ?_⟩
  · cases h.made with
    | skipped s reason => exact Record.consistent_skip ⟨rfl, rfl, rfl⟩
    | taken => exact u.runStep_consistent _ _ _ _
  · obtain ⟨l', now, -, hround⟩ := h.rounds l hl i hi
    rw [hround]
    exact round_consistent l' u _ now

/-! ### Counts -/

theorem length_eq_counts {statuses : List StepStatus} (h : ∀ s ∈ statuses, s.Ended) :
    statuses.length = statuses.count .passed + statuses.count .failed + statuses.count .skipped := by
  induction statuses with
  | nil => rfl
  | cons s rest ih =>
    obtain ⟨hs, hrest⟩ := List.forall_mem_cons.mp h
    have hcounts := ih hrest
    rcases hs with rfl | rfl | rfl <;> simp <;> omega

/-! ### Traces -/

theorem run_steps_surface {u : Setup} {runId : String} {steps : List Step} {st : State}
    (goes : (u.run runId steps st).2.cancelled = false) : ∀ r ∈ (u.run runId steps st).1.steps, r.Surfaces := by
  have hrun : ((u.run runId steps st).1.steps, (u.run runId steps st).2) =
      u.runSteps (u.bodyWithin u.settings.maxCallDepth) st.scope.currentFrame false steps st := by
    rw [← runWithin_eq]
    rfl
  have hsteps := (run_surfaces u u.settings.maxCallDepth).2 steps st.scope.currentFrame false st
  rw [← hrun] at hsteps
  exact hsteps goes

/-- A search of all records finds a failure just if one of the outermost records failed. -/
theorem runStatus_eq_failed {records : List Record} (h : ∀ r ∈ records, r.Surfaces) :
    RunStatus.of records false = .failed ↔ ∃ r ∈ records, r.head.status = .failed := by
  rw [← sequenceStatus_eq_failed]
  constructor
  · intro failed
    refine sequenceStatus_of_surfaces h ?_
    simpa [RunStatus.of] using failed
  · intro failed
    obtain ⟨r, hr, hfailed⟩ := sequenceStatus_eq_failed.mp failed
    have hmem : r ∈ Record.walkAll records := Record.mem_walkAll.mpr ⟨r, hr, Record.mem_walk.mpr (Or.inl rfl)⟩
    simpa [RunStatus.of] using ⟨r, hmem, hfailed⟩

/-- Every record of a trace and every iteration in it is consistent, and the counts make up the records. In a run that
was not cancelled a failure makes everything around it fail, so that the run fails just if one of its own steps did. -/
theorem trace_consistent (u : Setup) (runId : String) (steps : List Step) (st : State) :
    let t := (u.run runId steps st).1
    let records := Record.walkAll t.steps
    (∀ r ∈ records, r.Consistent ∧ ∀ l ∈ r.loop, ∀ i ∈ l.iterations, i.Consistent) ∧
    t.summary.total = records.length ∧ t.summary.total = t.summary.passed + t.summary.failed + t.summary.skipped ∧
    (t.status ≠ .cancelled →
      (∀ r ∈ records, (∃ c ∈ r.walk, c.head.status = .failed) → r.head.status = .failed) ∧
      (t.status = .failed ↔ ∃ r ∈ t.steps, r.head.status = .failed)) := by
  intro t records
  have hconsistent : ∀ r ∈ records, r.Consistent ∧ ∀ l ∈ r.loop, ∀ i ∈ l.iterations, i.Consistent :=
    fun r hr => ((run_made u runId steps st).records r hr).consistent
  have hended : ∀ s ∈ records.map (·.head.status), s.Ended := by
    intro s hs
    obtain ⟨r, hr, rfl⟩ := List.mem_map.mp hs
    exact (hconsistent r hr).1.ended
  have hsummary : t.summary = .of t.steps := rfl
  have hstatus : t.status = .of t.steps (u.run runId steps st).2.cancelled := rfl
  refine ⟨hconsistent, ?_, ?_, fun goes => ?_⟩
  · rw [hsummary]
    exact List.length_map _
  · rw [hsummary]
    exact length_eq_counts hended
  · have hgoes : (u.run runId steps st).2.cancelled = false := by
      cases hc : (u.run runId steps st).2.cancelled
      · rfl
      · rw [hc] at hstatus
        exact absurd hstatus goes
    rw [hgoes] at hstatus
    have hsurfaces : ∀ r ∈ t.steps, r.Surfaces := run_steps_surface hgoes
    refine ⟨fun r hr => ?_, ?_⟩
    · obtain ⟨root, hroot, hr⟩ := Record.mem_walkAll.mp hr
      exact hsurfaces root hroot r hr
    · rw [hstatus]
      exact runStatus_eq_failed hsurfaces

/-- An action fails inside a group of a loop, and both fail with it. -/
theorem failure_in_loop_consistent :
    let u : Setup := { executor := fun _ _ => { result := .error "refused" } }
    let group : Step := ⟨{ id := "group" }, .group [⟨{ id := "ask" }, .action ⟨"ask", []⟩⟩]⟩
    let t := (u.run "run" [⟨{ id := "once" }, .loop { loopType := .times, count := some (.literal 1) } [group]⟩]
      { scope := .empty }).1
    t.status ≠ .cancelled ∧ (Record.walkAll t.steps).map (·.head.status) = [.failed, .failed, .failed] ∧
      (∃ r ∈ t.steps, r.head.status = .failed) ∧ ∀ r ∈ Record.walkAll t.steps, r.Consistent := by
  intro u group t
  have goes : t.status ≠ .cancelled := by decide +kernel
  obtain ⟨consistent, -, -, uncancelled⟩ := trace_consistent u "run"
    [⟨{ id := "once" }, .loop { loopType := .times, count := some (.literal 1) } [group]⟩] { scope := .empty }
  have failed : t.status = .failed := by decide +kernel
  exact ⟨goes, by decide +kernel, (uncancelled goes).2.mp failed, fun r hr => (consistent r hr).1⟩

end StepTree
