import StepTree.Proofs.Failures

/-! # Failures stay in their sequence

Whether a step of a sequence begins depends on the commands, on the failures of earlier steps of the same
sequence, and on the step itself, in this order. A failure inside a group, a loop or a branch does not
count for the sequence around it; one inside a called workflow makes the call fail. -/

namespace StepTree

open Setup

/-! ### Decisions -/

/-- An earlier step of the sequence failed by itself, and its failure is not let pass. -/
def FailedBefore (steps : List Step) (records : List Record) (j : Nat) : Prop :=
  ∃ i < j, ∃ s r, steps[i]? = some s ∧ records[i]? = some r ∧
    r.head.status = .failed ∧ r.head.error.isSome = true ∧ s.head.continueOnFail = false

/-- What is decided about a step that a run comes to: the reason to skip it, or none. -/
inductive Decides (failedBefore : Prop) (s : Step) (now : State) : Option SkipReason → Prop
  | cancelled (cancelled : now.cancelled = true) : Decides failedBefore s now (some .cancelled)
  | priorFailure (goes : now.cancelled = false) (failed : failedBefore) :
    Decides failedBefore s now (some .priorFailure)
  | disabled (goes : now.cancelled = false) (free : ¬failedBefore) (disabled : s.head.disabled = true) :
    Decides failedBefore s now (some .disabled)
  | condition (goes : now.cancelled = false) (free : ¬failedBefore) (enabled : s.head.disabled = false)
    (unmet : s.head.condition.map now.holds = some (.ok false)) : Decides failedBefore s now (some .condition)
  | execute (goes : now.cancelled = false) (free : ¬failedBefore) (enabled : s.head.disabled = false)
    (met : s.head.condition.map now.holds ≠ some (.ok false)) : Decides failedBefore s now none

/-- The record of a step about which something was decided. A step that is executed can still end as
skipped, but not for a reason that is looked at before it begins. -/
def Follows (u : Setup) (s : Step) (r : Record) : Option SkipReason → Prop
  | some reason => r = Record.skipped s reason
  | none => r.head.startTime = some u.now ∧
    (r.head.skipReason = none ∨ r.head.skipReason = some .noBranchMatched ∨ r.head.skipReason = some .cancelled)

namespace Setup
variable {u : Setup} {callee : Option Body} {frame : Nat}

/-- A step that begins is stamped, and is not skipped for a reason to skip it before. -/
theorem begun_follows (u : Setup) (callee : Option Body) (frame : Nat) (s : Step) (st : State) :
    Follows u s (u.begun callee frame s st).1 none := by
  obtain ⟨head, kind⟩ := s
  rw [begun]
  cases kind with
  | action spec =>
    rw [runKind]
    rcases u.act_cases callee frame head spec (u.begin ⟨head, .action spec⟩) (u.inside ⟨head, .action spec⟩ st) with
      ⟨-, n, commands, result, -, -, h⟩ | ⟨-, e, -, h⟩ | ⟨-, run, id, w, -, -, h⟩
    · rw [h]
      cases result <;> exact ⟨rfl, Or.inl rfl⟩
    · rw [h]
      exact ⟨rfl, Or.inl rfl⟩
    · rcases u.callEnded_cases frame head (u.supplied head spec (u.begin ⟨head, .action spec⟩)
        (u.inside ⟨head, .action spec⟩ st)) id (u.inside ⟨head, .action spec⟩ st) _ with
        ⟨-, h'⟩ | ⟨-, -, h'⟩ | ⟨-, -, h'⟩ <;> rw [h, h']
      · exact ⟨rfl, Or.inr (Or.inr rfl)⟩
      · exact ⟨rfl, Or.inl rfl⟩
      · exact ⟨rfl, Or.inl rfl⟩
  | group steps =>
    rw [runKind]
    exact ⟨rfl, Or.inl rfl⟩
  | loop config steps =>
    rw [runKind]
    rcases u.loop_cases head.id config steps.isEmpty _ (u.begin ⟨head, .loop config steps⟩)
      (u.inside ⟨head, .loop config steps⟩ st) with ⟨-, h⟩ | ⟨-, e, -, h⟩ | ⟨-, plan, -, h⟩ <;> rw [h]
    · exact ⟨rfl, Or.inl rfl⟩
    · exact ⟨rfl, Or.inl rfl⟩
    · rw [Repetition.run_eq]
      dsimp only
      rcases Repetition.ended_cases u (u.begin ⟨head, .loop config steps⟩) _ _ _ with ⟨e, -, h⟩ | ⟨reason, -, h⟩ <;>
        rw [h] <;> exact ⟨rfl, Or.inl rfl⟩
  | branch arms =>
    rw [runKind]
    rcases u.branch_cases head.id arms (fun index st => u.runArm callee index arms st) (u.begin ⟨head, .branch arms⟩)
      (u.inside ⟨head, .branch arms⟩ st) with ⟨-, h⟩ | ⟨-, -, h⟩ | ⟨e, -, h⟩
    · rw [h]
      exact ⟨rfl, Or.inl rfl⟩
    · rw [h, noneTaken]
      split
      · exact ⟨rfl, Or.inr (Or.inl rfl)⟩
      · exact ⟨rfl, Or.inl rfl⟩
    · dsimp only at h
      rw [h]
      exact ⟨rfl, Or.inl rfl⟩

/-- The record of a step that a run comes to follows what is decided about it. -/
theorem visit_decided (failedBefore : Prop) {stopped : Bool} (hstopped : stopped = true ↔ failedBefore) (s : Step)
    (st : State) :
    ∃ d, Decides failedBefore s st.checkpoint d ∧ Follows u s (u.visit callee frame stopped s st).1 d := by
  rcases u.visit_cases callee frame stopped s st with ⟨hc, h⟩ | ⟨hc, hs, h⟩ | ⟨hc, hs, h⟩ <;> rw [h]
  · exact ⟨_, .cancelled hc, rfl⟩
  · exact ⟨_, .priorFailure hc (hstopped.mp hs), rfl⟩
  · have free : ¬failedBefore := by
      rw [← hstopped, hs]
      exact Bool.false_ne_true
    rcases gate_cases s.head st.checkpoint with ⟨hd, hg⟩ | ⟨hd, hunmet, hg⟩ | ⟨hd, e, hfails, hg⟩ | ⟨hd, hmet, hg⟩
    · rw [runStep_of_skip hg]
      exact ⟨_, .disabled hc free hd, rfl⟩
    · rw [runStep_of_skip hg]
      exact ⟨_, .condition hc free hd hunmet, rfl⟩
    · rw [runStep_of_failure hg]
      exact ⟨none, .execute hc free hd (by simp [hfails]), rfl, Or.inl rfl⟩
    · rw [runStep_of_begin hg]
      refine ⟨none, .execute hc free hd fun hunmet => ?_, begun_follows u callee frame s st.checkpoint⟩
      cases hmet _ hunmet

end Setup

/-- A decision for a prior failure is one for it alone. -/
theorem Decides.priorFailure_iff {failedBefore : Prop} {u : Setup} {s : Step} {now : State} {d : Option SkipReason}
    {r : Record} (h : Decides failedBefore s now d) (hr : Follows u s r d) :
    r.head.skipReason = some .priorFailure ↔ now.cancelled = false ∧ failedBefore := by
  cases h with
  | cancelled hc =>
    obtain rfl : r = _ := hr
    simp [Record.skipped, Record.skip, hc]
  | priorFailure goes failed =>
    obtain rfl : r = _ := hr
    simp [Record.skipped, Record.skip, goes, failed]
  | disabled goes free =>
    obtain rfl : r = _ := hr
    simp [Record.skipped, Record.skip, free]
  | condition goes free =>
    obtain rfl : r = _ := hr
    simp [Record.skipped, Record.skip, free]
  | execute goes free =>
    obtain ⟨-, h | h | h⟩ := hr <;> simp [h, free]

/-! ### Positions in a sequence -/

theorem anyStops_iff {steps : List Step} {records : List Record} :
    anyStops steps records = true ↔
      ∃ (i : Nat) (s : Step) (r : Record), steps[i]? = some s ∧ records[i]? = some r ∧ stops s.head r = true := by
  unfold anyStops
  rw [List.any_eq_true]
  constructor
  · rintro ⟨⟨s, r⟩, hmem, hstops⟩
    obtain ⟨i, hi⟩ := List.mem_iff_getElem?.mp hmem
    obtain ⟨hs, hr⟩ := List.getElem?_zip_eq_some.mp hi
    exact ⟨i, s, r, hs, hr, hstops⟩
  · rintro ⟨i, s, r, hs, hr, hstops⟩
    exact ⟨(s, r), List.mem_iff_getElem?.mpr ⟨i, List.getElem?_zip_eq_some.mpr ⟨hs, hr⟩⟩, hstops⟩

theorem stops_iff {head : StepHead} {r : Record} :
    stops head r = true ↔ r.head.status = .failed ∧ r.head.error.isSome = true ∧ head.continueOnFail = false := by
  simp [stops, Record.hasOwnFailure, and_assoc]

namespace Setup
variable {u : Setup} {m : Moment} {depth frame : Nat}

/-- The state when the first `j` steps of a sequence were run. -/
def after (u : Setup) (depth frame : Nat) (steps : List Step) (j : Nat) (st : State) : State :=
  (u.runSteps (u.bodyWithin depth) frame false (steps.take j) st).2

/-- A step splits the run of its sequence into the steps before it, its own visit, and the rest. -/
theorem runSteps_at (u : Setup) (depth frame : Nat) {steps : List Step} {j : Nat} {s : Step}
    (hs : steps[j]? = some s) (st : State) :
    let before := (u.runSteps (u.bodyWithin depth) frame false (steps.take j) st).1
    let stopped := anyStops (steps.take j) before
    let visited := u.visit (u.bodyWithin depth) frame stopped s (u.after depth frame steps j st)
    (∃ rest, (u.runSteps (u.bodyWithin depth) frame false steps st).1 = before ++ visited.1 :: rest) ∧
      u.after depth frame steps (j + 1) st = visited.2 := by
  intro before stopped visited
  obtain ⟨hj, rfl⟩ := List.getElem?_eq_some_iff.mp hs
  constructor
  · have hsplit : steps.take j ++ steps[j] :: steps.drop (j + 1) = steps := by
      rw [← List.drop_eq_getElem_cons hj, List.take_append_drop]
    have hrun : u.runSteps (u.bodyWithin depth) frame false (steps.take j ++ steps[j] :: steps.drop (j + 1)) st = _ :=
      runSteps_append false _ _ st
    simp only [runSteps_cons, Bool.false_or] at hrun
    rw [hsplit] at hrun
    rw [hrun]
    exact ⟨_, rfl⟩
  · rw [after, ← List.take_append_getElem hj]
    simp only [runSteps_append, runSteps_cons, runSteps_nil, Bool.false_or]
    rfl

/-- What stopped a sequence before its step `j` are the failures of earlier steps. -/
theorem stopped_iff {steps : List Step} {j : Nat} {before rest : List Record}
    (length : before.length = (steps.take j).length) (hj : j ≤ steps.length) :
    anyStops (steps.take j) before = true ↔ FailedBefore steps (before ++ rest) j := by
  rw [List.length_take, Nat.min_eq_left hj] at length
  rw [anyStops_iff]
  constructor
  · rintro ⟨i, s, r, hs, hr, hstops⟩
    have hi : i < j := length ▸ (List.getElem?_eq_some_iff.mp hr).1
    rw [List.getElem?_take_of_lt hi] at hs
    exact ⟨i, hi, s, r, hs, (List.getElem?_append_left (length ▸ hi)).trans hr, stops_iff.mp hstops⟩
  · rintro ⟨i, hi, s, r, hs, hr, hfailed⟩
    rw [List.getElem?_append_left (length ▸ hi)] at hr
    exact ⟨i, s, r, (List.getElem?_take_of_lt hi).trans hs, hr, stops_iff.mpr hfailed⟩

/-- A run comes to every step of a sequence that it comes to. -/
theorem reaches_at {before rest : List Step} {stopped : Bool} {st : State}
    (h : Reaches u m (.sequence depth frame stopped (before ++ rest) st)) :
    Reaches u m (.sequence depth frame
      (stopped || anyStops before (u.runSteps (u.bodyWithin depth) frame stopped before st).1) rest
      (u.runSteps (u.bodyWithin depth) frame stopped before st).2) := by
  induction before generalizing stopped st with
  | nil => simpa [anyStops] using h
  | cons s before ih =>
    have hrest := ih (h.tail .next)
    rw [runSteps_cons]
    simpa [anyStops, Bool.or_assoc] using hrest

/-- How a run comes to the step at a position of a sequence. -/
theorem comes_to (u : Setup) (m : Moment) (depth frame : Nat) {steps : List Step} {j : Nat} {s : Step}
    (hs : steps[j]? = some s) (st : State) :
    ∃ stopped, (stopped = true ↔ FailedBefore steps (u.runSteps (u.bodyWithin depth) frame false steps st).1 j) ∧
      let visited := u.visit (u.bodyWithin depth) frame stopped s (u.after depth frame steps j st)
      (u.runSteps (u.bodyWithin depth) frame false steps st).1[j]? = some visited.1 ∧
      u.after depth frame steps (j + 1) st = visited.2 ∧
      (Reaches u m (.sequence depth frame false steps st) →
        Reaches u m (.sequence depth frame stopped (s :: steps.drop (j + 1)) (u.after depth frame steps j st))) := by
  obtain ⟨⟨rest, hrecords⟩, hafter⟩ := runSteps_at u depth frame hs st
  obtain ⟨hj, hsj⟩ := List.getElem?_eq_some_iff.mp hs
  have hlength : (u.runSteps (u.bodyWithin depth) frame false (steps.take j) st).1.length = (steps.take j).length :=
    length_runSteps false _ st
  refine ⟨_, ?_, ?_, hafter, fun h => ?_⟩
  · rw [hrecords]
    exact stopped_iff hlength (Nat.le_of_lt hj)
  · have hat : (u.runSteps (u.bodyWithin depth) frame false (steps.take j) st).1.length = j := by
      rw [hlength, List.length_take, Nat.min_eq_left (Nat.le_of_lt hj)]
    rw [hrecords, List.getElem?_append_right (Nat.le_of_eq hat), hat, Nat.sub_self]
    rfl
  · have hsplit : steps.take j ++ s :: steps.drop (j + 1) = steps := by
      rw [← hsj, ← List.drop_eq_getElem_cons hj, List.take_append_drop]
    rw [← hsplit] at h
    have hcomes := reaches_at h
    rw [Bool.false_or] at hcomes
    exact hcomes

theorem visit_own {stopped : Bool} {s : Step} {rest : List Step} {st : State}
    (h : Reaches u m (.sequence depth frame stopped (s :: rest) st)) (compound : s.tag ≠ .action)
    (error : (u.visit (u.bodyWithin depth) frame stopped s st).1.head.error.isSome = true) :
    OwnCause u m depth s st.checkpoint := by
  rcases u.visit_cases (u.bodyWithin depth) frame stopped s st with ⟨-, h'⟩ | ⟨-, -, h'⟩ | ⟨hc, rfl, h'⟩ <;>
    rw [h'] at error
  · cases error
  · cases error
  · exact own_cause (h.tail (.take hc)) compound error

theorem visit_call_fails {stopped : Bool} {s : Step} {st : State} (isAction : s.tag = .action)
    (failed : ∃ c ∈ Record.walkAll (u.visit (u.bodyWithin depth) frame stopped s st).1.children,
      c.head.status = .failed) :
    (u.visit (u.bodyWithin depth) frame stopped s st).2.cancelled = true ∨
      (u.visit (u.bodyWithin depth) frame stopped s st).1.hasOwnFailure = true := by
  rcases u.visit_cases (u.bodyWithin depth) frame stopped s st with ⟨-, h⟩ | ⟨-, -, h⟩ | ⟨-, -, h⟩ <;>
    rw [h] at failed ⊢
  · exact absurd failed no_failure_inside
  · exact absurd failed no_failure_inside
  · rcases u.runStep_cases (u.bodyWithin depth) frame s st.checkpoint with ⟨reason, -, h⟩ | ⟨e, -, h⟩ | ⟨-, h⟩ <;>
      rw [h] at failed ⊢
    · exact absurd failed no_failure_inside
    · exact absurd failed no_failure_inside
    · obtain ⟨head, kind⟩ := s
      cases kind with
      | action spec =>
        rw [begun, runKind] at failed ⊢
        exact act_fails failed
      | group | loop | branch => cases isAction

end Setup

/-! ### Sequences -/

/-- What the record of the step `s` at position `j` tells, in a sequence that is run from the state `st`. -/
structure Contained (u : Setup) (m : Moment) (depth frame : Nat) (steps : List Step) (st : State) (j : Nat) (s : Step)
    (records : List Record) (r : Record) : Prop where
  /-- The step is skipped for a prior failure just if an earlier step failed by itself. -/
  priorFailure : r.head.skipReason = some .priorFailure ↔
    (u.after depth frame steps j st).checkpoint.cancelled = false ∧ FailedBefore steps records j
  decided : ∃ d, Decides (FailedBefore steps records j) s (u.after depth frame steps j st).checkpoint d ∧
    Follows u s r d
  /-- A failure inside a group, a loop or a branch is none of its own. -/
  own : s.tag ≠ .action → r.head.error.isSome = true →
    OwnCause u m depth s (u.after depth frame steps j st).checkpoint
  /-- A failure inside a called workflow makes the call fail by itself, unless the run is cancelled. -/
  call : s.tag = .action → (∃ c ∈ Record.walkAll r.children, c.head.status = .failed) →
    (u.after depth frame steps (j + 1) st).cancelled = true ∨ r.hasOwnFailure = true

/-- In every sequence of a run, at any depth, the record of each step shows that failures are contained. -/
theorem failures_contained (u : Setup) (first : List Step) (start : State) {depth frame : Nat} {steps : List Step}
    {st : State} (h : Reaches u (.first u first start) (.sequence depth frame false steps st)) {j : Nat} {s : Step}
    (hs : steps[j]? = some s) :
    ∃ r, (u.runSteps (u.bodyWithin depth) frame false steps st).1[j]? = some r ∧
      Contained u (.first u first start) depth frame steps st j s
        (u.runSteps (u.bodyWithin depth) frame false steps st).1 r := by
  obtain ⟨stopped, hstopped, hrecord, hafter, hcomes⟩ := comes_to u (.first u first start) depth frame hs st
  obtain ⟨d, hd, hr⟩ := visit_decided _ hstopped s (u.after depth frame steps j st)
  refine ⟨_, hrecord, ?_⟩
  exact {
    priorFailure := hd.priorFailure_iff hr
    decided := ⟨d, hd, hr⟩
    own := visit_own (hcomes h)
    call := by
      rw [hafter]
      exact visit_call_fails }

/-- A failure inside a group skips the later steps of the group, and none after the group. -/
theorem failure_in_group_contained :
    let u : Setup := { executor := fun _ _ => { result := .error "down" } }
    let bad : Step := ⟨{ id := "bad" }, .action ⟨"note", []⟩⟩
    let next : Step := ⟨{ id := "next" }, .action ⟨"note", []⟩⟩
    let both : Step := ⟨{ id := "both" }, .group [bad, next]⟩
    let last : Step := ⟨{ id := "last" }, .action ⟨"note", []⟩⟩
    let st : State := { scope := .empty }
    (∃ inner r, Reaches u (.first u [both, last] st) (.sequence 8 0 false [bad, next] inner) ∧
      (u.runSteps (u.bodyWithin 8) 0 false [bad, next] inner).1[1]? = some r ∧
      r.head.skipReason = some .priorFailure) ∧
    ∃ r, (u.runSteps (u.bodyWithin 8) 0 false [both, last] st).1[1]? = some r ∧
      r.head.skipReason ≠ some .priorFailure := by
  intro u bad next both last st
  have hinner : Reaches u (.first u [both, last] st) (.sequence 8 0 false [bad, next] _) :=
    .tail (.tail .refl (.take rfl)) (.group rfl)
  obtain ⟨r, hr, skipped⟩ := failures_contained u [both, last] st hinner (j := 1) rfl
  obtain ⟨r', hr', goesOn⟩ := failures_contained u [both, last] st .refl (j := 1) rfl
  constructor
  · refine ⟨_, r, hinner, hr, skipped.priorFailure.mpr ⟨rfl, 0, by decide, bad, _, rfl, rfl, rfl, rfl, rfl⟩⟩
  · refine ⟨r', hr', fun h => ?_⟩
    obtain ⟨-, i, hi, s, before, -, hbefore, -, herror, -⟩ := goesOn.priorFailure.mp h
    obtain rfl : i = 0 := by omega
    cases hbefore
    cases herror

end StepTree
