import StepTree.Proofs.Moments
import StepTree.Proofs.Records

/-! # Traces mirror their steps

The records of a sequence are those of its steps, one for each in their order, and the records inside the
record of a step are those of one sequence inside the step: all of it or nothing, as the step was decided
on at the moment of the run at which it was taken up. -/

namespace StepTree

open Setup

/-! ### Records of steps -/

/-- What a record tells about the step it is of. -/
structure Labels (s : Step) (h : RecordHead) : Prop where
  stepId : h.stepId = s.id
  stepName : h.stepName = s.label
  stepKind : h.stepKind = s.tag
  actionType : h.actionType = (Record.pending s).head.actionType

/-- Nothing was handed over for the step. -/
structure Idle (h : RecordHead) : Prop where
  attempts : h.attempts = 0
  resolvedInputs : h.resolvedInputs = []

/-- Why a step did not begin, at a moment reached from `m`. -/
inductive Spared (u : Setup) (m : Moment) (depth : Nat) (s : Step) : SkipReason → Prop
  | cancelled {frame : Nat} {stopped : Bool} {rest : List Step} {st : State}
    (reaches : Reaches u m (.sequence depth frame stopped (s :: rest) st))
    (cancelled : st.checkpoint.cancelled = true) : Spared u m depth s .cancelled
  | priorFailure {frame : Nat} {rest : List Step} {st : State}
    (reaches : Reaches u m (.sequence depth frame true (s :: rest) st)) (goes : st.checkpoint.cancelled = false) :
    Spared u m depth s .priorFailure
  | disabled {frame : Nat} {st : State} (reaches : Reaches u m (.step depth frame s st))
    (disabled : s.head.disabled = true) : Spared u m depth s .disabled
  | condition {frame : Nat} {st : State} (reaches : Reaches u m (.step depth frame s st))
    (enabled : s.head.disabled = false) (unmet : s.head.condition.map st.holds = some (.ok false)) :
    Spared u m depth s .condition

/-- An iteration whose continue condition holds, or has no value, at a moment reached from `m`. -/
structure PassedOver (u : Setup) (m : Moment) (depth : Nat) (config : LoopConfig) (steps : List Step) (i : Iteration) :
    Prop where
  children : i.children = []
  continues : ∃ l left st, Reaches u m (.round depth steps l (left + 1) i.head.index st) ∧ l.config = config ∧
    (config.continueCondition.map (l.opened i.head.index st.checkpoint).holds = some (.ok true) ∧
        i.head.status = .skipped ∨
      (∃ e, config.continueCondition.map (l.opened i.head.index st.checkpoint).holds = some (.error e)) ∧
        i.head.status = .failed ∧ i.head.error.isSome = true)

/-- A step that began at a moment reached from `m`. -/
structure Began (u : Setup) (m : Moment) (depth : Nat) (s : Step) (st : State) (h : RecordHead) : Prop where
  labels : Labels s h
  startTime : h.startTime = some u.now
  reaches : ∃ frame, Reaches u m (.step depth frame s st)
  begins : gate s.head st = .begin

/-- The record is one of the step: the records inside it are those of the sequence that the step ran, as it
was decided at a moment reached from `m`. -/
inductive Mirrors (u : Setup) (m : Moment) : (depth : Nat) → Step → Record → Prop
  | skipped {depth : Nat} {s : Step} {h : RecordHead} {reason : SkipReason} (labels : Labels s h) (idle : Idle h)
    (startTime : h.startTime = none) (status : h.status = .skipped) (skipReason : h.skipReason = some reason)
    (spared : Spared u m depth s reason) : Mirrors u m depth s ⟨h, [], none, none⟩
  /-- The condition of the step has no value. -/
  | unmet {depth frame : Nat} {s : Step} {st : State} {h : RecordHead} {e : Condition.EvalError}
    (labels : Labels s h) (idle : Idle h) (startTime : h.startTime = some u.now) (status : h.status = .failed)
    (errorKind : h.errorKind = some .evaluation) (reaches : Reaches u m (.step depth frame s st))
    (fails : gate s.head st = .failure e) : Mirrors u m depth s ⟨h, [], none, none⟩
  /-- An action that enters no workflow. -/
  | action {depth : Nat} {head : StepHead} {spec : ActionSpec} {st : State} {h : RecordHead}
    (began : Began u m depth ⟨head, .action spec⟩ st h)
    (noCallee : spec.actionType = callActionType →
      ∀ entered, u.callee (u.bodyWithin depth).isSome st (resolved st head spec) ≠ .ok entered) :
    Mirrors u m depth ⟨head, .action spec⟩ ⟨h, [], none, none⟩
  | call {depth : Nat} {head : StepHead} {spec : ActionSpec} {st : State} {h : RecordHead} {children : List Record}
    {id : String} {w : Workflow} (began : Began u m (depth + 1) ⟨head, .action spec⟩ st h)
    (isCall : spec.actionType = callActionType) (enters : u.callee true st (resolved st head spec) = .ok (id, w))
    (length : children.length = w.steps.length) (mirrors : ∀ p ∈ w.steps.zip children, Mirrors u m depth p.1 p.2) :
    Mirrors u m (depth + 1) ⟨head, .action spec⟩ ⟨h, children, none, none⟩
  | group {depth : Nat} {head : StepHead} {steps : List Step} {st : State} {h : RecordHead} {children : List Record}
    (began : Began u m depth ⟨head, .group steps⟩ st h) (length : children.length = steps.length)
    (mirrors : ∀ p ∈ steps.zip children, Mirrors u m depth p.1 p.2) :
    Mirrors u m depth ⟨head, .group steps⟩ ⟨h, children, none, none⟩
  | loop {depth : Nat} {head : StepHead} {config : LoopConfig} {steps : List Step} {st : State} {h : RecordHead}
    {record : LoopRecord} (began : Began u m depth ⟨head, .loop config steps⟩ st h)
    (lengths : ∀ i ∈ record.iterations, PassedOver u m depth config steps i ∨ i.children.length = steps.length)
    (mirrors : ∀ i ∈ record.iterations, ∀ p ∈ steps.zip i.children, Mirrors u m depth p.1 p.2) :
    Mirrors u m depth ⟨head, .loop config steps⟩ ⟨h, [], some record, none⟩
  /-- A branch of which no arm fits. -/
  | noArm {depth : Nat} {head : StepHead} {arms : List Arm} {st : State} {h : RecordHead}
    (began : Began u m depth ⟨head, .branch arms⟩ st h) (unfit : ∀ a ∈ arms, ¬a.Fits st) :
    Mirrors u m depth ⟨head, .branch arms⟩ ⟨h, [], none, none⟩
  /-- A branch of which an arm fits, and none before it. -/
  | arm {depth : Nat} {head : StepHead} {before after : List Arm} {a : Arm} {st : State} {h : RecordHead}
    {selection : Selection} {children : List Record}
    (began : Began u m depth ⟨head, .branch (before ++ a :: after)⟩ st h) (fits : a.Fits st)
    (unfit : ∀ b ∈ before, ¬b.Fits st) (index : selection.index = before.length)
    (label : selection.label = a.shown before.length) (length : children.length = a.children.length)
    (mirrors : ∀ p ∈ a.children.zip children, Mirrors u m depth p.1 p.2) :
    Mirrors u m depth ⟨head, .branch (before ++ a :: after)⟩ ⟨h, [], none, some ⟨selection, children⟩⟩

/-- The records are those of the steps, one for each in their order. -/
structure MirrorsAll (u : Setup) (m : Moment) (depth : Nat) (steps : List Step) (records : List Record) : Prop where
  length : records.length = steps.length
  mirrors : ∀ p ∈ steps.zip records, Mirrors u m depth p.1 p.2

namespace MirrorsAll
variable {u : Setup} {m : Moment} {depth : Nat}

theorem nil : MirrorsAll u m depth [] [] := ⟨rfl, by simp⟩

theorem cons {s : Step} {r : Record} {steps : List Step} {records : List Record} (h : Mirrors u m depth s r)
    (hrest : MirrorsAll u m depth steps records) : MirrorsAll u m depth (s :: steps) (r :: records) where
  length := by rw [List.length_cons, List.length_cons, hrest.length]
  mirrors := by
    rw [List.zip_cons_cons]
    exact List.forall_mem_cons.mpr ⟨h, hrest.mirrors⟩

end MirrorsAll

/-! ### Sequences and steps of a run -/

/-- The record of the step mirrors it whenever a run from `m` takes it up. -/
def StepMirrors (u : Setup) (m : Moment) (depth : Nat) (s : Step) : Prop :=
  ∀ frame st, Reaches u m (.step depth frame s st) → Mirrors u m depth s (u.runStep (u.bodyWithin depth) frame s st).1

/-- The records of the steps mirror them whenever a run from `m` comes to them. -/
def SequenceMirrors (u : Setup) (m : Moment) (depth : Nat) (steps : List Step) : Prop :=
  ∀ frame stopped st, Reaches u m (.sequence depth frame stopped steps st) →
    MirrorsAll u m depth steps (u.runSteps (u.bodyWithin depth) frame stopped steps st).1

section Runs
variable {u : Setup} {m : Moment} {depth frame : Nat} {st : State}

/-- A step that is skipped when it is come to. -/
theorem mirrors_skip {s : Step} {reason : SkipReason} (h : Spared u m depth s reason) :
    Mirrors u m depth s (st.skip s reason).1 := .skipped ⟨rfl, rfl, rfl, rfl⟩ ⟨rfl, rfl⟩ rfl rfl rfl h

theorem mirrors_visit {stopped : Bool} {s : Step} {rest : List Step} (one : StepMirrors u m depth s)
    (h : Reaches u m (.sequence depth frame stopped (s :: rest) st)) :
    Mirrors u m depth s (u.visit (u.bodyWithin depth) frame stopped s st).1 := by
  rcases u.visit_cases (u.bodyWithin depth) frame stopped s st with ⟨hc, h'⟩ | ⟨hc, rfl, h'⟩ | ⟨hc, rfl, h'⟩ <;> rw [h']
  · exact mirrors_skip (.cancelled h hc)
  · exact mirrors_skip (.priorFailure h hc)
  · exact one frame st.checkpoint (h.tail (.take hc))

/-- A step mirrors as soon as it does when it begins. -/
theorem mirrors_step {s : Step} (h : Reaches u m (.step depth frame s st))
    (begins : gate s.head st = .begin → Mirrors u m depth s (u.begun (u.bodyWithin depth) frame s st).1) :
    Mirrors u m depth s (u.runStep (u.bodyWithin depth) frame s st).1 := by
  rcases u.runStep_cases (u.bodyWithin depth) frame s st with ⟨reason, hg, h'⟩ | ⟨e, hg, h'⟩ | ⟨hg, h'⟩ <;> rw [h']
  · refine mirrors_skip ?_
    rcases gate_cases s.head st with ⟨hd, hg'⟩ | ⟨hd, hcond, hg'⟩ | ⟨-, e, -, hg'⟩ | ⟨-, -, hg'⟩ <;>
      cases hg.symm.trans hg'
    · exact .disabled h hd
    · exact .condition h hd hcond
  · exact .unmet ⟨rfl, rfl, rfl, rfl⟩ ⟨rfl, rfl⟩ rfl rfl rfl h hg
  · exact begins hg

theorem mirrors_action {head : StepHead} {spec : ActionSpec}
    (callee : ∀ d, depth = d + 1 → ∀ steps, SequenceMirrors u m d steps)
    (h : Reaches u m (.step depth frame ⟨head, .action spec⟩ st)) (hg : gate head st = .begin) :
    Mirrors u m depth ⟨head, .action spec⟩ (u.begun (u.bodyWithin depth) frame ⟨head, .action spec⟩ st).1 := by
  rw [begun, runKind]
  change Mirrors u m depth ⟨head, .action spec⟩ (u.act (u.bodyWithin depth) frame head spec _ _).1
  rcases u.act_cases (u.bodyWithin depth) frame head spec (u.begin ⟨head, .action spec⟩)
    (u.inside ⟨head, .action spec⟩ st) with
    ⟨hne, n, commands, result, -, -, h'⟩ | ⟨-, e, hrefused, h'⟩ | ⟨hcall, run, id, w, hrun, henters, h'⟩ <;> rw [h']
  · cases result <;> exact .action ⟨⟨rfl, rfl, rfl, rfl⟩, rfl, ⟨frame, h⟩, hg⟩ fun heq => absurd heq hne
  · exact .action ⟨⟨rfl, rfl, rfl, rfl⟩, rfl, ⟨frame, h⟩, hg⟩ fun _ => hrefused
  · obtain ⟨d, rfl, rfl⟩ := bodyWithin_eq_some hrun
    obtain ⟨hlength, hmirrors⟩ := callee d rfl _ _ _ _ (h.tail (.call hg hcall henters))
    have henters : u.callee true st (resolved st head spec) = .ok (id, w) := henters
    rw [runWithin_eq]
    rcases u.callEnded_cases frame head (u.supplied head spec (u.begin ⟨head, .action spec⟩)
      (u.inside ⟨head, .action spec⟩ st)) id (u.inside ⟨head, .action spec⟩ st) _ with
      ⟨-, h'⟩ | ⟨-, -, h'⟩ | ⟨-, -, h'⟩ <;> rw [h']
    · exact .call ⟨⟨rfl, rfl, rfl, rfl⟩, rfl, ⟨frame, h⟩, hg⟩ hcall henters hlength hmirrors
    · exact .call ⟨⟨rfl, rfl, rfl, rfl⟩, rfl, ⟨frame, h⟩, hg⟩ hcall henters hlength hmirrors
    · exact .call ⟨⟨rfl, rfl, rfl, rfl⟩, rfl, ⟨frame, h⟩, hg⟩ hcall henters hlength hmirrors

theorem mirrors_group {head : StepHead} {steps : List Step} (all : SequenceMirrors u m depth steps)
    (h : Reaches u m (.step depth frame ⟨head, .group steps⟩ st)) (hg : gate head st = .begin) :
    Mirrors u m depth ⟨head, .group steps⟩ (u.begun (u.bodyWithin depth) frame ⟨head, .group steps⟩ st).1 := by
  obtain ⟨hlength, hmirrors⟩ := all _ _ _ (h.tail (.group hg))
  rw [begun, runKind]
  exact .group ⟨⟨rfl, rfl, rfl, rfl⟩, rfl, ⟨frame, h⟩, hg⟩ hlength hmirrors

/-- What an iteration of a loop can come to. -/
def Turned (u : Setup) (m : Moment) (depth : Nat) (config : LoopConfig) (steps : List Step) (i : Iteration) : Prop :=
  PassedOver u m depth config steps i ∨ MirrorsAll u m depth steps i.children

theorem turned_round {l : Repetition} {steps : List Step} {left index : Nat}
    (hbody : l.body = fun st => u.runSteps (u.bodyWithin depth) st.scope.currentFrame false steps st)
    (all : SequenceMirrors u m depth steps)
    (h : Reaches u m (.round depth steps l (left + 1) index st)) (goes : l.stop? index st.checkpoint = none) :
    Turned u m depth l.config steps (l.round u index (l.opened index st.checkpoint)).1 := by
  rw [Repetition.round_eq, Repetition.iteration]
  rcases l.iterate_cases u index (u.redactValue (l.opened index st.checkpoint) (l.plan.item index)) _ with
    ⟨hcont, h'⟩ | ⟨e, hcont, h'⟩ | ⟨hcont, h'⟩ <;> rw [h']
  · exact Or.inl ⟨rfl, l, left, st, h, rfl, Or.inl ⟨hcont, rfl⟩⟩
  · exact Or.inl ⟨rfl, l, left, st, h, rfl, Or.inr ⟨⟨e, hcont⟩, rfl, rfl⟩⟩
  · rw [hbody]
    exact Or.inr (all _ _ _ (h.tail (.iteration goes hcont)))

theorem turned_rounds {l : Repetition} {steps : List Step}
    (hbody : l.body = fun st => u.runSteps (u.bodyWithin depth) st.scope.currentFrame false steps st)
    (all : SequenceMirrors u m depth steps)
    {left index : Nat} (record : LoopRecord) (h : Reaches u m (.round depth steps l left index st))
    (hrecord : ∀ i ∈ record.iterations, Turned u m depth l.config steps i) :
    ∀ i ∈ (l.rounds u left index record st).1.iterations, Turned u m depth l.config steps i := by
  induction left generalizing index record st with
  | zero => exact hrecord
  | succ left ih =>
    rw [Repetition.rounds_succ]
    split
    · exact hrecord
    · next goes =>
      -- The record grows at its end, by an iteration of which the round is reached.
      have hadd : ∀ i ∈ (record.add (l.round u index (l.opened index st.checkpoint)).1).iterations,
          Turned u m depth l.config steps i := by
        intro i hi
        rcases List.mem_append.mp hi with hi | hi
        · exact hrecord i hi
        · rw [List.mem_singleton.mp hi]
          exact turned_round hbody all h goes
      dsimp only
      split
      · exact hadd
      · next goesOn => exact ih _ (h.tail (.again goes goesOn)) hadd

theorem mirrors_turned {head : StepHead} {config : LoopConfig} {steps : List Step} {h : RecordHead}
    {record : LoopRecord} (began : Began u m depth ⟨head, .loop config steps⟩ st h)
    (turned : ∀ i ∈ record.iterations, Turned u m depth config steps i) :
    Mirrors u m depth ⟨head, .loop config steps⟩ ⟨h, [], some record, none⟩ := by
  refine .loop began (fun i hi => (turned i hi).imp_right (·.length)) fun i hi => ?_
  rcases turned i hi with passedOver | whole
  · rw [passedOver.children, List.zip_nil_right]
    exact List.forall_mem_nil _
  · exact whole.mirrors

theorem mirrors_loop {head : StepHead} {config : LoopConfig} {steps : List Step}
    (all : SequenceMirrors u m depth steps)
    (h : Reaches u m (.step depth frame ⟨head, .loop config steps⟩ st)) (hg : gate head st = .begin) :
    Mirrors u m depth ⟨head, .loop config steps⟩
      (u.begun (u.bodyWithin depth) frame ⟨head, .loop config steps⟩ st).1 := by
  rw [begun, runKind]
  rcases u.loop_cases head.id config steps.isEmpty _ (u.begin ⟨head, .loop config steps⟩)
    (u.inside ⟨head, .loop config steps⟩ st) with ⟨-, h'⟩ | ⟨-, e, -, h'⟩ | ⟨hne, plan, hplan, h'⟩ <;> rw [h']
  · exact .loop ⟨⟨rfl, rfl, rfl, rfl⟩, rfl, ⟨frame, h⟩, hg⟩ (List.forall_mem_nil _) (List.forall_mem_nil _)
  · exact .loop ⟨⟨rfl, rfl, rfl, rfl⟩, rfl, ⟨frame, h⟩, hg⟩ (List.forall_mem_nil _) (List.forall_mem_nil _)
  · have hsteps : steps ≠ [] := by simpa using hne
    have hloop : Reaches u m (.loop depth steps (u.repetition depth head config steps plan st)
        (u.inside ⟨head, .loop config steps⟩ st)) := h.tail (.loop hg hsteps hplan)
    have hturned := turned_rounds rfl all
      (LoopRecord.begin config.loopType plan.total? (u.settings.iterationLimit config.maxIterations))
      (hloop.tail .rounds) (List.forall_mem_nil _)
    rw [Repetition.run_eq]
    dsimp only
    rcases Repetition.ended_cases u (u.begin ⟨head, .loop config steps⟩) _ _ _ with ⟨e, -, h'⟩ | ⟨reason, -, h'⟩ <;>
      rw [h']
    · exact mirrors_turned ⟨⟨rfl, rfl, rfl, rfl⟩, rfl, ⟨frame, h⟩, hg⟩ hturned
    · exact mirrors_turned ⟨⟨rfl, rfl, rfl, rfl⟩, rfl, ⟨frame, h⟩, hg⟩ hturned

theorem mirrors_branch {head : StepHead} {arms : List Arm}
    (all : ∀ a ∈ arms, SequenceMirrors u m depth a.children)
    (h : Reaches u m (.step depth frame ⟨head, .branch arms⟩ st)) (hg : gate head st = .begin) :
    Mirrors u m depth ⟨head, .branch arms⟩ (u.begun (u.bodyWithin depth) frame ⟨head, .branch arms⟩ st).1 := by
  rw [begun, runKind]
  -- The arms are looked at after the start of the branch was reported, which does not change them.
  rcases Arm.find?_evaluateAll u st 0 arms with ⟨hfind, hunfit⟩ | ⟨before, a, after, rfl, hfits, hunfit, hfind⟩
  · rcases u.branch_cases head.id arms (fun index st => u.runArm (u.bodyWithin depth) index arms st)
      (u.begin ⟨head, .branch arms⟩) (u.inside ⟨head, .branch arms⟩ st) with ⟨-, h'⟩ | ⟨-, -, h'⟩ | ⟨e, hsome, h'⟩
    · rw [h']
      exact .noArm ⟨⟨rfl, rfl, rfl, rfl⟩, rfl, ⟨frame, h⟩, hg⟩ hunfit
    · rw [h', noneTaken]
      split <;> exact .noArm ⟨⟨rfl, rfl, rfl, rfl⟩, rfl, ⟨frame, h⟩, hg⟩ hunfit
    · rw [inside, Arm.evaluateAll_emit, hfind] at hsome
      cases hsome
  · rcases u.branch_cases head.id (before ++ a :: after)
      (fun index st => u.runArm (u.bodyWithin depth) index (before ++ a :: after) st)
      (u.begin ⟨head, .branch (before ++ a :: after)⟩) (u.inside ⟨head, .branch (before ++ a :: after)⟩ st) with
      ⟨hnil, -⟩ | ⟨-, hnone, -⟩ | ⟨e, hsome, h'⟩
    · simp at hnil
    · rw [inside, Arm.evaluateAll_emit, hfind] at hnone
      cases hnone
    · rw [inside, Arm.evaluateAll_emit, hfind] at hsome
      obtain rfl := Option.some.inj hsome
      have hindex : (before ++ a :: after)[(a.evaluate u st (0 + before.length)).index]? = some a := by simp
      obtain ⟨hlength, hmirrors⟩ := all a (by simp) _ _ _ (h.tail (.arm hg hfind hindex))
      dsimp only at h'
      rw [runArm_eq, hindex] at h'
      rw [h']
      exact .arm ⟨⟨rfl, rfl, rfl, rfl⟩, rfl, ⟨frame, h⟩, hg⟩ hfits hunfit (by simp) (by simp) hlength hmirrors

/-- The record of every step that a run takes up mirrors the step, and the records of every sequence it
comes to are those of its steps. -/
theorem run_mirrors (u : Setup) (m : Moment) (depth : Nat) :
    (∀ s, StepMirrors u m depth s) ∧ ∀ steps, SequenceMirrors u m depth steps := by
  refine run_induction (StepMirrors u m) (SequenceMirrors u m) ?nil ?cons ?action ?group ?loop ?branch depth
  case nil =>
    intro depth frame stopped st _
    rw [runSteps_nil]
    exact .nil
  case cons =>
    intro depth s rest one all frame stopped st h
    rw [runSteps_cons]
    exact .cons (mirrors_visit one h) (all _ _ _ (h.tail .next))
  case action =>
    intro depth head spec callee frame st h
    exact mirrors_step h (mirrors_action callee h)
  case group =>
    intro depth head children all frame st h
    exact mirrors_step h (mirrors_group all h)
  case loop =>
    intro depth head config children all frame st h
    exact mirrors_step h (mirrors_loop all h)
  case branch =>
    intro depth head arms all frame st h
    exact mirrors_step h (mirrors_branch all h)

end Runs

/-! ### Records anywhere in a trace -/

/-- Which kinds of records inside it a record carries. -/
def Record.details (r : Record) : List Bool := [!r.children.isEmpty, r.loop.isSome, r.branch.isSome]

theorem exists_zip {steps : List Step} {records : List Record} (length : records.length = steps.length) {r : Record}
    (hr : r ∈ records) : ∃ p ∈ steps.zip records, p.2 = r := by
  rw [← List.map_snd_zip (Nat.le_of_eq length)] at hr
  exact List.mem_map.mp hr

namespace Mirrors
variable {u : Setup} {m : Moment} {depth : Nat} {s : Step} {r : Record}

/-- A record tells which step it is of. -/
theorem labels (h : Mirrors u m depth s r) : Labels s r.head := by
  cases h with
  | skipped labels => exact labels
  | unmet labels => exact labels
  | action began => exact began.labels
  | call began => exact began.labels
  | group began => exact began.labels
  | loop began => exact began.labels
  | noArm began => exact began.labels
  | arm began => exact began.labels

/-- A step that did not begin has a record without anything in it. -/
theorem idle (h : Mirrors u m depth s r) (start : r.head.startTime = none) :
    r.head.status = .skipped ∧ r.nested = [] ∧ Idle r.head := by
  cases h with
  | skipped _ idle _ status => exact ⟨status, rfl, idle⟩
  | unmet _ _ startTime => cases startTime.symm.trans start
  | action began => cases began.startTime.symm.trans start
  | call began => cases began.startTime.symm.trans start
  | group began => cases began.startTime.symm.trans start
  | loop began => cases began.startTime.symm.trans start
  | noArm began => cases began.startTime.symm.trans start
  | arm began => cases began.startTime.symm.trans start

theorem one_detail (h : Mirrors u m depth s r) : r.details.count true ≤ 1 := by
  cases h <;> simp [Record.details, List.count_cons]
  all_goals split <;> omega

/-- The records inside a record mirror steps if all records directly inside it do. -/
theorem walk_of_nested (h : Mirrors u m depth s r)
    (nested : ∀ c ∈ r.nested, ∀ r' ∈ c.walk, ∃ depth' s', Mirrors u m depth' s' r') :
    ∀ r' ∈ r.walk, ∃ depth' s', Mirrors u m depth' s' r' := by
  intro r' hr'
  rcases Record.mem_walk.mp hr' with rfl | ⟨c, hc, hr'⟩
  · exact ⟨depth, s, h⟩
  · exact nested c hc r' hr'

theorem walk (h : Mirrors u m depth s r) : ∀ r' ∈ r.walk, ∃ depth' s', Mirrors u m depth' s' r' := by
  induction h with
  | skipped labels idle startTime status skipReason spared =>
    exact walk_of_nested (.skipped labels idle startTime status skipReason spared) (List.forall_mem_nil _)
  | unmet labels idle startTime status errorKind reaches fails =>
    exact walk_of_nested (.unmet labels idle startTime status errorKind reaches fails) (List.forall_mem_nil _)
  | action began noCallee => exact walk_of_nested (.action began noCallee) (List.forall_mem_nil _)
  | noArm began unfit => exact walk_of_nested (.noArm began unfit) (List.forall_mem_nil _)
  | call began isCall enters length mirrors ih =>
    refine walk_of_nested (.call began isCall enters length mirrors) fun c hc => ?_
    obtain ⟨p, hp, rfl⟩ := exists_zip length (by simpa [Record.nested] using hc)
    exact ih p hp
  | group began length mirrors ih =>
    refine walk_of_nested (.group began length mirrors) fun c hc => ?_
    obtain ⟨p, hp, rfl⟩ := exists_zip length (by simpa [Record.nested] using hc)
    exact ih p hp
  | @loop _ _ _ _ _ _ record began lengths mirrors ih =>
    refine walk_of_nested (.loop began lengths mirrors) fun c hc => ?_
    obtain ⟨i, hi, hc⟩ : ∃ i ∈ record.iterations, c ∈ i.children := by simpa [Record.nested] using hc
    rcases lengths i hi with passedOver | length
    · rw [passedOver.children] at hc
      cases hc
    · obtain ⟨p, hp, rfl⟩ := exists_zip length hc
      exact ih i hi p hp
  | arm began fits unfit index label length mirrors ih =>
    refine walk_of_nested (.arm began fits unfit index label length mirrors) fun c hc => ?_
    obtain ⟨p, hp, rfl⟩ := exists_zip length (by simpa [Record.nested] using hc)
    exact ih p hp

end Mirrors

theorem runStep_kind (u : Setup) (depth frame : Nat) (s : Step) (st : State) :
    (u.runStep (u.bodyWithin depth) frame s st).1.head.stepKind = s.tag :=
  ((run_mirrors u (.step depth frame s st) depth).1 s frame st .refl).labels.stepKind

/-- The trace of a run mirrors its steps. Every record in it is one of a step, carries at most one kind of
records inside it, and none if the step did not begin. -/
theorem trace_mirrors_steps (u : Setup) (runId : String) (steps : List Step) (st : State) :
    MirrorsAll u (.first u steps st) u.settings.maxCallDepth steps (u.run runId steps st).1.steps ∧
    ∀ r ∈ Record.walkAll (u.run runId steps st).1.steps,
      (∃ depth s, Mirrors u (.first u steps st) depth s r) ∧ r.details.count true ≤ 1 ∧
      (r.head.startTime = none → r.head.status = .skipped ∧ r.nested = [] ∧ Idle r.head) := by
  have all : MirrorsAll u (.first u steps st) u.settings.maxCallDepth steps (u.run runId steps st).1.steps := by
    have hrun : (u.run runId steps st).1.steps = (u.runWithin u.settings.maxCallDepth steps st).1 := rfl
    rw [hrun, runWithin_eq]
    exact (run_mirrors u _ _).2 _ _ _ _ .refl
  refine ⟨all, fun r hr => ?_⟩
  obtain ⟨c, hc, hr⟩ := Record.mem_walkAll.mp hr
  obtain ⟨p, hp, rfl⟩ := exists_zip all.length hc
  obtain ⟨depth, s, h⟩ := (all.mirrors p hp).walk r hr
  exact ⟨⟨depth, s, h⟩, h.one_detail, h.idle⟩

end StepTree
