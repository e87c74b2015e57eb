import StepTree.Proofs.Frames

/-! # The moments of a run

A run is at one moment at a time: it comes to the rest of a sequence, takes up a step, begins a loop or one
of its rounds, or takes a frame off the scope. Which moment leads to which others is read off the functions
that carry steps out. At every moment reached the steps write into the innermost frame, every step restores
the scope, and a frame that is taken off is there. -/

namespace StepTree

/-! ### Moments -/

/-- What a run is about to do; `depth` more calls may be opened. -/
inductive Moment where
  /-- To come to the rest of a sequence, whose outputs go into a frame. -/
  | sequence (depth frame : Nat) (stopped : Bool) (steps : List Step) (st : State)
  /-- To take up a step. -/
  | step (depth frame : Nat) (s : Step) (st : State)
  /-- To run a loop over the steps. -/
  | loop (depth : Nat) (steps : List Step) (l : Repetition) (st : State)
  /-- To come to the round at `index` of a loop; `left` more are within the limit. -/
  | round (depth : Nat) (steps : List Step) (l : Repetition) (left index : Nat) (st : State)
  /-- To take the innermost frame off. -/
  | pop (st : State)

namespace Setup

/-- The loop that a loop step runs by a plan. -/
def repetition (u : Setup) (depth : Nat) (head : StepHead) (config : LoopConfig) (steps : List Step) (plan : Plan)
    (st : State) : Repetition where
  stepId := head.id
  config := config
  plan := plan
  limit := u.settings.iterationLimit config.maxIterations
  frame := st.scope.push.currentFrame
  body st := u.runSteps (u.bodyWithin depth) st.scope.currentFrame false steps st

theorem repetition_body (u : Setup) (depth : Nat) (head : StepHead) (config : LoopConfig) (steps : List Step)
    (plan : Plan) (st : State) : (u.repetition depth head config steps plan st).body = u.runWithin depth steps :=
  funext fun st => (runWithin_eq depth steps st).symm

end Setup

open Setup in
/-- One moment of a run leads to another. -/
inductive Leads (u : Setup) : Moment → Moment → Prop
  /-- A step is taken up unless the run is cancelled or the sequence has stopped. -/
  | take {depth frame : Nat} {s : Step} {rest : List Step} {st : State} (go : st.checkpoint.cancelled = false) :
    Leads u (.sequence depth frame false (s :: rest) st) (.step depth frame s st.checkpoint)
  | next {depth frame : Nat} {stopped : Bool} {s : Step} {rest : List Step} {st : State} :
    Leads u (.sequence depth frame stopped (s :: rest) st)
      (.sequence depth frame (stopped || stops s.head (u.visit (u.bodyWithin depth) frame stopped s st).1) rest
        (u.visit (u.bodyWithin depth) frame stopped s st).2)
  | call {depth frame : Nat} {head : StepHead} {spec : ActionSpec} {st : State} {id : String} {w : Workflow}
    (go : gate head st = .begin) (isCall : spec.actionType = callActionType)
    (enters : u.callee true st (resolved st head spec) = .ok (id, w)) :
    Leads u (.step (depth + 1) frame ⟨head, .action spec⟩ st)
      (.sequence depth (calleeState id w (resolved st head spec) st).scope.currentFrame false w.steps
        (calleeState id w (resolved st head spec) (u.inside ⟨head, .action spec⟩ st)))
  | group {depth frame : Nat} {head : StepHead} {steps : List Step} {st : State} (go : gate head st = .begin) :
    Leads u (.step depth frame ⟨head, .group steps⟩ st)
      (.sequence depth st.scope.currentFrame false steps (u.inside ⟨head, .group steps⟩ st))
  | arm {depth frame : Nat} {head : StepHead} {arms : List Arm} {st : State} {e : ArmEvaluation} {a : Arm}
    (go : gate head st = .begin) (taken : (Arm.evaluateAll u st 0 arms).find? (·.result) = some e)
    (isArm : arms[e.index]? = some a) :
    Leads u (.step depth frame ⟨head, .branch arms⟩ st)
      (.sequence depth st.scope.currentFrame false a.children
        ((u.inside ⟨head, .branch arms⟩ st).emit (.branchSelected head.id e.index e.label)))
  | loop {depth frame : Nat} {head : StepHead} {config : LoopConfig} {steps : List Step} {st : State} {plan : Plan}
    (go : gate head st = .begin) (some_step : steps ≠ []) (planned : config.plan st.scope.lookup = .ok plan) :
    Leads u (.step depth frame ⟨head, .loop config steps⟩ st)
      (.loop depth steps (u.repetition depth head config steps plan st) (u.inside ⟨head, .loop config steps⟩ st))
  | rounds {depth : Nat} {steps : List Step} {l : Repetition} {st : State} :
    Leads u (.loop depth steps l st) (.round depth steps l l.limit.toNat 0 { st with scope := st.scope.push })
  /-- The frame of the loop is taken off at its end. -/
  | finish {depth : Nat} {steps : List Step} {l : Repetition} {st : State} :
    Leads u (.loop depth steps l st) (.pop (l.turns u st).2.2)
  /-- The break condition takes the frame of an iteration off that was only opened. -/
  | giveUp {depth : Nat} {steps : List Step} {l : Repetition} {left index : Nat} {st : State} {stop : Stop}
    (goes : l.stopBefore? index st.checkpoint = none) (broken : l.break? (l.opened index st.checkpoint) = some stop) :
    Leads u (.round depth steps l (left + 1) index st) (.pop (l.opened index st.checkpoint))
  | iteration {depth : Nat} {steps : List Step} {l : Repetition} {left index : Nat} {st : State}
    (goes : l.stop? index st.checkpoint = none)
    (runs : ∀ value ∈ l.config.continueCondition.map (l.opened index st.checkpoint).holds, value = .ok false) :
    Leads u (.round depth steps l (left + 1) index st)
      (.sequence depth (l.opened index st.checkpoint).scope.currentFrame false steps
        ((l.opened index st.checkpoint).emit
          (.iterationStarted l.stepId index (u.redactValue (l.opened index st.checkpoint) (l.plan.item index)))))
  /-- The frame of an iteration is taken off when its steps were run. -/
  | close {depth : Nat} {steps : List Step} {l : Repetition} {left index : Nat} {st : State}
    (goes : l.stop? index st.checkpoint = none) :
    Leads u (.round depth steps l (left + 1) index st) (.pop (l.iteration u index (l.opened index st.checkpoint)).2)
  | again {depth : Nat} {steps : List Step} {l : Repetition} {left index : Nat} {st : State}
    (goes : l.stop? index st.checkpoint = none)
    (goesOn : l.stopAfter? (l.round u index (l.opened index st.checkpoint)).1
      (l.round u index (l.opened index st.checkpoint)).2 = none) :
    Leads u (.round depth steps l (left + 1) index st)
      (.round depth steps l left (index + 1) (l.round u index (l.opened index st.checkpoint)).2)

/-- The moments that a moment leads to in the end. -/
inductive Reaches (u : Setup) (m : Moment) : Moment → Prop
  | refl : Reaches u m m
  | tail {m' m'' : Moment} (reaches : Reaches u m m') (leads : Leads u m' m'') : Reaches u m m''

/-- The first moment of a run. -/
def Moment.first (u : Setup) (steps : List Step) (st : State) : Moment :=
  .sequence u.settings.maxCallDepth st.scope.currentFrame false steps st

/-- What holds at the first moment of a run and is handed on holds at every moment that is reached. -/
theorem Reaches.invariant {u : Setup} {P : Moment → Prop} (leads : ∀ m m', Leads u m m' → P m → P m') {m m' : Moment}
    (h : Reaches u m m') (first : P m) : P m' := by
  induction h with
  | refl => exact first
  | tail _ hlead ih => exact leads _ _ hlead ih

/-! ### Frames at the moments of a run -/

/-- Sequences and steps write into the innermost frame, and a loop into its own. -/
def Moment.Framed : Moment → Prop
  | .sequence _ frame _ _ st => frame = st.scope.currentFrame
  | .step _ frame _ st => frame = st.scope.currentFrame
  | .loop _ _ l st => (∀ st, Kept st (l.body st).2) ∧ l.frame = st.scope.push.currentFrame
  | .round _ _ l _ _ st => (∀ st, Kept st (l.body st).2) ∧ l.frame = st.scope.currentFrame
  | .pop st => ∃ around : Scope, st.scope.outer = around.stack

theorem Leads.framed {u : Setup} {m m' : Moment} (h : Leads u m m') (hm : m.Framed) : m'.Framed := by
  cases h with
  | take go =>
    rw [Moment.Framed, State.checkpoint_scope]
    exact hm
  | @next depth frame stopped s rest st =>
    obtain rfl : frame = st.scope.currentFrame := hm
    exact (Setup.visit_kept ((u.run_kept depth).1 s) stopped st).currentFrame.symm
  | call => rfl
  | group => rfl
  | arm => rfl
  | @loop depth => exact ⟨fun st => (u.run_kept depth).2 _ false st, rfl⟩
  | rounds => exact hm
  | @finish _ _ l st => exact ⟨st.scope, (Repetition.turns_kept hm.1 hm.2).outer⟩
  | @giveUp _ _ _ _ _ st => exact ⟨st.checkpoint.scope, Repetition.opened_outer⟩
  | iteration => rfl
  | @close _ _ _ _ index st => exact ⟨st.checkpoint.scope, Repetition.iteration_outer hm.1 index _⟩
  | @again _ _ l _ index st =>
    obtain ⟨hbody, hframe⟩ := hm
    have hlook := Kept.checkpoint st
    have hround := Repetition.round_kept (u := u) hbody (hframe.trans hlook.currentFrame.symm) index
    exact ⟨hbody, hframe.trans (hlook.trans hround).currentFrame.symm⟩

/-- What holds at the first moment of a run and is handed on where the frames are in order holds at every moment. -/
theorem Reaches.framed_invariant {u : Setup} {P : Moment → Prop}
    (leads : ∀ m m', Leads u m m' → m.Framed → P m → P m') {m m' : Moment} (h : Reaches u m m') (framed : m.Framed)
    (first : P m) : P m' := by
  have both : m'.Framed ∧ P m' := by
    refine h.invariant (P := fun m => m.Framed ∧ P m) (fun m m' hlead hm => ?_) ⟨framed, first⟩
    exact ⟨hlead.framed hm.1, leads m m' hlead hm.1 hm.2⟩
  exact both.2

theorem Reaches.framed {u : Setup} {steps : List Step} {st : State} {m : Moment}
    (h : Reaches u (.first u steps st) m) : m.Framed :=
  h.invariant (fun _ _ => Leads.framed) rfl

/-! ### The scope -/

/-- What a step does to the scope in which it is taken up. -/
structure Restores (s : Step) (st : State) (out : Record × State) : Prop where
  depth : out.2.scope.depth = st.scope.depth
  /-- Only the innermost frame can differ. -/
  outer : out.2.scope.outer = st.scope.outer
  /-- A loop leaves nothing behind. -/
  loop : ∀ config steps, s.kind = .loop config steps → out.2.scope = st.scope
  /-- A call binds its own outputs if it passes. -/
  call : ∀ spec, s.kind = .action spec → spec.actionType = callActionType →
    out.2.scope = st.scope ∨
      ∃ result, out.1.head.status = .passed ∧ out.2.scope = st.scope.bindSelected result s.head.outputs

namespace Setup
variable {u : Setup} {callee : Option Body}

theorem bindOutputs_scope (u : Setup) (head : StepHead) (result : Json) (st : State) :
    (u.bindOutputs st.scope.currentFrame head result st).scope = st.scope.bindSelected result head.outputs := by
  unfold bindOutputs Scope.bindSelected
  generalize head.outputs = outputs
  induction outputs generalizing st with
  | nil => rfl
  | cons o rest ih =>
    have hframe : (u.bindOutput st.scope.currentFrame head.id result st o).scope.currentFrame =
        st.scope.currentFrame := by
      rw [bindOutput_scope, Scope.bindInFrame_currentFrame]
      rfl
    have hrest := ih (u.bindOutput st.scope.currentFrame head.id result st o)
    rw [hframe, bindOutput_scope, Scope.bindInFrame_currentFrame] at hrest
    exact hrest

/-- A call that has ended leaves the scope alone, but for its outputs if it passes. -/
theorem callEnded_scope (head : StepHead) (r : Record) (id : String) (st : State) (out : List Record × State) :
    (u.callEnded st.scope.currentFrame head r id st out).2.scope = st.scope ∨
      ∃ result, (u.callEnded st.scope.currentFrame head r id st out).1.head.status = .passed ∧
        (u.callEnded st.scope.currentFrame head r id st out).2.scope = st.scope.bindSelected result head.outputs := by
  rcases u.callEnded_cases st.scope.currentFrame head r id st out with ⟨-, h⟩ | ⟨-, -, h⟩ | ⟨-, -, h⟩ <;> rw [h]
  · exact Or.inl rfl
  · exact Or.inl rfl
  · exact Or.inr ⟨_, rfl, u.bindOutputs_scope head _ (returned st out.2)⟩

theorem runStep_restores (u : Setup) (depth : Nat) (s : Step) (st : State) :
    Restores s st (u.runStep (u.bodyWithin depth) st.scope.currentFrame s st) := by
  have hkept := (u.run_kept depth).1 s st
  refine ⟨?_, hkept.outer, ?_, ?_⟩
  · rw [Scope.depth_eq, Scope.depth_eq, hkept.currentFrame]
  · rintro config steps hkind
    obtain ⟨head, kind⟩ := s
    obtain rfl : kind = .loop config steps := hkind
    rcases u.runStep_cases (u.bodyWithin depth) st.scope.currentFrame ⟨head, .loop config steps⟩ st with
      ⟨reason, -, h⟩ | ⟨e, -, h⟩ | ⟨-, h⟩ <;> rw [h]
    · rfl
    · rfl
    · rw [begun, runKind]
      exact loop_scope (fun st => (u.run_kept depth).2 steps false st) _ _
  · rintro spec hkind hcall
    obtain ⟨head, kind⟩ := s
    obtain rfl : kind = .action spec := hkind
    rcases u.runStep_cases (u.bodyWithin depth) st.scope.currentFrame ⟨head, .action spec⟩ st with
      ⟨reason, -, h⟩ | ⟨e, -, h⟩ | ⟨-, h⟩ <;> rw [h]
    · exact Or.inl rfl
    · exact Or.inl rfl
    · rw [begun, runKind]
      rcases u.act_cases (u.bodyWithin depth) st.scope.currentFrame head spec (u.begin ⟨head, .action spec⟩)
        (u.inside ⟨head, .action spec⟩ st) with ⟨hne, -⟩ | ⟨-, e, -, h⟩ | ⟨-, run, id, w, -, -, h⟩
      · exact absurd hcall hne
      · rw [h]
        exact Or.inl rfl
      · rw [h]
        exact callEnded_scope head _ id (u.inside ⟨head, .action spec⟩ st) _

end Setup

/-- At every moment of a run a step restores the scope in which it is taken up, and a frame that is taken
off is not the root. -/
theorem steps_restore_scope (u : Setup) (steps : List Step) (st : State) :
    (∀ depth frame s st', Reaches u (.first u steps st) (.step depth frame s st') →
      Restores s st' (u.runStep (u.bodyWithin depth) frame s st')) ∧
    ∀ st', Reaches u (.first u steps st) (.pop st') → st'.scope.pop?.isSome = true := by
  constructor
  · intro depth frame s st' h
    obtain rfl : frame = st'.scope.currentFrame := h.framed
    exact u.runStep_restores depth s st'
  · intro st' h
    obtain ⟨around, haround⟩ := h.framed
    rw [Scope.pop?_of_outer haround]
    rfl

/-- A loop of two rounds restores the scope around it, and takes off only frames that it pushed. -/
theorem loop_of_two_rounds_restores :
    let u : Setup := { executor := fun _ _ => { result := .ok .null } }
    let body : Step := ⟨{ id := "note", outputs := [("", "x")] }, .action ⟨"note", []⟩⟩
    let s : Step := ⟨{ id := "twice" }, .loop { loopType := .times, count := some (.literal 2) } [body]⟩
    let st : State := { scope := .empty }
    ∃ last, Reaches u (.first u [s] st) (.step 8 0 s st) ∧ Restores s st (u.runStep (u.bodyWithin 8) 0 s st) ∧
      Reaches u (.first u [s] st) (.pop last) ∧ last.scope.pop?.isSome = true := by
  intro u body s st
  obtain ⟨restores, pops⟩ := steps_restore_scope u [s] st
  have hstep : Reaches u (.first u [s] st) (.step 8 0 s st) := .tail .refl (.take rfl)
  have hloop : Reaches u (.first u [s] st) _ := .tail hstep (.loop rfl (by simp) rfl)
  have hpop : Reaches u (.first u [s] st) _ := .tail hloop .finish
  exact ⟨_, hstep, restores 8 0 s st hstep, hpop, pops _ hpop⟩

end StepTree
