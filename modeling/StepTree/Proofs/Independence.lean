import StepTree.Proofs.Accounting
import StepTree.Proofs.RootFrame
import StepTree.Proofs.Uncontrolled

/-! # Iterations on their own

The iterations of a loop over items, or of a number of times, do not depend on each other: each makes the records, hands
over the actions and writes the variables that it would if it were run alone, in the scope in which the loop began, with
the frame of the loop and its own on top. So what comes before it, and how that ended, is not seen. This is so when
nobody sends commands to the run and the executor does not remember earlier actions. -/

namespace StepTree

open Setup

/-! ### Runs to which no command is sent -/

/-- Steps that are run in a free state leave a free state. -/
def KeepsFree {α : Type} (u : Setup) (run : State → α × State) : Prop := ∀ st, u.Free st → u.Free (run st).2

/-- The state at the moment is free, and the body of a loop keeps it so. -/
def Moment.Free (u : Setup) : Moment → Prop
  | .loop _ _ l st => KeepsFree u l.body ∧ u.Free st
  | .round _ _ l _ _ st => KeepsFree u l.body ∧ u.Free st
  | m => u.Free m.state

theorem Moment.Free.state {u : Setup} {m : Moment} (h : m.Free u) : u.Free m.state := by
  cases m with
  | loop => exact h.2
  | round => exact h.2
  | _ => exact h

namespace Setup.Free
variable {u : Setup} {st : State}

theorem opened (h : u.Free st) (l : Repetition) (index : Nat) : u.Free (l.opened index st) := ⟨h.goes, h.undisturbed⟩

theorem iteration (h : u.Free st) {l : Repetition} (hbody : KeepsFree u l.body) (index : Nat) :
    u.Free (l.iteration u index (l.opened index st)).2 := by
  have hstart := (h.opened l index).emit
    (.iterationStarted l.stepId index (u.redactValue (l.opened index st) (l.plan.item index)))
  unfold Repetition.iteration
  rcases l.iterate_cases u index (u.redactValue (l.opened index st) (l.plan.item index)) _ with
    ⟨-, h'⟩ | ⟨e, -, h'⟩ | ⟨-, h'⟩ <;> rw [h']
  · exact hstart
  · exact hstart
  · exact hbody _ hstart

theorem round (h : u.Free st) {l : Repetition} (hbody : KeepsFree u l.body) (index : Nat) :
    u.Free (l.round u index (l.opened index st)).2 := by
  have hinner := h.iteration hbody index
  obtain ⟨scope, hclosed⟩ := l.closed_eq (l.iteration u index (l.opened index st)).2
  rw [Repetition.round_eq]
  dsimp only
  rw [hclosed]
  exact ⟨hinner.goes, hinner.undisturbed.emit _⟩

theorem turns (h : u.Free st) {l : Repetition} (hbody : KeepsFree u l.body) : u.Free (l.turns u st).2.2 :=
  Repetition.rounds_keep (P := fun _ st => u.Free st) (fun _ _ h => h.checkpoint)
    (fun index _ _ h => h.round hbody index) _ _ ⟨h.goes, h.undisturbed⟩

theorem run (u : Setup) (depth : Nat) :
    (∀ s frame, KeepsFree u (u.runStep (u.bodyWithin depth) frame s)) ∧
    ∀ steps frame stopped, KeepsFree u (u.runSteps (u.bodyWithin depth) frame stopped steps) := by
  have sim : Simulates u u (fun _ _ => True) u.InStep := InStep.simulates rfl rfl rfl
  -- A free run stays in step with itself.
  have agree (m : Moment) := sim.runs_agree (Congruent.eq sim.event)
    (sim.sameCalls (m := m) fun h => sim.callee_eq h rfl rfl) depth
  exact ⟨fun s _ _ h => ((agree _).1 s .refl (.refl h)).states.free,
    fun steps _ _ _ h => ((agree _).2 steps .refl (.refl h)).states.free⟩

theorem visit (h : u.Free st) (depth frame : Nat) (stopped : Bool) (s : Step) :
    u.Free (u.visit (u.bodyWithin depth) frame stopped s st).2 := by
  rcases u.visit_cases (u.bodyWithin depth) frame stopped s st with ⟨-, h'⟩ | ⟨-, -, h'⟩ | ⟨-, -, h'⟩ <;> rw [h']
  · exact h.checkpoint.emit _
  · exact h.checkpoint.emit _
  · exact (run u depth).1 s frame _ h.checkpoint

end Setup.Free

theorem Leads.free {u : Setup} {m m' : Moment} (h : Leads u m m') (hm : m.Free u) : m'.Free u := by
  cases h with
  | take => exact Setup.Free.checkpoint hm
  | @next depth frame stopped s => exact Setup.Free.visit hm depth frame stopped s
  | call => exact ⟨hm.goes, hm.undisturbed.emit _⟩
  | group => exact Setup.Free.emit hm _
  | arm => exact Setup.Free.emit (Setup.Free.emit hm _) _
  | @loop depth frame head config steps =>
    exact ⟨fun st hst => (Setup.Free.run u depth).2 steps _ false st hst, Setup.Free.emit hm _⟩
  | rounds => exact ⟨hm.1, hm.2.goes, hm.2.undisturbed⟩
  | finish => exact hm.2.turns hm.1
  | giveUp => exact hm.2.checkpoint.opened _ _
  | iteration => exact (hm.2.checkpoint.opened _ _).emit _
  | close => exact hm.2.checkpoint.iteration hm.1 _
  | again => exact ⟨hm.1, hm.2.checkpoint.round hm.1 _⟩

/-- A run to which no command is sent is free at all its moments. -/
theorem Reaches.free {u : Setup} {steps : List Step} {st : State} {m : Moment} (h : Reaches u (.first u steps st) m)
    (free : u.Free st) : u.Free m.state :=
  Moment.Free.state (h.invariant (P := Moment.Free u) (fun _ _ => Leads.free) free)

/-! ### Executors without memory -/

/-- What the executor answers depends on the action alone. -/
def Setup.Memoryless (u : Setup) : Prop := ∀ earlier a, u.executor earlier a = u.executor #[] a

/-- Two free runs have done the same since they were in `first` and `first'`. -/
structure Setup.Parallel (u : Setup) (first first' st st' : State) : Prop where
  scope : st'.scope = st.scope
  callStack : st'.callStack = st.callStack
  calls : ∃ made, st.calls = first.calls ++ made ∧ st'.calls = first'.calls ++ made
  changes : ∃ made, st.changes = first.changes ++ made ∧ st'.changes = first'.changes ++ made
  free : u.Free st
  free' : u.Free st'

namespace Setup.Parallel
variable {u : Setup} {first first' st st' : State}

theorem begin (scope : first'.scope = first.scope) (callStack : first'.callStack = first.callStack)
    (free : u.Free first) (free' : u.Free first') : u.Parallel first first' first first' :=
  ⟨scope, callStack, ⟨#[], Array.append_empty.symm, Array.append_empty.symm⟩,
    ⟨#[], Array.append_empty.symm, Array.append_empty.symm⟩, free, free'⟩

theorem simulates (memoryless : u.Memoryless) : Simulates u u (fun _ _ => True) (u.Parallel first first') where
  settings := rfl
  now := rfl
  event _ := trivial
  scope h := h.scope
  callStack h := h.callStack
  cancelled h := h.free'.goes.trans h.free.goes.symm
  emit h e e' _ := ⟨h.scope, h.callStack, h.calls, h.changes, h.free.emit e, h.free'.emit e'⟩
  checkpoint {st st'} h := by
    refine ⟨?_, ?_, ?_, ?_, h.free.checkpoint, h.free'.checkpoint⟩
    · rw [State.checkpoint_scope, h.scope, State.checkpoint_scope]
    · rw [State.checkpoint_callStack, h.callStack, State.checkpoint_callStack]
    · rw [State.checkpoint_calls, State.checkpoint_calls]
      exact h.calls
    · rw [State.checkpoint_changes, State.checkpoint_changes]
      exact h.changes
  move h _ _ := ⟨rfl, rfl, h.calls, h.changes, ⟨h.free.goes, h.free.undisturbed⟩, ⟨h.free'.goes, h.free'.undisturbed⟩⟩
  record h c := by
    obtain ⟨made, hmade, hmade'⟩ := h.changes
    refine ⟨h.scope, h.callStack, h.calls, ⟨made.push c, ?_, ?_⟩, ⟨h.free.goes, h.free.undisturbed⟩,
      ⟨h.free'.goes, h.free'.undisturbed⟩⟩
    · exact (congrArg (Array.push · c) hmade).trans Array.append_push.symm
    · exact (congrArg (Array.push · c) hmade').trans Array.append_push.symm
  answer {st st'} h limit a := by
    unfold tryOnce
    rw [memoryless st'.calls, memoryless st.calls]
  attempt {st st'} h limit a := by
    obtain ⟨made, hmade, hmade'⟩ := h.calls
    refine ⟨h.scope, h.callStack, ⟨made.push a, ?_, ?_⟩, h.changes, ⟨h.free.goes, h.free.undisturbed.send _ a⟩,
      ⟨h.free'.goes, h.free'.undisturbed.send _ a⟩⟩
    · exact (congrArg (Array.push · a) hmade).trans Array.append_push.symm
    · exact (congrArg (Array.push · a) hmade').trans Array.append_push.symm

theorem runWithin_same (memoryless : u.Memoryless) (h : u.Parallel first first' st st') (depth : Nat)
    (steps : List Step) :
    Agree Eq (u.Parallel first first') (u.runWithin depth steps st) (u.runWithin depth steps st') := by
  have sim : Simulates u u (fun _ _ => True) (u.Parallel first first') := simulates memoryless
  exact sim.runWithin_same (fun h => sim.callee_eq h rfl rfl) h steps

end Setup.Parallel

/-! ### Rounds -/

theorem Iteration.Like.eq {i i' : Iteration} (h : i.Like Eq i') : i = i' := by
  obtain ⟨head, children⟩ := i
  obtain ⟨head', children'⟩ := i'
  obtain ⟨hhead, hchildren⟩ := h
  obtain rfl : head' = head := hhead
  obtain rfl : children = children' := hchildren
  rfl

namespace Repetition
variable {l : Repetition} {u : Setup} {m : Moment} {depth index : Nat} {steps : List Step} {st now : State}

/-- The scope of the iteration at an index of a loop that begins in a scope, if nothing but the loop is considered. -/
def freshScope (l : Repetition) (s : Scope) (index : Nat) : Scope :=
  ((s.push.push.set l.config.itemVar (l.plan.item index)).set l.config.indexVar (.ofNat index)).set placeName
    (place index l.plan.total?)

/-- The state of a run in which nothing was done yet, inside the iteration at an index. -/
def fresh (l : Repetition) (st : State) (index : Nat) : State where
  scope := l.freshScope st.scope index
  callStack := st.callStack

/-- The iteration at an index, run alone. -/
def alone (l : Repetition) (u : Setup) (st : State) (index : Nat) : Iteration × State :=
  l.iterate u index (u.redactValue (l.fresh st index) (l.plan.item index)) (l.fresh st index)

/-- A run comes to a round of a loop that it began in `st`, and finds the scope as it was then. -/
structure Entered (u : Setup) (st now : State) : Prop where
  scope : now.scope = st.scope.push
  callStack : now.callStack = st.callStack
  free : u.Free now

theorem Entered.checkpoint (h : Entered u st now) : Entered u st now.checkpoint where
  scope := by rw [State.checkpoint_scope, h.scope]
  callStack := by rw [State.checkpoint_callStack, h.callStack]
  free := h.free.checkpoint

theorem Entered.opened_scope (h : Entered u st now) (each : l.plan.isWhilst = false) (index : Nat) :
    (l.opened index now).scope = l.freshScope st.scope index := by
  unfold opened freshScope
  rw [each, h.scope]
  rfl

/-- The round whose iteration was opened in `inner` does what the iteration does when it is run alone. -/
structure RunsAlone (l : Repetition) (u : Setup) (st : State) (index : Nat) (inner : State) : Prop where
  scope : inner.scope = l.freshScope st.scope index
  made : (l.round u index inner).1 = (l.alone u st index).1
  calls : (l.round u index inner).2.calls = inner.calls ++ (l.alone u st index).2.calls
  changes : (l.round u index inner).2.changes = inner.changes ++ (l.alone u st index).2.changes

theorem iteration_alone (memoryless : u.Memoryless) (body : l.body = u.runWithin depth steps)
    (each : l.plan.isWhilst = false) (h : Entered u st now) (index : Nat) :
    Agree Eq (u.Parallel (l.opened index now) (l.fresh st index)) (l.iteration u index (l.opened index now))
      (l.alone u st index) := by
  have sim : Simulates u u (fun _ _ => True) (u.Parallel (l.opened index now) (l.fresh st index)) :=
    Parallel.simulates memoryless
  have hscope : (l.fresh st index).scope = (l.opened index now).scope := (h.opened_scope each index).symm
  have hfresh : u.Free (l.fresh st index) := ⟨rfl, rfl, rfl, fun _ hm => by cases hm⟩
  have hfirst : u.Parallel (l.opened index now) (l.fresh st index) (l.opened index now) (l.fresh st index) :=
    .begin hscope h.callStack.symm (h.free.opened l index) hfresh
  have hitem : u.redactValue (l.fresh st index) (l.plan.item index) =
      u.redactValue (l.opened index now) (l.plan.item index) := by
    unfold redactValue
    rw [hscope]
  -- Only the run of the whole loop reports that the iteration begins.
  have hstart : u.Parallel (l.opened index now) (l.fresh st index) ((l.opened index now).emit
      (.iterationStarted l.stepId index (u.redactValue (l.opened index now) (l.plan.item index)))) (l.fresh st index) :=
    ⟨hscope, h.callStack.symm, hfirst.calls, hfirst.changes, hfirst.free.emit _, hfresh⟩
  have balanced : Balanced (Eq : List Record → List Record → Prop) := ⟨rfl, fun h => by rw [h]⟩
  have hsame : Agree (Iteration.Like Eq) (u.Parallel (l.opened index now) (l.fresh st index))
      (l.iteration u index (l.opened index now)) (l.alone u st index) := by
    rw [alone, hitem]
    refine sim.iterate balanced hstart _ fun _ => ?_
    rw [body]
    exact hstart.runWithin_same memoryless depth steps
  exact ⟨hsame.made.eq, hsame.states⟩

theorem round_alone (memoryless : u.Memoryless) (body : l.body = u.runWithin depth steps)
    (each : l.plan.isWhilst = false) (h : Entered u st now) (index : Nat) :
    l.RunsAlone u st index (l.opened index now) ∧ Entered u st (l.round u index (l.opened index now)).2 := by
  have hran := iteration_alone memoryless body each h index
  have hkept : ∀ st, Kept st (l.body st).2 := body ▸ u.runWithin_kept depth steps
  have hfree : KeepsFree u l.body := by
    intro st hst
    rw [body]
    exact ((InStep.refl hst).runWithin_same depth steps).states.free
  have hclosed : (l.closed (l.iteration u index (l.opened index now)).2).scope = now.scope := by
    unfold closed
    rw [Scope.pop?_of_outer (iteration_outer hkept index now), each]
    rfl
  have hchanges : (l.closed (l.iteration u index (l.opened index now)).2).changes =
      (l.iteration u index (l.opened index now)).2.changes := by
    obtain ⟨scope, hscope⟩ := l.closed_eq (l.iteration u index (l.opened index now)).2
    rw [hscope]
  obtain ⟨calls, hcalls, halone⟩ := hran.states.calls
  obtain ⟨changes, hchanged, haloneChanged⟩ := hran.states.changes
  rw [show (l.fresh st index).calls = #[] from rfl, Array.empty_append] at halone
  rw [show (l.fresh st index).changes = #[] from rfl, Array.empty_append] at haloneChanged
  refine ⟨⟨h.opened_scope each index, hran.made, ?_, ?_⟩, ?_, ?_, h.free.round hfree index⟩
  · rw [round_eq, halone, ← hcalls]
    exact closed_calls
  · rw [round_eq, haloneChanged, ← hchanged]
    exact hchanges
  · exact hclosed.trans h.scope
  · rw [round_eq, State.emit_callStack, closed_callStack, (iteration_kept hkept index _).callStack, opened_callStack,
      h.callStack]

/-- What holds when a run comes to the round at an index of a loop that it began in `st`. -/
structure Apart (l : Repetition) (u : Setup) (m : Moment) (st : State) (record : LoopRecord) (index : Nat)
    (now : State) : Prop where
  entered : Entered u st now
  iterations : record.iterations = (List.range index).map fun k => (l.alone u st k).1
  calls : now.calls.toList = st.calls.toList ++ (List.range index).flatMap fun k => (l.alone u st k).2.calls.toList
  changes : now.changes.toList = st.changes.toList ++
    (List.range index).flatMap fun k => (l.alone u st k).2.changes.toList
  rounds : ∀ k < index, ∃ inner, Opens u m l k inner ∧ l.RunsAlone u st k inner

theorem Apart.checkpoint {record : LoopRecord} (h : l.Apart u m st record index now) :
    l.Apart u m st record index now.checkpoint where
  entered := h.entered.checkpoint
  iterations := h.iterations
  calls := by rw [State.checkpoint_calls, h.calls]
  changes := by rw [State.checkpoint_changes, h.changes]
  rounds := h.rounds

theorem Apart.round {record : LoopRecord} (memoryless : u.Memoryless) (body : l.body = u.runWithin depth steps)
    (each : l.plan.isWhilst = false) (h : l.Apart u m st record index now) {left : Nat}
    (reaches : Reaches u m (.round depth steps l (left + 1) index now)) (goes : l.stop? index now.checkpoint = none) :
    l.Apart u m st (record.add (l.round u index (l.opened index now.checkpoint)).1) (index + 1)
      (l.round u index (l.opened index now.checkpoint)).2 := by
  have hlook := h.checkpoint
  obtain ⟨halone, hentered⟩ := round_alone memoryless body each hlook.entered index
  refine ⟨hentered, ?_, ?_, ?_, fun k hk => ?_⟩
  · rw [List.range_succ, List.map_append, ← h.iterations, List.map_singleton, ← halone.made]
    rfl
  · rw [halone.calls, Array.toList_append, opened_calls, hlook.calls, List.range_succ, List.flatMap_append,
      List.flatMap_singleton, List.append_assoc]
  · rw [halone.changes, Array.toList_append, List.range_succ, List.flatMap_append, List.flatMap_singleton,
      ← List.append_assoc, ← hlook.changes]
    rfl
  · rcases Nat.lt_or_eq_of_le (Nat.le_of_lt_succ hk) with hlt | rfl
    · exact h.rounds k hlt
    · exact ⟨_, .intro reaches goes, halone⟩

theorem rounds_apart (memoryless : u.Memoryless) (body : l.body = u.runWithin depth steps)
    (each : l.plan.isWhilst = false) (left : Nat) {record : LoopRecord} (h : l.Apart u m st record index now)
    (reaches : Reaches u m (.round depth steps l left index now)) :
    let out := l.rounds u left index record now
    ∃ n, l.Apart u m st out.1 n out.2.2 := by
  induction left generalizing index record now with
  | zero => exact ⟨index, h.checkpoint⟩
  | succ left ih =>
    rw [rounds_succ]
    split
    · exact ⟨index, h.checkpoint⟩
    · next goes =>
      have hround := h.round memoryless body each reaches goes
      dsimp only
      split
      · exact ⟨index + 1, hround⟩
      · next goesOn => exact ih hround (reaches.tail (.again goes goesOn))

/-- Unless its continue condition passes the iteration over, or has no value, the steps of the loop are run. -/
theorem alone_of_runs (body : l.body = u.runWithin depth steps)
    (runs : ∀ value ∈ l.config.continueCondition.map (l.fresh st index).holds, value = .ok false) :
    let out := u.runWithin depth steps (l.fresh st index)
    (l.alone u st index).1.children = out.1 ∧ (l.alone u st index).1.head.status = sequenceStatus out.1 ∧
      (l.alone u st index).2 = out.2 := by
  rw [alone, ← body]
  rcases l.iterate_cases u index (u.redactValue (l.fresh st index) (l.plan.item index)) (l.fresh st index) with
    ⟨hc, -⟩ | ⟨e, hc, -⟩ | ⟨-, h⟩
  · cases runs _ (by rw [hc]; rfl)
  · cases runs _ (by rw [hc]; rfl)
  · rw [h]
    exact ⟨rfl, rfl, rfl⟩

end Repetition

theorem LoopConfig.plan_isWhilst {config : LoopConfig} {lookup : Template.Lookup} {plan : Plan}
    (h : config.plan lookup = .ok plan) (each : config.loopType ≠ .whilst) : plan.isWhilst = false := by
  unfold LoopConfig.plan at h
  split at h
  · split at h
    · cases h
    · next source _ =>
      cases hvalues : Condition.evalArray lookup source <;> rw [hvalues] at h <;> cases h
      rfl
  · split at h
    · cases h
    · next spec _ =>
      cases hcount : spec.eval lookup <;> rw [hcount] at h <;> cases h
      rfl
  · next hwhilst => exact absurd hwhilst each

/-- In a run to which no command is sent, with an executor that does not remember, a loop over items, or of a number of
times, is a map: its iterations are those that are run alone in the scope in which it begins, under its own frame and
the frame of the iteration with the item, the index and the place in the loop, and it hands over their actions and makes
their writes one iteration after the other. The actions and the writes of each of them are those that its round adds. -/
theorem iterations_are_independent (u : Setup) {all steps : List Step} {first st : State} {depth frame : Nat}
    {head : StepHead} {config : LoopConfig} {plan : Plan} (memoryless : u.Memoryless) (free : u.Free first)
    (reaches : Reaches u (.first u all first) (.step depth frame ⟨head, .loop config steps⟩ st))
    (begins : gate head st = .begin) (some_step : steps ≠ []) (planned : config.plan st.scope.lookup = .ok plan)
    (each : config.loopType ≠ .whilst) :
    let m : Moment := .step depth frame ⟨head, .loop config steps⟩ st
    let out := u.runStep (u.bodyWithin depth) frame ⟨head, .loop config steps⟩ st
    let l := u.repetition depth head config steps plan st
    ∃ record, out.1.loop = some record ∧ out.2.scope = st.scope ∧
      record.iterations = ((List.range record.iterations.length).map fun k => (l.alone u st k).1) ∧
      out.2.calls.toList = st.calls.toList ++
        ((List.range record.iterations.length).flatMap fun k => (l.alone u st k).2.calls.toList) ∧
      out.2.changes.toList = st.changes.toList ++
        ((List.range record.iterations.length).flatMap fun k => (l.alone u st k).2.changes.toList) ∧
      (∀ k < record.iterations.length, ∃ inner, Opens u m l k inner ∧ l.RunsAlone u st k inner) ∧
      ∀ k, (∀ value ∈ config.continueCondition.map (l.fresh st k).holds, value = .ok false) →
        let ran := u.runWithin depth steps (l.fresh st k)
        (l.alone u st k).1.children = ran.1 ∧ (l.alone u st k).1.head.status = sequenceStatus ran.1 ∧
          (l.alone u st k).2 = ran.2 := by
  intro m out l
  have body : l.body = u.runWithin depth steps := u.repetition_body ..
  have hplan : l.plan.isWhilst = false := LoopConfig.plan_isWhilst planned each
  have hfree : u.Free st := reaches.free free
  have hloop : Reaches u m (.loop depth steps l (u.inside ⟨head, .loop config steps⟩ st)) :=
    .tail .refl (.loop begins some_step planned)
  have hfirst : l.Apart u m st (.begin config.loopType plan.total? l.limit) 0
      { u.inside ⟨head, .loop config steps⟩ st with scope := st.scope.push } :=
    ⟨⟨rfl, rfl, hfree.goes, hfree.undisturbed.emit _⟩, rfl, (List.append_nil _).symm, (List.append_nil _).symm,
      fun k hk => absurd hk (Nat.not_lt_zero k)⟩
  obtain ⟨n, hapart⟩ : ∃ n, l.Apart u m st (l.turns u (u.inside ⟨head, .loop config steps⟩ st)).1 n
      (l.turns u (u.inside ⟨head, .loop config steps⟩ st)).2.2 :=
    Repetition.rounds_apart memoryless body hplan l.limit.toNat hfirst (hloop.tail .rounds)
  have hscope : out.2.scope = st.scope := by
    obtain rfl : frame = st.scope.currentFrame := reaches.framed
    exact (u.runStep_restores depth _ st).loop config steps rfl
  have hout : out = reported (l.run u (u.begin ⟨head, .loop config steps⟩) (u.inside ⟨head, .loop config steps⟩ st)) :=
    runStep_of_plan begins some_step planned
  rw [Repetition.run_eq] at hout
  generalize l.turns u (u.inside ⟨head, .loop config steps⟩ st) = turns at hapart hout
  have hlength : (turns.1.ended turns.2.1.reason).iterations.length = n := by
    rw [LoopRecord.ended, hapart.iterations, List.length_map, List.length_range]
  refine ⟨turns.1.ended turns.2.1.reason, ?_, hscope, ?_, ?_, ?_, ?_, fun k => Repetition.alone_of_runs body⟩
  · rw [hout]
    exact Repetition.ended_loop ..
  · rw [hlength]
    exact hapart.iterations
  · rw [hlength, hout]
    exact hapart.calls
  · rw [hlength, hout]
    exact hapart.changes
  · rw [hlength]
    exact hapart.rounds

/-- The first iteration binds a variable and fails in a loop inside it. The second one does not find the variable, and
does the same. -/
theorem failed_iteration_is_forgotten :
    let u : Setup := { executor := fun _ a =>
      { result := if a.stepId = "fail" then .error "no" else .ok (.bool true) } }
    let steps : List Step :=
      [⟨{ id := "look", condition := some "exists(seen)" }, .action ⟨"ask", []⟩⟩,
        ⟨{ id := "bind", outputs := [("", "seen")] }, .action ⟨"ask", []⟩⟩,
        ⟨{ id := "once" }, .loop { loopType := .times, count := some (.literal 1) }
          [⟨{ id := "fail" }, .action ⟨"ask", []⟩⟩]⟩]
    let config : LoopConfig := { loopType := .times, count := some (.literal 2) }
    let st : State := { scope := .empty }
    u.Memoryless ∧ u.Free st ∧ gate { id := "twice" } st = .begin ∧ steps ≠ [] ∧
      config.plan st.scope.lookup = .ok (.times 2) ∧ config.loopType ≠ .whilst ∧
      ∃ record, (u.runStep (u.bodyWithin 8) 0 ⟨{ id := "twice" }, .loop config steps⟩ st).1.loop = some record ∧
        record.iterations.map (·.children.map (·.head.status)) = List.replicate 2 [.skipped, .passed, .failed] ∧
        (u.runStep (u.bodyWithin 8) 0 ⟨{ id := "twice" }, .loop config steps⟩ st).2.calls.toList.map (·.stepId) =
          ["bind", "fail", "bind", "fail"] := by
  intro u steps config st
  have memoryless : u.Memoryless := fun _ _ => rfl
  have free : u.Free st := ⟨rfl, rfl, rfl, fun _ hm => by cases hm⟩
  have begins : gate { id := "twice" } st = .begin := rfl
  have some_step : steps ≠ [] := List.cons_ne_nil _ _
  have planned : config.plan st.scope.lookup = .ok (.times 2) := rfl
  have each : config.loopType ≠ .whilst := nofun
  have reaches : Reaches u (.first u [⟨{ id := "twice" }, .loop config steps⟩] st)
      (.step 8 0 ⟨{ id := "twice" }, .loop config steps⟩ st) := .tail .refl (.take rfl)
  obtain ⟨record, isLoop, -, iterations, calls, -⟩ :=
    iterations_are_independent u memoryless free reaches begins some_step planned each
  have counted : (u.runStep (u.bodyWithin 8) 0 ⟨{ id := "twice" }, .loop config steps⟩ st).1.loop.map
      (·.iterations.length) = some 2 := by decide +kernel
  rw [isLoop] at counted
  have length : record.iterations.length = 2 := Option.some.inj counted
  rw [length] at iterations calls
  refine ⟨memoryless, free, begins, some_step, planned, each, record, isLoop, ?_, ?_⟩
  · rw [iterations]
    decide +kernel
  · rw [calls]
    decide +kernel

end StepTree
