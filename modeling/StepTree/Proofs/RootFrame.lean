import StepTree.Proofs.Overwriting
import StepTree.Proofs.Seeding

/-! # The root frame of a call

A run and each call of a workflow have a root frame. Only the outputs of action steps that stand outside of loops
write to it, and a name keeps the mark of secrecy that it has there. So what such writes keep of a frame holds of the
root frame at every moment until a further workflow is entered. -/

namespace StepTree

open Setup

/-! ### Names that are written -/

mutual

/-- The names that a step can write in the frame in which it is taken up. -/
def Step.writes : Step → List String
  | ⟨head, kind⟩ => kind.writes (head.outputs.map (·.2))

/-- The names that a step of this kind with these output names can write. -/
def StepKind.writes (outputs : List String) : StepKind → List String
  | .action _ => outputs
  | .group children => Step.writesAll children
  | .loop _ _ => []
  | .branch arms => Arm.writesAll arms

def Step.writesAll : List Step → List String
  | [] => []
  | s :: rest => s.writes ++ Step.writesAll rest

def Arm.writesAll : List Arm → List String
  | [] => []
  | a :: rest => a.writes ++ Arm.writesAll rest

def Arm.writes : Arm → List String
  | ⟨_, _, children⟩ => Step.writesAll children

end

theorem Arm.writes_subset {a : Arm} {arms : List Arm} (h : a ∈ arms) :
    Step.writesAll a.children ⊆ Arm.writesAll arms := by
  induction arms with
  | nil => cases h
  | cons b rest ih =>
    rw [Arm.writesAll]
    rcases List.mem_cons.mp h with rfl | h
    · cases a
      exact List.subset_append_left _ _
    · exact List.Subset.trans (ih h) (List.subset_append_right _ _)

/-! ### Root frames -/

namespace Scope
variable {s t : Scope}

theorem binding?_of_outer_nil (h : s.outer = []) (name : String) : s.binding? name = Ordered.get? name s.innermost := by
  rw [binding?, stack, h, List.findSome?_cons]
  cases Ordered.get? name s.innermost <;> rfl

theorem root_of_outer_nil (h : s.outer = []) : s.root = s.innermost := by
  rw [root, h]
  rfl

theorem root_of_outer (h : s.outer = t.stack) : s.root = t.root := by
  rw [root, h]
  exact List.getLastD_cons

/-- The root frame is one of the outer frames, if there are any. -/
theorem root_congr (h : s.outer = t.outer) (ne_nil : t.outer ≠ []) : s.root = t.root := by
  obtain ⟨f, outer, hcons⟩ := List.exists_cons_of_ne_nil ne_nil
  rw [root, root, h, hcons, List.getLastD_cons, List.getLastD_cons]

@[simp] theorem root_push (s : Scope) : s.push.root = s.root := root_of_outer rfl

theorem root_mem_stack (s : Scope) : s.root ∈ s.stack := List.getLastD_mem_cons

end Scope

/-! ### Action steps -/

section Actions
variable {u : Setup} {depth : Nat} {head : StepHead} {spec : ActionSpec} {now : State} {out : Record × State}

/-- An action step that does not pass leaves the scope alone. It passes because its action is answered with a result, or
because the workflow that it calls does not fail; then the root frame of that workflow is the result. -/
theorem action_cases
    (ran : u.runStep (u.bodyWithin depth) now.scope.currentFrame ⟨head, .action spec⟩ now = out) :
    let st := u.inside ⟨head, .action spec⟩ now
    let r := u.supplied head spec (u.begin ⟨head, .action spec⟩) st
    (out.1.head.status ≠ .passed ∧ out.2.scope = now.scope) ∨
    (spec.actionType ≠ callActionType ∧ ∃ n commands result, out = reported
      (u.conclude now.scope.currentFrame head (recordAttempts r n) (.ok result)
        (st.handed (resolved now head spec) n commands))) ∨
    (spec.actionType = callActionType ∧ ∃ d id w, depth = d + 1 ∧
      u.callee true now (resolved now head spec) = .ok (id, w) ∧
      let callee := u.runWithin d w.steps (calleeState id w (resolved now head spec) st)
      out = reported (u.conclude now.scope.currentFrame head { recordAttempts r 1 with children := callee.1 }
        (.ok (.obj callee.2.scope.root.values)) (returned st callee.2))) := by
  subst ran
  dsimp only
  rcases u.runStep_cases (u.bodyWithin depth) now.scope.currentFrame ⟨head, .action spec⟩ now with
    ⟨reason, -, h⟩ | ⟨e, -, h⟩ | ⟨-, h⟩ <;> rw [h]
  · exact Or.inl ⟨by rintro ⟨⟩, rfl⟩
  · exact Or.inl ⟨by rintro ⟨⟩, rfl⟩
  · rw [begun, runKind]
    rcases u.act_cases (u.bodyWithin depth) now.scope.currentFrame head spec (u.begin ⟨head, .action spec⟩)
      (u.inside ⟨head, .action spec⟩ now) with
      ⟨isAction, n, commands, result, -, -, h⟩ | ⟨-, e, -, h⟩ | ⟨isCall, run, id, w, hrun, enters, h⟩ <;> rw [h]
    · cases result with
      | ok value => exact Or.inr (Or.inl ⟨isAction, n, commands, value, rfl⟩)
      | error e => exact Or.inl ⟨by rintro ⟨⟩, rfl⟩
    · exact Or.inl ⟨by rintro ⟨⟩, rfl⟩
    · obtain ⟨d, rfl, rfl⟩ := bodyWithin_eq_some hrun
      have hsame : resolved (u.inside ⟨head, .action spec⟩ now) head spec = resolved now head spec := rfl
      rw [hsame]
      rcases u.callEnded_cases now.scope.currentFrame head (u.supplied head spec (u.begin ⟨head, .action spec⟩)
        (u.inside ⟨head, .action spec⟩ now)) id (u.inside ⟨head, .action spec⟩ now) (u.runWithin d w.steps _) with
        ⟨-, h⟩ | ⟨-, -, h⟩ | ⟨-, -, h⟩ <;> rw [h]
      · exact Or.inl ⟨by rintro ⟨⟩, rfl⟩
      · exact Or.inl ⟨by rintro ⟨⟩, rfl⟩
      · exact Or.inr (Or.inr ⟨isCall, d, id, w, rfl, enters, rfl⟩)

/-- An action step that passes shows its result, masked in the scope in which it was taken up, and binds what its outputs
select from it. -/
theorem action_result
    (ran : u.runStep (u.bodyWithin depth) now.scope.currentFrame ⟨head, .action spec⟩ now = out) :
    (out.1.head.status ≠ .passed ∧ out.2.scope = now.scope) ∨
      ∃ result, out.1.head.capturedOutputs = u.captured now result ∧
        out.2.scope = now.scope.bindSelected result head.outputs := by
  rcases action_cases ran with h | ⟨-, n, commands, result, h⟩ | ⟨-, d, id, w, -, -, h⟩
  · exact Or.inl h
  · rw [h]
    exact Or.inr ⟨result, rfl, u.bindOutputs_scope head result
      ((u.inside ⟨head, .action spec⟩ now).handed (resolved now head spec) n commands)⟩
  · dsimp only at h
    generalize u.runWithin d w.steps _ = callee at h
    rw [h]
    exact Or.inr ⟨_, rfl, u.bindOutputs_scope head (.obj callee.2.scope.root.values)
      (returned (u.inside ⟨head, .action spec⟩ now) callee.2)⟩

end Actions

/-! ### What writes keep -/

/-- What holds of a frame still holds when a name that may be written gets a value and keeps its mark. -/
def KeptByWrites (P : Frame → Prop) (allowed : String → Prop) : Prop :=
  ∀ (f : Frame) (name : String) (value : Option Json), allowed name → P f →
    P (Ordered.insert name ⟨value, f.marks name⟩ f)

section Runs
variable {P : Frame → Prop} {allowed : String → Prop} {u : Setup}

/-- What writes keep of the root frame, the write of a value to the innermost frame keeps. -/
theorem Scope.bind_keeps (keeps : KeptByWrites P allowed) {s : Scope} {name : String} {value : Option Json}
    (allows : s.outer = [] → allowed name) (h : P s.root) :
    P (s.bind name ⟨value, ((s.binding? name).map (·.isSecret)).getD false⟩).root := by
  by_cases houter : s.outer = []
  · rw [root_of_outer_nil houter] at h
    rw [root_of_outer_nil (s := s.bind _ _) houter, binding?_of_outer_nil houter]
    exact keeps _ _ _ (allows houter) h
  · rwa [root_congr (s := s.bind _ _) (t := s) rfl houter]

theorem Scope.bindSelected_keeps (keeps : KeptByWrites P allowed) {s : Scope} {result : Json}
    {outputs : List (String × String)} (allows : s.outer = [] → ∀ o ∈ outputs, allowed o.2) (h : P s.root) :
    P (s.bindSelected result outputs).root := by
  unfold bindSelected
  induction outputs generalizing s with
  | nil => exact h
  | cons o rest ih =>
    have hallows := fun houter => List.forall_mem_cons.mp (allows houter)
    exact ih (fun houter => (hallows houter).2) (bind_keeps keeps (fun houter => (hallows houter).1) h)

/-- What writes keep, the step keeps of the root frame. -/
def StepKeepsRoot (u : Setup) (P : Frame → Prop) (allowed : String → Prop) (depth : Nat) (s : Step) : Prop :=
  ∀ st : State, (st.scope.outer = [] → ∀ name ∈ s.writes, allowed name) → P st.scope.root →
    P (u.runStep (u.bodyWithin depth) st.scope.currentFrame s st).2.scope.root

/-- What writes keep, the steps keep of the root frame. -/
def SequenceKeepsRoot (u : Setup) (P : Frame → Prop) (allowed : String → Prop) (depth : Nat) (steps : List Step) :
    Prop :=
  ∀ stopped, ∀ st : State, (st.scope.outer = [] → ∀ name ∈ Step.writesAll steps, allowed name) → P st.scope.root →
    P (u.runSteps (u.bodyWithin depth) st.scope.currentFrame stopped steps st).2.scope.root

theorem visit_keeps_root {depth : Nat} {s : Step} (one : StepKeepsRoot u P allowed depth s) (stopped : Bool)
    {st : State} (allows : st.scope.outer = [] → ∀ name ∈ s.writes, allowed name) (h : P st.scope.root) :
    P (u.visit (u.bodyWithin depth) st.scope.currentFrame stopped s st).2.scope.root := by
  rw [← st.checkpoint_scope] at allows h
  rcases u.visit_cases (u.bodyWithin depth) st.scope.currentFrame stopped s st with
    ⟨-, h'⟩ | ⟨-, -, h'⟩ | ⟨-, -, h'⟩ <;> rw [h']
  · exact h
  · exact h
  · rw [← st.checkpoint_scope]
    exact one st.checkpoint allows h

theorem step_keeps_root {depth : Nat} {s : Step} {st : State} (h : P st.scope.root)
    (begins : P (u.runKind (u.bodyWithin depth) st.scope.currentFrame s.head s.kind (u.begin s)
      (u.inside s st)).2.scope.root) :
    P (u.runStep (u.bodyWithin depth) st.scope.currentFrame s st).2.scope.root := by
  rcases u.runStep_cases (u.bodyWithin depth) st.scope.currentFrame s st with ⟨reason, -, h'⟩ | ⟨e, -, h'⟩ | ⟨-, h'⟩ <;>
    rw [h']
  · exact h
  · exact h
  · exact begins

/-- What writes keep, every step and every sequence keeps of the root frame of its level. -/
theorem run_keeps_root (keeps : KeptByWrites P allowed) (u : Setup) (depth : Nat) :
    (∀ s, StepKeepsRoot u P allowed depth s) ∧ ∀ steps, SequenceKeepsRoot u P allowed depth steps := by
  refine run_induction (StepKeepsRoot u P allowed) (SequenceKeepsRoot u P allowed) ?nil ?cons ?action ?group ?loop
    ?branch depth
  case nil =>
    intro depth stopped st _ h
    rw [runSteps_nil]
    exact h
  case cons =>
    intro depth s rest one all stopped st allows h
    have hkept := visit_kept ((u.run_kept depth).1 s) stopped st
    have hvisit := visit_keeps_root one stopped (fun houter => (List.forall_mem_append.mp (allows houter)).1) h
    have hrest := all (stopped || stops s.head (u.visit (u.bodyWithin depth) st.scope.currentFrame stopped s st).1) _
      (fun houter => (List.forall_mem_append.mp (allows (hkept.outer.symm.trans houter))).2) hvisit
    rw [hkept.currentFrame] at hrest
    rw [runSteps_cons]
    exact hrest
  case action =>
    intro depth head spec _ st allows h
    have hallows : st.scope.outer = [] → ∀ o ∈ head.outputs, allowed o.2 :=
      fun houter o ho => allows houter o.2 (List.mem_map_of_mem ho)
    rcases @action_result u depth head spec st _ rfl with ⟨-, h'⟩ | ⟨result, -, h'⟩ <;> rw [h']
    · exact h
    · exact Scope.bindSelected_keeps keeps hallows h
  case group =>
    intro depth head children all st allows h
    refine step_keeps_root h ?_
    rw [runKind]
    exact all false (u.inside ⟨head, .group children⟩ st) allows h
  case loop =>
    intro depth head config children _ st _ h
    rw [(u.runStep_restores depth ⟨head, .loop config children⟩ st).loop config children rfl]
    exact h
  case branch =>
    intro depth head arms all st allows h
    refine step_keeps_root h ?_
    rw [runKind]
    rcases u.branch_cases head.id arms (fun index st => u.runArm (u.bodyWithin depth) index arms st)
      (u.begin ⟨head, .branch arms⟩) (u.inside ⟨head, .branch arms⟩ st) with ⟨-, h'⟩ | ⟨-, -, h'⟩ | ⟨e, htaken, h'⟩
    · rw [h']
      exact h
    · rw [h']
      exact h
    · obtain ⟨a, ha⟩ := Arm.find?_isArm htaken
      have harm := List.mem_of_getElem? ha
      dsimp only at h'
      rw [h', runArm_eq, ha]
      exact all a harm false _ (fun houter name hname => allows houter name (Arm.writes_subset harm hname)) h

end Runs

/-! ### Until a further workflow is entered -/

/-- The state of the run at a moment. -/
def Moment.state : Moment → State
  | .sequence _ _ _ _ st => st
  | .step _ _ _ st => st
  | .loop _ _ _ st => st
  | .round _ _ _ _ _ st => st
  | .pop st => st

/-- At one moment a workflow is entered, which leads to another. -/
inductive Enters (u : Setup) : Moment → Moment → Prop
  | intro {depth frame : Nat} {head : StepHead} {spec : ActionSpec} {st : State} {id : String} {w : Workflow}
    (isCall : spec.actionType = callActionType) (enters : u.callee true st (resolved st head spec) = .ok (id, w)) :
    Enters u (.step (depth + 1) frame ⟨head, .action spec⟩ st)
      (.sequence depth (calleeState id w (resolved st head spec) st).scope.currentFrame false w.steps
        (calleeState id w (resolved st head spec) (u.inside ⟨head, .action spec⟩ st)))

theorem Enters.length_callStack {u : Setup} {m m' : Moment} (h : Enters u m m') :
    m'.state.callStack.length = m.state.callStack.length + 1 := by
  cases h with
  | intro => simp [Moment.state, calleeState, inside]

/-- A moment leads to one with the same open calls, or a workflow is entered. -/
theorem Leads.callStack {u : Setup} {m m' : Moment} (h : Leads u m m') (hm : m.Framed) :
    m'.state.callStack = m.state.callStack ∨ Enters u m m' := by
  cases h with
  | @take _ _ _ _ st => exact Or.inl st.checkpoint_callStack
  | @next depth frame stopped s _ st =>
    obtain rfl : frame = st.scope.currentFrame := hm
    exact Or.inl (visit_kept ((u.run_kept depth).1 s) stopped st).callStack
  | call _ isCall enters => exact Or.inr (.intro isCall enters)
  | group => exact Or.inl rfl
  | arm => exact Or.inl rfl
  | loop => exact Or.inl rfl
  | rounds => exact Or.inl rfl
  | finish => exact Or.inl (Repetition.turns_kept hm.1 hm.2).callStack
  | @giveUp _ _ _ _ _ st => exact Or.inl st.checkpoint_callStack
  | @iteration _ _ _ _ _ st => exact Or.inl st.checkpoint_callStack
  | @close _ _ l _ index st =>
    exact Or.inl ((Repetition.iteration_kept hm.1 index _).callStack.trans st.checkpoint_callStack)
  | @again _ _ l _ index st =>
    have hframe : l.frame = st.checkpoint.scope.currentFrame := by rw [st.checkpoint_scope]; exact hm.2
    exact Or.inl ((Repetition.round_kept hm.1 hframe index).callStack.trans st.checkpoint_callStack)

/-- The root frame has the property `P`, and what is left to write there is allowed. -/
def Moment.Rooted (P : Frame → Prop) (allowed : String → Prop) : Moment → Prop
  | .sequence _ _ _ steps st => P st.scope.root ∧ (st.scope.outer = [] → ∀ name ∈ Step.writesAll steps, allowed name)
  | .step _ _ s st => P st.scope.root ∧ (st.scope.outer = [] → ∀ name ∈ s.writes, allowed name)
  | .loop _ _ _ st => P st.scope.root
  | .round _ _ _ _ _ st => P st.scope.root ∧ st.scope.outer ≠ []
  | .pop st => P st.scope.root

theorem Moment.Rooted.root {P : Frame → Prop} {allowed : String → Prop} {m : Moment} (h : m.Rooted P allowed) :
    P m.state.scope.root := by
  cases m with
  | sequence => exact h.1
  | step => exact h.1
  | loop => exact h
  | round => exact h.1
  | pop => exact h

section Moments
variable {P : Frame → Prop} {allowed : String → Prop} {u : Setup} {m m' : Moment}

theorem Leads.rooted (keeps : KeptByWrites P allowed) (h : Leads u m m') (framed : m.Framed)
    (same : m'.state.callStack = m.state.callStack) (hm : m.Rooted P allowed) : m'.Rooted P allowed := by
  cases h with
  | @take _ _ s rest st =>
    obtain ⟨hroot, hwrites⟩ := hm
    rw [Moment.Rooted, st.checkpoint_scope]
    exact ⟨hroot, fun h => (List.forall_mem_append.mp (hwrites h)).1⟩
  | @next depth frame stopped s rest st =>
    obtain ⟨hroot, hwrites⟩ := hm
    obtain rfl : frame = st.scope.currentFrame := framed
    have hkept := visit_kept ((u.run_kept depth).1 s) stopped st
    have hallows := fun h => (List.forall_mem_append.mp (hwrites h)).1
    refine ⟨visit_keeps_root ((run_keeps_root keeps u depth).1 s) stopped hallows hroot, fun h => ?_⟩
    exact (List.forall_mem_append.mp (hwrites (hkept.outer.symm.trans h))).2
  | call => simp [Moment.state, calleeState, inside] at same
  | group => exact hm
  | arm _ _ isArm =>
    exact ⟨hm.1, fun h name hname => hm.2 h name (Arm.writes_subset (List.mem_of_getElem? isArm) hname)⟩
  | loop => exact hm.1
  | @rounds _ _ _ st =>
    refine ⟨?_, List.cons_ne_nil _ _⟩
    rw [st.scope.root_push]
    exact hm
  | finish =>
    rw [Moment.Rooted, Scope.root_of_outer (Repetition.turns_kept framed.1 framed.2).outer]
    exact hm
  | @giveUp _ _ _ _ _ st =>
    rw [Moment.Rooted, Scope.root_of_outer Repetition.opened_outer, st.checkpoint_scope]
    exact hm.1
  | @iteration _ _ l _ index st =>
    have houter : (l.opened index st.checkpoint).scope.outer = st.checkpoint.scope.stack := Repetition.opened_outer
    refine ⟨?_, fun h => ?_⟩
    · change P (l.opened index st.checkpoint).scope.root
      rw [Scope.root_of_outer houter, st.checkpoint_scope]
      exact hm.1
    · cases houter.symm.trans h
  | @close _ _ _ _ index st =>
    rw [Moment.Rooted, Scope.root_of_outer (Repetition.iteration_outer framed.1 index _), st.checkpoint_scope]
    exact hm.1
  | @again _ _ l _ index st =>
    have hframe : l.frame = st.checkpoint.scope.currentFrame := by rw [st.checkpoint_scope]; exact framed.2
    have hround := (Repetition.round_kept (u := u) framed.1 hframe index).outer
    rw [st.checkpoint_scope] at hround
    rw [Moment.Rooted, Scope.root_congr hround hm.2, hround]
    exact hm

theorem Reaches.length_callStack (h : Reaches u m m') (framed : m.Framed) :
    m.state.callStack.length ≤ m'.state.callStack.length := by
  induction h with
  | refl => exact Nat.le_refl _
  | tail hreaches hlead ih =>
    rcases hlead.callStack (hreaches.invariant (fun _ _ => Leads.framed) framed) with h | h
    · rwa [h]
    · rw [h.length_callStack]
      omega

/-- What writes keep holds of the root frame until a further workflow is entered, and again when it has ended. -/
theorem Reaches.rooted (keeps : KeptByWrites P allowed) (h : Reaches u m m') (framed : m.Framed)
    (first : m.Rooted P allowed) (same : m'.state.callStack = m.state.callStack) : m'.Rooted P allowed := by
  induction h with
  | refl => exact first
  | tail hreaches hlead ih =>
    have hframed := hreaches.invariant (fun _ _ => Leads.framed) framed
    rcases hlead.callStack hframed with heq | henters
    · exact hlead.rooted keeps hframed heq (ih (heq.symm.trans same))
    · have hle := hreaches.length_callStack framed
      have hlonger := henters.length_callStack
      rw [same] at hlonger
      omega

/-- When an action step has its result, the scope and the open calls are those with which it was taken up. -/
theorem Concludes.taken {frame : Nat} {head : StepHead} {result : Json} {now : State}
    (h : Concludes u m frame head result now) :
    ∃ depth spec st, Reaches u m (.step depth frame ⟨head, .action spec⟩ st) ∧ now.scope = st.scope ∧
      now.callStack = st.callStack := by
  cases h with
  | @action depth _ _ spec st attempts _ _ reaches _ _ answered =>
    obtain ⟨n, commands, -, -, -, hhanded⟩ := tryAction_spec u (u.settings.timeLimit head.timeoutMs)
      (resolved st head spec) (head.attempts - 1) 0 (u.inside ⟨head, .action spec⟩ st)
    rw [answered] at hhanded
    rw [show now = _ from hhanded]
    exact ⟨depth, spec, st, reaches, rfl, rfl⟩
  | call reaches begins isCall enters ran =>
    exact ⟨_, _, _, reaches, rfl, (Kept.returned (ran ▸ u.runWithin_kept _ _ _)).callStack⟩

/-- The step whose outputs are bound was taken up with the same open calls. What held of the root frame then, and is
kept by writes, holds while its outputs are bound. -/
theorem Binds.taken {frame : Nat} {head : StepHead} {result : Json} {outputs : List (String × String)} {now : State}
    (h : Binds u m frame head result outputs now) (framed : m.Framed) :
    ∃ depth spec st, Reaches u m (.step depth frame ⟨head, .action spec⟩ st) ∧ now.callStack = st.callStack ∧
      ∀ {P : Frame → Prop} {allowed : String → Prop}, KeptByWrites P allowed →
        (Moment.step depth frame ⟨head, .action spec⟩ st).Rooted P allowed →
          P now.scope.root ∧ (now.scope.outer = [] → ∀ o ∈ outputs, allowed o.2) := by
  induction h with
  | first concludes =>
    obtain ⟨depth, spec, st, reaches, hscope, hcalls⟩ := concludes.taken
    refine ⟨depth, spec, st, reaches, hcalls, fun _ ⟨hroot, hallows⟩ => ?_⟩
    rw [hscope]
    exact ⟨hroot, fun houter o ho => hallows houter o.2 (List.mem_map_of_mem ho)⟩
  | @next o rest now binds ih =>
    obtain ⟨depth, spec, st, reaches, hcalls, hkeep⟩ := ih
    refine ⟨depth, spec, st, reaches, hcalls, fun keeps rooted => ?_⟩
    obtain ⟨hroot, hallows⟩ := hkeep keeps rooted
    rw [bindOutput_scope, binds.framed framed, Scope.bindInFrame_currentFrame]
    exact ⟨Scope.bind_keeps keeps (fun houter => (List.forall_mem_cons.mp (hallows houter)).1) hroot,
      fun houter => (List.forall_mem_cons.mp (hallows houter)).2⟩

end Moments

/-- The states that a run from `m` goes through: at its moments, and between the outputs of a step. -/
inductive Visits (u : Setup) (m : Moment) : State → Prop
  | moment {m' : Moment} (reaches : Reaches u m m') : Visits u m m'.state
  | output {frame : Nat} {head : StepHead} {result : Json} {outputs : List (String × String)} {now : State}
    (binds : Binds u m frame head result outputs now) : Visits u m now

/-- What all writes keep of the root frame holds of it at every point of a run. -/
theorem Visits.root {P : Frame → Prop} (keeps : KeptByWrites P fun _ => True) {u : Setup} {steps : List Step}
    {st now : State} (h : Visits u (.first u steps st) now) (first : P st.scope.root)
    (same : now.callStack = st.callStack) : P now.scope.root := by
  have hfirst : (Moment.first u steps st).Rooted P fun _ => True := ⟨first, fun _ _ _ => trivial⟩
  cases h with
  | moment reaches => exact (reaches.rooted keeps rfl hfirst same).root
  | output binds =>
    obtain ⟨depth, spec, st', reaches, hcalls, hkeep⟩ := binds.taken rfl
    exact (hkeep keeps (reaches.rooted keeps rfl hfirst (hcalls.symm.trans same))).1

end StepTree
