import StepTree.Proofs.Kinds

/-! # Frames and the call stack

Whatever a step does, it leaves the frames below the innermost one and the calls that are open as they
were, and a cancelled run stays cancelled. The steps of a sequence write into the frame that was innermost
when the sequence began: since every step restores the frames, that is the innermost frame all along. -/

namespace StepTree

/-! ### Scopes -/

namespace Scope

@[simp] theorem depth_eq (s : Scope) : s.depth = s.currentFrame + 1 := rfl

theorem pop_of_outer {s t : Scope} (h : s.outer = t.stack) : s.pop = t := by
  unfold pop
  rw [h]
  rfl

theorem pop?_of_outer {s t : Scope} (h : s.outer = t.stack) : s.pop? = some (s.innermost, t) := by
  unfold pop?
  rw [h]
  rfl

theorem currentFrame_of_outer {s t : Scope} (h : s.outer = t.outer) : s.currentFrame = t.currentFrame := by
  unfold currentFrame
  rw [h]

/-- A write into the frame that is innermost goes there. -/
theorem bindInFrame_currentFrame (s : Scope) (name : String) (b : Binding) :
    s.bindInFrame s.currentFrame name b = s.bind name b := by
  simp [bindInFrame, position, stack, ofStack, bind]

/-- Writes what paths select from a result into the innermost frame, one after the other; a variable that
was secret stays so. -/
def bindSelected (result : Json) (s : Scope) (outputs : List (String × String)) : Scope :=
  outputs.foldl
    (fun s o => s.bind o.2 ⟨result.select? o.1.toList, ((s.binding? o.2).map (·.isSecret)).getD false⟩) s

end Scope

/-! ### What a step keeps -/

/-- What every step keeps of the state it begins in. -/
structure Kept (st st' : State) : Prop where
  outer : st'.scope.outer = st.scope.outer
  callStack : st'.callStack = st.callStack
  cancelled : st.cancelled = true → st'.cancelled = true

namespace Kept
variable {u : Setup} {st st' st'' : State} {body : Option Body}

theorem refl (st : State) : Kept st st := ⟨rfl, rfl, id⟩

theorem trans (h : Kept st st') (h' : Kept st' st'') : Kept st st'' where
  outer := h'.outer.trans h.outer
  callStack := h'.callStack.trans h.callStack
  cancelled := h'.cancelled ∘ h.cancelled

theorem currentFrame (h : Kept st st') : st'.scope.currentFrame = st.scope.currentFrame :=
  Scope.currentFrame_of_outer h.outer

theorem emit (h : Kept st st') (e : Event) : Kept st (st'.emit e) := ⟨h.outer, h.callStack, h.cancelled⟩

theorem checkpoint (st : State) : Kept st st.checkpoint :=
  ⟨by rw [State.checkpoint_scope], State.checkpoint_callStack st, fun h => by rwa [State.checkpoint_of_cancelled st h]⟩

theorem skip (st : State) (s : Step) (reason : SkipReason) : Kept st (st.skip s reason).2 := (refl st).emit _

theorem bindOutputs (u : Setup) (head : StepHead) (result : Json) (st : State) :
    Kept st (u.bindOutputs st.scope.currentFrame head result st) := by
  refine Setup.bindOutputs_keep (P := Kept st) (fun st' o _ h => ?_) (refl st)
  refine h.trans ⟨?_, rfl, id⟩
  rw [Setup.bindOutput_scope, ← h.currentFrame, Scope.bindInFrame_currentFrame]
  rfl

theorem conclude (u : Setup) (head : StepHead) (r : Record) (result : Except StepError Json) (st : State) :
    Kept st (u.conclude st.scope.currentFrame head r result st).2 := by
  cases result with
  | ok value => exact bindOutputs u head value st
  | error e => exact refl st

/-- The call on top of the stack when a callee ends is its own, since the callee leaves the stack as it found it: the
call that is taken off is the one that was put on. -/
theorem returned {id : String} {w : Workflow} {a : Action} {inner : State}
    (h : Kept (Setup.calleeState id w a st) inner) : Kept st (Setup.returned st inner) where
  outer := rfl
  callStack := by
    have hopen : inner.callStack = st.callStack ++ [id] := h.callStack
    exact (congrArg List.dropLast hopen).trans List.dropLast_concat
  cancelled := h.cancelled

theorem callEnded (u : Setup) (head : StepHead) (r : Record) {id : String} {w : Workflow} {a : Action}
    {out : List Record × State} (h : Kept (Setup.calleeState id w a st) out.2) :
    Kept st (u.callEnded st.scope.currentFrame head r id st out).2 := by
  have hback : Kept st (Setup.returned st out.2) := returned h
  rcases u.callEnded_cases st.scope.currentFrame head r id st out with ⟨-, h'⟩ | ⟨-, -, h'⟩ | ⟨-, -, h'⟩ <;> rw [h']
  · exact hback
  · exact hback
  · exact hback.trans (conclude u head _ _ (Setup.returned st out.2))

theorem act (hbody : ∀ run ∈ body, ∀ steps st, Kept st (run steps st).2) (head : StepHead) (spec : ActionSpec)
    (r : Record) (st : State) : Kept st (u.act body st.scope.currentFrame head spec r st).2 := by
  rcases u.act_cases body st.scope.currentFrame head spec r st with
    ⟨-, n, commands, result, -, -, h⟩ | ⟨-, e, -, h⟩ | ⟨-, run, id, w, hrun, -, h⟩ <;> rw [h]
  · have hhanded : Kept st (st.handed (Setup.resolved st head spec) n commands) := ⟨rfl, rfl, id⟩
    exact hhanded.trans (conclude u head _ result _)
  · exact refl st
  · exact callEnded u head _ (hbody run hrun w.steps (Setup.calleeState id w (Setup.resolved st head spec) st))

theorem branch {stepId : String} {arms : List Arm} {body : Nat → State → List Record × State}
    (hbody : ∀ index st, Kept st (body index st).2) (r : Record) (st : State) :
    Kept st (u.branch stepId arms body r st).2 := by
  rcases u.branch_cases stepId arms body r st with ⟨-, h⟩ | ⟨-, -, h⟩ | ⟨e, -, h⟩ <;> rw [h]
  · exact refl st
  · exact refl st
  · exact ((refl st).emit _).trans (hbody e.index _)

end Kept

/-! ### Loops -/

namespace Repetition
variable {l : Repetition} {u : Setup} {st : State}

/-- What an iteration bound is carried into the frame of the loop, which is innermost again. -/
theorem carry_outer {bound : Frame} {s : Scope} (h : l.frame = s.currentFrame) : (l.carry bound s).outer = s.outer := by
  unfold carry
  refine List.foldlRecOn (motive := fun t : Scope => t.outer = s.outer) _ _ rfl fun t ht entry _ => ?_
  rw [h, ← Scope.currentFrame_of_outer ht, Scope.bindInFrame_currentFrame]
  exact ht

/-- The state in which an iteration ends has the frame of the iteration on top of those of the loop. -/
theorem iteration_outer (hbody : ∀ st, Kept st (l.body st).2) (index : Nat) (st : State) :
    (l.iteration u index (l.opened index st)).2.scope.outer = st.scope.stack := by
  have hopen : (l.opened index st).scope.outer = st.scope.stack := opened_outer
  unfold iteration
  rcases l.iterate_cases u index (u.redactValue (l.opened index st) (l.plan.item index)) _ with
    ⟨-, h⟩ | ⟨e, -, h⟩ | ⟨-, h⟩ <;> rw [h]
  · exact hopen
  · exact hopen
  · exact (hbody _).outer.trans hopen

theorem iteration_kept (hbody : ∀ st, Kept st (l.body st).2) (index : Nat) (st : State) :
    Kept st (l.iteration u index st).2 := by
  unfold iteration
  rcases l.iterate_cases u index (u.redactValue st (l.plan.item index)) _ with ⟨-, h⟩ | ⟨e, -, h⟩ | ⟨-, h⟩ <;> rw [h]
  · exact (Kept.refl st).emit _
  · exact (Kept.refl st).emit _
  · exact ((Kept.refl st).emit _).trans (hbody _)

/-- A round leaves the frames around the loop alone, and its own frame is taken off. -/
theorem round_kept (hbody : ∀ st, Kept st (l.body st).2) (hframe : l.frame = st.scope.currentFrame) (index : Nat) :
    Kept st (l.round u index (l.opened index st)).2 := by
  have hkept := iteration_kept (u := u) hbody index (l.opened index st)
  have hpop := Scope.pop?_of_outer (iteration_outer (u := u) hbody index st)
  rw [round_eq]
  refine Kept.emit ⟨?_, ?_, ?_⟩ _
  · unfold closed
    rw [hpop]
    dsimp only
    split
    · exact carry_outer hframe
    · rfl
  · rw [closed_callStack, hkept.callStack, opened_callStack]
  · intro h
    rw [closed_cancelled]
    exact hkept.cancelled h

theorem rounds_kept (hbody : ∀ st, Kept st (l.body st).2) (hframe : l.frame = st.scope.currentFrame)
    (left index : Nat) (record : LoopRecord) : Kept st (l.rounds u left index record st).2.2 := by
  refine rounds_keep (P := fun _ st' => Kept st st') (fun _ st' h => h.trans (Kept.checkpoint st')) ?_ left index
    (Kept.refl st)
  intro index _ st' h
  exact h.trans (round_kept hbody (hframe.trans h.currentFrame.symm) index)

/-- The rounds of a loop end with the frame of the loop on top of those around it. -/
theorem turns_kept (hbody : ∀ st, Kept st (l.body st).2) (hframe : l.frame = st.scope.push.currentFrame) :
    Kept { st with scope := st.scope.push } (l.turns u st).2.2 := rounds_kept hbody hframe _ _ _

theorem left_scope {out : LoopRecord × Stop × State} (h : Kept { st with scope := st.scope.push } out.2.2) :
    (l.left out).scope = st.scope := Scope.pop_of_outer h.outer

theorem left_kept {out : LoopRecord × Stop × State} (h : Kept { st with scope := st.scope.push } out.2.2) :
    Kept st (l.left out) where
  outer := by rw [left_scope h]
  callStack := h.callStack
  cancelled := h.cancelled

end Repetition

/-- A loop leaves the whole scope as it was. -/
theorem Setup.loop_scope {u : Setup} {stepId : String} {config : LoopConfig} {isEmpty : Bool}
    {body : State → List Record × State} (hbody : ∀ st, Kept st (body st).2) (r : Record) (st : State) :
    (u.loop stepId config isEmpty body r st).2.scope = st.scope := by
  rcases u.loop_cases stepId config isEmpty body r st with ⟨-, h⟩ | ⟨-, e, -, h⟩ | ⟨-, plan, -, h⟩ <;> rw [h]
  rw [Repetition.run_eq]
  exact Repetition.left_scope (Repetition.turns_kept hbody rfl)

theorem Kept.loop {u : Setup} {stepId : String} {config : LoopConfig} {isEmpty : Bool}
    {body : State → List Record × State} (hbody : ∀ st, Kept st (body st).2) (r : Record) (st : State) :
    Kept st (u.loop stepId config isEmpty body r st).2 := by
  rcases u.loop_cases stepId config isEmpty body r st with ⟨-, h⟩ | ⟨-, e, -, h⟩ | ⟨-, plan, -, h⟩ <;> rw [h]
  · exact refl st
  · exact refl st
  · rw [Repetition.run_eq]
    exact Repetition.left_kept (Repetition.turns_kept hbody rfl)

/-! ### Whole runs -/

namespace Setup
variable {u : Setup} {callee : Option Body}

theorem begun_kept {s : Step} {st : State}
    (h : ∀ r st', Kept st' (u.runKind callee st'.scope.currentFrame s.head s.kind r st').2) :
    Kept st (u.begun callee st.scope.currentFrame s st).2 :=
  Kept.emit (((Kept.refl st).emit _).trans (h _ (u.inside s st))) _

theorem runStep_kept {s : Step} {st : State}
    (h : ∀ r st', Kept st' (u.runKind callee st'.scope.currentFrame s.head s.kind r st').2) :
    Kept st (u.runStep callee st.scope.currentFrame s st).2 := by
  rcases u.runStep_cases callee st.scope.currentFrame s st with ⟨reason, -, h'⟩ | ⟨e, -, h'⟩ | ⟨-, h'⟩ <;> rw [h']
  · exact Kept.skip st s reason
  · exact ((Kept.refl st).emit _).emit _
  · exact begun_kept h

theorem visit_kept {s : Step} (h : ∀ st, Kept st (u.runStep callee st.scope.currentFrame s st).2) (stopped : Bool)
    (st : State) : Kept st (u.visit callee st.scope.currentFrame stopped s st).2 := by
  have hlook := Kept.checkpoint st
  rcases u.visit_cases callee st.scope.currentFrame stopped s st with ⟨-, h'⟩ | ⟨-, -, h'⟩ | ⟨-, -, h'⟩ <;> rw [h']
  · exact hlook.trans (Kept.skip _ s _)
  · exact hlook.trans (Kept.skip _ s _)
  · rw [← hlook.currentFrame]
    exact hlook.trans (h st.checkpoint)

/-- Every step and every sequence of a run keeps the frames below the innermost one and the open calls. -/
theorem run_kept (u : Setup) (depth : Nat) :
    (∀ s st, Kept st (u.runStep (u.bodyWithin depth) st.scope.currentFrame s st).2) ∧
    ∀ steps stopped st, Kept st (u.runSteps (u.bodyWithin depth) st.scope.currentFrame stopped steps st).2 := by
  refine run_induction
    (fun depth s => ∀ st, Kept st (u.runStep (u.bodyWithin depth) st.scope.currentFrame s st).2)
    (fun depth steps => ∀ stopped st,
      Kept st (u.runSteps (u.bodyWithin depth) st.scope.currentFrame stopped steps st).2)
    ?nil ?cons ?action ?group ?loop ?branch depth
  case nil =>
    intro depth stopped st
    rw [runSteps_nil]
    exact Kept.refl st
  case cons =>
    intro depth s rest one all stopped st
    have hone := visit_kept one stopped st
    have hrest := all (stopped || stops s.head (u.visit (u.bodyWithin depth) st.scope.currentFrame stopped s st).1)
      (u.visit (u.bodyWithin depth) st.scope.currentFrame stopped s st).2
    -- The rest writes into the frame that the sequence began with; the first step has restored it.
    rw [hone.currentFrame] at hrest
    rw [runSteps_cons]
    exact hone.trans hrest
  case action =>
    intro depth head spec all st
    refine runStep_kept fun r st' => ?_
    rw [runKind]
    refine Kept.act (fun run hrun steps st => ?_) head spec r st'
    obtain ⟨d, hd, rfl⟩ := bodyWithin_eq_some hrun
    rw [runWithin_eq]
    exact all d hd steps false st
  case group =>
    intro depth head children all st
    refine runStep_kept fun r st' => ?_
    rw [runKind]
    exact all false st'
  case loop =>
    intro depth head config children all st
    refine runStep_kept fun r st' => ?_
    rw [runKind]
    exact Kept.loop (fun st => all false st) r st'
  case branch =>
    intro depth head arms all st
    refine runStep_kept fun r st' => ?_
    rw [runKind]
    refine Kept.branch (fun index st => ?_) r st'
    rw [runArm_eq]
    split
    · exact Kept.refl st
    · next a ha => exact all a (List.mem_of_getElem? ha) false st

theorem runWithin_kept (u : Setup) (depth : Nat) (steps : List Step) (st : State) :
    Kept st (u.runWithin depth steps st).2 := by
  rw [runWithin_eq]
  exact (u.run_kept depth).2 steps false st

end Setup
end StepTree
