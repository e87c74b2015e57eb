import StepTree.Proofs.RootFrame
import StepTree.Proofs.Signals

/-! # What a run keeps of its signals

A run reports events, is sent commands while its actions are carried out, and looks at the commands at its checkpoints.
What these three keep of the signals, as far as the event reports no phase, every step keeps, and it holds at every
moment of the run. -/

namespace StepTree

open Setup

/-- What a run keeps of its signals. -/
structure Signals.Invariant (P : Signals → Prop) : Prop where
  emit : ∀ s e, e.isPhase = false → P s → P (s.emit e)
  send : ∀ s commands, P s → P (s.send commands)
  checkpoint : ∀ s, P s → P s.checkpoint

/-- Steps keep what `P` says of the signals. -/
def KeepsSignals {α : Type} (P : Signals → Prop) (run : State → α × State) : Prop :=
  ∀ st, P st.signals → P (run st).2.signals

/-- `P` holds of the signals at the moment, and the body of a loop keeps it. -/
def Moment.Signaled (P : Signals → Prop) : Moment → Prop
  | .loop _ _ l st => KeepsSignals P l.body ∧ P st.signals
  | .round _ _ l _ _ st => KeepsSignals P l.body ∧ P st.signals
  | m => P m.state.signals

namespace Signals.Invariant
variable {P : Signals → Prop} {u : Setup} {callee : Option Body} {frame : Nat} {st : State}

theorem look (h : Signals.Invariant P) (hst : P st.signals) : P st.checkpoint.signals := by
  unfold State.checkpoint
  split
  · exact hst
  · exact h.checkpoint _ hst

/-! ### Steps -/

theorem conclude (h : Signals.Invariant P) (head : StepHead) (r : Record) (result : Except StepError Json)
    (hst : P st.signals) : P (u.conclude frame head r result st).2.signals := by
  cases result with
  | ok value =>
    exact bindOutputs_keep (P := fun st => P st.signals) (fun st' o _ h' => h.emit st'.signals _ rfl h') hst
  | error e => exact hst

theorem act (h : Signals.Invariant P) (hbody : ∀ run ∈ callee, ∀ steps, KeepsSignals P (run steps)) (head : StepHead)
    (spec : ActionSpec) (r : Record) (hst : P st.signals) : P (u.act callee frame head spec r st).2.signals := by
  rcases u.act_cases callee frame head spec r st with
    ⟨-, n, commands, result, -, -, h'⟩ | ⟨-, e, -, h'⟩ | ⟨-, run, id, w, hrun, -, h'⟩ <;> rw [h']
  · exact h.conclude head _ result (h.send _ commands hst)
  · exact hst
  · have hcallee := hbody run hrun w.steps (calleeState id w (resolved st head spec) st) hst
    generalize run w.steps (calleeState id w (resolved st head spec) st) = out at hcallee ⊢
    rcases u.callEnded_cases frame head (u.supplied head spec r st) id st out with
      ⟨-, h'⟩ | ⟨-, -, h'⟩ | ⟨-, -, h'⟩ <;> rw [h']
    · exact hcallee
    · exact hcallee
    · exact h.conclude head _ _ hcallee

theorem iteration (h : Signals.Invariant P) {l : Repetition} (hbody : KeepsSignals P l.body) (index : Nat)
    (hst : P st.signals) : P (l.iteration u index (l.opened index st)).2.signals := by
  have hstart : P ((l.opened index st).emit
      (.iterationStarted l.stepId index (u.redactValue (l.opened index st) (l.plan.item index)))).signals :=
    h.emit _ _ rfl hst
  unfold Repetition.iteration
  rcases l.iterate_cases u index (u.redactValue (l.opened index st) (l.plan.item index)) _ with
    ⟨-, h'⟩ | ⟨e, -, h'⟩ | ⟨-, h'⟩ <;> rw [h']
  · exact hstart
  · exact hstart
  · exact hbody _ hstart

theorem round (h : Signals.Invariant P) {l : Repetition} (hbody : KeepsSignals P l.body) (index : Nat)
    (hst : P st.signals) : P (l.round u index (l.opened index st)).2.signals := by
  obtain ⟨scope, hclosed⟩ := l.closed_eq (l.iteration u index (l.opened index st)).2
  rw [Repetition.round_eq]
  dsimp only
  rw [hclosed]
  exact h.emit _ _ rfl (h.iteration hbody index hst)

theorem turns (h : Signals.Invariant P) {l : Repetition} (hbody : KeepsSignals P l.body) (hst : P st.signals) :
    P (l.turns u st).2.2.signals :=
  Repetition.rounds_keep (P := fun _ st => P st.signals) (fun _ _ hst => h.look hst)
    (fun index _ _ hst => h.round hbody index hst) _ _ hst

theorem loop (h : Signals.Invariant P) {stepId : String} {config : LoopConfig} {isEmpty : Bool}
    {body : State → List Record × State} (hbody : KeepsSignals P body) (r : Record) (hst : P st.signals) :
    P (u.loop stepId config isEmpty body r st).2.signals := by
  rcases u.loop_cases stepId config isEmpty body r st with ⟨-, h'⟩ | ⟨-, e, -, h'⟩ | ⟨-, plan, -, h'⟩ <;> rw [h']
  · exact hst
  · exact hst
  · rw [Repetition.run_eq]
    exact h.emit _ _ rfl (h.turns hbody hst)

theorem branch (h : Signals.Invariant P) {stepId : String} {arms : List Arm}
    {body : Nat → State → List Record × State} (hbody : ∀ index, KeepsSignals P (body index)) (r : Record)
    (hst : P st.signals) : P (u.branch stepId arms body r st).2.signals := by
  rcases u.branch_cases stepId arms body r st with ⟨-, h'⟩ | ⟨-, -, h'⟩ | ⟨e, -, h'⟩ <;> rw [h']
  · exact hst
  · exact hst
  · exact hbody e.index _ (h.emit _ _ rfl hst)

theorem step (h : Signals.Invariant P) {s : Step}
    (kind : ∀ r, KeepsSignals P (u.runKind callee frame s.head s.kind r)) :
    KeepsSignals P (u.runStep callee frame s) := by
  intro st hst
  have hstart : P (u.inside s st).signals := h.emit _ _ rfl hst
  rcases u.runStep_cases callee frame s st with ⟨reason, -, h'⟩ | ⟨e, -, h'⟩ | ⟨-, h'⟩ <;> rw [h']
  · exact h.emit _ _ rfl hst
  · exact h.emit _ _ rfl hstart
  · exact h.emit _ _ rfl (kind (u.begin s) _ hstart)

theorem visit (h : Signals.Invariant P) {s : Step} (one : KeepsSignals P (u.runStep callee frame s)) (stopped : Bool) :
    KeepsSignals P (u.visit callee frame stopped s) := by
  intro st hst
  have hlook : P st.checkpoint.signals := h.look hst
  rcases u.visit_cases callee frame stopped s st with ⟨-, h'⟩ | ⟨-, -, h'⟩ | ⟨-, -, h'⟩ <;> rw [h']
  · exact h.emit _ _ rfl hlook
  · exact h.emit _ _ rfl hlook
  · exact one _ hlook

/-- Every step and every sequence keeps it. -/
theorem run (h : Signals.Invariant P) (u : Setup) (depth : Nat) :
    (∀ s frame, KeepsSignals P (u.runStep (u.bodyWithin depth) frame s)) ∧
    ∀ steps frame stopped, KeepsSignals P (u.runSteps (u.bodyWithin depth) frame stopped steps) := by
  refine run_induction (fun depth s => ∀ frame, KeepsSignals P (u.runStep (u.bodyWithin depth) frame s))
    (fun depth steps => ∀ frame stopped, KeepsSignals P (u.runSteps (u.bodyWithin depth) frame stopped steps))
    ?nil ?cons ?action ?group ?loop ?branch depth
  case nil =>
    intro depth frame stopped st hst
    rwa [runSteps_nil]
  case cons =>
    intro depth s rest one all frame stopped st hst
    rw [runSteps_cons]
    exact all _ _ _ (h.visit (one frame) stopped st hst)
  case action =>
    intro depth head spec callee frame
    refine h.step fun r st hst => ?_
    rw [runKind]
    refine h.act (fun run hrun steps st hst => ?_) head spec r hst
    obtain ⟨d, hd, rfl⟩ := bodyWithin_eq_some hrun
    rw [runWithin_eq]
    exact callee d hd steps _ _ st hst
  case group =>
    intro depth head children all frame
    refine h.step fun r st hst => ?_
    rw [runKind]
    exact all _ _ st hst
  case loop =>
    intro depth head config children all frame
    refine h.step fun r st hst => ?_
    rw [runKind]
    exact h.loop (fun st hst => all _ _ st hst) r hst
  case branch =>
    intro depth head arms all frame
    refine h.step fun r st hst => ?_
    rw [runKind]
    refine h.branch (fun index st hst => ?_) r hst
    rw [runArm_eq]
    split
    · exact hst
    · next a ha => exact all a (List.mem_of_getElem? ha) _ _ st hst

/-! ### Moments -/

theorem leads (h : Signals.Invariant P) {m m' : Moment} (hleads : Leads u m m') (hm : m.Signaled P) :
    m'.Signaled P := by
  cases hleads with
  | take => exact h.look hm
  | @next depth frame stopped s => exact h.visit ((h.run u depth).1 s frame) stopped _ hm
  | call => exact h.emit _ _ rfl hm
  | group => exact h.emit _ _ rfl hm
  | arm => exact h.emit _ _ rfl (h.emit _ _ rfl hm)
  | @loop depth frame head config steps =>
    exact ⟨fun st hst => (h.run u depth).2 steps _ _ st hst, h.emit _ _ rfl hm⟩
  | rounds => exact hm
  | finish => exact h.turns hm.1 hm.2
  | giveUp => exact h.look hm.2
  | iteration => exact h.emit _ _ rfl (h.look hm.2)
  | close => exact h.iteration hm.1 _ (h.look hm.2)
  | again => exact ⟨hm.1, h.round hm.1 _ (h.look hm.2)⟩

/-- It holds at every moment of a run. -/
theorem reaches (h : Signals.Invariant P) {steps : List Step} {m : Moment} (hreaches : Reaches u (.first u steps st) m)
    (hst : P st.signals) : m.Signaled P :=
  hreaches.invariant (fun _ _ => h.leads) hst

end Signals.Invariant

/-- At every moment that is reached, `P` holds of the signals. -/
theorem Moment.Signaled.signals {P : Signals → Prop} {m : Moment} (h : m.Signaled P) : P m.state.signals := by
  cases m with
  | loop => exact h.2
  | round => exact h.2
  | _ => exact h

end StepTree
