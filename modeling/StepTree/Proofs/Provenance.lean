import StepTree.Proofs.Moments
import StepTree.Proofs.Records
import StepTree.Proofs.Recount

/-! # Where the parts of a trace come from

Every record of a trace was made when its step was skipped or taken up, every iteration when a round of its loop
was opened, and every change of a variable when an output of an action step was bound. This ties what a trace holds
to the moments of the run at which it was written, and to the states at those moments. -/

namespace StepTree

open Setup

/-! ### Moments of writing -/

/-- A run from `m` ends an action step with a result, whose outputs go into a frame. -/
inductive Concludes (u : Setup) (m : Moment) : (frame : Nat) → StepHead → (result : Json) → State → Prop
  | action {depth frame : Nat} {head : StepHead} {spec : ActionSpec} {st now : State} {attempts : Nat} {result : Json}
    (reaches : Reaches u m (.step depth frame ⟨head, .action spec⟩ st)) (begins : gate head st = .begin)
    (isAction : spec.actionType ≠ callActionType)
    (answered : u.tryAction (u.settings.timeLimit head.timeoutMs) (resolved st head spec) (head.attempts - 1) 0
      (u.inside ⟨head, .action spec⟩ st) = (attempts, .ok result, now)) :
    Concludes u m frame head result now
  | call {depth frame : Nat} {head : StepHead} {spec : ActionSpec} {st : State} {id : String} {w : Workflow}
    {out : List Record × State} (reaches : Reaches u m (.step (depth + 1) frame ⟨head, .action spec⟩ st))
    (begins : gate head st = .begin) (isCall : spec.actionType = callActionType)
    (enters : u.callee true st (resolved st head spec) = .ok (id, w))
    (ran : u.runWithin depth w.steps
      (calleeState id w (resolved st head spec) (u.inside ⟨head, .action spec⟩ st)) = out)
    (goes : out.2.cancelled = false) (passed : sequenceStatus out.1 ≠ .failed) :
    Concludes u m frame head (.obj out.2.scope.root.values) (returned (u.inside ⟨head, .action spec⟩ st) out.2)

/-- A run from `m` has outputs of an action step left to bind. -/
inductive Binds (u : Setup) (m : Moment) (frame : Nat) (head : StepHead) (result : Json) :
    (outputs : List (String × String)) → State → Prop
  | first {st : State} (concludes : Concludes u m frame head result st) : Binds u m frame head result head.outputs st
  | next {o : String × String} {rest : List (String × String)} {st : State}
    (binds : Binds u m frame head result (o :: rest) st) :
    Binds u m frame head result rest (u.bindOutput frame head.id result st o)

/-- A run from `m` opens the round at `index` of a loop. -/
inductive Opens (u : Setup) (m : Moment) (l : Repetition) (index : Nat) : State → Prop
  | intro {depth : Nat} {steps : List Step} {left : Nat} {st : State}
    (reaches : Reaches u m (.round depth steps l (left + 1) index st)) (goes : l.stop? index st.checkpoint = none) :
    Opens u m l index (l.opened index st.checkpoint)

/-- What a run from `m` makes a record of. -/
inductive Made (u : Setup) (m : Moment) : Record → Prop
  | skipped (s : Step) (reason : SkipReason) : Made u m (.skipped s reason)
  | taken {depth frame : Nat} {s : Step} {st : State} (reaches : Reaches u m (.step depth frame s st)) :
    Made u m (u.runStep (u.bodyWithin depth) frame s st).1

/-- The record of an iteration was made in a round that a run from `m` opened. -/
def MadeRound (u : Setup) (m : Moment) (i : Iteration) : Prop :=
  ∃ l now, Opens u m l i.head.index now ∧ i = (l.round u i.head.index now).1

/-- A record and its iterations were made by a run from `m`. -/
structure Traced (u : Setup) (m : Moment) (r : Record) : Prop where
  made : Made u m r
  rounds : ∀ l ∈ r.loop, ∀ i ∈ l.iterations, MadeRound u m i

/-- The change was recorded when a run from `m` bound an output. -/
def MadeChange (u : Setup) (m : Moment) (c : VariableChange) : Prop :=
  ∃ frame head result o rest now, Binds u m frame head result (o :: rest) now ∧
    c = u.change frame head.id result now o

/-- An event that tells of a value was reported when the value was bound or its round was opened. -/
def MadeEvent (u : Setup) (m : Moment) : Event → Prop
  | .iterationStarted stepId index item =>
    ∃ l now, Opens u m l index now ∧ stepId = l.stepId ∧ item = u.redactValue now (l.plan.item index)
  | .variableChanged stepId name value => ∃ c, MadeChange u m c ∧ .variableChanged stepId name value = c.event
  | _ => True

/-! ### Parts of a run -/

/-- The events so far, if somebody listens. -/
def State.reported (st : State) : List Event := st.signals.heard.getD []

theorem State.reported_emit (st : State) (e : Event) : ∀ e' ∈ (st.emit e).reported, e' ∈ st.reported ∨ e' = e := by
  unfold reported emit
  rw [Signals.heard_emit]
  cases st.signals.heard <;> simp

/-- From `st` to `st'` a run from `m` recorded its own writes and reported its own values. -/
structure Logs (u : Setup) (m : Moment) (st st' : State) : Prop where
  changes : ∀ c ∈ st'.changes.toList, c ∈ st.changes.toList ∨ MadeChange u m c
  events : ∀ e ∈ st'.reported, e ∈ st.reported ∨ MadeEvent u m e

namespace Logs
variable {u : Setup} {m : Moment} {st st' st'' : State}

theorem same (signals : st'.signals = st.signals) (changes : st'.changes = st.changes) : Logs u m st st' where
  changes c hc := Or.inl (changes ▸ hc)
  events e he := Or.inl (by rwa [State.reported, ← signals])

theorem refl (st : State) : Logs u m st st := same rfl rfl

theorem trans (h : Logs u m st st') (h' : Logs u m st' st'') : Logs u m st st'' where
  changes c hc := (h'.changes c hc).elim (h.changes c) Or.inr
  events e he := (h'.events e he).elim (h.events e) Or.inr

theorem emit (h : Logs u m st st') {e : Event} (he : MadeEvent u m e) : Logs u m st (st'.emit e) where
  changes := h.changes
  events e' he' := (st'.reported_emit e e' he').elim (h.events e') fun heq => Or.inr (heq ▸ he)

theorem left {l : Repetition} {out : LoopRecord × Stop × State} (h : Logs u m st out.2.2) :
    Logs u m st (l.left out) := by
  have hpopped : Logs u m st { out.2.2 with scope := out.2.2.scope.pop } := ⟨h.changes, h.events⟩
  exact hpopped.emit trivial

theorem checkpoint (st : State) : Logs u m st st.checkpoint where
  changes c hc := Or.inl (by rwa [st.checkpoint_changes] at hc)
  events e he := by
    unfold State.checkpoint at he
    split at he
    · exact Or.inl he
    · obtain ⟨phases, hphases, heard⟩ := Signals.checkpoint_hears st.signals
      rw [State.reported] at he ⊢
      dsimp only at he
      rw [heard] at he
      cases hst : st.signals.heard with
      | none =>
        rw [hst] at he
        exact Or.inl he
      | some events =>
        rw [hst] at he
        refine (List.mem_append.mp he).imp_right fun he => ?_
        have hphase := hphases e he
        cases e with
        | phaseChanged phase message => trivial
        | _ => cases hphase

end Logs

/-- From `st` on a run from `m` made the records of a sequence. -/
structure Wrote (u : Setup) (m : Moment) (st : State) (out : List Record × State) : Prop where
  records : ∀ r ∈ Record.walkAll out.1, Traced u m r
  logs : Logs u m st out.2

/-- From `st` on a run from `m` carried a step out, and made what is inside its record. -/
structure WroteInside (u : Setup) (m : Moment) (st : State) (out : Record × State) : Prop where
  records : ∀ r ∈ Record.walkAll out.1.nested, Traced u m r
  rounds : ∀ l ∈ out.1.loop, ∀ i ∈ l.iterations, MadeRound u m i
  logs : Logs u m st out.2

section Kinds
variable {u : Setup} {m : Moment} {depth frame : Nat} {st st' : State}

theorem Wrote.after {out : List Record × State} (h : Wrote u m st' out) (before : Logs u m st st') : Wrote u m st out :=
  ⟨h.records, before.trans h.logs⟩

theorem WroteInside.after {out : Record × State} (h : WroteInside u m st' out) (before : Logs u m st st') :
    WroteInside u m st out := ⟨h.records, h.rounds, before.trans h.logs⟩

theorem WroteInside.of_children {head : RecordHead} {children : List Record}
    (records : ∀ r ∈ Record.walkAll children, Traced u m r) (logs : Logs u m st st') :
    WroteInside u m st (⟨head, children, none, none⟩, st') where
  records := by
    rw [Record.nested_children]
    exact records
  rounds l hl := by cases hl
  logs := logs

theorem WroteInside.alone {head : RecordHead} (logs : Logs u m st st') :
    WroteInside u m st (⟨head, [], none, none⟩, st') := .of_children (List.forall_mem_nil _) logs

/-- The step writes what it should whenever a run from `m` takes it up. -/
def StepWrites (u : Setup) (m : Moment) (depth : Nat) (s : Step) : Prop :=
  ∀ frame st, Reaches u m (.step depth frame s st) → WroteInside u m st (u.runStep (u.bodyWithin depth) frame s st)

/-- The steps write what they should whenever a run from `m` comes to them. -/
def SequenceWrites (u : Setup) (m : Moment) (depth : Nat) (steps : List Step) : Prop :=
  ∀ frame stopped st, Reaches u m (.sequence depth frame stopped steps st) →
    Wrote u m st (u.runSteps (u.bodyWithin depth) frame stopped steps st)

theorem wrote_visit {stopped : Bool} {s : Step} {rest : List Step} (one : StepWrites u m depth s)
    (h : Reaches u m (.sequence depth frame stopped (s :: rest) st)) :
    (∀ r ∈ (u.visit (u.bodyWithin depth) frame stopped s st).1.walk, Traced u m r) ∧
      Logs u m st (u.visit (u.bodyWithin depth) frame stopped s st).2 := by
  have hlook : Logs u m st st.checkpoint := .checkpoint st
  have hskip : ∀ reason, (∀ r ∈ (Record.skipped s reason).walk, Traced u m r) ∧
      Logs u m st (st.checkpoint.skip s reason).2 := by
    intro reason
    have hnested : (Record.skipped s reason).nested = [] := rfl
    rw [Record.walk_eq, hnested]
    exact ⟨List.forall_mem_singleton.mpr ⟨.skipped s reason, fun l hl => by cases hl⟩, hlook.emit trivial⟩
  rcases u.visit_cases (u.bodyWithin depth) frame stopped s st with ⟨-, h'⟩ | ⟨-, -, h'⟩ | ⟨hc, rfl, h'⟩ <;> rw [h']
  · exact hskip _
  · exact hskip _
  · have hreaches := h.tail (.take hc)
    obtain ⟨hrecords, hrounds, hlogs⟩ := one frame _ hreaches
    rw [Record.walk_eq]
    exact ⟨List.forall_mem_cons.mpr ⟨⟨.taken hreaches, hrounds⟩, hrecords⟩, hlook.trans hlogs⟩

theorem wrote_step {s : Step}
    (begins : gate s.head st = .begin → WroteInside u m (u.inside s st)
      (u.runKind (u.bodyWithin depth) frame s.head s.kind (u.begin s) (u.inside s st))) :
    WroteInside u m st (u.runStep (u.bodyWithin depth) frame s st) := by
  have hstart : Logs u m st (u.inside s st) := (Logs.refl st).emit trivial
  rcases u.runStep_cases (u.bodyWithin depth) frame s st with ⟨reason, -, h⟩ | ⟨e, -, h⟩ | ⟨hg, h⟩ <;> rw [h]
  · exact .alone ((Logs.refl st).emit trivial)
  · exact .alone (hstart.emit trivial)
  · obtain ⟨hrecords, hrounds, hlogs⟩ := begins hg
    exact ⟨hrecords, hrounds, hstart.trans (hlogs.emit trivial)⟩

/-! ### Actions -/

theorem logs_bind {head : StepHead} {result : Json} {outputs : List (String × String)}
    (h : Binds u m frame head result outputs st) :
    Logs u m st (outputs.foldl (u.bindOutput frame head.id result) st) := by
  induction outputs generalizing st with
  | nil => exact .refl st
  | cons o rest ih =>
    have hmade : MadeChange u m (u.change frame head.id result st o) := ⟨_, _, _, _, _, _, h, rfl⟩
    have htold : MadeEvent u m (u.change frame head.id result st o).event := ⟨_, hmade, rfl⟩
    have hwritten : Logs u m st (written frame result st o) := .same rfl rfl
    have hone : Logs u m st (u.bindOutput frame head.id result st o) := by
      refine ⟨fun c hc => ?_, (hwritten.emit htold).events⟩
      rw [bindOutput_eq, Array.toList_push] at hc
      refine (List.mem_append.mp hc).imp_right fun hc => ?_
      rwa [List.mem_singleton.mp hc]
    exact hone.trans (ih h.next)

theorem wrote_conclude {head : StepHead} {h : RecordHead} {children : List Record} {result : Except StepError Json}
    (records : ∀ r ∈ Record.walkAll children, Traced u m r)
    (concludes : ∀ value, result = .ok value → Concludes u m frame head value st) :
    WroteInside u m st (u.conclude frame head ⟨h, children, none, none⟩ result st) := by
  cases result with
  | ok value => exact .of_children records (logs_bind (.first (concludes value rfl)))
  | error e => exact .of_children records (.refl st)

theorem wrote_perform {head : StepHead} {spec : ActionSpec} {record : RecordHead}
    (isAction : spec.actionType ≠ callActionType)
    (h : Reaches u m (.step depth frame ⟨head, .action spec⟩ st)) (hg : gate head st = .begin) :
    WroteInside u m (u.inside ⟨head, .action spec⟩ st) (u.perform frame head (resolved st head spec)
      ⟨record, [], none, none⟩ (u.inside ⟨head, .action spec⟩ st)) := by
  obtain ⟨n, commands, -, -, -, hhanded⟩ := tryAction_spec u (u.settings.timeLimit head.timeoutMs)
    (resolved st head spec) (head.attempts - 1) 0 (u.inside ⟨head, .action spec⟩ st)
  unfold perform
  dsimp only
  generalize hanswer : u.tryAction (u.settings.timeLimit head.timeoutMs) (resolved st head spec) (head.attempts - 1) 0
    (u.inside ⟨head, .action spec⟩ st) = answer at hhanded ⊢
  obtain ⟨attempts, result, now⟩ := answer
  have hlogs : Logs u m (u.inside ⟨head, .action spec⟩ st) now := by
    rw [show now = _ from hhanded]
    exact ⟨fun c => Or.inl, fun e => Or.inl⟩
  refine WroteInside.after (wrote_conclude (List.forall_mem_nil _) fun value hvalue => ?_) hlogs
  obtain rfl : result = .ok value := hvalue
  exact .action h hg isAction hanswer

theorem wrote_act {head : StepHead} {spec : ActionSpec}
    (callee : ∀ d, depth = d + 1 → ∀ steps, SequenceWrites u m d steps)
    (h : Reaches u m (.step depth frame ⟨head, .action spec⟩ st)) (hg : gate head st = .begin) :
    WroteInside u m (u.inside ⟨head, .action spec⟩ st) (u.act (u.bodyWithin depth) frame head spec
      (u.begin ⟨head, .action spec⟩) (u.inside ⟨head, .action spec⟩ st)) := by
  by_cases hcall : spec.actionType = callActionType
  · rw [act_of_call hcall]
    rcases u.call_cases (u.bodyWithin depth) frame head (resolved (u.inside ⟨head, .action spec⟩ st) head spec)
      (u.supplied head spec (u.begin ⟨head, .action spec⟩) (u.inside ⟨head, .action spec⟩ st))
      (u.inside ⟨head, .action spec⟩ st) with ⟨e, -, h'⟩ | ⟨run, id, w, hrun, henters, h'⟩ <;> rw [h']
    · exact .alone (.refl _)
    · obtain ⟨d, rfl, rfl⟩ := bodyWithin_eq_some hrun
      generalize hout : u.runWithin d w.steps (calleeState id w (resolved (u.inside ⟨head, .action spec⟩ st) head spec)
        (u.inside ⟨head, .action spec⟩ st)) = out
      have hcallee : Wrote u m (u.inside ⟨head, .action spec⟩ st) out := by
        rw [← hout, runWithin_eq]
        exact (callee d rfl _ _ _ _ (h.tail (.call hg hcall henters))).after (.same rfl rfl)
      have hback : Logs u m (u.inside ⟨head, .action spec⟩ st) (returned (u.inside ⟨head, .action spec⟩ st) out.2) :=
        ⟨hcallee.logs.changes, hcallee.logs.events⟩
      rcases u.callEnded_cases frame head (u.supplied head spec (u.begin ⟨head, .action spec⟩)
        (u.inside ⟨head, .action spec⟩ st)) id (u.inside ⟨head, .action spec⟩ st) out with
        ⟨-, h'⟩ | ⟨-, -, h'⟩ | ⟨hgoes, hpassed, h'⟩ <;> rw [h']
      · exact .of_children hcallee.records hback
      · exact .of_children hcallee.records hback
      · refine WroteInside.after (wrote_conclude hcallee.records fun value hvalue => ?_) hback
        cases hvalue
        exact .call h hg hcall henters hout hgoes hpassed
  · rw [act_of_action hcall]
    exact wrote_perform hcall h hg

/-! ### Loops and branches -/

/-- An iteration and the records inside it were made by a run from `m`. -/
def TracedRound (u : Setup) (m : Moment) (i : Iteration) : Prop :=
  MadeRound u m i ∧ ∀ r ∈ Record.walkAll i.children, Traced u m r

theorem wrote_round {l : Repetition} {steps : List Step} {left index : Nat}
    (hbody : l.body = fun st => u.runSteps (u.bodyWithin depth) st.scope.currentFrame false steps st)
    (all : SequenceWrites u m depth steps) (h : Reaches u m (.round depth steps l (left + 1) index st))
    (goes : l.stop? index st.checkpoint = none) :
    TracedRound u m (l.round u index (l.opened index st.checkpoint)).1 ∧
      Logs u m st.checkpoint (l.round u index (l.opened index st.checkpoint)).2 := by
  have hopens : Opens u m l index (l.opened index st.checkpoint) := .intro h goes
  have htold : MadeEvent u m (.iterationStarted l.stepId index
      (u.redactValue (l.opened index st.checkpoint) (l.plan.item index))) := ⟨l, _, hopens, rfl, rfl⟩
  -- The item is masked and reported in the frame that is opened for it, before any of the steps is run.
  have hopened : Logs u m st.checkpoint (l.opened index st.checkpoint) := .same rfl rfl
  have hstart := hopened.emit htold
  have hclosed : ∀ {inner : State}, Logs u m st.checkpoint inner → Logs u m st.checkpoint (l.closed inner) := by
    intro inner hinner
    obtain ⟨scope, hscope⟩ := l.closed_eq inner
    rw [hscope]
    exact ⟨hinner.changes, hinner.events⟩
  have hmade : (l.round u index (l.opened index st.checkpoint)).1.head.index = index →
      MadeRound u m (l.round u index (l.opened index st.checkpoint)).1 := by
    intro hindex
    exact ⟨l, _, hindex.symm ▸ hopens, by rw [hindex]⟩
  unfold TracedRound
  rw [Repetition.round_eq, Repetition.iteration] at hmade ⊢
  dsimp only at hmade ⊢
  rcases l.iterate_cases u index (u.redactValue (l.opened index st.checkpoint) (l.plan.item index)) _ with
    ⟨-, h'⟩ | ⟨e, -, h'⟩ | ⟨hcont, h'⟩ <;> rw [h'] at hmade ⊢
  · exact ⟨⟨hmade rfl, List.forall_mem_nil _⟩, (hclosed hstart).emit trivial⟩
  · exact ⟨⟨hmade rfl, List.forall_mem_nil _⟩, (hclosed hstart).emit trivial⟩
  · rw [hbody] at hmade ⊢
    obtain ⟨hrecords, hlogs⟩ := all _ _ _ (h.tail (.iteration goes hcont))
    exact ⟨⟨hmade rfl, hrecords⟩, (hclosed (hstart.trans hlogs)).emit trivial⟩

theorem wrote_rounds {l : Repetition} {steps : List Step}
    (hbody : l.body = fun st => u.runSteps (u.bodyWithin depth) st.scope.currentFrame false steps st)
    (all : SequenceWrites u m depth steps) {left index : Nat} (record : LoopRecord)
    (h : Reaches u m (.round depth steps l left index st)) (hrecord : ∀ i ∈ record.iterations, TracedRound u m i) :
    (∀ i ∈ (l.rounds u left index record st).1.iterations, TracedRound u m i) ∧
      Logs u m st (l.rounds u left index record st).2.2 := by
  have hlook : Logs u m st st.checkpoint := .checkpoint st
  induction left generalizing index record st with
  | zero => exact ⟨hrecord, hlook⟩
  | succ left ih =>
    rw [Repetition.rounds_succ]
    split
    · exact ⟨hrecord, hlook⟩
    · next goes =>
      obtain ⟨hround, hlogs⟩ := wrote_round hbody all h goes
      have hadd : ∀ i ∈ (record.add (l.round u index (l.opened index st.checkpoint)).1).iterations,
          TracedRound u m i :=
        List.forall_mem_append.mpr ⟨hrecord, List.forall_mem_singleton.mpr hround⟩
      dsimp only
      split
      · exact ⟨hadd, hlook.trans hlogs⟩
      · next goesOn =>
        obtain ⟨hrest, hlogs'⟩ := ih _ (h.tail (.again goes goesOn)) hadd (.checkpoint _)
        exact ⟨hrest, hlook.trans (hlogs.trans hlogs')⟩

theorem WroteInside.of_rounds {head : RecordHead} {l : LoopRecord} (rounds : ∀ i ∈ l.iterations, TracedRound u m i)
    (logs : Logs u m st st') : WroteInside u m st (⟨head, [], some l, none⟩, st') where
  records := by
    rw [Record.nested_loop]
    intro r hr
    obtain ⟨c, hc, hr⟩ := Record.mem_walkAll.mp hr
    obtain ⟨i, hi, hc⟩ := List.mem_flatMap.mp hc
    exact (rounds i hi).2 r (Record.mem_walkAll.mpr ⟨c, hc, hr⟩)
  rounds l' hl' := by
    obtain rfl : l = l' := Option.some.inj hl'
    exact fun i hi => (rounds i hi).1
  logs := logs

theorem wrote_loop {head : StepHead} {config : LoopConfig} {steps : List Step} (all : SequenceWrites u m depth steps)
    (h : Reaches u m (.step depth frame ⟨head, .loop config steps⟩ st)) (hg : gate head st = .begin) :
    WroteInside u m (u.inside ⟨head, .loop config steps⟩ st) (u.loop head.id config steps.isEmpty
      (fun st => u.runSteps (u.bodyWithin depth) st.scope.currentFrame false steps st)
      (u.begin ⟨head, .loop config steps⟩) (u.inside ⟨head, .loop config steps⟩ st)) := by
  rcases u.loop_cases head.id config steps.isEmpty _ (u.begin ⟨head, .loop config steps⟩)
    (u.inside ⟨head, .loop config steps⟩ st) with ⟨-, h'⟩ | ⟨-, e, -, h'⟩ | ⟨hne, plan, hplan, h'⟩ <;> rw [h']
  · exact .of_rounds (List.forall_mem_nil _) (.refl _)
  · exact .of_rounds (List.forall_mem_nil _) (.refl _)
  · have hsteps : steps ≠ [] := by simpa using hne
    have hloop : Reaches u m (.loop depth steps (u.repetition depth head config steps plan st)
        (u.inside ⟨head, .loop config steps⟩ st)) := h.tail (.loop hg hsteps hplan)
    obtain ⟨hrounds, hlogs⟩ := wrote_rounds rfl all
      (LoopRecord.begin config.loopType plan.total? (u.settings.iterationLimit config.maxIterations))
      (hloop.tail .rounds) (List.forall_mem_nil _)
    rw [Repetition.run_eq]
    dsimp only
    have hturns : Logs u m (u.inside ⟨head, .loop config steps⟩ st)
        ((u.repetition depth head config steps plan st).turns u (u.inside ⟨head, .loop config steps⟩ st)).2.2 :=
      ⟨hlogs.changes, hlogs.events⟩
    rcases Repetition.ended_cases u (u.begin ⟨head, .loop config steps⟩) _ _ _ with ⟨e, -, h'⟩ | ⟨reason, -, h'⟩ <;>
      rw [h']
    · exact .of_rounds hrounds hturns.left
    · exact .of_rounds hrounds hturns.left

theorem wrote_branch {head : StepHead} {arms : List Arm} (all : ∀ a ∈ arms, SequenceWrites u m depth a.children)
    (h : Reaches u m (.step depth frame ⟨head, .branch arms⟩ st)) (hg : gate head st = .begin) :
    WroteInside u m (u.inside ⟨head, .branch arms⟩ st) (u.branch head.id arms
      (fun index st => u.runArm (u.bodyWithin depth) index arms st) (u.begin ⟨head, .branch arms⟩)
      (u.inside ⟨head, .branch arms⟩ st)) := by
  rcases u.branch_cases head.id arms (fun index st => u.runArm (u.bodyWithin depth) index arms st)
    (u.begin ⟨head, .branch arms⟩) (u.inside ⟨head, .branch arms⟩ st) with ⟨-, h'⟩ | ⟨-, -, h'⟩ | ⟨e, htaken, h'⟩
  · rw [h']
    exact .alone (.refl _)
  · rw [h', noneTaken]
    split <;> exact .alone (.refl _)
  · obtain ⟨a, ha⟩ := Arm.find?_isArm htaken
    rw [inside, Arm.evaluateAll_emit] at htaken
    dsimp only at h'
    rw [h', runArm_eq, ha]
    obtain ⟨hrecords, hlogs⟩ := all a (List.mem_of_getElem? ha) _ _ _ (h.tail (.arm hg htaken ha))
    have hselected : Logs u m (u.inside ⟨head, .branch arms⟩ st)
        ((u.inside ⟨head, .branch arms⟩ st).emit (.branchSelected head.id e.index e.label)) :=
      (Logs.refl _).emit trivial
    exact { records := hrecords, rounds := fun l hl => (by cases hl), logs := hselected.trans hlogs }

/-- Every step and every sequence that a run comes to writes what it should. -/
theorem run_writes (u : Setup) (m : Moment) (depth : Nat) :
    (∀ s, StepWrites u m depth s) ∧ ∀ steps, SequenceWrites u m depth steps := by
  refine run_induction (StepWrites u m) (SequenceWrites u m) ?nil ?cons ?action ?group ?loop ?branch depth
  case nil =>
    intro depth frame stopped st _
    rw [runSteps_nil]
    exact ⟨List.forall_mem_nil _, .refl st⟩
  case cons =>
    intro depth s rest one all frame stopped st h
    obtain ⟨hrecord, hlogs⟩ := wrote_visit one h
    obtain ⟨hrecords, hlogs'⟩ := all _ _ _ (h.tail .next)
    rw [runSteps_cons]
    exact ⟨List.forall_mem_append.mpr ⟨hrecord, hrecords⟩, hlogs.trans hlogs'⟩
  case action =>
    intro depth head spec callee frame st h
    refine wrote_step fun hg => ?_
    rw [runKind]
    exact wrote_act callee h hg
  case group =>
    intro depth head children all frame st h
    refine wrote_step fun hg => ?_
    rw [runKind]
    obtain ⟨hrecords, hlogs⟩ := all _ _ _ (h.tail (.group hg))
    exact .of_children hrecords hlogs
  case loop =>
    intro depth head config children all frame st h
    refine wrote_step fun hg => ?_
    rw [runKind]
    exact wrote_loop all h hg
  case branch =>
    intro depth head arms all frame st h
    refine wrote_step fun hg => ?_
    rw [runKind]
    exact wrote_branch all h hg

end Kinds

/-- All records of a trace, and all changes and events that came with it, were made at moments of the run. -/
theorem run_made (u : Setup) (runId : String) (steps : List Step) (st : State) :
    Wrote u (.first u steps st) st ((u.run runId steps st).1.steps, (u.run runId steps st).2) := by
  have hrun : ((u.run runId steps st).1.steps, (u.run runId steps st).2) =
      u.runWithin u.settings.maxCallDepth steps st := rfl
  rw [hrun, runWithin_eq]
  exact (run_writes u _ _).2 steps _ _ _ .refl

end StepTree
