import StepTree.Proofs.Mirror
import StepTree.Proofs.Signals

/-! # Cancelled runs

A run that goes on was asked for no cancellation. The checkpoint that obeys a command to cancel reports it,
and from there on the run only winds up: it hands over no action and writes nothing, it reports nothing but
ends, and every step that it comes to is skipped. -/

namespace StepTree

open Setup

/-- The event reports the end of a step, of an iteration, of a loop or of the run. -/
def Event.isEnd : Event → Bool
  | .stepFinished .. => true
  | .iterationFinished .. => true
  | .loopFinished .. => true
  | .runCompleted .. => true
  | _ => false

theorem Event.isCancel_of_isEnd {e : Event} (h : e.isEnd = true) : e.isCancel = false := by
  cases e with
  | phaseChanged phase message => cases h
  | _ => rfl

/-! ### Parts of a run -/

/-- No cancellation was asked for. -/
structure Quiet (st : State) : Prop where
  goes : st.cancelled = false
  unasked : st.signals.cancelRequested = false

/-- From `st` to `st'` no cancellation was asked for or reported. -/
structure Goes (st st' : State) : Prop where
  quiet : Quiet st'
  hears : st.signals.Hears (!·.isCancel) st'.signals

namespace Goes
variable {st st' st'' : State}

/-- Nothing is reported if neither the signals nor the state of cancellation differ. -/
theorem same (h : Quiet st) (signals : st'.signals = st.signals) (cancelled : st'.cancelled = st.cancelled) :
    Goes st st' where
  quiet := ⟨cancelled.trans h.goes, by rw [signals, h.unasked]⟩
  hears := .of_eq (by rw [signals])

theorem refl (h : Quiet st) : Goes st st := same h rfl rfl

theorem trans (h : Goes st st') (h' : Goes st' st'') : Goes st st'' := ⟨h'.quiet, h.hears.trans h'.hears⟩

theorem emit (h : Goes st st') {e : Event} (he : e.isCancel = false) : Goes st (st'.emit e) :=
  ⟨⟨h.quiet.goes, h.quiet.unasked⟩, h.hears.emit (by rw [he]; rfl)⟩

end Goes

/-- From `st` to `st'` a cancelled run only winds up. -/
structure Winds (st st' : State) : Prop where
  cancelled : st'.cancelled = true
  calls : st'.calls = st.calls
  changes : st'.changes = st.changes
  hears : st.signals.Hears Event.isEnd st'.signals

namespace Winds
variable {st st' st'' : State}

theorem same (h : st.cancelled = true) (signals : st'.signals = st.signals) (cancelled : st'.cancelled = st.cancelled)
    (calls : st'.calls = st.calls) (changes : st'.changes = st.changes) : Winds st st' :=
  ⟨cancelled.trans h, calls, changes, .of_eq (by rw [signals])⟩

theorem refl (h : st.cancelled = true) : Winds st st := same h rfl rfl rfl rfl

theorem trans (h : Winds st st') (h' : Winds st' st'') : Winds st st'' :=
  ⟨h'.cancelled, h'.calls.trans h.calls, h'.changes.trans h.changes, h.hears.trans h'.hears⟩

theorem emit (h : Winds st st') {e : Event} (he : e.isEnd = true) : Winds st (st'.emit e) :=
  ⟨h.cancelled, h.calls, h.changes, h.hears.emit he⟩

end Winds

/-- A run from `m` looks at its commands in the state. -/
inductive Looks (u : Setup) (m : Moment) (now : State) : Prop
  | step {depth frame : Nat} {stopped : Bool} {s : Step} {rest : List Step}
    (reaches : Reaches u m (.sequence depth frame stopped (s :: rest) now))
  | round {depth : Nat} {steps : List Step} {l : Repetition} {left index : Nat}
    (reaches : Reaches u m (.round depth steps l left index now))

/-- The checkpoint at `now` obeys a command to cancel. -/
structure Cancels (now : State) (e : Event) : Prop where
  isCancel : e.isCancel = true
  cancelled : now.checkpoint.cancelled = true
  /-- The cancellation is the last event that the checkpoint reports. -/
  last : ∃ before, now.signals.Hears (!·.isCancel) before ∧
    now.checkpoint.signals.heard = before.heard.map (· ++ [e])

/-- From `st` to `st'` a run from `m` goes on, or it is cancelled at a checkpoint and winds up. -/
inductive Settles (u : Setup) (m : Moment) (st st' : State) : Prop
  | goes (goes : Goes st st')
  | cancelled {now : State} {e : Event} (goes : Goes st now) (looks : Looks u m now) (cancels : Cancels now e)
    (winds : Winds now.checkpoint st')

namespace Settles
variable {u : Setup} {m : Moment} {st st' st'' : State}

theorem after (h : Goes st st') (h' : Settles u m st' st'') : Settles u m st st'' := by
  cases h' with
  | goes goes => exact .goes (h.trans goes)
  | cancelled goes looks cancels winds => exact .cancelled (h.trans goes) looks cancels winds

/-- A part of a run goes on where the part before it went on, and winds up where that wound up. -/
theorem trans (h : Settles u m st st') (goes : Quiet st' → Settles u m st' st'')
    (winds : st'.cancelled = true → Winds st' st'') : Settles u m st st'' := by
  cases h with
  | goes h => exact (goes h.quiet).after h
  | cancelled h looks cancels wound => exact .cancelled h looks cancels (wound.trans (winds wound.cancelled))

theorem same (h : Settles u m st st') (signals : st''.signals = st'.signals)
    (cancelled : st''.cancelled = st'.cancelled) (calls : st''.calls = st'.calls) (changes : st''.changes = st'.changes) : Settles u m st st'' :=
  h.trans (fun quiet => .goes (.same quiet signals cancelled)) fun hc => .same hc signals cancelled calls changes

theorem emit (h : Settles u m st st') {e : Event} (he : e.isEnd = true) : Settles u m st (st'.emit e) :=
  h.trans (fun quiet => .goes ((Goes.refl quiet).emit (Event.isCancel_of_isEnd he))) fun hc => (Winds.refl hc).emit he

theorem left {l : Repetition} {out : LoopRecord × Stop × State} (h : Settles u m st out.2.2) :
    Settles u m st (l.left out) := by
  have hpopped : Settles u m st { out.2.2 with scope := out.2.2.scope.pop } := h.same rfl rfl rfl rfl
  exact hpopped.emit rfl

/-- A run that is not cancelled in the end went on all the time. -/
theorem went (h : Settles u m st st') (goes : st'.cancelled = false) : Goes st st' := by
  cases h with
  | goes h => exact h
  | cancelled _ _ _ winds => cases winds.cancelled.symm.trans goes

end Settles

/-- At a checkpoint a run goes on, or it is cancelled and whatever it does from there on is to wind up. -/
theorem look_cases {u : Setup} {m : Moment} {now : State} (looks : Looks u m now) (quiet : Quiet now) :
    Goes now now.checkpoint ∨
    (now.checkpoint.cancelled = true ∧ ∀ st', Winds now.checkpoint st' → Settles u m now st') := by
  have hlook : now.checkpoint =
      { now with signals := now.signals.checkpoint, cancelled := now.signals.checkpoint.cancelRequested } := by
    rw [State.checkpoint, quiet.goes]
    rfl
  cases Signals.checkpoint_obeyed quiet.unasked with
  | goes hears goes =>
    rw [hlook]
    exact Or.inl ⟨⟨goes, goes⟩, hears⟩
  | @cancelled before e hears isCancel heard cancelled _ =>
    have hcancels : Cancels now e := by
      refine ⟨isCancel, ?_, before, hears, ?_⟩ <;> rw [hlook]
      · exact cancelled
      · exact heard
    exact Or.inr ⟨hcancels.cancelled, fun st' winds => .cancelled (.refl quiet) looks hcancels winds⟩

/-! ### Sequences that wind up -/

section Sequences
variable {u : Setup} {callee : Option Body} {frame : Nat}

/-- A cancelled run skips all that is left of a sequence. -/
theorem runSteps_cancelled (stopped : Bool) (steps : List Step) {st : State} (h : st.cancelled = true) :
    (u.runSteps callee frame stopped steps st).1 = steps.map (Record.skipped · .cancelled) ∧
      Winds st (u.runSteps callee frame stopped steps st).2 := by
  induction steps generalizing stopped st with
  | nil =>
    rw [runSteps_nil]
    exact ⟨rfl, .refl h⟩
  | cons s rest ih =>
    have hskip : Winds st (st.skip s .cancelled).2 := (Winds.refl h).emit rfl
    obtain ⟨hrecords, hwinds⟩ := ih (stopped || stops s.head (st.skip s .cancelled).1) hskip.cancelled
    rw [runSteps_cons, visit_after_cancelled h]
    exact ⟨congrArg (Record.skipped s .cancelled :: ·) hrecords, hskip.trans hwinds⟩

/-- A run that is cancelled when it comes to a sequence skips all of it. -/
theorem runSteps_skipped (stopped : Bool) (steps : List Step) {st : State} (h : st.checkpoint.cancelled = true) :
    (u.runSteps callee frame stopped steps st).1 = steps.map (Record.skipped · .cancelled) := by
  cases steps with
  | nil => rw [runSteps_nil, List.map_nil]
  | cons s rest =>
    have hskip : (st.checkpoint.skip s .cancelled).2.cancelled = true := h
    rw [runSteps_cons, visit_of_cancelled h]
    exact congrArg (Record.skipped s .cancelled :: ·) (runSteps_cancelled _ rest hskip).1

end Sequences

/-! ### Steps of each kind -/

section Kinds
variable {u : Setup} {m : Moment} {depth frame : Nat} {st : State}

/-- The step settles whenever a run from `m` takes it up. -/
def StepSettles (u : Setup) (m : Moment) (depth : Nat) (s : Step) : Prop :=
  ∀ frame st, Reaches u m (.step depth frame s st) → Quiet st →
    Settles u m st (u.runStep (u.bodyWithin depth) frame s st).2

/-- The steps settle whenever a run from `m` comes to them. -/
def SequenceSettles (u : Setup) (m : Moment) (depth : Nat) (steps : List Step) : Prop :=
  ∀ frame stopped st, Reaches u m (.sequence depth frame stopped steps st) → Quiet st →
    Settles u m st (u.runSteps (u.bodyWithin depth) frame stopped steps st).2

theorem settles_visit {stopped : Bool} {s : Step} {rest : List Step} (one : StepSettles u m depth s)
    (h : Reaches u m (.sequence depth frame stopped (s :: rest) st)) (quiet : Quiet st) :
    Settles u m st (u.visit (u.bodyWithin depth) frame stopped s st).2 := by
  rcases look_cases (.step h) quiet with hgoes | ⟨hc, hwinds⟩
  · rcases u.visit_cases (u.bodyWithin depth) frame stopped s st with ⟨hc, -⟩ | ⟨-, -, h'⟩ | ⟨hc, rfl, h'⟩
    · cases hgoes.quiet.goes.symm.trans hc
    · rw [h']
      exact .goes (hgoes.emit rfl)
    · rw [h']
      exact (one frame _ (h.tail (.take hc)) hgoes.quiet).after hgoes
  · rw [visit_of_cancelled hc]
    exact hwinds _ ((Winds.refl hc).emit rfl)

/-- A step settles as soon as it does when it begins. -/
theorem settles_step {s : Step} (quiet : Quiet st)
    (begins : gate s.head st = .begin → Quiet (u.inside s st) → Settles u m (u.inside s st)
      (u.runKind (u.bodyWithin depth) frame s.head s.kind (u.begin s) (u.inside s st)).2) :
    Settles u m st (u.runStep (u.bodyWithin depth) frame s st).2 := by
  have hstart : Goes st (u.inside s st) := (Goes.refl quiet).emit rfl
  rcases u.runStep_cases (u.bodyWithin depth) frame s st with ⟨reason, -, h⟩ | ⟨e, -, h⟩ | ⟨hg, h⟩ <;> rw [h]
  · exact .goes ((Goes.refl quiet).emit rfl)
  · exact .goes (hstart.emit rfl)
  · exact ((begins hg hstart.quiet).emit rfl).after hstart

theorem conclude_goes (head : StepHead) (r : Record) (result : Except StepError Json) (quiet : Quiet st) :
    Goes st (u.conclude frame head r result st).2 := by
  cases result with
  | ok value =>
    refine bindOutputs_keep (P := Goes st) (fun st' o _ h => ?_) (.refl quiet)
    exact ⟨⟨h.quiet.goes, h.quiet.unasked⟩, Signals.Hears.emit (e := .variableChanged head.id o.2 _) h.hears rfl⟩
  | error e => exact .refl quiet

theorem settles_act {head : StepHead} {spec : ActionSpec}
    (callee : ∀ d, depth = d + 1 → ∀ steps, SequenceSettles u m d steps)
    (h : Reaches u m (.step depth frame ⟨head, .action spec⟩ st)) (hg : gate head st = .begin)
    (quiet : Quiet (u.inside ⟨head, .action spec⟩ st)) :
    Settles u m (u.inside ⟨head, .action spec⟩ st) (u.act (u.bodyWithin depth) frame head spec
      (u.begin ⟨head, .action spec⟩) (u.inside ⟨head, .action spec⟩ st)).2 := by
  rcases u.act_cases (u.bodyWithin depth) frame head spec (u.begin ⟨head, .action spec⟩)
    (u.inside ⟨head, .action spec⟩ st) with
    ⟨-, n, commands, result, -, -, h'⟩ | ⟨-, e, -, h'⟩ | ⟨hcall, run, id, w, hrun, henters, h'⟩ <;> rw [h']
  · -- What is sent meanwhile is looked at only at the next checkpoint.
    have hhanded : Goes (u.inside ⟨head, .action spec⟩ st)
        ((u.inside ⟨head, .action spec⟩ st).handed (resolved st head spec) n commands) :=
      ⟨⟨quiet.goes, quiet.unasked⟩, .of_eq rfl⟩
    exact .goes (hhanded.trans (conclude_goes head _ result hhanded.quiet))
  · exact .goes (.refl quiet)
  · obtain ⟨d, rfl, rfl⟩ := bodyWithin_eq_some hrun
    have hcallee : Settles u m (u.inside ⟨head, .action spec⟩ st) (u.runWithin d w.steps
        (calleeState id w (resolved st head spec) (u.inside ⟨head, .action spec⟩ st))).2 := by
      rw [runWithin_eq]
      have hbegins : Goes (u.inside ⟨head, .action spec⟩ st)
          (calleeState id w (resolved st head spec) (u.inside ⟨head, .action spec⟩ st)) := .same quiet rfl rfl
      exact (callee d rfl _ _ _ _ (h.tail (.call hg hcall henters)) hbegins.quiet).after hbegins
    have hback : Settles u m _ (returned (u.inside ⟨head, .action spec⟩ st) _) := hcallee.same rfl rfl rfl rfl
    rcases u.callEnded_cases frame head (u.supplied head spec (u.begin ⟨head, .action spec⟩)
      (u.inside ⟨head, .action spec⟩ st)) id (u.inside ⟨head, .action spec⟩ st) _ with
      ⟨-, h'⟩ | ⟨-, -, h'⟩ | ⟨hc, -, h'⟩ <;> rw [h']
    · exact hback
    · exact hback
    · exact hback.trans (fun quiet => .goes (conclude_goes head _ _ quiet)) fun hcancelled => by
        cases hcancelled.symm.trans hc

theorem settles_round {l : Repetition} {steps : List Step} {left index : Nat}
    (hbody : l.body = fun st => u.runSteps (u.bodyWithin depth) st.scope.currentFrame false steps st)
    (all : SequenceSettles u m depth steps) (h : Reaches u m (.round depth steps l (left + 1) index st))
    (goes : l.stop? index st.checkpoint = none) (quiet : Quiet st.checkpoint) :
    Settles u m st.checkpoint (l.round u index (l.opened index st.checkpoint)).2 := by
  have hopened : Goes st.checkpoint (l.opened index st.checkpoint) := .same quiet rfl rfl
  have hstart : Goes st.checkpoint ((l.opened index st.checkpoint).emit
      (.iterationStarted l.stepId index (u.redactValue (l.opened index st.checkpoint) (l.plan.item index)))) :=
    hopened.emit rfl
  have hclosed : ∀ {inner : State}, Settles u m st.checkpoint inner → Settles u m st.checkpoint (l.closed inner) := by
    intro inner hinner
    obtain ⟨scope, hscope⟩ := l.closed_eq inner
    rw [hscope]
    exact hinner.same rfl rfl rfl rfl
  rw [Repetition.round_eq, Repetition.iteration]
  dsimp only
  rcases l.iterate_cases u index (u.redactValue (l.opened index st.checkpoint) (l.plan.item index)) _ with
    ⟨-, h'⟩ | ⟨e, -, h'⟩ | ⟨hcont, h'⟩ <;> rw [h']
  · exact (hclosed (.goes hstart)).emit rfl
  · exact (hclosed (.goes hstart)).emit rfl
  · rw [hbody]
    have hinner := all _ _ _ (h.tail (.iteration goes hcont)) hstart.quiet
    exact (hclosed (hinner.after hstart)).emit rfl

theorem settles_rounds {l : Repetition} {steps : List Step}
    (hbody : l.body = fun st => u.runSteps (u.bodyWithin depth) st.scope.currentFrame false steps st)
    (all : SequenceSettles u m depth steps) {left index : Nat} (record : LoopRecord)
    (h : Reaches u m (.round depth steps l left index st)) (quiet : Quiet st) :
    Settles u m st (l.rounds u left index record st).2.2 := by
  induction left generalizing index record st with
  | zero =>
    rcases look_cases (.round h) quiet with hgoes | ⟨hc, hwinds⟩
    · exact .goes hgoes
    · exact hwinds _ (.refl hc)
  | succ left ih =>
    rw [Repetition.rounds_succ]
    rcases look_cases (.round h) quiet with hgoes | ⟨hc, hwinds⟩
    · split
      · exact .goes hgoes
      · next goes =>
        have hround := (settles_round hbody all h goes hgoes.quiet).after hgoes
        dsimp only
        split
        · exact hround
        · next goesOn =>
          have hwent := hround.went (Repetition.goes_of_stopAfter? goesOn)
          exact (ih _ (h.tail (.again goes goesOn)) hwent.quiet).after hwent
    · rw [Repetition.stop?_of_cancelled hc]
      exact hwinds _ (.refl hc)

theorem settles_loop {head : StepHead} {config : LoopConfig} {steps : List Step}
    (all : SequenceSettles u m depth steps) (h : Reaches u m (.step depth frame ⟨head, .loop config steps⟩ st))
    (hg : gate head st = .begin) (quiet : Quiet (u.inside ⟨head, .loop config steps⟩ st)) :
    Settles u m (u.inside ⟨head, .loop config steps⟩ st) (u.loop head.id config steps.isEmpty
      (fun st => u.runSteps (u.bodyWithin depth) st.scope.currentFrame false steps st)
      (u.begin ⟨head, .loop config steps⟩) (u.inside ⟨head, .loop config steps⟩ st)).2 := by
  rcases u.loop_cases head.id config steps.isEmpty _ (u.begin ⟨head, .loop config steps⟩)
    (u.inside ⟨head, .loop config steps⟩ st) with ⟨-, h'⟩ | ⟨-, e, -, h'⟩ | ⟨hne, plan, hplan, h'⟩ <;> rw [h']
  · exact .goes (.refl quiet)
  · exact .goes (.refl quiet)
  · have hsteps : steps ≠ [] := by simpa using hne
    have hloop : Reaches u m (.loop depth steps (u.repetition depth head config steps plan st)
        (u.inside ⟨head, .loop config steps⟩ st)) := h.tail (.loop hg hsteps hplan)
    have hpushed : Goes (u.inside ⟨head, .loop config steps⟩ st)
        { u.inside ⟨head, .loop config steps⟩ st with scope := st.scope.push } := .same quiet rfl rfl
    have hturns := (settles_rounds rfl all
      (LoopRecord.begin config.loopType plan.total? (u.settings.iterationLimit config.maxIterations))
      (hloop.tail .rounds) hpushed.quiet).after hpushed
    rw [Repetition.run_eq]
    exact hturns.left

theorem settles_branch {head : StepHead} {arms : List Arm} (all : ∀ a ∈ arms, SequenceSettles u m depth a.children)
    (h : Reaches u m (.step depth frame ⟨head, .branch arms⟩ st)) (hg : gate head st = .begin)
    (quiet : Quiet (u.inside ⟨head, .branch arms⟩ st)) :
    Settles u m (u.inside ⟨head, .branch arms⟩ st) (u.branch head.id arms
      (fun index st => u.runArm (u.bodyWithin depth) index arms st) (u.begin ⟨head, .branch arms⟩)
      (u.inside ⟨head, .branch arms⟩ st)).2 := by
  rcases u.branch_cases head.id arms (fun index st => u.runArm (u.bodyWithin depth) index arms st)
    (u.begin ⟨head, .branch arms⟩) (u.inside ⟨head, .branch arms⟩ st) with ⟨-, h'⟩ | ⟨-, -, h'⟩ | ⟨e, htaken, h'⟩
  · rw [h']
    exact .goes (.refl quiet)
  · rw [h']
    exact .goes (.refl quiet)
  · have hselected : Goes (u.inside ⟨head, .branch arms⟩ st)
        ((u.inside ⟨head, .branch arms⟩ st).emit (.branchSelected head.id e.index e.label)) :=
      (Goes.refl quiet).emit rfl
    obtain ⟨a, ha⟩ := Arm.find?_isArm htaken
    rw [inside, Arm.evaluateAll_emit] at htaken
    dsimp only at h'
    rw [h', runArm_eq, ha]
    exact (all a (List.mem_of_getElem? ha) _ _ _ (h.tail (.arm hg htaken ha)) hselected.quiet).after hselected

/-- Every step and every sequence that a run comes to settles. -/
theorem run_settles (u : Setup) (m : Moment) (depth : Nat) :
    (∀ s, StepSettles u m depth s) ∧ ∀ steps, SequenceSettles u m depth steps := by
  refine run_induction (StepSettles u m) (SequenceSettles u m) ?nil ?cons ?action ?group ?loop ?branch depth
  case nil =>
    intro depth frame stopped st _ quiet
    rw [runSteps_nil]
    exact .goes (.refl quiet)
  case cons =>
    intro depth s rest one all frame stopped st h quiet
    rw [runSteps_cons]
    exact (settles_visit one h quiet).trans (all _ _ _ (h.tail .next)) fun hc => (runSteps_cancelled _ rest hc).2
  case action =>
    intro depth head spec callee frame st h quiet
    refine settles_step quiet fun hg quiet => ?_
    rw [runKind]
    exact settles_act callee h hg quiet
  case group =>
    intro depth head children all frame st h quiet
    refine settles_step quiet fun hg quiet => ?_
    rw [runKind]
    exact all _ _ _ (h.tail (.group hg)) quiet
  case loop =>
    intro depth head config children all frame st h quiet
    refine settles_step quiet fun hg quiet => ?_
    rw [runKind]
    exact settles_loop all h hg quiet
  case branch =>
    intro depth head arms all frame st h quiet
    refine settles_step quiet fun hg quiet => ?_
    rw [runKind]
    exact settles_branch all h hg quiet

end Kinds

/-! ### The moments of a run -/

/-- How a run that began with `start` came to the moment. -/
def SettledAt (u : Setup) (m : Moment) (start : State) : Moment → Prop
  | .sequence _ _ _ _ st => Settles u m start st
  | .step _ _ _ st => Goes start st
  | .loop depth steps l st =>
    (l.body = fun st => u.runSteps (u.bodyWithin depth) st.scope.currentFrame false steps st) ∧ Goes start st
  | .round depth steps l _ _ st =>
    (l.body = fun st => u.runSteps (u.bodyWithin depth) st.scope.currentFrame false steps st) ∧ Goes start st
  | .pop _ => True

section Moments
variable {u : Setup} {m : Moment} {start : State}

/-- A sequence that is not cancelled at a checkpoint went on up to there. -/
theorem Settles.looked {now : State} (h : Settles u m start now) (looks : Looks u m now)
    (goes : now.checkpoint.cancelled = false) : Goes start now.checkpoint := by
  have hnow : now.cancelled = false := by
    cases hc : now.cancelled
    · rfl
    · rw [State.checkpoint_of_cancelled now hc, hc] at goes
      cases goes
  have hwent := h.went hnow
  rcases look_cases looks hwent.quiet with hgoes | ⟨hc, -⟩
  · exact hwent.trans hgoes
  · cases hc.symm.trans goes

theorem Leads.settled {m' m'' : Moment} (h : Leads u m' m'') (reaches : Reaches u m m') (hm : SettledAt u m start m') :
    SettledAt u m start m'' := by
  cases h with
  | take go => exact Settles.looked hm (.step reaches) go
  | @next depth frame stopped s rest st =>
    refine Settles.trans hm (settles_visit ((run_settles u m depth).1 s) reaches) fun hc => ?_
    rw [visit_after_cancelled hc]
    exact (Winds.refl hc).emit rfl
  | @call depth frame head spec st =>
    have hinside : Goes start (u.inside ⟨head, .action spec⟩ st) := Goes.emit hm rfl
    exact .goes (hinside.trans (.same hinside.quiet rfl rfl))
  | group => exact .goes (Goes.emit hm rfl)
  | arm => exact .goes ((Goes.emit hm rfl).emit rfl)
  | loop => exact ⟨rfl, Goes.emit hm rfl⟩
  | rounds => exact ⟨hm.1, hm.2.trans (.same hm.2.quiet rfl rfl)⟩
  | finish => trivial
  | giveUp => trivial
  | @iteration depth steps l left index st goes runs =>
    have hlook := (Settles.goes hm.2).looked (.round reaches) (Repetition.goes_of_stop? goes)
    have hopened : Goes start (l.opened index st.checkpoint) := hlook.trans (.same hlook.quiet rfl rfl)
    exact .goes (hopened.emit rfl)
  | close => trivial
  | @again depth steps l left index st goes goesOn =>
    have hlook := (Settles.goes hm.2).looked (.round reaches) (Repetition.goes_of_stop? goes)
    have hround := settles_round hm.1 ((run_settles u m depth).2 steps) reaches goes hlook.quiet
    exact ⟨hm.1, hlook.trans (hround.went (Repetition.goes_of_stopAfter? goesOn))⟩

end Moments

/-- How a run came to each of its moments. -/
theorem Reaches.settled {u : Setup} {steps : List Step} {start : State} {m : Moment}
    (h : Reaches u (.first u steps start) m) (quiet : Quiet start) : SettledAt u (.first u steps start) start m := by
  induction h with
  | refl => exact .goes (.refl quiet)
  | tail hreaches hleads ih => exact hleads.settled hreaches ih

/-! ### Requested runs -/

/-- The events so far, of which one reports a cancellation. -/
def State.reportsCancel (st : State) : Prop :=
  ∃ events, st.signals.heard = some events ∧ ∃ e ∈ events, e.isCancel = true

/-- A run that goes on reports no cancellation. -/
theorem Goes.reportsCancel {st st' : State} (h : Goes st st') (reports : st'.reportsCancel) : st.reportsCancel := by
  obtain ⟨events', hevents', e, he, hcancel⟩ := reports
  obtain ⟨added, hadded, heard⟩ := h.hears
  rw [hevents'] at heard
  obtain ⟨events, hevents, happend⟩ := Option.map_eq_some_iff.mp heard.symm
  rw [← happend] at he
  rcases List.mem_append.mp he with he | he
  · exact ⟨events, hevents, e, he, hcancel⟩
  · have hother : (!e.isCancel) = true := hadded e he
    rw [hcancel] at hother
    cases hother

/-- The only member of a kind splits a list in one way. -/
theorem split_unique {kind : Event → Bool} {xs ys xs' ys' : List Event} {e e' : Event}
    (hxs : ∀ x ∈ xs, kind x = false) (hys : ∀ y ∈ ys, kind y = false) (he' : kind e' = true)
    (h : xs ++ e :: ys = xs' ++ e' :: ys') : xs' = xs ∧ e' = e ∧ ys' = ys := by
  have elsewhere : ∀ {zs : List Event}, (∀ z ∈ zs, kind z = false) → e' ∉ zs := by
    intro zs hzs hmem
    cases (hzs e' hmem).symm.trans he'
  rcases List.append_eq_append_iff.mp h with ⟨between, rfl, hrest⟩ | ⟨between, rfl, hrest⟩
  · cases between with
    | nil =>
      cases hrest
      exact ⟨List.append_nil xs, rfl, rfl⟩
    | cons z zs =>
      cases hrest
      exact absurd (by simp) (elsewhere hys)
  · cases between with
    | nil =>
      cases hrest
      exact ⟨(List.append_nil xs').symm, rfl, rfl⟩
    | cons z zs =>
      cases hrest
      exact absurd (by simp) (elsewhere hxs)

/-- What is true of a run from the event on that reports its cancellation: what was handed over and written in the
end was so at the checkpoint that reported it, and nothing but ends is reported after it. -/
structure Ends (u : Setup) (m : Moment) (before : List Event) (e : Event) (after : List Event) (st : State) : Prop where
  first : ∀ e' ∈ before, e'.isCancel = false
  ends : ∀ e' ∈ after, e'.isEnd = true
  halts : ∃ now, Looks u m now ∧ now.checkpoint.signals.heard = some (before ++ [e]) ∧ st.calls = now.calls ∧
    st.changes = now.changes

namespace Settles
variable {u : Setup} {m : Moment} {st st' : State} {events : List Event}

/-- A run that is cancelled reported it once. -/
theorem ends_of_cancelled (h : Settles u m st st') (heard : st.signals.heard = some events)
    (before : ∀ e ∈ events, e.isCancel = false) (cancelled : st'.cancelled = true) :
    ∃ xs e ys, st'.signals.heard = some (xs ++ e :: ys) ∧ e.isCancel = true ∧ Ends u m xs e ys st' := by
  cases h with
  | goes goes => cases goes.quiet.goes.symm.trans cancelled
  | @cancelled now e goes looks cancels winds =>
    obtain ⟨last, hlast, hnow⟩ := cancels.last
    obtain ⟨xs, hxs, hheard⟩ := goes.hears.trans hlast
    obtain ⟨ys, hys, hend⟩ := winds.hears
    rw [hheard, heard] at hnow
    rw [hnow] at hend
    have hother : ∀ x ∈ xs, x.isCancel = false := fun x hx => by simpa using hxs x hx
    refine ⟨events ++ xs, e, ys, by simpa using hend, cancels.isCancel, ?_⟩
    exact {
      first := List.forall_mem_append.mpr ⟨before, hother⟩
      ends := hys
      halts := ⟨now, looks, hnow, winds.calls.trans now.checkpoint_calls, winds.changes.trans now.checkpoint_changes⟩ }

/-- A run is cancelled just if it reported that, and from that event on it has ended. -/
theorem ends (h : Settles u m st st') (heard : st.signals.heard = some events)
    (before : ∀ e ∈ events, e.isCancel = false) :
    ∃ events', st'.signals.heard = some events' ∧ (st'.cancelled = true ↔ ∃ e ∈ events', e.isCancel = true) ∧
      ∀ xs e ys, events' = xs ++ e :: ys → e.isCancel = true → Ends u m xs e ys st' := by
  cases hc : st'.cancelled
  · obtain ⟨added, hadded, heard'⟩ := (h.went hc).hears
    rw [heard] at heard'
    have hnone : ¬∃ e ∈ events ++ added, e.isCancel = true := by
      rintro ⟨e, he, hcancel⟩
      rcases List.mem_append.mp he with he | he
      · cases (before e he).symm.trans hcancel
      · simpa [hcancel] using hadded e he
    refine ⟨events ++ added, heard', iff_of_false Bool.false_ne_true hnone, fun xs e ys hsplit hcancel => ?_⟩
    exact absurd ⟨e, by simp [hsplit], hcancel⟩ hnone
  · obtain ⟨xs, e, ys, heard', hcancel, hends⟩ := h.ends_of_cancelled heard before hc
    refine ⟨_, heard', iff_of_true rfl ⟨e, by simp, hcancel⟩, fun xs' e' ys' hsplit hcancel' => ?_⟩
    obtain ⟨rfl, rfl, rfl⟩ := split_unique hends.first
      (fun y hy => Event.isCancel_of_isEnd (hends.ends y hy)) hcancel' hsplit
    exact hends

end Settles

theorem RunStatus.of_eq_cancelled {records : List Record} {cancelled : Bool} :
    RunStatus.of records cancelled = .cancelled ↔ cancelled = true := by
  unfold RunStatus.of
  cases cancelled
  · simp only [Bool.false_eq_true, ↓reduceIte, iff_false]
    split <;> simp
  · simp

/-- A requested run is cancelled just if it reports a cancellation, and from there on it only winds up: every step
of a sequence that it comes to is skipped. -/
theorem cancellation_ends_run (q : Request) (u : Setup) (mailbox : Option Mailbox) :
    (validate q.workflow.steps ≠ [] ∧ ∃ refusal, q.drive u { mailbox, events := some #[] } = .error refusal) ∨
    let first : Moment :=
      .first (q.setup u) q.workflow.steps (q.opening (q.setup u) { mailbox, events := some #[] })
    ∃ trace st events, q.drive u { mailbox, events := some #[] } = .ok (trace, st) ∧ st.signals.heard = some events ∧
      (trace.status = .cancelled ↔ ∃ e ∈ events, e.isCancel = true) ∧
      (∀ before e after, events = before ++ e :: after → e.isCancel = true →
        Ends (q.setup u) first before e after st) ∧
      ∀ depth frame stopped steps now, Reaches (q.setup u) first (.sequence depth frame stopped steps now) →
        now.checkpoint.reportsCancel →
        ((q.setup u).runSteps ((q.setup u).bodyWithin depth) frame stopped steps now).1 =
          steps.map (Record.skipped · .cancelled) := by
  rcases q.drive_cases u { mailbox, events := some #[] } with refused | hdrive
  · exact Or.inl refused
  · generalize hstart : q.opening (q.setup u) { mailbox, events := some #[] } = start at hdrive
    have quiet : Quiet start := by
      rw [← hstart]
      exact ⟨rfl, rfl⟩
    have heard : start.signals.heard = some [.runStarted q.runId u.now, .phaseChanged .running none] := by
      rw [← hstart]
      rfl
    have hrun : Settles (q.setup u) (.first (q.setup u) q.workflow.steps start) start
        ((q.setup u).runWithin (q.setup u).settings.maxCallDepth q.workflow.steps start).2 := by
      rw [runWithin_eq]
      exact (run_settles (q.setup u) _ _).2 q.workflow.steps _ _ _ .refl quiet
    have hfirst : ∀ e ∈ [Event.runStarted q.runId u.now, .phaseChanged .running none], e.isCancel = false := by
      simp [Event.isCancel]
    obtain ⟨events, hevents, hstatus, hends⟩ := (hrun.emit (e := .runCompleted _ _ _ _) rfl).ends heard hfirst
    refine Or.inr ⟨_, _, events, hdrive, hevents, RunStatus.of_eq_cancelled.trans hstatus, hends, ?_⟩
    intro depth frame stopped steps now hreaches reports
    cases steps with
    | nil => rw [runSteps_nil, List.map_nil]
    | cons s rest =>
      refine runSteps_skipped stopped (s :: rest) ?_
      cases hc : now.checkpoint.cancelled
      · have hgoes := Settles.looked (hreaches.settled quiet) (.step hreaches) hc
        obtain ⟨before, hbefore, e, he, hcancel⟩ := hgoes.reportsCancel reports
        cases heard.symm.trans hbefore
        cases (hfirst e he).symm.trans hcancel
      · rfl

end StepTree
