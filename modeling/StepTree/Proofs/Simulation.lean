import Mathlib.Data.List.Forall2
import StepTree.Proofs.Moments

/-! # Runs that cannot be told apart

What the states of two runs differ in does not matter to the steps if no step reads it and every change that a step makes
to its state leaves it a difference of the same kind. Then both runs do the same, and end in states that differ in
nothing else. Their records are the same but for what is written of the calls that both of them refuse, and so are
their events. -/

namespace StepTree

open Setup

/-! ### Related records -/

section Records
variable {C : List Record → List Record → Prop} {Q : Record → Record → Prop} {V : Event → Event → Prop}

/-- Sequences whose records are related end with the same status. -/
structure Balanced (C : List Record → List Record → Prop) : Prop where
  nil : C [] []
  status {c c' : List Record} (h : C c c') : sequenceStatus c' = sequenceStatus c

/-- The same is said of two iterations, and the records inside are related. -/
structure Iteration.Like (C : List Record → List Record → Prop) (i i' : Iteration) : Prop where
  head : i'.head = i.head
  children : C i.children i'.children

structure LoopRecord.Like (C : List Record → List Record → Prop) (l l' : LoopRecord) : Prop where
  summary : l'.summary = l.summary
  iterations : List.Forall₂ (Iteration.Like C) l.iterations l'.iterations

/-- Records that say the same of their step are related as soon as the records inside are; the ends of their steps are
reported by related events. -/
structure Congruent (Q : Record → Record → Prop) (V : Event → Event → Prop) : Prop where
  refl (r : Record) : Q r r
  status {r r' : Record} (h : Q r r') : r'.head.status = r.head.status
  ownFailure {r r' : Record} (h : Q r r') : r'.hasOwnFailure = r.hasOwnFailure
  finished {r r' : Record} (h : Q r r') : V r.finished r'.finished
  children (head : RecordHead) {c c' : List Record} (h : List.Forall₂ Q c c') :
    Q ⟨head, c, none, none⟩ ⟨head, c', none, none⟩
  loop (head : RecordHead) {l l' : LoopRecord} (h : l.Like (List.Forall₂ Q) l') :
    Q ⟨head, [], some l, none⟩ ⟨head, [], some l', none⟩
  branch (head : RecordHead) (selection : Selection) {c c' : List Record} (h : List.Forall₂ Q c c') :
    Q ⟨head, [], none, some ⟨selection, c⟩⟩ ⟨head, [], none, some ⟨selection, c'⟩⟩

/-- A loop of which no iteration was recorded. -/
theorem LoopRecord.Like.of_nil (summary : LoopSummary) : LoopRecord.Like C ⟨summary, []⟩ ⟨summary, []⟩ := ⟨rfl, .nil⟩

theorem LoopRecord.Like.add {l l' : LoopRecord} (h : l.Like C l') {i i' : Iteration} (hi : i.Like C i') :
    (l.add i).Like C (l'.add i') where
  summary := by
    unfold LoopRecord.add
    dsimp only
    rw [h.summary, hi.head]
  iterations := List.rel_append h.iterations (.cons hi .nil)

theorem LoopRecord.Like.ended {l l' : LoopRecord} (h : l.Like C l') (reason : ExitReason) :
    (l.ended reason).Like C (l'.ended reason) where
  summary := by
    unfold LoopRecord.ended
    dsimp only
    rw [h.summary]
  iterations := h.iterations

theorem Congruent.balanced (cong : Congruent Q V) : Balanced (List.Forall₂ Q) where
  nil := .nil
  status {c c'} h := by
    have hany : (c'.any fun r => r.head.status = .failed) = c.any fun r => r.head.status = .failed := by
      induction h with
      | nil => rfl
      | cons hr _ ih => rw [List.any_cons, List.any_cons, cong.status hr, ih]
    unfold sequenceStatus
    rw [hany]

theorem Congruent.stops (cong : Congruent Q V) {r r' : Record} (h : Q r r') (head : StepHead) :
    stops head r' = stops head r := by
  unfold Setup.stops
  rw [cong.ownFailure h]

theorem Congruent.eq (same : ∀ e, V e e) : Congruent Eq V where
  refl _ := rfl
  status h := by rw [h]
  ownFailure h := by rw [h]
  finished h := h ▸ same _
  children head c c' h := by
    rw [List.forall₂_eq_eq_eq] at h
    rw [h]
  loop head l l' h := by
    obtain ⟨summary, iterations⟩ := l
    obtain ⟨summary', iterations'⟩ := l'
    obtain ⟨hsummary, hiterations⟩ := h
    obtain rfl : summary' = summary := hsummary
    have hsame : List.Forall₂ Eq iterations iterations' := hiterations.imp fun i i' hi => by
      obtain ⟨head, c⟩ := i
      obtain ⟨head', c'⟩ := i'
      obtain ⟨hhead, hchildren⟩ := hi
      obtain rfl : head' = head := hhead
      rw [List.forall₂_eq_eq_eq] at hchildren
      obtain rfl : c = c' := hchildren
      rfl
    rw [List.forall₂_eq_eq_eq] at hsame
    rw [hsame]
  branch head selection c c' h := by
    rw [List.forall₂_eq_eq_eq] at h
    rw [h]

end Records

/-! ### Related states -/

/-- States of two runs that are related by `R` look the same to the steps, and stay related when they are changed in the
same way and related events are reported. -/
structure Simulates (u u' : Setup) (V : Event → Event → Prop) (R : State → State → Prop) : Prop where
  settings : u'.settings = u.settings
  now : u'.now = u.now
  event (e : Event) : V e e
  scope {st st' : State} (h : R st st') : st'.scope = st.scope
  callStack {st st' : State} (h : R st st') : st'.callStack = st.callStack
  cancelled {st st' : State} (h : R st st') : st'.cancelled = st.cancelled
  emit {st st' : State} (h : R st st') {e e' : Event} (he : V e e') : R (st.emit e) (st'.emit e')
  checkpoint {st st' : State} (h : R st st') : R st.checkpoint st'.checkpoint
  move {st st' : State} (h : R st st') (scope : Scope) (callStack : List String) :
    R { st with scope, callStack } { st' with scope, callStack }
  record {st st' : State} (h : R st st') (c : VariableChange) :
    R { st with changes := st.changes.push c } { st' with changes := st'.changes.push c }
  answer {st st' : State} (h : R st st') (limit : Option UInt64) (a : Action) :
    (u'.tryOnce limit a st').1 = (u.tryOnce limit a st).1
  attempt {st st' : State} (h : R st st') (limit : Option UInt64) (a : Action) :
    R (u.tryOnce limit a st).2 (u'.tryOnce limit a st').2

/-- Two runs made related things, and their states are related. -/
structure Agree {α : Type} (Q : α → α → Prop) (R : State → State → Prop) (out out' : α × State) : Prop where
  made : Q out.1 out'.1
  states : R out.2 out'.2

/-- Both runs enter the same workflow at a call, or refuse it with related records. -/
inductive SameCall (u u' : Setup) (Q : Record → Record → Prop) (mayEnter : Bool) (st st' : State) (a : Action) : Prop
  | entered {id : String} {w : Workflow} (enters : u.callee mayEnter st a = .ok (id, w))
    (enters' : u'.callee mayEnter st' a = .ok (id, w))
  | refused {e e' : StepError} (refuses : u.callee mayEnter st a = .error e)
    (refuses' : u'.callee mayEnter st' a = .error e') (made : ∀ r, Q (u.fail st r e) (u'.fail st' r e'))

/-- The runs do the same at all calls that the first one comes to from `m`. -/
def SameCalls (u u' : Setup) (Q : Record → Record → Prop) (R : State → State → Prop) (m : Moment) : Prop :=
  ∀ {depth frame : Nat} {head : StepHead} {spec : ActionSpec} {st st' : State},
    Reaches u m (.step depth frame ⟨head, .action spec⟩ st) → gate head st = .begin →
    spec.actionType = callActionType → R st st' → ∀ mayEnter,
      SameCall u u' Q mayEnter st st' (resolved st head spec)

namespace Simulates
variable {u u' : Setup} {Q : Record → Record → Prop} {C : List Record → List Record → Prop} {V : Event → Event → Prop}
  {R : State → State → Prop} {st st' : State} {frame : Nat}

/-! ### What is read from a state -/

section Reads
variable (sim : Simulates u u' V R) (h : R st st')
include sim h

theorem holds_eq : st'.holds = st.holds := by
  unfold State.holds
  rw [sim.scope h]

theorem redact_eq : u'.redact st' = u.redact st := by
  funext text
  unfold redact
  rw [sim.settings, sim.scope h]

theorem redactValue_eq : u'.redactValue st' = u.redactValue st := by
  funext value
  unfold redactValue
  rw [sim.settings, sim.scope h]

theorem fail_eq (r : Record) (e : StepError) : u'.fail st' r e = u.fail st r e := by
  unfold fail
  rw [sim.redact_eq h]

theorem gate_eq (head : StepHead) : gate head st' = gate head st := by
  unfold gate
  rw [sim.holds_eq h]

theorem resolved_eq (head : StepHead) (spec : ActionSpec) : resolved st' head spec = resolved st head spec := by
  unfold resolved
  rw [sim.scope h]

theorem withScope (scope : Scope) : R { st with scope } { st' with scope } := by
  have hstack : ({ st' with scope, callStack := st.callStack } : State) = { st' with scope } := by
    rw [← sim.callStack h]
  exact hstack ▸ sim.move h scope st.callStack

theorem callee_eq (root : u'.root = u.root) (library : u'.library = u.library) (mayEnter : Bool) (a : Action) :
    u'.callee mayEnter st' a = u.callee mayEnter st a := by
  unfold callee active
  rw [root, library, sim.settings, sim.callStack h]

end Reads

section Setups
variable (sim : Simulates u u' V R)

include sim in
theorem begin_eq (s : Step) : u'.begin s = u.begin s := by
  unfold begin
  rw [sim.now]

include sim in
theorem inside (h : R st st') (s : Step) : R (u.inside s st) (u'.inside s st') := by
  have hevent : u'.started (u'.begin s) = u.started (u.begin s) := by
    unfold started
    rw [sim.now, sim.begin_eq]
  unfold Setup.inside
  rw [hevent]
  exact sim.emit h (sim.event _)

/-! ### Actions -/

include sim in
theorem tryAction (h : R st st') (limit : Option UInt64) (a : Action) (more made : Nat) :
    (u'.tryAction limit a more made st').1 = (u.tryAction limit a more made st).1 ∧
      Agree Eq R (u.tryAction limit a more made st).2 (u'.tryAction limit a more made st').2 := by
  induction more generalizing made st st' with
  | zero => exact ⟨rfl, (sim.answer h limit a).symm, sim.attempt h limit a⟩
  | succ more ih =>
    have hanswer := sim.answer h limit a
    have hattempt := sim.attempt h limit a
    rw [Setup.tryAction, Setup.tryAction]
    generalize u.tryOnce limit a st = out at hanswer hattempt ⊢
    generalize u'.tryOnce limit a st' = out' at hanswer hattempt ⊢
    obtain ⟨result, now⟩ := out
    obtain ⟨result', now'⟩ := out'
    obtain rfl : result' = result := hanswer
    cases result' with
    | ok value => exact ⟨rfl, rfl, hattempt⟩
    | error e => exact ih hattempt (made + 1)

include sim in
theorem bindOutput (h : R st st') (stepId : String) (result : Json) (o : String × String) :
    R (u.bindOutput frame stepId result st o) (u'.bindOutput frame stepId result st' o) := by
  have hwritten : R (written frame result st o) (written frame result st' o) := by
    unfold written
    rw [sim.scope h]
    exact sim.withScope h _
  have hchange : u'.change frame stepId result st' o = u.change frame stepId result st o := by
    unfold change
    rw [sim.redactValue_eq hwritten, sim.scope h]
  rw [bindOutput_eq, bindOutput_eq, hchange]
  exact sim.record (sim.emit hwritten (sim.event _)) _

include sim in
theorem conclude (h : R st st') (head : StepHead) (record : RecordHead) {c c' : List Record}
    (made : ∀ head, Q ⟨head, c, none, none⟩ ⟨head, c', none, none⟩) (result : Except StepError Json) :
    Agree Q R (u.conclude frame head ⟨record, c, none, none⟩ result st)
      (u'.conclude frame head ⟨record, c', none, none⟩ result st') := by
  cases result with
  | error e =>
    refine ⟨?_, h⟩
    change Q (u.fail st _ e) (u'.fail st' _ e)
    rw [sim.fail_eq h]
    exact made _
  | ok value =>
    refine ⟨?_, ?_⟩
    · have hcaptured : u'.captured st' value = u.captured st value := by
        unfold captured
        rw [sim.redactValue_eq h]
      unfold Setup.conclude
      dsimp only
      rw [hcaptured]
      exact made _
    · change R (u.bindOutputs frame head value st) (u'.bindOutputs frame head value st')
      unfold bindOutputs
      induction head.outputs generalizing st st' with
      | nil => exact h
      | cons o rest ih => exact ih (sim.bindOutput h head.id value o)

include sim in
theorem perform (h : R st st') (head : StepHead) (a : Action) (record : RecordHead)
    (made : ∀ head, Q ⟨head, [], none, none⟩ ⟨head, [], none, none⟩) :
    Agree Q R (u.perform frame head a ⟨record, [], none, none⟩ st)
      (u'.perform frame head a ⟨record, [], none, none⟩ st') := by
  have htried := sim.tryAction h (u.settings.timeLimit head.timeoutMs) a (head.attempts - 1) 0
  unfold Setup.perform
  dsimp only
  rw [sim.settings, htried.1, ← htried.2.made]
  exact sim.conclude htried.2.states head _ made _

include sim in
theorem calleeState (h : R st st') (id : String) (w : Workflow) (a : Action) :
    R (calleeState id w a st) (calleeState id w a st') := by
  unfold Setup.calleeState
  rw [sim.scope h, sim.callStack h]
  exact sim.move h _ _

include sim in
theorem returned (h : R st st') {inner inner' : State} (hinner : R inner inner') :
    R (returned st inner) (returned st' inner') := by
  unfold Setup.returned
  rw [sim.scope h, sim.callStack hinner]
  exact sim.move hinner _ _

include sim in
theorem callEnded (balanced : Balanced C)
    (made : ∀ head {c c'}, C c c' → Q ⟨head, c, none, none⟩ ⟨head, c', none, none⟩) (h : R st st') (head : StepHead)
    (record : RecordHead) (id : String) {out out' : List Record × State} (hout : Agree C R out out') :
    Agree Q R (u.callEnded frame head ⟨record, [], none, none⟩ id st out)
      (u'.callEnded frame head ⟨record, [], none, none⟩ id st' out') := by
  have hback := sim.returned h hout.states
  unfold Setup.callEnded
  dsimp only
  rw [sim.cancelled hback, balanced.status hout.made, sim.scope hout.states]
  split
  · exact ⟨made _ hout.made, hback⟩
  · split
    · refine ⟨?_, hback⟩
      rw [sim.fail_eq hback]
      exact made _ hout.made
    · exact sim.conclude hback head _ (fun head => made head hout.made) _

/-! ### Branches -/

include sim in
theorem evaluateAll_eq (h : R st st') (index : Nat) (arms : List Arm) :
    Arm.evaluateAll u' st' index arms = Arm.evaluateAll u st index arms := by
  induction arms generalizing index with
  | nil => rfl
  | cons a rest ih =>
    have hone : a.evaluate u' st' index = a.evaluate u st index := by
      unfold Arm.evaluate
      rw [sim.holds_eq h, sim.redact_eq h]
    rw [Arm.evaluateAll, Arm.evaluateAll, hone, ih]

/-- A branch of which no arm was taken holds no records. -/
theorem noneTaken_plain (evaluated : List ArmEvaluation) (record : RecordHead) :
    ∃ head, noneTaken evaluated ⟨record, [], none, none⟩ = ⟨head, [], none, none⟩ := by
  unfold noneTaken
  split <;> exact ⟨_, rfl⟩

include sim in
/-- How the records of an arm are related can depend on which arm it is. -/
theorem branch {A : Nat → List Record → List Record → Prop} (balanced : ∀ index, Balanced (A index))
    (plain : ∀ head, Q ⟨head, [], none, none⟩ ⟨head, [], none, none⟩)
    (made : ∀ head selection {c c'}, A selection.index c c' →
      Q ⟨head, [], none, some ⟨selection, c⟩⟩ ⟨head, [], none, some ⟨selection, c'⟩⟩)
    (h : R st st') (stepId : String) (arms : List Arm) (record : RecordHead)
    {body body' : Nat → State → List Record × State}
    (hbody : ∀ e, (Arm.evaluateAll u st 0 arms).find? (·.result) = some e →
      Agree (A e.index) R (body e.index (st.emit (.branchSelected stepId e.index e.label)))
        (body' e.index (st'.emit (.branchSelected stepId e.index e.label)))) :
    Agree Q R (u.branch stepId arms body ⟨record, [], none, none⟩ st)
      (u'.branch stepId arms body' ⟨record, [], none, none⟩ st') := by
  unfold Setup.branch
  rw [sim.evaluateAll_eq h]
  split
  · exact ⟨plain _, h⟩
  · dsimp only
    cases he : (Arm.evaluateAll u st 0 arms).find? (·.result) with
    | none =>
      obtain ⟨head, hplain⟩ := noneTaken_plain (Arm.evaluateAll u st 0 arms) record
      refine ⟨?_, h⟩
      dsimp only
      rw [hplain]
      exact plain head
    | some e =>
      obtain ⟨hmade, hstates⟩ := hbody e he
      dsimp only
      rw [(balanced e.index).status hmade]
      exact ⟨made _ _ hmade, hstates⟩

end Setups

/-! ### Loops -/

section Loops
variable (balanced : Balanced C) (sim : Simulates u u' V R) {m : Moment} {depth : Nat} {steps : List Step}
  {l : Repetition} {index : Nat}

include sim in
theorem opened (h : R st st') (l : Repetition) (index : Nat) : R (l.opened index st) (l.opened index st') := by
  unfold Repetition.opened
  rw [sim.scope h]
  exact sim.withScope h _

include sim in
theorem closed (h : R st st') (l : Repetition) : R (l.closed st) (l.closed st') := by
  unfold Repetition.closed
  rw [sim.scope h]
  split
  · exact h
  · exact sim.withScope h _

include sim in
theorem stopBefore?_eq (h : R st st') (l : Repetition) (index : Nat) :
    l.stopBefore? index st' = l.stopBefore? index st := by
  unfold Repetition.stopBefore?
  rw [sim.cancelled h, sim.holds_eq h]

include sim in
theorem stop?_eq (h : R st st') (l : Repetition) (index : Nat) : l.stop? index st' = l.stop? index st := by
  unfold Repetition.stop? Repetition.break?
  rw [sim.stopBefore?_eq h, sim.holds_eq (sim.opened h l index)]

/-- The steps of the loop do the same in both runs whenever a run from `m` comes to them. -/
def BodyAgrees (u : Setup) (C : List Record → List Record → Prop) (R : State → State → Prop) (m : Moment) (depth : Nat)
    (steps : List Step) (body body' : State → List Record × State) : Prop :=
  ∀ {st st' : State}, Reaches u m (.sequence depth st.scope.currentFrame false steps st) → R st st' →
    Agree C R (body st) (body' st')

include balanced sim in
theorem iterate (h : R st st') (item : Json) {body : State → List Record × State}
    (hbody : (∀ value ∈ l.config.continueCondition.map st.holds, value = .ok false) →
      Agree C R (l.body st) (body st')) :
    Agree (Iteration.Like C) R (l.iterate u index item st) ((l.withBody body).iterate u' index item st') := by
  have hcontinue : (l.withBody body).config.continueCondition.map st'.holds =
      l.config.continueCondition.map st.holds := by
    rw [sim.holds_eq h]
    rfl
  have hran : Agree C R (l.body st) (body st') → Agree (Iteration.Like C) R
      (Iteration.mk { index, itemValue := item, status := sequenceStatus (l.body st).1 } (l.body st).1, (l.body st).2)
      (Iteration.mk { index, itemValue := item, status := sequenceStatus (body st').1 } (body st').1,
        (body st').2) := by
    rintro ⟨hmade, hstates⟩
    exact ⟨⟨by rw [balanced.status hmade], hmade⟩, hstates⟩
  unfold Repetition.iterate
  rw [hcontinue]
  rcases hc : l.config.continueCondition.map st.holds with _ | (e | b)
  · exact hran (hbody (by simp [hc]))
  · exact ⟨⟨by rw [sim.redact_eq h], balanced.nil⟩, h⟩
  · cases b
    · exact hran (hbody (by simp [hc]))
    · exact ⟨⟨rfl, balanced.nil⟩, h⟩

include balanced sim in
theorem round {body : State → List Record × State} {left : Nat} (hbody : BodyAgrees u C R m depth steps l.body body)
    (reaches : Reaches u m (.round depth steps l (left + 1) index st)) (goes : l.stop? index st.checkpoint = none)
    (h : R st.checkpoint st'.checkpoint) :
    Agree (Iteration.Like C) R (l.round u index (l.opened index st.checkpoint))
      ((l.withBody body).round u' index (l.opened index st'.checkpoint)) := by
  have hopened := sim.opened h l index
  have hstart := sim.emit hopened (sim.event
    (.iterationStarted l.stepId index (u.redactValue (l.opened index st.checkpoint) (l.plan.item index))))
  have hitem : u'.redactValue (l.opened index st'.checkpoint) ((l.withBody body).plan.item index) =
      u.redactValue (l.opened index st.checkpoint) (l.plan.item index) := by
    rw [sim.redactValue_eq hopened]
    rfl
  have hiteration : Agree (Iteration.Like C) R (l.iteration u index (l.opened index st.checkpoint))
      ((l.withBody body).iteration u' index (l.opened index st'.checkpoint)) := by
    unfold Repetition.iteration
    dsimp only
    rw [hitem]
    exact sim.iterate balanced hstart _ fun runs => hbody (reaches.tail (.iteration goes runs)) hstart
  rw [Repetition.round_eq, Repetition.round_eq]
  refine ⟨hiteration.made, ?_⟩
  dsimp only
  rw [hiteration.made.head]
  exact sim.emit (sim.closed hiteration.states l) (sim.event _)

include balanced sim in
theorem rounds {body : State → List Record × State} (hbody : BodyAgrees u C R m depth steps l.body body)
    (left index : Nat) {record record' : LoopRecord} (hrecord : record.Like C record')
    (reaches : Reaches u m (.round depth steps l left index st)) (h : R st st') :
    (l.rounds u left index record st).1.Like C ((l.withBody body).rounds u' left index record' st').1 ∧
      Agree Eq R (l.rounds u left index record st).2 ((l.withBody body).rounds u' left index record' st').2 := by
  have hlook := sim.checkpoint h
  induction left generalizing index record record' st st' with
  | zero =>
    have hstop : (l.withBody body).stopBefore? index st'.checkpoint = l.stopBefore? index st.checkpoint :=
      sim.stopBefore?_eq hlook l index
    rw [Repetition.rounds_zero, Repetition.rounds_zero, hstop]
    exact ⟨hrecord, rfl, hlook⟩
  | succ left ih =>
    have hstop : (l.withBody body).stop? index st'.checkpoint = l.stop? index st.checkpoint :=
      sim.stop?_eq hlook l index
    have hopened : (l.withBody body).opened index st'.checkpoint = l.opened index st'.checkpoint := rfl
    rw [Repetition.rounds_succ, Repetition.rounds_succ, hstop, hopened]
    split
    · exact ⟨hrecord, rfl, hlook⟩
    · next goes =>
      have hround := sim.round balanced hbody reaches goes hlook
      have hadd := hrecord.add hround.made
      have hgoesOn : (l.withBody body).stopAfter?
          ((l.withBody body).round u' index (l.opened index st'.checkpoint)).1
          ((l.withBody body).round u' index (l.opened index st'.checkpoint)).2 =
            l.stopAfter? (l.round u index (l.opened index st.checkpoint)).1
              (l.round u index (l.opened index st.checkpoint)).2 := by
        unfold Repetition.stopAfter?
        rw [sim.cancelled hround.states, hround.made.head]
        rfl
      dsimp only
      rw [hgoesOn]
      split
      · exact ⟨hadd, rfl, hround.states⟩
      · next goesOn =>
        exact ih (index + 1) hadd (reaches.tail (.again goes goesOn)) hround.states (sim.checkpoint hround.states)

include balanced sim in
theorem run {body : State → List Record × State} (hbody : BodyAgrees u C R m depth steps l.body body)
    (made : ∀ head {l l'}, LoopRecord.Like C l l' → Q ⟨head, [], some l, none⟩ ⟨head, [], some l', none⟩)
    (reaches : Reaches u m (.loop depth steps l st)) (h : R st st') (record : RecordHead) :
    Agree Q R (l.run u ⟨record, [], none, none⟩ st) ((l.withBody body).run u' ⟨record, [], none, none⟩ st') := by
  have hpushed : R { st with scope := st.scope.push } { st' with scope := st'.scope.push } := by
    rw [sim.scope h]
    exact sim.withScope h _
  obtain ⟨hrecord, hstop, hstates⟩ : (l.turns u st).1.Like C ((l.withBody body).turns u' st').1 ∧
      Agree Eq R (l.turns u st).2 ((l.withBody body).turns u' st').2 :=
    sim.rounds balanced hbody _ _ (.of_nil _) (reaches.tail .rounds) hpushed
  have hended := hrecord.ended (l.turns u st).2.1.reason
  have hleft : R (l.left (l.turns u st)) ((l.withBody body).left ((l.withBody body).turns u' st')) := by
    unfold Repetition.left
    rw [← hstop, hended.summary, sim.scope hstates]
    exact sim.emit (sim.withScope hstates _) (sim.event _)
  rw [Repetition.run_eq, Repetition.run_eq]
  dsimp only
  refine ⟨?_, hleft⟩
  rw [← hstop]
  unfold Repetition.ended
  dsimp only
  rw [hended.summary]
  split
  · rw [sim.fail_eq hleft]
    exact made _ hended
  · exact made _ hended

include balanced sim in
theorem loop {head : StepHead} {config : LoopConfig} {body body' : State → List Record × State}
    (hbody : BodyAgrees u C R m depth steps body body')
    (made : ∀ head {l l'}, LoopRecord.Like C l l' → Q ⟨head, [], some l, none⟩ ⟨head, [], some l', none⟩)
    (reaches : ∀ plan, steps ≠ [] → config.plan st.scope.lookup = .ok plan →
      Reaches u m (.loop depth steps ⟨head.id, config, plan, u.settings.iterationLimit config.maxIterations,
        st.scope.push.currentFrame, body⟩ st))
    (h : R st st') (record : RecordHead) :
    Agree Q R (u.loop head.id config steps.isEmpty body ⟨record, [], none, none⟩ st)
      (u'.loop head.id config steps.isEmpty body' ⟨record, [], none, none⟩ st') := by
  have hlimit : u'.settings.iterationLimit config.maxIterations = u.settings.iterationLimit config.maxIterations := by
    rw [sim.settings]
  unfold Setup.loop
  dsimp only
  rw [hlimit, sim.scope h]
  split
  · exact ⟨made _ (.of_nil _), h⟩
  · next hne =>
    cases hplan : config.plan st.scope.lookup with
    | error e =>
      refine ⟨?_, h⟩
      dsimp only
      rw [sim.fail_eq h]
      exact made _ (.of_nil _)
    | ok plan => exact sim.run balanced hbody made (reaches plan (by simpa using hne) hplan) h record

end Loops

/-! ### Steps -/

section Steps
variable (cong : Congruent Q V) (sim : Simulates u u' V R) {m : Moment} {depth : Nat}

include sim in
theorem supplied_eq (h : R st st') (head : StepHead) (spec : ActionSpec) (r : Record) :
    u'.supplied head spec r st' = u.supplied head spec r st := by
  unfold supplied recordInputs
  rw [sim.resolved_eq h, sim.redact_eq h]

/-- The sequence does the same in both runs whenever a run from `m` comes to it. -/
def SequenceAgrees (u u' : Setup) (Q : Record → Record → Prop) (R : State → State → Prop) (m : Moment) (depth : Nat)
    (steps : List Step) : Prop :=
  ∀ {frame : Nat} {stopped : Bool} {st st' : State}, Reaches u m (.sequence depth frame stopped steps st) → R st st' →
    Agree (List.Forall₂ Q) R (u.runSteps (u.bodyWithin depth) frame stopped steps st)
      (u'.runSteps (u'.bodyWithin depth) frame stopped steps st')

def StepAgrees (u u' : Setup) (Q : Record → Record → Prop) (R : State → State → Prop) (m : Moment) (depth : Nat)
    (s : Step) : Prop :=
  ∀ {frame : Nat} {st st' : State}, Reaches u m (.step depth frame s st) → R st st' →
    Agree Q R (u.runStep (u.bodyWithin depth) frame s st) (u'.runStep (u'.bodyWithin depth) frame s st')

include sim in
/-- A sequence that writes into the frame which is innermost when it begins. -/
theorem sequence {steps : List Step} (all : SequenceAgrees u u' Q R m depth steps)
    (reaches : Reaches u m (.sequence depth st.scope.currentFrame false steps st)) (h : R st st') :
    Agree (List.Forall₂ Q) R (u.runSteps (u.bodyWithin depth) st.scope.currentFrame false steps st)
      (u'.runSteps (u'.bodyWithin depth) st'.scope.currentFrame false steps st') := by
  rw [sim.scope h]
  exact all reaches h

include cong sim in
theorem act (calls : SameCalls u u' Q R m) {head : StepHead} {spec : ActionSpec}
    (all : ∀ d, depth = d + 1 → ∀ steps, SequenceAgrees u u' Q R m d steps)
    (reaches : Reaches u m (.step depth frame ⟨head, .action spec⟩ st)) (hg : gate head st = .begin) (h : R st st')
    (record : RecordHead) :
    Agree Q R (u.act (u.bodyWithin depth) frame head spec ⟨record, [], none, none⟩ (u.inside ⟨head, .action spec⟩ st))
      (u'.act (u'.bodyWithin depth) frame head spec ⟨record, [], none, none⟩
        (u'.inside ⟨head, .action spec⟩ st')) := by
  have hinside := sim.inside h ⟨head, .action spec⟩
  have hresolved := sim.resolved_eq hinside head spec
  have hsupplied := sim.supplied_eq hinside head spec ⟨record, [], none, none⟩
  by_cases hcall : spec.actionType = callActionType
  · have hsome : (u'.bodyWithin depth).isSome = (u.bodyWithin depth).isSome := by cases depth <;> rfl
    have hlooked := calls reaches hg hcall h (u.bodyWithin depth).isSome
    -- The call is looked up once the beginning of its step is reported, which makes no difference to it.
    have hsame : SameCall u u' Q (u.bodyWithin depth).isSome (u.inside ⟨head, .action spec⟩ st)
        (u'.inside ⟨head, .action spec⟩ st') (resolved (u.inside ⟨head, .action spec⟩ st) head spec) := by
      cases hlooked with
      | entered enters enters' => exact .entered enters enters'
      | refused refuses refuses' made => exact .refused refuses refuses' made
    rw [act_of_call hcall, act_of_call hcall, hresolved, hsupplied]
    cases hsame with
    | refused refuses refuses' made =>
      rw [call_of_error refuses, call_of_error (hsome ▸ refuses')]
      exact ⟨made _, hinside⟩
    | entered enters enters' =>
      obtain ⟨-, -, hmayEnter, -⟩ := callee_eq_ok.mp enters
      obtain ⟨run, hrun⟩ := Option.isSome_iff_exists.mp hmayEnter
      rw [hmayEnter] at enters enters'
      obtain ⟨d, rfl, rfl⟩ := bodyWithin_eq_some hrun
      rw [show u.bodyWithin (d + 1) = some (u.runWithin d) from rfl,
        show u'.bodyWithin (d + 1) = some (u'.runWithin d) from rfl, call_of_ok enters, call_of_ok enters',
        runWithin_eq, runWithin_eq]
      refine sim.callEnded cong.balanced cong.children hinside head _ _ ?_
      exact sim.sequence (all d rfl _) (reaches.tail (.call hg hcall enters)) (sim.calleeState hinside _ _ _)
  · rw [act_of_action hcall, act_of_action hcall, hresolved, hsupplied]
    exact sim.perform hinside head _ _ fun _ => cong.refl _

include cong sim in
theorem skip (h : R st st') (s : Step) (reason : SkipReason) : Agree Q R (st.skip s reason) (st'.skip s reason) :=
  ⟨cong.refl _, sim.emit h (sim.event _)⟩

include cong sim in
theorem reported {out out' : Record × State} (h : Agree Q R out out') : Agree Q R (reported out) (reported out') :=
  ⟨h.made, sim.emit h.states (cong.finished h.made)⟩

include cong sim in
theorem step (h : R st st') {callee callee' : Option Body} {s : Step}
    (kind : gate s.head st = .begin → Agree Q R (u.runKind callee frame s.head s.kind (u.begin s) (u.inside s st))
      (u'.runKind callee' frame s.head s.kind (u.begin s) (u'.inside s st'))) :
    Agree Q R (u.runStep callee frame s st) (u'.runStep callee' frame s st') := by
  have hgate := sim.gate_eq h s.head
  cases hg : gate s.head st with
  | skip reason =>
    rw [runStep_of_skip hg, runStep_of_skip (hgate.trans hg)]
    exact sim.skip cong h s reason
  | failure e =>
    rw [runStep_of_failure hg, runStep_of_failure (hgate.trans hg), unmet, unmet, sim.begin_eq]
    refine sim.reported cong ⟨?_, sim.inside h s⟩
    rw [sim.fail_eq (sim.inside h s)]
    exact cong.refl _
  | begin =>
    rw [runStep_of_begin hg, runStep_of_begin (hgate.trans hg), begun, begun, sim.begin_eq]
    exact sim.reported cong (kind hg)

include cong sim in
theorem visit {s : Step} (one : StepAgrees u u' Q R m depth s) {stopped : Bool} {rest : List Step}
    (reaches : Reaches u m (.sequence depth frame stopped (s :: rest) st)) (h : R st st') :
    Agree Q R (u.visit (u.bodyWithin depth) frame stopped s st)
      (u'.visit (u'.bodyWithin depth) frame stopped s st') := by
  have hlook := sim.checkpoint h
  have hcancelled := sim.cancelled hlook
  rcases u.visit_cases (u.bodyWithin depth) frame stopped s st with ⟨hc, h'⟩ | ⟨hc, rfl, h'⟩ | ⟨hc, rfl, h'⟩ <;> rw [h']
  · rw [visit_of_cancelled (hcancelled.trans hc)]
    exact sim.skip cong hlook s _
  · rw [visit_of_stopped (hcancelled.trans hc)]
    exact sim.skip cong hlook s _
  · rw [visit_of_free (hcancelled.trans hc)]
    exact one (reaches.tail (.take hc)) hlook

include cong sim in
/-- Two runs whose states look the same to the steps, and which do the same at all calls, do the same. -/
theorem runs_agree (calls : SameCalls u u' Q R m) (depth : Nat) :
    (∀ s, StepAgrees u u' Q R m depth s) ∧ ∀ steps, SequenceAgrees u u' Q R m depth steps := by
  refine run_induction (StepAgrees u u' Q R m) (SequenceAgrees u u' Q R m) ?nil ?cons ?action ?group ?loop ?branch depth
  case nil =>
    intro depth frame stopped st st' _ h
    rw [runSteps_nil, runSteps_nil]
    exact ⟨.nil, h⟩
  case cons =>
    intro depth s rest one all frame stopped st st' reaches h
    have hvisit := sim.visit cong one reaches h
    have hrest := all (reaches.tail .next) hvisit.states
    rw [runSteps_cons, runSteps_cons]
    dsimp only
    rw [cong.stops hvisit.made]
    exact ⟨.cons hvisit.made hrest.made, hrest.states⟩
  case action =>
    intro depth head spec all frame st st' reaches h
    refine sim.step cong h fun hg => ?_
    rw [runKind, runKind]
    exact sim.act cong calls all reaches hg h _
  case group =>
    intro depth head children all frame st st' reaches h
    refine sim.step cong h fun hg => ?_
    have hout := sim.sequence all (reaches.tail (.group hg)) (sim.inside h ⟨head, .group children⟩)
    rw [runKind, runKind]
    dsimp only
    rw [cong.balanced.status hout.made]
    exact ⟨cong.children _ hout.made, hout.states⟩
  case loop =>
    intro depth head config children all frame st st' reaches h
    refine sim.step cong h fun hg => ?_
    rw [runKind, runKind]
    refine sim.loop cong.balanced (fun reaches h => sim.sequence all reaches h) cong.loop (fun plan hne hplan => ?_)
      (sim.inside h _) _
    exact reaches.tail (.loop hg hne hplan)
  case branch =>
    intro depth head arms all frame st st' reaches h
    refine sim.step cong h fun hg => ?_
    rw [runKind, runKind]
    refine sim.branch (fun _ => cong.balanced) (fun _ => cong.refl _) cong.branch (sim.inside h _) _ _ _
      fun e htaken => ?_
    obtain ⟨a, ha⟩ := Arm.find?_isArm htaken
    rw [Setup.inside, Arm.evaluateAll_emit] at htaken
    rw [runArm_eq, runArm_eq, ha]
    exact sim.sequence (all a (List.mem_of_getElem? ha)) (reaches.tail (.arm hg htaken ha))
      (sim.emit (sim.inside h _) (sim.event _))

include cong sim in
theorem runWithin_agree {steps : List Step} (h : R st st')
    (calls : SameCalls u u' Q R (.sequence depth st.scope.currentFrame false steps st)) :
    Agree (List.Forall₂ Q) R (u.runWithin depth steps st) (u'.runWithin depth steps st') := by
  rw [runWithin_eq, runWithin_eq]
  exact sim.sequence ((sim.runs_agree cong calls depth).2 steps) .refl h

include sim in
/-- Runs that look calls up alike do the same at all of them. -/
theorem sameCalls (callees : ∀ {st st' : State}, R st st' → ∀ mayEnter a,
      u'.callee mayEnter st' a = u.callee mayEnter st a) : SameCalls u u' Eq R m := by
  intro depth frame head spec st st' _ _ _ h mayEnter
  have hcallee := callees h mayEnter (resolved st head spec)
  cases hc : u.callee mayEnter st (resolved st head spec) with
  | ok entered => exact .entered hc (hcallee.trans hc)
  | error e => exact .refused hc (hcallee.trans hc) fun r => (sim.fail_eq h r e).symm

include sim in
/-- Runs that enter the same workflows, and refuse the other calls for the same reasons, make the same records. -/
theorem runWithin_same (callees : ∀ {st st' : State}, R st st' → ∀ mayEnter a,
      u'.callee mayEnter st' a = u.callee mayEnter st a) (h : R st st') (steps : List Step) :
    Agree Eq R (u.runWithin depth steps st) (u'.runWithin depth steps st') := by
  obtain ⟨hmade, hstates⟩ := sim.runWithin_agree (Congruent.eq sim.event) h (sim.sameCalls callees)
  rw [List.forall₂_eq_eq_eq] at hmade
  exact ⟨hmade, hstates⟩

end Steps

end Simulates

end StepTree
