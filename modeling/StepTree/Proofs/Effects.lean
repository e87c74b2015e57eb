import Mathlib.Data.List.TakeWhile
import StepTree.Proofs.Mirror
import StepTree.Proofs.Outline
import StepTree.Proofs.Parts
import StepTree.Proofs.RootFrame

/-! # What a sequence writes

A sequence writes to the frame that is innermost when it begins, and to no other. The actions that pass in it write,
each the names of its outputs, one after the other; those in its groups and in the arms that its branches take count as
its own, those in loops and in callees write elsewhere. So the frame at every moment of the sequence is known from the
actions that have passed until then, and so is what a placeholder of a name stands for. -/

namespace StepTree

open Setup

/-! ### Writes -/

/-- An action that passed, by its step and its result. -/
structure Passed where
  head : StepHead
  result : Json

/-- What the outputs of the step write: what their paths select from the result, if there is such a value. -/
def Passed.writes (p : Passed) : List (String × Option Json) :=
  p.head.outputs.map fun (path, name) => (name, p.result.select? path.toList)

/-- The names that a frame binds, with their values as far as these are defined. -/
def Frame.bound (f : Frame) : List (String × Option Json) := f.map fun (name, b) => (name, b.value)

theorem Frame.bound_insert (f : Frame) (name : String) (b : Binding) :
    bound (Ordered.insert name b f) = Ordered.insert name b.value f.bound :=
  (Ordered.insert_map Binding.value name b f).symm

theorem Frame.get?_bound (f : Frame) (name : String) :
    Ordered.get? name f.bound = (Ordered.get? name f).map Binding.value := Ordered.get?_map Binding.value name f

theorem Scope.bound_bindSelected (s : Scope) (p : Passed) :
    (s.bindSelected p.result p.head.outputs).innermost.bound = Ordered.extend s.innermost.bound p.writes := by
  unfold bindSelected Passed.writes
  generalize p.head.outputs = outputs
  induction outputs generalizing s with
  | nil => rfl
  | cons o rest ih =>
    rw [List.foldl_cons, ih, bind, Frame.bound_insert]
    rfl

/-! ### Actions that pass -/

mutual

/-- The actions that passed by the record of a step: the step itself, or those in a group or in the arm of a branch. -/
def Record.passed : Record → List RecordHead
  | ⟨head, children, _, branch⟩ =>
    match head.stepKind with
    | .action => if head.status = .passed then [head] else []
    | .group => Record.passedAll children
    | .loop => []
    | .branch => BranchRecord.passedOption branch

def Record.passedAll : List Record → List RecordHead
  | [] => []
  | r :: rest => r.passed ++ Record.passedAll rest

def BranchRecord.passedOption : Option BranchRecord → List RecordHead
  | none => []
  | some b => b.passed

def BranchRecord.passed : BranchRecord → List RecordHead
  | ⟨_, children⟩ => Record.passedAll children

end

namespace Record

theorem passedAll_eq_flatMap (records : List Record) : passedAll records = records.flatMap passed := by
  induction records with
  | nil => rfl
  | cons r rest ih => rw [passedAll, ih, List.flatMap_cons]

theorem passedAll_append (before after : List Record) :
    passedAll (before ++ after) = passedAll before ++ passedAll after := by
  simp [passedAll_eq_flatMap]

theorem passedAll_singleton (r : Record) : passedAll [r] = r.passed := by
  rw [passedAll_eq_flatMap, List.flatMap_singleton]

theorem passed_eq (r : Record) :
    r.passed = match r.head.stepKind with
      | .action => if r.head.status = .passed then [r.head] else []
      | .group => passedAll r.children
      | .loop => []
      | .branch => BranchRecord.passedOption r.branch := by
  cases r
  rw [passed]

theorem passed_of_action {r : Record} (kind : r.head.stepKind = .action) :
    r.passed = if r.head.status = .passed then [r.head] else [] := by
  rw [passed_eq, kind]

/-- No action passed by a record that holds no others and is not that of a step that passed. -/
theorem passed_of_bare {r : Record} (children : r.children = []) (branch : r.branch = none)
    (status : r.head.status ≠ .passed) : r.passed = [] := by
  rw [passed_eq, children, branch, if_neg status]
  cases r.head.stepKind <;> rfl

end Record

namespace Setup
variable {u : Setup} {callee : Option Body} {depth : Nat} {head : StepHead} {st : State}

/-- The result of a call that passes: what the root frame of the callee defines at its end. -/
def returned? (u : Setup) (callee : Option Body) (a : Action) (st : State) : Option Json :=
  match u.callee callee.isSome st a, callee with
  | .ok (id, w), some run =>
    let out := run w.steps (calleeState id w a st)
    if out.2.cancelled || sequenceStatus out.1 = .failed then none else some (.obj out.2.scope.root.values)
  | _, _ => none

/-- The result of an action step that is carried out and passes; that of other actions is the answer to the last
attempt. -/
def result? (u : Setup) (callee : Option Body) (head : StepHead) (spec : ActionSpec) (st : State) : Option Json :=
  let a := resolved st head spec
  if spec.actionType = callActionType then u.returned? callee a st
  else (u.tryAction (u.settings.timeLimit head.timeoutMs) a (head.attempts - 1) 0 st).2.1.toOption

mutual

/-- The actions that pass when a step is taken up, in their order; those in a loop or in a callee are left out. -/
def passes (u : Setup) (callee : Option Body) : Step → State → List Passed
  | ⟨head, kind⟩, st =>
    match gate head st with
    | .begin => u.passesOf callee head kind (u.inside ⟨head, kind⟩ st)
    | _ => []

def passesOf (u : Setup) (callee : Option Body) (head : StepHead) : StepKind → State → List Passed
  | .action spec, st => ((u.result? callee head spec st).map (Passed.mk head)).toList
  | .group children, st => u.passesAll callee st.scope.currentFrame false children st
  | .loop _ _, _ => []
  | .branch arms, st =>
    match (Arm.evaluateAll u st 0 arms).find? (·.result) with
    | some e => u.passesIn callee e.index arms (st.emit (.branchSelected head.id e.index e.label))
    | none => []

def passesIn (u : Setup) (callee : Option Body) : Nat → List Arm → State → List Passed
  | _, [], _ => []
  | 0, ⟨_, _, children⟩ :: _, st => u.passesAll callee st.scope.currentFrame false children st
  | index + 1, _ :: rest, st => u.passesIn callee index rest st

def passesAll (u : Setup) (callee : Option Body) (frame : Nat) : (stopped : Bool) → List Step → State → List Passed
  | _, [], _ => []
  | stopped, s :: rest, st =>
    let out := u.visit callee frame stopped s st
    (if st.checkpoint.cancelled || stopped then [] else u.passes callee s st.checkpoint) ++
      u.passesAll callee frame (stopped || stops s.head out.1) rest out.2

end

theorem passesIn_eq (index : Nat) (arms : List Arm) :
    u.passesIn callee index arms st =
      match arms[index]? with
      | none => []
      | some a => u.passesAll callee st.scope.currentFrame false a.children st := by
  induction arms generalizing index with
  | nil => simp [passesIn]
  | cons a rest ih =>
    cases index with
    | zero =>
      cases a
      simp [passesIn]
    | succ index => simp [passesIn, ih]

end Setup

/-- The record of an action that passed is that of its step, and shows its result masked. -/
def Passed.Shown (u : Setup) (r : RecordHead) (p : Passed) : Prop :=
  r.stepId = p.head.id ∧ ∃ now, r.capturedOutputs = u.captured now p.result

/-- What was run has made these records and led from one scope to the other, and these actions have passed. -/
structure Effect (u : Setup) (before : Scope) (records : List Record) (after : Scope) (done : List Passed) : Prop where
  bound : after.innermost.bound = Ordered.extend before.innermost.bound (done.flatMap Passed.writes)
  shown : List.Forall₂ (Passed.Shown u) (Record.passedAll records) done

namespace Effect
variable {u : Setup} {s s' s'' : Scope} {records records' : List Record} {done done' : List Passed}

theorem nothing (scope : s' = s) (passed : Record.passedAll records = []) : Effect u s records s' [] := by
  refine ⟨by rw [scope]; rfl, ?_⟩
  rw [passed]
  exact .nil

theorem failed {r : Record} (scope : s' = s) (kind : r.head.stepKind = .action) (status : r.head.status ≠ .passed) :
    Effect u s [r] s' [] := by
  refine .nothing scope ?_
  rw [Record.passedAll_singleton, Record.passed_of_action kind, if_neg status]

theorem bare {r : Record} (scope : s' = s) (children : r.children = []) (branch : r.branch = none)
    (status : r.head.status ≠ .passed) : Effect u s [r] s' [] := by
  refine .nothing scope ?_
  rw [Record.passedAll_singleton]
  exact Record.passed_of_bare children branch status

theorem append (h : Effect u s records s' done) (h' : Effect u s' records' s'' done') :
    Effect u s (records ++ records') s'' (done ++ done') where
  bound := by rw [h'.bound, h.bound, List.flatMap_append, Ordered.extend_append]
  shown := by
    rw [Record.passedAll_append]
    exact List.rel_append h.shown h'.shown

theorem enclosed {r : Record} (h : Effect u s records s' done) (passed : r.passed = Record.passedAll records) :
    Effect u s [r] s' done where
  bound := h.bound
  shown := by
    rw [Record.passedAll_singleton, passed]
    exact h.shown

end Effect

/-! ### What passes writes -/

namespace Setup
variable {u : Setup} {callee : Option Body} {depth : Nat} {head : StepHead} {st : State}

theorem conclude_effect (r : Record) (kind : r.head.stepKind = .action) (id : r.head.stepId = head.id) {now : State}
    (scope : now.scope = st.scope) (result : Except StepError Json) :
    Effect u st.scope [(u.conclude st.scope.currentFrame head r result now).1]
      (u.conclude st.scope.currentFrame head r result now).2.scope (result.toOption.map (Passed.mk head)).toList := by
  cases result with
  | error e => exact .failed scope kind (by rintro ⟨⟩)
  | ok value =>
    refine ⟨?_, ?_⟩
    · change (u.bindOutputs st.scope.currentFrame head value now).scope.innermost.bound = _
      rw [← scope, u.bindOutputs_scope, now.scope.bound_bindSelected ⟨head, value⟩]
      exact congrArg _ (List.append_nil _).symm
    · have hpassed : (u.conclude st.scope.currentFrame head r (.ok value) now).1.passed = [_] :=
        Record.passed_of_action kind
      rw [Record.passedAll_singleton, hpassed]
      exact .cons ⟨id, now, rfl⟩ .nil

theorem callEnded_effect (r : Record) (kind : r.head.stepKind = .action) (id : r.head.stepId = head.id)
    (calleeId : String) (out : List Record × State) :
    Effect u st.scope [(u.callEnded st.scope.currentFrame head r calleeId st out).1]
      (u.callEnded st.scope.currentFrame head r calleeId st out).2.scope
      ((if out.2.cancelled || sequenceStatus out.1 = .failed then none
        else some (Json.obj out.2.scope.root.values)).map (Passed.mk head)).toList := by
  rcases u.callEnded_cases st.scope.currentFrame head r calleeId st out with ⟨hc, h⟩ | ⟨hc, hs, h⟩ | ⟨hc, hs, h⟩ <;>
    rw [h, hc]
  · exact .failed rfl kind (by rintro ⟨⟩)
  · rw [hs]
    exact .failed rfl kind (by rintro ⟨⟩)
  · rw [Bool.false_or, if_neg (by simpa using hs)]
    have hback : (returned st out.2).scope = st.scope := rfl
    exact conclude_effect { recordAttempts r 1 with children := out.1 } kind id hback (.ok _)

theorem act_effect (st : State) (r : Record) (kind : r.head.stepKind = .action) (id : r.head.stepId = head.id)
    (spec : ActionSpec) :
    Effect u st.scope [(u.act callee st.scope.currentFrame head spec r st).1]
      (u.act callee st.scope.currentFrame head spec r st).2.scope
      ((u.result? callee head spec st).map (Passed.mk head)).toList := by
  unfold result? returned?
  by_cases hcall : spec.actionType = callActionType
  · rw [act_of_call hcall, if_pos hcall]
    cases hc : u.callee callee.isSome st (resolved st head spec) with
    | error e =>
      rw [call_of_error hc]
      exact .failed rfl kind (by rintro ⟨⟩)
    | ok entered =>
      obtain ⟨calleeId, w⟩ := entered
      obtain ⟨-, -, hmayEnter, -⟩ := callee_eq_ok.mp hc
      obtain ⟨run, rfl⟩ := Option.isSome_iff_exists.mp hmayEnter
      rw [call_of_ok hc]
      exact callEnded_effect (u.supplied head spec r st) kind id calleeId _
  · rw [act_of_action hcall, if_neg hcall, perform]
    have htried : (u.tryAction (u.settings.timeLimit head.timeoutMs) (resolved st head spec) (head.attempts - 1) 0
        st).2.2.scope = st.scope := by
      obtain ⟨n, commands, -, -, -, hhanded⟩ := tryAction_spec u (u.settings.timeLimit head.timeoutMs)
        (resolved st head spec) (head.attempts - 1) 0 st
      rw [hhanded]
      rfl
    exact conclude_effect (recordAttempts (u.supplied head spec r st) _) kind id htried _

/-- The step writes what the actions that pass in it write. -/
def StepWrites (u : Setup) (depth : Nat) (s : Step) : Prop :=
  ∀ st : State, Effect u st.scope [(u.runStep (u.bodyWithin depth) st.scope.currentFrame s st).1]
    (u.runStep (u.bodyWithin depth) st.scope.currentFrame s st).2.scope (u.passes (u.bodyWithin depth) s st)

def SequenceWrites (u : Setup) (depth : Nat) (steps : List Step) : Prop :=
  ∀ stopped, ∀ st : State,
    Effect u st.scope (u.runSteps (u.bodyWithin depth) st.scope.currentFrame stopped steps st).1
      (u.runSteps (u.bodyWithin depth) st.scope.currentFrame stopped steps st).2.scope
      (u.passesAll (u.bodyWithin depth) st.scope.currentFrame stopped steps st)

theorem step_effect {s : Step}
    (kind : Effect u st.scope [(u.runKind callee st.scope.currentFrame s.head s.kind (u.begin s) (u.inside s st)).1]
      (u.runKind callee st.scope.currentFrame s.head s.kind (u.begin s) (u.inside s st)).2.scope
      (u.passesOf callee s.head s.kind (u.inside s st))) :
    Effect u st.scope [(u.runStep callee st.scope.currentFrame s st).1]
      (u.runStep callee st.scope.currentFrame s st).2.scope (u.passes callee s st) := by
  obtain ⟨head, stepKind⟩ := s
  unfold passes
  rcases u.runStep_cases callee st.scope.currentFrame ⟨head, stepKind⟩ st with
    ⟨reason, hg, h⟩ | ⟨e, hg, h⟩ | ⟨hg, h⟩ <;> rw [h, hg]
  · exact .bare rfl rfl rfl (by rintro ⟨⟩)
  · exact .bare rfl rfl rfl (by rintro ⟨⟩)
  · exact kind

theorem visit_effect {s : Step} (one : StepWrites u depth s) (stopped : Bool) (st : State) :
    Effect u st.scope [(u.visit (u.bodyWithin depth) st.scope.currentFrame stopped s st).1]
      (u.visit (u.bodyWithin depth) st.scope.currentFrame stopped s st).2.scope
      (if st.checkpoint.cancelled || stopped then [] else u.passes (u.bodyWithin depth) s st.checkpoint) := by
  have hskip (reason : SkipReason) :
      Effect u st.scope [(st.checkpoint.skip s reason).1] (st.checkpoint.skip s reason).2.scope [] :=
    .bare st.checkpoint_scope rfl rfl (by rintro ⟨⟩)
  rcases u.visit_cases (u.bodyWithin depth) st.scope.currentFrame stopped s st with
    ⟨hc, h⟩ | ⟨hc, rfl, h⟩ | ⟨hc, rfl, h⟩ <;> rw [h, hc]
  · exact hskip _
  · exact hskip _
  · have hstep := one st.checkpoint
    rw [st.checkpoint_scope] at hstep
    exact hstep

/-- Every step and every sequence of a run writes what the actions that pass in it write. -/
theorem run_effect (u : Setup) (depth : Nat) :
    (∀ s, StepWrites u depth s) ∧ ∀ steps, SequenceWrites u depth steps := by
  refine run_induction (StepWrites u) (SequenceWrites u) ?nil ?cons ?action ?group ?loop ?branch depth
  case nil =>
    intro depth stopped st
    rw [runSteps_nil, passesAll]
    exact .nothing rfl rfl
  case cons =>
    intro depth s rest one all stopped st
    have hkept := visit_kept ((u.run_kept depth).1 s) stopped st
    have hrest := all (stopped || stops s.head (u.visit (u.bodyWithin depth) st.scope.currentFrame stopped s st).1)
      (u.visit (u.bodyWithin depth) st.scope.currentFrame stopped s st).2
    rw [hkept.currentFrame] at hrest
    rw [runSteps_cons, passesAll]
    exact (visit_effect one stopped st).append hrest
  case action =>
    intro depth head spec _ st
    refine step_effect ?_
    rw [runKind, passesOf]
    exact act_effect (u.inside ⟨head, .action spec⟩ st) (u.begin ⟨head, .action spec⟩) rfl rfl spec
  case group =>
    intro depth head children all st
    refine step_effect ?_
    rw [runKind, passesOf]
    exact (all false (u.inside ⟨head, .group children⟩ st)).enclosed (Record.passed_eq _)
  case loop =>
    intro depth head config children _ st
    have hnone : u.passes (u.bodyWithin depth) ⟨head, .loop config children⟩ st = [] := by
      unfold passes
      split
      · rw [passesOf]
      · rfl
    rw [hnone]
    refine .nothing ((u.runStep_restores depth ⟨head, .loop config children⟩ st).loop config children rfl) ?_
    rw [Record.passedAll_singleton, Record.passed_eq, runStep_kind]
    rfl
  case branch =>
    intro depth head arms all st
    refine step_effect ?_
    rw [runKind, passesOf]
    rcases u.branch_cases head.id arms (fun index st => u.runArm (u.bodyWithin depth) index arms st)
      (u.begin ⟨head, .branch arms⟩) (u.inside ⟨head, .branch arms⟩ st) with ⟨rfl, h⟩ | ⟨-, hnone, h⟩ | ⟨e, htaken, h⟩
    · rw [h]
      exact .nothing rfl rfl
    · rw [h, hnone, noneTaken]
      split <;> exact .bare rfl rfl rfl (by rintro ⟨⟩)
    · obtain ⟨a, ha⟩ := Arm.find?_isArm htaken
      dsimp only at h
      rw [h, htaken, runArm_eq, ha]
      dsimp only
      rw [passesIn_eq, ha]
      have hinside := all a (List.mem_of_getElem? ha) false
        ((u.inside ⟨head, .branch arms⟩ st).emit (.branchSelected head.id e.index e.label))
      exact hinside.enclosed (Record.passed_eq _)

end Setup

/-! ### Moments of a sequence -/

/-- A run that is at `m` comes to another moment of the same frame, in a sequence, in its groups or in the arms that are
taken, and meanwhile these actions pass. -/
inductive Passing (u : Setup) (m : Moment) : List Passed → Moment → Prop
  | start : Passing u m [] m
  | take {done : List Passed} {depth frame : Nat} {s : Step} {rest : List Step} {st : State}
    (before : Passing u m done (.sequence depth frame false (s :: rest) st)) (go : st.checkpoint.cancelled = false) :
    Passing u m done (.step depth frame s st.checkpoint)
  | next {done : List Passed} {depth frame : Nat} {stopped : Bool} {s : Step} {rest : List Step} {st : State}
    (before : Passing u m done (.sequence depth frame stopped (s :: rest) st)) :
    Passing u m
      (done ++ if st.checkpoint.cancelled || stopped then [] else u.passes (u.bodyWithin depth) s st.checkpoint)
      (.sequence depth frame (stopped || stops s.head (u.visit (u.bodyWithin depth) frame stopped s st).1) rest
        (u.visit (u.bodyWithin depth) frame stopped s st).2)
  | group {done : List Passed} {depth frame : Nat} {head : StepHead} {steps : List Step} {st : State}
    (before : Passing u m done (.step depth frame ⟨head, .group steps⟩ st)) (go : gate head st = .begin) :
    Passing u m done (.sequence depth st.scope.currentFrame false steps (u.inside ⟨head, .group steps⟩ st))
  | arm {done : List Passed} {depth frame : Nat} {head : StepHead} {arms : List Arm} {st : State} {e : ArmEvaluation}
    {a : Arm} (before : Passing u m done (.step depth frame ⟨head, .branch arms⟩ st)) (go : gate head st = .begin)
    (taken : (Arm.evaluateAll u st 0 arms).find? (·.result) = some e) (isArm : arms[e.index]? = some a) :
    Passing u m done (.sequence depth st.scope.currentFrame false a.children
      ((u.inside ⟨head, .branch arms⟩ st).emit (.branchSelected head.id e.index e.label)))

/-- The actions that are still to pass at a moment. -/
def Moment.passes (u : Setup) : Moment → List Passed
  | .sequence depth frame stopped steps st => u.passesAll (u.bodyWithin depth) frame stopped steps st
  | .step depth _ s st => u.passes (u.bodyWithin depth) s st
  | _ => []

namespace Passing
variable {u : Setup} {m m' : Moment} {done : List Passed}

theorem reaches (h : Passing u m done m') : Reaches u m m' := by
  induction h with
  | start => exact .refl
  | take _ go ih => exact ih.tail (.take go)
  | next _ ih => exact ih.tail .next
  | group _ go ih => exact ih.tail (.group go)
  | arm _ go taken isArm ih => exact ih.tail (.arm go taken isArm)

/-- When the first steps of a sequence were run, the actions in them have passed, and the run comes to the others. -/
theorem along {depth frame : Nat} {stopped : Bool} {before rest : List Step} {st : State}
    (h : Passing u m done (.sequence depth frame stopped (before ++ rest) st)) :
    ∃ stopped', Passing u m (done ++ u.passesAll (u.bodyWithin depth) frame stopped before st)
      (.sequence depth frame stopped' rest (u.runSteps (u.bodyWithin depth) frame stopped before st).2) := by
  induction before generalizing done stopped st with
  | nil =>
    rw [passesAll, List.append_nil, runSteps_nil]
    exact ⟨stopped, h⟩
  | cons s before ih =>
    rw [passesAll, ← List.append_assoc, runSteps_cons]
    exact ih h.next

theorem prefix_passes (h : Passing u m done m') : ∃ after, m.passes u = done ++ (m'.passes u ++ after) := by
  -- What comes `after` is what passes once the sequences around the moment go on.
  induction h with
  | start => exact ⟨[], by simp⟩
  | @take done depth frame s rest st _ go ih =>
    obtain ⟨after, hall⟩ := ih
    rw [Moment.passes, passesAll, go, Bool.or_false, if_neg Bool.false_ne_true, List.append_assoc] at hall
    exact ⟨_, hall⟩
  | @next done depth frame stopped s rest st _ ih =>
    obtain ⟨after, hall⟩ := ih
    rw [Moment.passes, passesAll, List.append_assoc] at hall
    refine ⟨after, hall.trans ?_⟩
    rw [List.append_assoc]
    rfl
  | @group done depth frame head steps st _ go ih =>
    obtain ⟨after, hall⟩ := ih
    rw [Moment.passes, passes, go] at hall
    dsimp only at hall
    rw [passesOf] at hall
    exact ⟨after, hall⟩
  | @arm done depth frame head arms st e a _ go taken isArm ih =>
    obtain ⟨after, hall⟩ := ih
    rw [Moment.passes, passes, go] at hall
    dsimp only at hall
    rw [passesOf, inside, Arm.evaluateAll_emit, taken] at hall
    dsimp only at hall
    rw [passesIn_eq, isArm] at hall
    exact ⟨after, hall⟩

theorem bound (h : Passing u m done m') (framed : m.Framed) :
    m'.state.scope.innermost.bound = Ordered.extend m.state.scope.innermost.bound (done.flatMap Passed.writes) := by
  induction h with
  | start => rfl
  | @take done depth frame s rest st _ go ih =>
    rw [← ih]
    exact congrArg (fun s : Scope => s.innermost.bound) st.checkpoint_scope
  | @next done depth frame stopped s rest st before ih =>
    obtain rfl : frame = st.scope.currentFrame := before.reaches.invariant (fun _ _ => Leads.framed) framed
    have hvisit := (visit_effect ((run_effect u depth).1 s) stopped st).bound
    rw [List.flatMap_append, Ordered.extend_append, ← ih]
    exact hvisit
  | group _ go ih => exact ih
  | arm _ go taken isArm ih => exact ih

end Passing

/-! ### Placeholders of names -/

/-- A name that is no path: nothing is selected from the value that it stands for. -/
structure Identifier (name : String) : Prop where
  ne_empty : name ≠ ""
  chars : ∀ c ∈ name.toList, c ≠ '.' ∧ c ≠ '['

/-- The placeholders of a name are replaced by the text of the value, or left as they are written if there is none. -/
structure Scope.Renders (s : Scope) (name : String) (value : Option Json) : Prop where
  /-- In any text. -/
  piece (inner : List Char) (isName : Text.trim inner = name.toList) :
    Template.expandPiece s.lookup (.placeholder inner) =
      (value.map fun v => v.plainText.toList).getD (Template.written inner)
  /-- Where the text is one placeholder. -/
  text (inner : List Char) (isName : Text.trim inner = name.toList)
    (unbraced : ∀ c ∈ inner, Template.isBrace c = false) :
    s.resolve (String.ofList (Template.written inner)) =
      (value.map Json.plainText).getD (String.ofList (Template.written inner))

namespace Scope
variable {s : Scope} {name : String} {value : Option Json}

theorem lookup_identifier (identifier : Identifier name) {path : List Char} (isName : Text.trim path = name.toList) :
    s.lookup path = s.get? name := by
  have htake : (name.toList.takeWhile fun c => c != '.' && c != '[') = name.toList := by
    refine List.takeWhile_eq_self_iff.mpr fun c hc => ?_
    obtain ⟨hdot, hbracket⟩ := identifier.chars c hc
    simp [hdot, hbracket]
  have hne : name.toList ≠ [] := by simpa using identifier.ne_empty
  have hselect (v : Json) : v.select? [] = some v := rfl
  unfold lookup
  rw [isName]
  dsimp only
  rw [htake, List.drop_length, String.ofList_toList, if_neg (by simpa using hne)]
  cases s.get? name with
  | none => rfl
  | some v => exact hselect v

/-- A name that the innermost frame binds hides those of the outer frames, also without a value. -/
theorem get?_of_bound (bound : Ordered.get? name s.innermost.bound = some value) : s.get? name = value := by
  rw [Frame.get?_bound] at bound
  obtain ⟨b, hb, hvalue⟩ := Option.map_eq_some_iff.mp bound
  have hnearest : s.binding? name = some b := by
    rw [binding?, stack, List.findSome?_cons, hb]
  rw [get?, hnearest]
  exact hvalue

theorem renders_of_bound (identifier : Identifier name) (bound : Ordered.get? name s.innermost.bound = some value) :
    s.Renders name value := by
  have piece (inner : List Char) (isName : Text.trim inner = name.toList) :
      Template.expandPiece s.lookup (.placeholder inner) =
        (value.map fun v => v.plainText.toList).getD (Template.written inner) := by
    have hne : Text.trim inner ≠ [] := by
      rw [isName]
      simpa using identifier.ne_empty
    rw [Template.expandPiece, Template.valueOf, if_neg (by rwa [List.isEmpty_iff]), lookup_trim,
      lookup_identifier identifier isName, get?_of_bound bound]
    cases value <;> rfl
  refine ⟨piece, fun inner isName unbraced => ?_⟩
  rw [s.resolve_placeholder unbraced, piece inner isName]
  cases value with
  | none => rfl
  | some v => exact String.ofList_toList

end Scope

/-- The last of the writes of a name gives it this value. -/
def LastWrite (writes : List (String × Option Json)) (name : String) (value : Option Json) : Prop :=
  ∃ before after, writes = before ++ (name, value) :: after ∧ name ∉ after.map (·.1)

/-- A sequence of a run writes the outputs of the actions that pass in it to the frame that is innermost, in their
order, and changes no other frame. The actions of its first steps have passed when it comes to the others, and a step
that it comes to, also in a group or an arm, finds under a name what was last written to it. -/
theorem sequence_effect (u : Setup) (first : List Step) (start : State) {depth frame : Nat} {stopped : Bool}
    {steps : List Step} {st : State}
    (h : Reaches u (.first u first start) (.sequence depth frame stopped steps st)) :
    let out := u.runSteps (u.bodyWithin depth) frame stopped steps st
    let done := u.passesAll (u.bodyWithin depth) frame stopped steps st
    out.2.scope.innermost.bound = Ordered.extend st.scope.innermost.bound (done.flatMap Passed.writes) ∧
      out.2.scope.outer = st.scope.outer ∧ List.Forall₂ (Passed.Shown u) (Record.passedAll out.1) done ∧
      (∀ before rest, steps = before ++ rest → ∃ stopped',
        Passing u (.sequence depth frame stopped steps st) (u.passesAll (u.bodyWithin depth) frame stopped before st)
          (.sequence depth frame stopped' rest (u.runSteps (u.bodyWithin depth) frame stopped before st).2)) ∧
      ∀ sofar depth' frame' s now,
        Passing u (.sequence depth frame stopped steps st) sofar (.step depth' frame' s now) →
          sofar <+: done ∧
          ∀ name value, Identifier name → LastWrite (sofar.flatMap Passed.writes) name value →
            now.scope.Renders name value := by
  intro out done
  obtain rfl : frame = st.scope.currentFrame := h.framed
  have heffect : Effect u st.scope out.1 out.2.scope done := (run_effect u depth).2 steps stopped st
  refine ⟨heffect.bound, ((u.run_kept depth).2 steps stopped st).outer, heffect.shown, ?_, ?_⟩
  · rintro before rest rfl
    exact Passing.start.along
  intro sofar depth' frame' s now passing
  obtain ⟨after, hall⟩ := passing.prefix_passes
  refine ⟨⟨_, hall.symm⟩, ?_⟩
  rintro name value identifier ⟨before, after, hwrites, last⟩
  refine Scope.renders_of_bound identifier ?_
  have hbound : now.scope.innermost.bound = _ := passing.bound rfl
  rw [hbound, hwrites]
  exact Ordered.get?_extend_last last _

/-- A step in a group finds what the step before the group has bound, and what that step has left undefined hides the
value that an outer frame has. -/
theorem undefined_output_hides_outer :
    let u : Setup := { executor := fun _ _ => { result := .ok (.obj [("pin", .str "7")]) } }
    let ask : Step := ⟨{ id := "ask", outputs := [("pin", "code"), ("mail", "name")] }, .action ⟨"ask", []⟩⟩
    let tell : Step := ⟨{ id := "tell" }, .action ⟨"tell", []⟩⟩
    let both : Step := ⟨{ id := "both" }, .group [tell]⟩
    let st : State := { scope := ⟨[], [[("name", .defined (.str "Ada"))]]⟩ }
    let m : Moment := .sequence 8 1 false [ask, both] st
    Reaches u (.first u [ask, both] st) m ∧
      ∃ sofar now, Passing u m sofar (.step 8 1 tell now) ∧
        LastWrite (sofar.flatMap Passed.writes) "code" (some (.str "7")) ∧
        LastWrite (sofar.flatMap Passed.writes) "name" none ∧
        now.scope.resolve (String.ofList (Template.written " code ".toList)) = "7" ∧
        now.scope.resolve (String.ofList (Template.written "name".toList)) =
          String.ofList (Template.written "name".toList) := by
  intro u ask tell both st m
  have reaches : Reaches u (.first u [ask, both] st) m := .refl
  have first : Passing u m [] (.sequence 8 1 false [ask, both] st) := .start
  have asked : Passing u m _ (.sequence 8 1 _ [both] _) := first.next
  have goes : stops ask.head (u.visit (u.bodyWithin 8) 1 false ask st).1 = false := by decide +kernel
  rw [goes] at asked
  have grouped : Passing u m _ (.sequence 8 1 false [tell] _) := (asked.take rfl).group rfl
  have passing : Passing u m _ (.step 8 1 tell _) := grouped.take rfl
  have code : LastWrite (Passed.writes ⟨ask.head, .obj [("pin", .str "7")]⟩) "code" (some (.str "7")) :=
    ⟨[], [("name", none)], rfl, by decide⟩
  have name : LastWrite (Passed.writes ⟨ask.head, .obj [("pin", .str "7")]⟩) "name" none :=
    ⟨[("code", some (.str "7"))], [], rfl, by decide⟩
  obtain ⟨-, -, -, -, found⟩ := sequence_effect u [ask, both] st reaches
  obtain ⟨-, renders⟩ := found _ _ _ _ _ passing
  have hcode := renders "code" (some (.str "7")) ⟨by decide, by simp⟩ code
  have hname := renders "name" none ⟨by decide, by simp⟩ name
  have blanks : Text.trim " code ".toList = "code".toList := by decide +kernel
  exact ⟨reaches, _, _, passing, code, name, hcode.text " code ".toList blanks (by simp [Template.isBrace]),
    hname.text "name".toList (by decide +kernel) (by simp [Template.isBrace])⟩

end StepTree
