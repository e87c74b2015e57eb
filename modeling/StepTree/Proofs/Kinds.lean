import StepTree.Proofs.Walk

/-! # What a step of each kind comes to

Each way to carry out a step is opened once: the attempts at an action and its outputs, the call of a
workflow, the choice of an arm, and the rounds of a loop. For the rounds there is an invariant rule: what
checkpoints and whole rounds keep holds at the end of the loop. -/

namespace StepTree

/-! ### Actions -/

/-- The state when an action was handed over `n` times and commands were sent meanwhile. -/
def State.handed (st : State) (a : Action) (n : Nat) (commands : List Command) : State :=
  { st with calls := st.calls ++ Array.replicate n a, signals := st.signals.send commands }

theorem Signals.send_send (s : Signals) (before after : List Command) :
    (s.send before).send after = s.send (before ++ after) := by
  unfold send
  cases s.mailbox <;> simp

namespace Setup
variable {u : Setup} {frame : Nat}

/-- Attempts only hand over the action, once for each of them. -/
theorem tryAction_spec (u : Setup) (limit : Option UInt64) (a : Action) (more made : Nat) (st : State) :
    ∃ n commands, 0 < n ∧ n ≤ more + 1 ∧ (u.tryAction limit a more made st).1 = made + n ∧
      (u.tryAction limit a more made st).2.2 = st.handed a n commands := by
  induction more generalizing made st with
  | zero => exact ⟨1, _, by omega, by omega, rfl, rfl⟩
  | succ more ih =>
    rw [tryAction]
    split
    · next v st' h =>
      obtain rfl : (u.tryOnce limit a st).2 = st' := by rw [h]
      exact ⟨1, _, by omega, by omega, rfl, rfl⟩
    · next e st' h =>
      obtain rfl : (u.tryOnce limit a st).2 = st' := by rw [h]
      obtain ⟨n, commands, hpos, hle, hmade, hst⟩ := ih (made + 1) (u.tryOnce limit a st).2
      refine ⟨n + 1, (u.executor st.calls a).sends ++ commands, by omega, by omega, by omega, ?_⟩
      have hcalls : (u.tryOnce limit a st).2.calls ++ Array.replicate n a =
          st.calls ++ Array.replicate (n + 1) a := by
        simp [tryOnce, ← Array.toList_inj, List.replicate_succ]
      rw [hst, State.handed, State.handed, hcalls, ← Signals.send_send]
      rfl

/-- There is at least one attempt, and there are at most a hundred. -/
theorem attempts_bounds (h : StepHead) : 0 < h.attempts ∧ h.attempts ≤ maxAttempts := by
  unfold StepHead.attempts
  cases h.retry with
  | none => simp [maxAttempts]
  | some p =>
    simp only [Option.map_some, Option.getD_some, RetryPolicy.attempts, maxAttempts]
    omega

/-- The state once an output is bound, before the write is recorded. -/
def written (frame : Nat) (result : Json) (st : State) (o : String × String) : State :=
  { st with
    scope := st.scope.bindInFrame frame o.2
      ⟨result.select? o.1.toList, ((st.scope.binding? o.2).map (·.isSecret)).getD false⟩ }

/-- What is recorded of the write that an output makes. -/
def change (u : Setup) (frame : Nat) (stepId : String) (result : Json) (st : State) (o : String × String) :
    VariableChange where
  stepId := stepId
  name := o.2
  oldValue := (st.scope.get? o.2).map (u.redactValue (written frame result st o))
  newValue := (result.select? o.1.toList).map (u.redactValue (written frame result st o))

/-- A write is reported and recorded in the scope that it leads to. -/
theorem bindOutput_eq (u : Setup) (frame : Nat) (stepId : String) (result : Json) (st : State) (o : String × String) :
    u.bindOutput frame stepId result st o =
      { (written frame result st o).emit
          (.variableChanged stepId o.2 (u.change frame stepId result st o).newValue) with
        changes := st.changes.push (u.change frame stepId result st o) } := rfl

theorem bindOutput_scope (stepId : String) (result : Json) (st : State) (o : String × String) :
    (u.bindOutput frame stepId result st o).scope =
      st.scope.bindInFrame frame o.2
        ⟨result.select? o.1.toList, ((st.scope.binding? o.2).map (·.isSecret)).getD false⟩ := rfl

/-- What every single output keeps, all outputs of a step keep. -/
theorem bindOutputs_keep {P : State → Prop} {head : StepHead} {result : Json}
    (one : ∀ st, ∀ o ∈ head.outputs, P st → P (u.bindOutput frame head.id result st o)) {st : State} (h : P st) :
    P (u.bindOutputs frame head result st) :=
  List.foldlRecOn head.outputs _ h fun st hst o ho => one st o ho hst

/-- An action is handed over between one and a hundred times, and the last answer is its result. -/
theorem perform_spec (u : Setup) (frame : Nat) (head : StepHead) (a : Action) (r : Record) (st : State) :
    ∃ n commands result, 0 < n ∧ n ≤ maxAttempts ∧ u.perform frame head a r st =
      u.conclude frame head (recordAttempts r n) result (st.handed a n commands) := by
  obtain ⟨n, commands, hpos, hle, hn, hst⟩ :=
    tryAction_spec u (u.settings.timeLimit head.timeoutMs) a (head.attempts - 1) 0 st
  obtain ⟨hone, hmax⟩ := attempts_bounds head
  rcases htry : u.tryAction (u.settings.timeLimit head.timeoutMs) a (head.attempts - 1) 0 st with ⟨m, result, st'⟩
  rw [htry] at hn hst
  obtain rfl : m = n := by simpa using hn
  refine ⟨m, commands, result, hpos, by omega, ?_⟩
  rw [← hst]
  simp only [perform, htry]

/-! ### Calls -/

/-- The state in which a callee begins. -/
def calleeState (id : String) (w : Workflow) (a : Action) (st : State) : State :=
  { st with scope := calleeScope w st.scope.secrets a.inputs, callStack := st.callStack ++ [id] }

/-- The state of the caller when a callee has ended. -/
def returned (st inner : State) : State := { inner with scope := st.scope, callStack := inner.callStack.dropLast }

theorem calleeId?_eq_some {a : Action} {id : String} :
    calleeId? a = some id ↔ a.config.lookup "workflowId" = some (.str id) := by
  unfold calleeId?
  split <;> simp_all

theorem callee_eq_ok {mayEnter : Bool} {st : State} {a : Action} {id : String} {w : Workflow} :
    u.callee mayEnter st a = .ok (id, w) ↔
      a.config.lookup "workflowId" = some (.str id) ∧ id ∉ u.root.toList ++ st.callStack ∧ mayEnter = true ∧
        Ordered.get? id u.library = some w := by
  rw [← calleeId?_eq_some, ← active]
  cases hid : calleeId? a with
  | none => simp [callee, hid]
  | some i =>
    by_cases hmem : i ∈ u.active st
    · simp only [callee, hid, hmem, List.contains_iff_mem, ↓reduceIte, reduceCtorEq, false_iff]
      rintro ⟨h, hfresh, -⟩
      cases h
      exact hfresh hmem
    · cases mayEnter
      · simp [callee, hid, hmem]
      · cases hl : Ordered.get? i u.library with
        | none =>
          simp only [callee, hid, hmem, List.contains_iff_mem, hl]
          grind
        | some w' =>
          simp only [callee, hid, hmem, List.contains_iff_mem, hl]
          grind

/-- How a call ends once the steps of its callee were run. -/
def callEnded (u : Setup) (frame : Nat) (head : StepHead) (r : Record) (id : String) (st : State)
    (out : List Record × State) : Record × State :=
  let r := { recordAttempts r 1 with children := out.1 }
  let back := returned st out.2
  if back.cancelled then (r.skip .cancelled, back)
  else if sequenceStatus out.1 = .failed then (u.fail back r (.calleeFailed id), back)
  else u.conclude frame head r (.ok (.obj out.2.scope.root.values)) back

theorem call_of_error {body : Option Body} {head : StepHead} {a : Action} {r : Record} {st : State} {e : StepError}
    (h : u.callee body.isSome st a = .error e) :
    u.call body frame head a r st = (u.fail st (recordAttempts r 1) e, st) := by
  unfold call
  rw [h]
  rfl

theorem call_of_ok {run : Body} {head : StepHead} {a : Action} {r : Record} {st : State} {id : String} {w : Workflow}
    (h : u.callee true st a = .ok (id, w)) :
    u.call (some run) frame head a r st = u.callEnded frame head r id st (run w.steps (calleeState id w a st)) := by
  unfold call
  rw [Option.isSome_some, h]
  rfl

/-- A call is refused, or enters its callee and ends as the callee did. -/
theorem call_cases (u : Setup) (body : Option Body) (frame : Nat) (head : StepHead) (a : Action) (r : Record)
    (st : State) :
    (∃ e, (∀ entered, u.callee body.isSome st a ≠ .ok entered) ∧
      u.call body frame head a r st = (u.fail st (recordAttempts r 1) e, st)) ∨
    (∃ run id w, body = some run ∧ u.callee true st a = .ok (id, w) ∧
      u.call body frame head a r st = u.callEnded frame head r id st (run w.steps (calleeState id w a st))) := by
  cases hc : u.callee body.isSome st a with
  | error e => exact Or.inl ⟨e, fun _ h => (by cases h), call_of_error hc⟩
  | ok entered =>
    obtain ⟨id, w⟩ := entered
    cases body with
    | none => simp [callee_eq_ok] at hc
    | some run => exact Or.inr ⟨run, id, w, rfl, hc, call_of_ok hc⟩

/-- A call ends cancelled, or fails with a step of its callee, or passes. -/
theorem callEnded_cases (u : Setup) (frame : Nat) (head : StepHead) (r : Record) (id : String) (st : State)
    (out : List Record × State) :
    (out.2.cancelled = true ∧ u.callEnded frame head r id st out =
      ({ recordAttempts r 1 with children := out.1 }.skip .cancelled, returned st out.2)) ∨
    (out.2.cancelled = false ∧ sequenceStatus out.1 = .failed ∧ u.callEnded frame head r id st out =
      (u.fail (returned st out.2) { recordAttempts r 1 with children := out.1 } (.calleeFailed id),
        returned st out.2)) ∨
    (out.2.cancelled = false ∧ sequenceStatus out.1 ≠ .failed ∧ u.callEnded frame head r id st out =
      u.conclude frame head { recordAttempts r 1 with children := out.1 } (.ok (.obj out.2.scope.root.values))
        (returned st out.2)) := by
  unfold callEnded
  cases hc : out.2.cancelled
  · by_cases hs : sequenceStatus out.1 = .failed
    · exact Or.inr (Or.inl ⟨rfl, hs, by simp [returned, hc, hs]⟩)
    · exact Or.inr (Or.inr ⟨rfl, hs, by simp [returned, hc, hs]⟩)
  · exact Or.inl ⟨rfl, by simp [returned, hc]⟩

/-- The record of an action step once its inputs are resolved. -/
def supplied (u : Setup) (head : StepHead) (spec : ActionSpec) (r : Record) (st : State) : Record :=
  u.recordInputs st r (resolved st head spec)

theorem act_of_call {body : Option Body} {head : StepHead} {spec : ActionSpec} {r : Record} {st : State}
    (h : spec.actionType = callActionType) :
    u.act body frame head spec r st = u.call body frame head (resolved st head spec) (u.supplied head spec r st) st :=
  if_pos h

theorem act_of_action {body : Option Body} {head : StepHead} {spec : ActionSpec} {r : Record} {st : State}
    (h : spec.actionType ≠ callActionType) :
    u.act body frame head spec r st = u.perform frame head (resolved st head spec) (u.supplied head spec r st) st :=
  if_neg h

/-- An action goes to the executor; a call is refused, or enters its callee. -/
theorem act_cases (u : Setup) (body : Option Body) (frame : Nat) (head : StepHead) (spec : ActionSpec) (r : Record)
    (st : State) :
    (spec.actionType ≠ callActionType ∧ ∃ n commands result, 0 < n ∧ n ≤ maxAttempts ∧
      u.act body frame head spec r st = u.conclude frame head (recordAttempts (u.supplied head spec r st) n) result
        (st.handed (resolved st head spec) n commands)) ∨
    (spec.actionType = callActionType ∧
      ∃ e, (∀ entered, u.callee body.isSome st (resolved st head spec) ≠ .ok entered) ∧
        u.act body frame head spec r st = (u.fail st (recordAttempts (u.supplied head spec r st) 1) e, st)) ∨
    (spec.actionType = callActionType ∧
      ∃ run id w, body = some run ∧ u.callee true st (resolved st head spec) = .ok (id, w) ∧
        u.act body frame head spec r st = u.callEnded frame head (u.supplied head spec r st) id st
          (run w.steps (calleeState id w (resolved st head spec) st))) := by
  by_cases h : spec.actionType = callActionType
  · rw [act_of_call h]
    rcases u.call_cases body frame head (resolved st head spec) (u.supplied head spec r st) st with hcall | hcall
    · exact Or.inr (Or.inl ⟨h, hcall⟩)
    · exact Or.inr (Or.inr ⟨h, hcall⟩)
  · rw [act_of_action h]
    exact Or.inl ⟨h, u.perform_spec frame head (resolved st head spec) (u.supplied head spec r st) st⟩

/-! ### Branches -/

/-- A branch without arms passes; otherwise no arm is taken, or the first one that holds. -/
theorem branch_cases (u : Setup) (stepId : String) (arms : List Arm) (body : Nat → State → List Record × State)
    (r : Record) (st : State) :
    (arms = [] ∧ u.branch stepId arms body r st = (r.withStatus .passed, st)) ∨
    (arms ≠ [] ∧ (Arm.evaluateAll u st 0 arms).find? (·.result) = none ∧
      u.branch stepId arms body r st = (noneTaken (Arm.evaluateAll u st 0 arms) r, st)) ∨
    (∃ e, (Arm.evaluateAll u st 0 arms).find? (·.result) = some e ∧
      let out := body e.index (st.emit (.branchSelected stepId e.index e.label))
      let isDefault := (arms[e.index]?.map Arm.isDefault).getD false
      u.branch stepId arms body r st =
        ({ r with branch := some ⟨⟨e.index, e.label, isDefault, Arm.evaluateAll u st 0 arms⟩, out.1⟩ }.withStatus
          (sequenceStatus out.1), out.2)) := by
  unfold branch
  by_cases h : arms.isEmpty = true
  · exact Or.inl ⟨List.isEmpty_iff.mp h, if_pos h⟩
  · have hne : arms ≠ [] := fun hnil => h (List.isEmpty_iff.mpr hnil)
    rw [if_neg h]
    dsimp only
    split
    · next hnone => exact Or.inr (Or.inl ⟨hne, hnone, rfl⟩)
    · next e hsome => exact Or.inr (Or.inr ⟨e, hsome, rfl⟩)

end Setup

namespace Arm
variable {u : Setup} {st : State}

/-- An arm that can be taken: the default one, or one whose condition is true. -/
def Fits (a : Arm) (st : State) : Prop := a.isDefault = true ∨ st.holds a.condition = .ok true

@[simp] theorem evaluate_index (index : Nat) (a : Arm) : (a.evaluate u st index).index = index := by
  unfold evaluate
  dsimp only
  split
  · rfl
  · split <;> rfl

@[simp] theorem evaluate_label (index : Nat) (a : Arm) : (a.evaluate u st index).label = a.shown index := by
  unfold evaluate
  dsimp only
  split
  · rfl
  · split <;> rfl

theorem evaluate_result {index : Nat} {a : Arm} : (a.evaluate u st index).result = true ↔ a.Fits st := by
  unfold evaluate Fits
  cases a.isDefault
  · rcases st.holds a.condition with e | b <;> simp
  · simp

theorem evaluate_error {index : Nat} {a : Arm} (h : (a.evaluate u st index).error.isSome = true) :
    ∃ e, st.holds a.condition = .error e := by
  unfold evaluate at h
  dsimp only at h
  split at h
  · cases h
  · split at h
    · cases h
    · next e he => exact ⟨e, he⟩

theorem mem_evaluateAll {index : Nat} {arms : List Arm} {e : ArmEvaluation} (h : e ∈ evaluateAll u st index arms) :
    ∃ a ∈ arms, ∃ i, e = a.evaluate u st i := by
  induction arms generalizing index with
  | nil => cases h
  | cons a rest ih =>
    rw [evaluateAll] at h
    have hmem : e = a.evaluate u st index ∨ e ∈ evaluateAll u st (index + 1) rest := by
      split at h
      · exact Or.inl (List.mem_singleton.mp h)
      · exact List.mem_cons.mp h
    rcases hmem with he | hrest
    · exact ⟨a, List.mem_cons_self, index, he⟩
    · obtain ⟨b, hb, hi⟩ := ih hrest
      exact ⟨b, List.mem_cons_of_mem a hb, hi⟩

/-- What the arms come to depends on the scope alone. -/
@[simp] theorem evaluateAll_emit (e : Event) (index : Nat) (arms : List Arm) :
    evaluateAll u (st.emit e) index arms = evaluateAll u st index arms := by
  induction arms generalizing index with
  | nil => rfl
  | cons a rest ih =>
    rw [evaluateAll, evaluateAll, ih]
    rfl

/-- The conditions of the arms are looked at up to the first arm that fits. -/
theorem find?_evaluateAll (u : Setup) (st : State) (index : Nat) (arms : List Arm) :
    ((evaluateAll u st index arms).find? (·.result) = none ∧ ∀ a ∈ arms, ¬a.Fits st) ∨
    ∃ before a after, arms = before ++ a :: after ∧ a.Fits st ∧ (∀ b ∈ before, ¬b.Fits st) ∧
      (evaluateAll u st index arms).find? (·.result) = some (a.evaluate u st (index + before.length)) := by
  induction arms generalizing index with
  | nil => exact Or.inl ⟨rfl, by simp⟩
  | cons a rest ih =>
    by_cases ha : a.Fits st
    · refine Or.inr ⟨[], a, rest, rfl, ha, by simp, ?_⟩
      simp [evaluateAll, evaluate_result.mpr ha]
    · have hno : (a.evaluate u st index).result = false := by rwa [← evaluate_result (u := u), Bool.not_eq_true] at ha
      rcases ih (index + 1) with ⟨hfind, hrest⟩ | ⟨before, b, after, rfl, hb, hbefore, hfind⟩
      · refine Or.inl ⟨?_, List.forall_mem_cons.mpr ⟨ha, hrest⟩⟩
        simp [evaluateAll, hno, hfind]
      · refine Or.inr ⟨a :: before, b, after, rfl, hb, List.forall_mem_cons.mpr ⟨ha, hbefore⟩, ?_⟩
        simp [evaluateAll, hno, hfind, Nat.add_comm, Nat.add_left_comm]

/-- The arm that a branch takes is one of its arms. -/
theorem find?_isArm {arms : List Arm} {e : ArmEvaluation}
    (h : (evaluateAll u st 0 arms).find? (·.result) = some e) : ∃ a, arms[e.index]? = some a := by
  rcases find?_evaluateAll u st 0 arms with ⟨hnone, -⟩ | ⟨before, a, after, rfl, -, -, hsome⟩
  · cases hnone.symm.trans h
  · obtain rfl := Option.some.inj (hsome.symm.trans h)
    exact ⟨a, by simp⟩

end Arm

/-- A branch of which no arm is taken fails only if the condition of an arm has no value. -/
theorem Setup.noneTaken_error {u : Setup} {st : State} {arms : List Arm} (r : Record) (h : r.head.error = none)
    (error : (noneTaken (Arm.evaluateAll u st 0 arms) r).head.error.isSome = true) :
    ∃ a ∈ arms, ∃ e, st.holds a.condition = .error e := by
  unfold noneTaken at error
  split at error
  · rw [Record.skip, h] at error
    cases error
  · next hne =>
    obtain ⟨text, htext⟩ := List.exists_mem_of_ne_nil _ hne
    obtain ⟨e, he, herror⟩ := List.mem_filterMap.mp htext
    obtain ⟨a, ha, i, rfl⟩ := Arm.mem_evaluateAll he
    exact ⟨a, ha, Arm.evaluate_error (by rw [herror]; rfl)⟩

/-! ### Loops -/

namespace Repetition

/-- The loop with another way to run the steps of an iteration. -/
def withBody (l : Repetition) (body : State → List Record × State) : Repetition := { l with body }

variable {l : Repetition} {u : Setup} {index : Nat} {st : State}

@[simp] theorem opened_outer : (l.opened index st).scope.outer = st.scope.stack := by
  unfold opened
  split <;> rfl

/-- To give up an iteration that was only opened leads back to the state before it. -/
theorem opened_pop (l : Repetition) (index : Nat) (st : State) :
    { l.opened index st with scope := (l.opened index st).scope.pop } = st := by
  unfold opened
  split <;> rfl

/-- Why a loop does not run the round at `index`, its limit left aside. -/
def stop? (l : Repetition) (index : Nat) (st : State) : Option Stop :=
  (l.stopBefore? index st).or (l.break? (l.opened index st))

theorem rounds_zero (record : LoopRecord) :
    l.rounds u 0 index record st =
      (record, (l.stopBefore? index st.checkpoint).getD (.exit .maxIterations), st.checkpoint) := rfl

theorem rounds_succ (left : Nat) (record : LoopRecord) :
    l.rounds u (left + 1) index record st =
      match l.stop? index st.checkpoint with
      | some stop => (record, stop, st.checkpoint)
      | none =>
        let (i, st) := l.round u index (l.opened index st.checkpoint)
        match l.stopAfter? i st with
        | some stop => (record.add i, stop, st)
        | none => l.rounds u left (index + 1) (record.add i) st := by
  rw [rounds]
  unfold stop?
  cases hb : l.stopBefore? index st.checkpoint with
  | some stop => rfl
  | none =>
    dsimp only [Option.none_or]
    cases l.break? (l.opened index st.checkpoint) with
    | some stop => exact congrArg (fun st => (record, stop, st)) (opened_pop l index st.checkpoint)
    | none => rfl

/-- A loop ends at the round before which it is cancelled. -/
theorem stop?_of_cancelled (h : st.cancelled = true) : l.stop? index st = some (.exit .cancelled) := by
  simp [stop?, stopBefore?, h]

theorem goes_of_stop? (h : l.stop? index st = none) : st.cancelled = false := by
  cases hc : st.cancelled
  · rfl
  · rw [stop?_of_cancelled hc] at h
    cases h

/-- After a round only a loop that is not cancelled goes on. -/
theorem goes_of_stopAfter? {i : Iteration} (h : l.stopAfter? i st = none) : st.cancelled = false := by
  cases hc : st.cancelled
  · rfl
  · simp [stopAfter?, hc] at h

/-- After a round a loop fails at no expression. -/
theorem stopAfter?_eq_some {i : Iteration} {stop : Stop} (h : l.stopAfter? i st = some stop) :
    ∃ reason, stop = .exit reason := by
  unfold stopAfter? at h
  split at h
  · exact ⟨_, (Option.some.inj h).symm⟩
  · split at h
    · exact ⟨_, (Option.some.inj h).symm⟩
    · cases h

/-- What checkpoints and whole rounds keep holds when a loop ends. -/
theorem rounds_keep {P : LoopRecord → State → Prop}
    (look : ∀ record st, P record st → P record st.checkpoint)
    (round : ∀ index record st, P record st →
      P (record.add (l.round u index (l.opened index st)).1) (l.round u index (l.opened index st)).2)
    (left index : Nat) {record : LoopRecord} {st : State} (h : P record st) :
    P (l.rounds u left index record st).1 (l.rounds u left index record st).2.2 := by
  induction left generalizing index record st with
  | zero => exact look _ _ h
  | succ left ih =>
    rw [rounds_succ]
    split
    · exact look _ _ h
    · dsimp only
      split
      · exact round index _ _ (look _ _ h)
      · exact ih (index + 1) (round index _ _ (look _ _ h))

/-- An iteration is passed over, or fails at its continue condition, or runs the steps of the loop. -/
theorem iterate_cases (l : Repetition) (u : Setup) (index : Nat) (item : Json) (st : State) :
    (l.config.continueCondition.map st.holds = some (.ok true) ∧
      l.iterate u index item st = (⟨{ index, itemValue := item, status := .skipped }, []⟩, st)) ∨
    (∃ e, l.config.continueCondition.map st.holds = some (.error e) ∧ l.iterate u index item st =
      (⟨{ index, itemValue := item, status := .failed, error := some (u.redact st e.message) }, []⟩, st)) ∨
    ((∀ value ∈ l.config.continueCondition.map st.holds, value = .ok false) ∧ l.iterate u index item st =
      (⟨{ index, itemValue := item, status := sequenceStatus (l.body st).1 }, (l.body st).1⟩, (l.body st).2)) := by
  unfold iterate
  rcases l.config.continueCondition.map st.holds with _ | (e | b)
  · exact Or.inr (Or.inr ⟨by simp, rfl⟩)
  · exact Or.inr (Or.inl ⟨e, rfl, rfl⟩)
  · cases b
    · exact Or.inr (Or.inr ⟨by simp, rfl⟩)
    · exact Or.inl ⟨rfl, rfl⟩

/-- The record of an iteration that was opened, and the state that its steps leave. -/
def iteration (l : Repetition) (u : Setup) (index : Nat) (st : State) : Iteration × State :=
  let item := u.redactValue st (l.plan.item index)
  l.iterate u index item (st.emit (.iterationStarted l.stepId index item))

theorem round_eq (l : Repetition) (u : Setup) (index : Nat) (st : State) :
    l.round u index st =
      let (i, inner) := l.iteration u index st
      (i, (l.closed inner).emit (.iterationFinished l.stepId index i.head.status i.head.durationMs)) := rfl

/-- To close an iteration changes the scope alone. -/
theorem closed_eq (l : Repetition) (st : State) : ∃ scope, l.closed st = { st with scope } := by
  unfold closed
  split
  · exact ⟨st.scope, rfl⟩
  · exact ⟨_, rfl⟩

@[simp] theorem closed_calls : (l.closed st).calls = st.calls := by
  unfold closed
  split <;> rfl

@[simp] theorem closed_callStack : (l.closed st).callStack = st.callStack := by
  unfold closed
  split <;> rfl

@[simp] theorem closed_cancelled : (l.closed st).cancelled = st.cancelled := by
  unfold closed
  split <;> rfl

@[simp] theorem opened_calls : (l.opened index st).calls = st.calls := rfl

@[simp] theorem opened_callStack : (l.opened index st).callStack = st.callStack := rfl

@[simp] theorem opened_cancelled : (l.opened index st).cancelled = st.cancelled := rfl

/-- What the rounds of a loop come to. -/
def turns (l : Repetition) (u : Setup) (st : State) : LoopRecord × Stop × State :=
  l.rounds u l.limit.toNat 0 (LoopRecord.begin l.config.loopType l.plan.total? l.limit)
    { st with scope := st.scope.push }

/-- The state when a loop has ended. -/
def left (l : Repetition) (out : LoopRecord × Stop × State) : State :=
  { out.2.2 with scope := out.2.2.scope.pop }.emit
    (.loopFinished l.stepId out.2.1.reason (out.1.ended out.2.1.reason).summary.completed)

theorem run_eq (l : Repetition) (u : Setup) (r : Record) (st : State) :
    l.run u r st =
      let out := l.turns u st
      (ended u r (out.1.ended out.2.1.reason) out.2.1 (l.left out), l.left out) := rfl

theorem ended_cases (u : Setup) (r : Record) (record : LoopRecord) (stop : Stop) (st : State) :
    (∃ e, stop = .failure e ∧ ended u r record stop st = u.fail st { r with loop := some record } (.evaluation e)) ∨
    (∃ reason, stop = .exit reason ∧ ended u r record stop st =
      { r with loop := some record }.withStatus (if 0 < record.summary.failed then .failed else .passed)) := by
  cases stop with
  | exit reason => exact Or.inr ⟨reason, rfl, rfl⟩
  | failure e => exact Or.inl ⟨e, rfl, rfl⟩

/-- A loop that ended has an error only if an expression had no value. -/
theorem ended_error {r : Record} {record : LoopRecord} {stop : Stop} (h : r.head.error = none)
    (error : (ended u r record stop st).head.error.isSome = true) : ∃ e, stop = .failure e := by
  cases stop with
  | failure e => exact ⟨e, rfl⟩
  | exit reason =>
    change r.head.error.isSome = true at error
    rw [h] at error
    cases error

end Repetition

/-- A loop without steps passes; one without a plan fails; any other runs. -/
theorem Setup.loop_cases (u : Setup) (stepId : String) (config : LoopConfig) (isEmpty : Bool)
    (body : State → List Record × State) (r : Record) (st : State) :
    let limit := u.settings.iterationLimit config.maxIterations
    (isEmpty = true ∧ u.loop stepId config isEmpty body r st =
      ({ r with loop := some (LoopRecord.begin config.loopType none limit) }.withStatus .passed, st)) ∨
    (isEmpty = false ∧ ∃ e, config.plan st.scope.lookup = .error e ∧ u.loop stepId config isEmpty body r st =
      (u.fail st { r with loop := some ((LoopRecord.begin config.loopType none limit).ended .error) } (.evaluation e),
        st)) ∨
    (isEmpty = false ∧ ∃ plan, config.plan st.scope.lookup = .ok plan ∧ u.loop stepId config isEmpty body r st =
      Repetition.run ⟨stepId, config, plan, limit, st.scope.push.currentFrame, body⟩ u r st) := by
  unfold loop
  cases isEmpty
  · cases hp : config.plan st.scope.lookup with
    | error e => exact Or.inr (Or.inl ⟨rfl, e, rfl, rfl⟩)
    | ok plan => exact Or.inr (Or.inr ⟨rfl, plan, rfl, rfl⟩)
  · exact Or.inl ⟨rfl, rfl⟩

end StepTree
