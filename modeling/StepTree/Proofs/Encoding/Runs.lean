import StepTree.Proofs.Encoding.Records
import StepTree.Proofs.Encoding.Values
import StepTree.Proofs.Provenance

/-! # What a run tells survives its encoding

A run over orderly workflows, whose actions are answered with normal values, keeps the values of its scope normal, and
makes orderly records, writes and events. So its trace comes back from its encoding, and so does each of its events, but
for the writes that tell of a null: they come back as if the variable had no value. -/

namespace StepTree

open Setup

/-! ### Orderly states -/

/-- The time of the run exists, the workflows that can be called are orderly, and actions are answered with normal
values. -/
structure Setup.Orderly (u : Setup) : Prop where
  now : u.now.WellFormed
  library : ∀ e ∈ u.library, e.2.Orderly
  results : ∀ calls a value, (u.executor calls a).result = .ok value → value.Normal

/-- The values in the scope are normal, and what was recorded and reported after the `earlier` events is orderly. -/
structure State.Orderly (earlier : List Event) (st : State) : Prop where
  scope : st.scope.Normal
  changes : ∀ c ∈ st.changes.toList, c.Orderly
  events : ∃ told, st.reported = earlier ++ told ∧ ∀ e ∈ told, e.Orderly

namespace State.Orderly
variable {earlier : List Event} {st st' : State}

/-- A state stays orderly when orderly events are heard and only its scope changes, to a normal one. -/
theorem hear {events : List Event} (h : st.Orderly earlier) (scope : st'.scope.Normal)
    (changes : st'.changes = st.changes) (heard : st'.signals.heard = st.signals.heard.map (· ++ events))
    (orderly : ∀ e ∈ events, e.Orderly) : st'.Orderly earlier where
  scope := scope
  changes := changes ▸ h.changes
  events := by
    obtain ⟨told, hreported, htold⟩ := h.events
    unfold reported at *
    rw [heard]
    cases hheard : st.signals.heard with
    | none =>
      rw [hheard] at hreported
      exact ⟨told, hreported, htold⟩
    | some before =>
      rw [hheard] at hreported
      obtain rfl : before = earlier ++ told := hreported
      exact ⟨told ++ events, List.append_assoc .., List.forall_mem_append.mpr ⟨htold, orderly⟩⟩

theorem of_eq (h : st.Orderly earlier) (scope : st'.scope.Normal) (changes : st'.changes = st.changes)
    (signals : st'.signals.heard = st.signals.heard) : st'.Orderly earlier :=
  h.hear scope changes (by simp [signals]) (List.forall_mem_nil _)

theorem emit (h : st.Orderly earlier) {e : Event} (he : e.Orderly) : (st.emit e).Orderly earlier :=
  h.hear h.scope rfl (st.signals.heard_emit e) (List.forall_mem_singleton.mpr he)

theorem checkpoint (h : st.Orderly earlier) : st.checkpoint.Orderly earlier := by
  obtain ⟨phases, hphases, heard⟩ := Signals.checkpoint_hears st.signals
  have hlook : st.checkpoint = st ∨ st.checkpoint.signals = st.signals.checkpoint := by
    unfold State.checkpoint
    split
    · exact Or.inl rfl
    · exact Or.inr rfl
  rcases hlook with hlook | hlook
  · rwa [hlook]
  · refine h.hear (st.checkpoint_scope ▸ h.scope) st.checkpoint_changes (hlook ▸ heard) fun e he => ?_
    have hphase := hphases e he
    cases e with
    | phaseChanged phase message => trivial
    | _ => cases hphase

end State.Orderly

/-! ### Orderly records -/

/-- The item of an iteration is normal, and the records inside it are orderly. -/
structure Iteration.Orderly (i : Iteration) : Prop where
  item : i.head.itemValue.Normal
  children : ∀ r ∈ i.children, r.Orderly

namespace Record
variable {r : Record}

theorem Orderly.withHead {head : RecordHead} (h : r.Orderly) (head_orderly : head.Orderly) :
    Orderly { r with head } := by
  cases h with
  | intro _ children_orderly items_normal rounds_orderly arm_orderly =>
    exact .intro head_orderly children_orderly items_normal rounds_orderly arm_orderly

theorem Orderly.withChildren {children : List Record} (h : r.Orderly) (children_orderly : ∀ r ∈ children, r.Orderly) :
    Orderly { r with children } := by
  cases h with
  | intro head_orderly _ items_normal rounds_orderly arm_orderly =>
    exact .intro head_orderly children_orderly items_normal rounds_orderly arm_orderly

theorem Orderly.withLoop {l : LoopRecord} (h : r.Orderly) (rounds : ∀ i ∈ l.iterations, i.Orderly) :
    Orderly { r with loop := some l } := by
  cases h with
  | intro head_orderly children_orderly _ _ arm_orderly =>
    refine .intro head_orderly children_orderly ?_ ?_ arm_orderly
    · rintro _ ⟨⟩ i hi
      exact (rounds i hi).item
    · rintro _ ⟨⟩ i hi
      exact (rounds i hi).children

theorem Orderly.withBranch {b : BranchRecord} (h : r.Orderly) (arm : ∀ r ∈ b.children, r.Orderly) :
    Orderly { r with branch := some b } := by
  cases h with
  | intro head_orderly children_orderly items_normal rounds_orderly _ =>
    refine .intro head_orderly children_orderly items_normal rounds_orderly ?_
    rintro _ ⟨⟩
    exact arm

theorem Orderly.head_orderly (h : r.Orderly) : r.head.Orderly := by
  cases h with
  | intro head_orderly => exact head_orderly

/-- How a step ends is no matter. -/
theorem Orderly.update {head : RecordHead} (h : r.Orderly) (startTime : head.startTime = r.head.startTime)
    (inputs : head.resolvedInputs = r.head.resolvedInputs) (outputs : head.capturedOutputs = r.head.capturedOutputs) :
    Orderly { r with head } := by
  obtain ⟨hstart, hinputs, houtputs, hvalues⟩ := h.head_orderly
  exact h.withHead ⟨startTime ▸ hstart, inputs ▸ hinputs, outputs ▸ houtputs, outputs ▸ hvalues⟩

theorem Orderly.skip (h : r.Orderly) (reason : SkipReason) : (r.skip reason).Orderly := h.update rfl rfl rfl

theorem Orderly.withStatus (h : r.Orderly) (status : StepStatus) : (r.withStatus status).Orderly := h.update rfl rfl rfl

theorem Orderly.fail (h : r.Orderly) (kind : ErrorKind) (message : String) : (r.fail kind message).Orderly :=
  h.update rfl rfl rfl

theorem Orderly.recordAttempts (h : r.Orderly) (attempts : Nat) : (Setup.recordAttempts r attempts).Orderly :=
  h.update rfl rfl rfl

theorem orderly_pending (s : Step) : (pending s).Orderly :=
  .intro ⟨nofun, List.nodup_nil, List.nodup_nil, List.forall_mem_nil _⟩ (List.forall_mem_nil _) nofun nofun nofun

theorem orderly_begin {u : Setup} (setup : u.Orderly) (s : Step) : (u.begin s).Orderly := by
  refine (orderly_pending s).withHead ⟨?_, List.nodup_nil, List.nodup_nil, List.forall_mem_nil _⟩
  rintro _ ⟨⟩
  exact setup.now

end Record

/-- A step ended with an orderly record, in an orderly state. -/
structure EndsOrderly (earlier : List Event) (out : Record × State) : Prop where
  record : out.1.Orderly
  state : out.2.Orderly earlier

/-- A sequence ended with orderly records, in an orderly state. -/
structure RunsOrderly (earlier : List Event) (out : List Record × State) : Prop where
  records : ∀ r ∈ out.1, r.Orderly
  state : out.2.Orderly earlier

theorem Json.Normal.redactValue {value : Json} (h : value.Normal) (u : Setup) (st : State) :
    (u.redactValue st value).Normal := h.redact st.scope.secrets u.settings.redactionMarker

section Runs
variable {u : Setup} {earlier : List Event} {st : State} {frame : Nat} {head : StepHead} {r : Record}

/-! ### Actions -/

theorem orderly_captured (u : Setup) (st : State) {result : Json} (h : result.Normal) :
    ((u.captured st result).map (·.1)).Nodup ∧ ∀ e ∈ u.captured st result, e.2.Normal := by
  cases result with
  | obj entries =>
    have hnames : (u.captured st (.obj entries)).map (·.1) = entries.map (·.1) := List.map_map
    exact ⟨hnames ▸ h.nodup, List.forall_mem_map.mpr fun e he => (h.entries e he).redactValue u st⟩
  | null => exact ⟨List.nodup_nil, List.forall_mem_nil _⟩
  | _ => exact ⟨List.nodup_singleton _, List.forall_mem_singleton.mpr (h.redactValue u st)⟩

theorem State.Orderly.bindOutput (h : st.Orderly earlier) {result : Json} (normal : result.Normal) (u : Setup)
    (frame : Nat) (stepId : String) (o : String × String) :
    (u.bindOutput frame stepId result st o).Orderly earlier := by
  have hselected : ∀ value ∈ result.select? o.1.toList, value.Normal := fun value hvalue => normal.select? hvalue
  have hwritten : (written frame result st o).Orderly earlier := h.of_eq (h.scope.bindInFrame frame hselected) rfl rfl
  have hchange : (u.change frame stepId result st o).Orderly := by
    constructor
    · intro value hvalue
      obtain ⟨old, hold, rfl⟩ := Option.map_eq_some_iff.mp hvalue
      exact (h.scope.get? hold).redactValue u _
    · intro value hvalue
      obtain ⟨new, hnew, rfl⟩ := Option.map_eq_some_iff.mp hvalue
      exact (hselected new hnew).redactValue u _
  have htold : ((written frame result st o).emit
      (.variableChanged stepId o.2 (u.change frame stepId result st o).newValue)).Orderly earlier :=
    hwritten.emit hchange.newValue
  rw [bindOutput_eq]
  refine ⟨htold.scope, fun c hc => ?_, htold.events⟩
  rw [Array.toList_push] at hc
  rcases List.mem_append.mp hc with hc | hc
  · exact h.changes c hc
  · rw [List.mem_singleton.mp hc]
    exact hchange

theorem orderly_conclude (hr : r.Orderly) (hst : st.Orderly earlier) {result : Except StepError Json}
    (normal : ∀ value, result = .ok value → value.Normal) (frame : Nat) (head : StepHead) :
    EndsOrderly earlier (u.conclude frame head r result st) := by
  cases result with
  | error e => exact ⟨hr.fail _ _, hst⟩
  | ok value =>
    obtain ⟨hnames, hvalues⟩ := orderly_captured u st (normal value rfl)
    have hcaptured : Record.Orderly { r with head := { r.head with capturedOutputs := u.captured st value } } :=
      hr.withHead ⟨hr.head_orderly.startTime, hr.head_orderly.inputs, hnames, hvalues⟩
    refine ⟨hcaptured.withStatus .passed, ?_⟩
    exact bindOutputs_keep (fun st o _ h => h.bindOutput (normal value rfl) u frame head.id o) hst

/-- An action that succeeds has an answer of the executor for its result. -/
theorem tryAction_answered (u : Setup) (limit : Option UInt64) (a : Action) (more made : Nat) (st : State)
    {value : Json} (succeeds : (u.tryAction limit a more made st).2.1 = .ok value) :
    ∃ calls, (u.executor calls a).result = .ok value := by
  have hjudged : ∀ outcome : Outcome, judge limit outcome = .ok value → outcome.result = .ok value := by
    intro outcome hvalue
    have hresult : outcome.result.mapError StepError.action = .ok value := by
      unfold judge at hvalue
      split at hvalue
      · split at hvalue
        · cases hvalue
        · exact hvalue
      · exact hvalue
    cases houtcome : outcome.result with
    | error text =>
      rw [houtcome] at hresult
      cases hresult
    | ok v =>
      rw [houtcome] at hresult
      exact congrArg Except.ok (Except.ok.inj hresult)
  induction more generalizing made st with
  | zero => exact ⟨st.calls, hjudged _ succeeds⟩
  | succ more ih =>
    rw [tryAction] at succeeds
    split at succeeds
    · next v st' h =>
      have hfirst : judge limit (u.executor st.calls a) = .ok v := congrArg Prod.fst h
      cases succeeds
      exact ⟨st.calls, hjudged _ hfirst⟩
    · exact ih _ _ succeeds

theorem orderly_perform (setup : u.Orderly) (hr : r.Orderly) (hst : st.Orderly earlier) (frame : Nat) (head : StepHead)
    (a : Action) : EndsOrderly earlier (u.perform frame head a r st) := by
  obtain ⟨n, commands, -, -, -, hhanded⟩ :=
    tryAction_spec u (u.settings.timeLimit head.timeoutMs) a (head.attempts - 1) 0 st
  have hanswered := @tryAction_answered u (u.settings.timeLimit head.timeoutMs) a (head.attempts - 1) 0 st
  unfold perform
  dsimp only
  generalize u.tryAction (u.settings.timeLimit head.timeoutMs) a (head.attempts - 1) 0 st = answer
    at hhanded hanswered ⊢
  obtain ⟨attempts, result, now⟩ := answer
  obtain rfl : now = st.handed a n commands := hhanded
  have hnow : (st.handed a n commands).Orderly earlier := hst.of_eq hst.scope rfl rfl
  refine orderly_conclude (hr.recordAttempts attempts) hnow (fun value hvalue => ?_) frame head
  obtain ⟨calls, hresult⟩ := hanswered hvalue
  exact setup.results calls a value hresult

theorem orderly_supplied (u : Setup) (orderly : head.Orderly) (hr : r.Orderly) (spec : ActionSpec) (st : State) :
    (u.supplied head spec r st).Orderly := by
  have hnames : ((u.supplied head spec r st).head.resolvedInputs).map (·.1) = head.inputs.map (·.1) := by
    simp [supplied, recordInputs, resolved]
  obtain ⟨startTime, -, outputs, values⟩ := hr.head_orderly
  exact hr.withHead ⟨startTime, hnames ▸ orderly.inputs, outputs, values⟩

theorem Workflow.Orderly.normal_inputDefaults {w : Workflow} (h : w.Orderly) : ∀ e ∈ w.inputDefaults, e.2.Normal := by
  intro e he
  obtain ⟨input, hinput, hdefault⟩ := List.mem_filterMap.mp he
  obtain ⟨value, hvalue, rfl⟩ := Option.map_eq_some_iff.mp hdefault
  exact h.defaults input hinput value hvalue

/-- A workflow is entered with normal values in its scope. -/
theorem normal_calleeScope {w : Workflow} (orderly : w.Orderly) (secrets : Secrets) (inputs : List (String × String)) :
    (calleeScope w secrets inputs).Normal := by
  rw [calleeScope_eq]
  refine List.forall_mem_singleton.mpr (Frame.normal_seeded (fun e he => ?_) _)
  rcases List.mem_append.mp he with he | he
  · obtain ⟨d, hd, rfl⟩ := List.mem_map.mp he
    exact Binding.normal_defined (orderly.normal_inputDefaults d hd)
  · rcases List.mem_append.mp he with he | he
    · obtain ⟨v, hv, rfl⟩ := List.mem_map.mp he
      exact Binding.normal_defined (orderly.values v hv)
    · obtain ⟨input, -, rfl⟩ := List.mem_map.mp he
      rintro _ ⟨⟩
      exact .str _

/-- The steps leave records and states orderly, whenever they are run in an orderly state. -/
def BodyOrderly (earlier : List Event) (body : State → List Record × State) : Prop :=
  ∀ st, st.Orderly earlier → RunsOrderly earlier (body st)

theorem orderly_call (setup : u.Orderly) (hr : r.Orderly) (hst : st.Orderly earlier) {body : Option Body}
    (callee : ∀ run ∈ body, ∀ steps, (∀ s ∈ steps, s.Orderly) → BodyOrderly earlier (run steps)) (frame : Nat)
    (head : StepHead) (a : Action) : EndsOrderly earlier (u.call body frame head a r st) := by
  rcases u.call_cases body frame head a r st with ⟨e, -, h⟩ | ⟨run, id, w, hrun, henters, h⟩ <;> rw [h]
  · exact ⟨(hr.recordAttempts 1).fail _ _, hst⟩
  · obtain ⟨-, -, -, hlibrary⟩ := callee_eq_ok.mp henters
    have hw : w.Orderly := setup.library _ (Ordered.mem_of_get? hlibrary)
    have hentered : (calleeState id w a st).Orderly earlier :=
      hst.of_eq (normal_calleeScope hw st.scope.secrets a.inputs) rfl rfl
    obtain ⟨hrecords, hinner⟩ := callee run hrun w.steps hw.steps _ hentered
    generalize run w.steps (calleeState id w a st) = out at hrecords hinner ⊢
    have hback : (returned st out.2).Orderly earlier := ⟨hst.scope, hinner.changes, hinner.events⟩
    have hchildren : Record.Orderly { recordAttempts r 1 with children := out.1 } :=
      (hr.recordAttempts 1).withChildren hrecords
    rcases u.callEnded_cases frame head r id st out with ⟨-, h'⟩ | ⟨-, -, h'⟩ | ⟨-, -, h'⟩ <;> rw [h']
    · exact ⟨hchildren.skip _, hback⟩
    · exact ⟨hchildren.fail _ _, hback⟩
    · refine orderly_conclude hchildren hback (fun value hvalue => ?_) frame head
      cases hvalue
      exact Frame.Normal.values (hinner.scope _ out.2.scope.root_mem_stack)

theorem orderly_act (setup : u.Orderly) (orderly : head.Orderly) (hr : r.Orderly) (hst : st.Orderly earlier)
    {body : Option Body}
    (callee : ∀ run ∈ body, ∀ steps, (∀ s ∈ steps, s.Orderly) → BodyOrderly earlier (run steps)) (frame : Nat)
    (spec : ActionSpec) : EndsOrderly earlier (u.act body frame head spec r st) := by
  have hsupplied := orderly_supplied u orderly hr spec st
  by_cases hcall : spec.actionType = callActionType
  · rw [act_of_call hcall]
    exact orderly_call setup hsupplied hst callee frame head _
  · rw [act_of_action hcall]
    exact orderly_perform setup hsupplied hst frame head _

/-! ### Loops and branches -/

namespace Repetition
variable {l : Repetition}

theorem normal_place (index : Nat) (total : Option Nat) : (place index total).Normal := by
  have hkeys : ["count", "first", "index", "last", "total"].Pairwise (· < ·) := by decide
  refine .obj (List.pairwise_map.mp hkeys) ?_
  have htotal : ((total.map Json.ofNat).getD .null).Normal := by
    cases total with
    | none => exact .null
    | some n => exact .num _
  simp only [List.forall_mem_cons, htotal, true_and]
  exact ⟨.num _, .bool _, .num _, .bool _, List.forall_mem_nil _⟩

theorem orderly_opened (hst : st.Orderly earlier) (plan : l.plan.Normal) (index : Nat) :
    (l.opened index st).Orderly earlier := by
  refine hst.of_eq ?_ rfl rfl
  have hitem : (if l.plan.isWhilst then st.scope.push
      else st.scope.push.set l.config.itemVar (l.plan.item index)).Normal := by
    split
    · exact hst.scope.push
    · exact hst.scope.push.set (plan index)
  exact (hitem.set (.num _)).set (normal_place index _)

theorem normal_carry {bound : Frame} {s : Scope} (frame : bound.Normal) (scope : s.Normal) : (l.carry bound s).Normal :=
  List.foldlRecOn (motive := Scope.Normal) _ _ scope fun _ hs e he =>
    hs.bindInFrame l.frame (frame e (List.mem_filter.mp he).1)

theorem orderly_closed (hst : st.Orderly earlier) : (l.closed st).Orderly earlier := by
  unfold closed
  split
  · exact hst
  · next bound scope hpop =>
    obtain ⟨hbound, hscope⟩ := hst.scope.pop? hpop
    refine hst.of_eq ?_ rfl rfl
    dsimp only
    split
    · exact normal_carry hbound hscope
    · exact hscope

theorem orderly_round (hst : st.Orderly earlier) (plan : l.plan.Normal) (body : BodyOrderly earlier l.body) (u : Setup)
    (index : Nat) : (l.round u index (l.opened index st)).1.Orderly ∧
      (l.round u index (l.opened index st)).2.Orderly earlier := by
  have hopened := orderly_opened hst plan index
  have hitem : (u.redactValue (l.opened index st) (l.plan.item index)).Normal := (plan index).redactValue u _
  have hstarted : ((l.opened index st).emit
      (.iterationStarted l.stepId index (u.redactValue (l.opened index st) (l.plan.item index)))).Orderly earlier :=
    hopened.emit hitem
  rw [round_eq, iteration]
  dsimp only
  rcases l.iterate_cases u index (u.redactValue (l.opened index st) (l.plan.item index)) _ with
    ⟨-, h⟩ | ⟨e, -, h⟩ | ⟨-, h⟩ <;> rw [h]
  · exact ⟨⟨hitem, List.forall_mem_nil _⟩, (orderly_closed hstarted).emit trivial⟩
  · exact ⟨⟨hitem, List.forall_mem_nil _⟩, (orderly_closed hstarted).emit trivial⟩
  · obtain ⟨hrecords, hinner⟩ := body _ hstarted
    exact ⟨⟨hitem, hrecords⟩, (orderly_closed hinner).emit trivial⟩

/-- A loop with normal items has orderly iterations, and ends in an orderly state. -/
theorem orderly_run (hr : r.Orderly) (hst : st.Orderly earlier) (plan : l.plan.Normal)
    (body : BodyOrderly earlier l.body) (u : Setup) : EndsOrderly earlier (l.run u r st) := by
  have hbegun : (∀ i ∈ (LoopRecord.begin l.config.loopType l.plan.total? l.limit).iterations, i.Orderly) ∧
      State.Orderly earlier { st with scope := st.scope.push } :=
    ⟨List.forall_mem_nil _, hst.of_eq hst.scope.push rfl rfl⟩
  obtain ⟨hrounds, hturns⟩ : (∀ i ∈ (l.turns u st).1.iterations, i.Orderly) ∧ (l.turns u st).2.2.Orderly earlier := by
    refine rounds_keep (P := fun record st => (∀ i ∈ record.iterations, i.Orderly) ∧ st.Orderly earlier)
      (fun record st h => ⟨h.1, h.2.checkpoint⟩) ?_ l.limit.toNat 0 hbegun
    rintro index record st ⟨hrecord, hst⟩
    obtain ⟨hround, hst⟩ := orderly_round hst plan body u index
    exact ⟨List.forall_mem_append.mpr ⟨hrecord, List.forall_mem_singleton.mpr hround⟩, hst⟩
  have hpopped : State.Orderly earlier { (l.turns u st).2.2 with scope := (l.turns u st).2.2.scope.pop } :=
    hturns.of_eq hturns.scope.pop rfl rfl
  have hleft : (l.left (l.turns u st)).Orderly earlier := hpopped.emit trivial
  have hloop : Record.Orderly { r with loop := some ((l.turns u st).1.ended (l.turns u st).2.1.reason) } :=
    hr.withLoop hrounds
  rw [run_eq]
  refine ⟨?_, hleft⟩
  rcases ended_cases u r ((l.turns u st).1.ended (l.turns u st).2.1.reason) (l.turns u st).2.1
    (l.left (l.turns u st)) with ⟨e, -, h⟩ | ⟨reason, -, h⟩ <;> dsimp only <;> rw [h]
  · exact hloop.fail _ _
  · exact hloop.withStatus _

end Repetition

theorem orderly_loop (hr : r.Orderly) (hst : st.Orderly earlier) {body : State → List Record × State}
    (hbody : BodyOrderly earlier body) (u : Setup) (stepId : String) (config : LoopConfig) (isEmpty : Bool) :
    EndsOrderly earlier (u.loop stepId config isEmpty body r st) := by
  rcases u.loop_cases stepId config isEmpty body r st with ⟨-, h⟩ | ⟨-, e, -, h⟩ | ⟨-, plan, hplan, h⟩ <;> rw [h]
  · exact ⟨(hr.withLoop (List.forall_mem_nil _)).withStatus _, hst⟩
  · exact ⟨(hr.withLoop (List.forall_mem_nil _)).fail _ _, hst⟩
  · exact Repetition.orderly_run hr hst (LoopConfig.normal_plan hst.scope.lookups hplan) hbody u

theorem orderly_branch (hr : r.Orderly) (hst : st.Orderly earlier) {body : Nat → State → List Record × State}
    (hbody : ∀ index, BodyOrderly earlier (body index)) (u : Setup) (stepId : String) (arms : List Arm) :
    EndsOrderly earlier (u.branch stepId arms body r st) := by
  rcases u.branch_cases stepId arms body r st with ⟨-, h⟩ | ⟨-, -, h⟩ | ⟨e, -, h⟩
  · rw [h]
    exact ⟨hr.withStatus _, hst⟩
  · rw [h, noneTaken]
    split
    · exact ⟨hr.skip _, hst⟩
    · exact ⟨hr.fail _ _, hst⟩
  · dsimp only at h
    rw [h]
    obtain ⟨hrecords, hinner⟩ := hbody e.index _ (hst.emit (e := .branchSelected stepId e.index e.label) trivial)
    exact ⟨(hr.withBranch hrecords).withStatus _, hinner⟩

/-! ### Steps and sequences -/

theorem orderly_skip (hst : st.Orderly earlier) (s : Step) (reason : SkipReason) :
    EndsOrderly earlier (st.skip s reason) := ⟨(Record.orderly_pending s).skip reason, hst.emit trivial⟩

theorem orderly_step (setup : u.Orderly) (hst : st.Orderly earlier) {callee : Option Body} {s : Step}
    (kind : ∀ r st, r.Orderly → st.Orderly earlier → EndsOrderly earlier (u.runKind callee frame s.head s.kind r st)) :
    EndsOrderly earlier (u.runStep callee frame s st) := by
  have hbegin := Record.orderly_begin setup s
  have hinside : (u.inside s st).Orderly earlier := hst.emit setup.now
  rcases u.runStep_cases callee frame s st with ⟨reason, -, h⟩ | ⟨e, -, h⟩ | ⟨-, h⟩ <;> rw [h]
  · exact orderly_skip hst s reason
  · exact ⟨hbegin.fail _ _, hinside.emit trivial⟩
  · obtain ⟨hrecord, hended⟩ := kind _ _ hbegin hinside
    exact ⟨hrecord, hended.emit trivial⟩

theorem orderly_visit (hst : st.Orderly earlier) {callee : Option Body} {s : Step}
    (one : ∀ st, st.Orderly earlier → EndsOrderly earlier (u.runStep callee frame s st)) (stopped : Bool) :
    EndsOrderly earlier (u.visit callee frame stopped s st) := by
  rcases u.visit_cases callee frame stopped s st with ⟨-, h⟩ | ⟨-, -, h⟩ | ⟨-, -, h⟩ <;> rw [h]
  · exact orderly_skip hst.checkpoint s _
  · exact orderly_skip hst.checkpoint s _
  · exact one _ hst.checkpoint

/-- Orderly steps leave orderly records and an orderly state. -/
theorem orderly_runs (setup : u.Orderly) (earlier : List Event) (depth : Nat) :
    (∀ s : Step, s.Orderly → ∀ frame st, st.Orderly earlier →
      EndsOrderly earlier (u.runStep (u.bodyWithin depth) frame s st)) ∧
    ∀ steps : List Step, (∀ s ∈ steps, s.Orderly) → ∀ frame stopped st, st.Orderly earlier →
      RunsOrderly earlier (u.runSteps (u.bodyWithin depth) frame stopped steps st) := by
  refine run_induction
    (fun depth s => s.Orderly → ∀ frame st, st.Orderly earlier →
      EndsOrderly earlier (u.runStep (u.bodyWithin depth) frame s st))
    (fun depth steps => (∀ s ∈ steps, s.Orderly) → ∀ frame stopped st, st.Orderly earlier →
      RunsOrderly earlier (u.runSteps (u.bodyWithin depth) frame stopped steps st))
    ?nil ?cons ?action ?group ?loop ?branch depth
  case nil =>
    intro depth _ frame stopped st hst
    rw [runSteps_nil]
    exact ⟨List.forall_mem_nil _, hst⟩
  case cons =>
    intro depth s rest one all orderly frame stopped st hst
    obtain ⟨hs, hrest⟩ := List.forall_mem_cons.mp orderly
    obtain ⟨hrecord, hvisited⟩ := orderly_visit hst (one hs frame) stopped
    obtain ⟨hrecords, hended⟩ := all hrest frame _ _ hvisited
    rw [runSteps_cons]
    exact ⟨List.forall_mem_cons.mpr ⟨hrecord, hrecords⟩, hended⟩
  case action =>
    intro depth head spec callee orderly frame st hst
    cases orderly with
    | action head_orderly normal =>
      refine orderly_step setup hst fun r st hr hst => ?_
      rw [runKind]
      refine orderly_act setup head_orderly hr hst (fun run hrun steps hsteps st hst => ?_) frame spec
      obtain ⟨d, rfl, rfl⟩ := bodyWithin_eq_some hrun
      rw [runWithin_eq]
      exact callee d rfl steps hsteps _ _ st hst
  case group =>
    intro depth head children all orderly frame st hst
    cases orderly with
    | group head_orderly inside =>
      refine orderly_step setup hst fun r st hr hst => ?_
      rw [runKind]
      obtain ⟨hrecords, hended⟩ := all inside st.scope.currentFrame false st hst
      exact ⟨(hr.withChildren hrecords).withStatus _, hended⟩
  case loop =>
    intro depth head config children all orderly frame st hst
    cases orderly with
    | loop head_orderly inside =>
      refine orderly_step setup hst fun r st hr hst => ?_
      rw [runKind]
      exact orderly_loop hr hst (fun st hst => all inside _ _ st hst) u head.id config _
  case branch =>
    intro depth head arms all orderly frame st hst
    cases orderly with
    | branch head_orderly inside =>
      refine orderly_step setup hst fun r st hr hst => ?_
      rw [runKind]
      refine orderly_branch hr hst (fun index st hst => ?_) u head.id arms
      rw [runArm_eq]
      split
      · exact ⟨List.forall_mem_nil _, hst⟩
      · next a ha =>
        have hmem := List.mem_of_getElem? ha
        exact all a hmem (inside a hmem) _ _ st hst

/-- A run of orderly steps has an orderly trace, and ends in an orderly state. -/
theorem orderly_run (setup : u.Orderly) {steps : List Step} (orderly : ∀ s ∈ steps, s.Orderly)
    (hst : st.Orderly earlier) (runId : String) :
    (u.run runId steps st).1.Orderly ∧ (u.run runId steps st).2.Orderly earlier := by
  have hran : RunsOrderly earlier (u.runWithin u.settings.maxCallDepth steps st) := by
    rw [runWithin_eq]
    exact (orderly_runs setup earlier _).2 steps orderly _ _ st hst
  exact ⟨⟨setup.now, hran.records, hran.state.changes⟩, hran.state⟩

end Runs

/-! ### Requested runs -/

/-- The workflow is orderly, and all values that come with it are normal. -/
structure Request.Orderly (q : Request) : Prop where
  workflow : q.workflow.Orderly
  environment : ∀ v ∈ q.environment, v.value.Normal
  vars : ∀ e ∈ q.vars, e.2.Normal

namespace Request
variable {q : Request}

theorem Orderly.normal_scope (h : q.Orderly) : q.scope.Normal := by
  have hvars : ∀ e ∈ Ordered.extend q.workflow.vars q.vars, e.2.Normal :=
    List.foldlRecOn (motive := fun entries : List (String × Json) => ∀ e ∈ entries, e.2.Normal) q.vars _
      h.workflow.values fun _ hentries e he e' he' => (Ordered.mem_insert he').elim (fun heq => heq ▸ h.vars e he)
        (hentries e')
  rw [scope_eq]
  refine List.forall_mem_singleton.mpr (Frame.normal_seeded (fun e he => ?_) _)
  rcases List.mem_append.mp he with he | he
  · obtain ⟨d, hd, rfl⟩ := List.mem_map.mp he
    exact Binding.normal_defined (h.workflow.normal_inputDefaults d hd)
  · rcases List.mem_append.mp he with he | he
    · obtain ⟨v, hv, rfl⟩ := List.mem_map.mp he
      rintro _ ⟨⟩
      exact h.environment v hv
    · obtain ⟨v, hv, rfl⟩ := List.mem_map.mp he
      exact Binding.normal_defined (hvars v hv)

/-- The steps of a requested run begin in an orderly state. -/
theorem Orderly.opening {u : Setup} (h : q.Orderly) (setup : u.Orderly) (signals : Signals) :
    (q.opening u signals).Orderly (signals.heard.getD []) := by
  have hfirst : State.Orderly (signals.heard.getD []) { scope := q.scope, signals } :=
    ⟨h.normal_scope, nofun, [], (List.append_nil _).symm, List.forall_mem_nil _⟩
  have hstarted := hfirst.emit (e := .runStarted q.runId u.now) setup.now
  exact hstarted.emit (e := .phaseChanged .running none) trivial

end Request

/-! ### Traces and events of runs -/

/-- The trace is read back from its encoding, and so are the events reported after the `earlier` ones, but the null
values of writes are missing then: just where there are none the same comes back. When the keys of a trace come in
another order, so do the named inputs and outputs of its records. -/
structure ComesBack (earlier : List Event) (out : Trace × State) : Prop where
  trace : Trace.decode? (.ofJson out.1.encode) = some out.1.withoutNulls
  ordered : ∀ o : KeyOrder, Trace.decode? (.ofJson (out.1.encode.inOrder o)) = some (out.1.inOrder o).withoutNulls
  same : Trace.decode? (.ofJson out.1.encode) = some out.1 ↔
    ∀ c ∈ out.1.variableChanges, c.oldValue ≠ some .null ∧ c.newValue ≠ some .null
  events : ∃ told, out.2.reported = earlier ++ told ∧ ∀ e ∈ told,
    (∀ o : KeyOrder, Event.decode? (.ofJson (e.encode.inOrder o)) = some e.withoutNull) ∧
      (Event.decode? (.ofJson e.encode) = some e ↔ ∀ stepId name, e ≠ .variableChanged stepId name (some .null))

theorem comesBack_of_orderly {earlier : List Event} {out : Trace × State} (trace : out.1.Orderly)
    (state : out.2.Orderly earlier) : ComesBack earlier out := by
  have hordered : ∀ o : KeyOrder, Trace.decode? (.ofJson (out.1.encode.inOrder o)) =
      some (out.1.inOrder o).withoutNulls := by
    intro o
    rw [Node.ofJson_inOrder]
    exact trace.reads false
  have hwritten : Trace.decode? (.ofJson out.1.encode) = some out.1.withoutNulls := by simpa using hordered .written
  refine ⟨hwritten, hordered, ?_, ?_⟩
  · rw [hwritten, Option.some_inj, Trace.withoutNulls_eq]
  · obtain ⟨told, hreported, htold⟩ := state.events
    refine ⟨told, hreported, fun e he => ?_⟩
    have hevent : ∀ o : KeyOrder, Event.decode? (.ofJson (e.encode.inOrder o)) = some e.withoutNull := by
      intro o
      rw [Node.ofJson_inOrder]
      exact (htold e he).reads false
    have hsame : Event.decode? (.ofJson e.encode) = some e.withoutNull := by simpa using hevent .written
    exact ⟨hevent, by rw [hsame, Option.some_inj, Event.withoutNull_eq]⟩

/-- Whatever a run of orderly steps or a requested run tells comes back from its encoding, but for the nulls that it
wrote. -/
theorem traces_come_back_but_for_nulls {u : Setup} (setup : u.Orderly) :
    (∀ (runId : String) (steps : List Step) (st : State) (earlier : List Event), (∀ s ∈ steps, s.Orderly) →
      st.Orderly earlier → ComesBack earlier (u.run runId steps st)) ∧
    ∀ (q : Request) (signals : Signals) (out : Trace × State), q.Orderly → q.drive u signals = .ok out →
      ComesBack (signals.heard.getD []) out := by
  constructor
  · intro runId steps st earlier orderly hst
    obtain ⟨htrace, hended⟩ := orderly_run setup orderly hst runId
    exact comesBack_of_orderly htrace hended
  · intro q signals out orderly ran
    have hsetup : (q.setup u).Orderly := ⟨setup.now, setup.library, setup.results⟩
    obtain ⟨htrace, hended⟩ :=
      orderly_run hsetup orderly.workflow.steps (orderly.opening hsetup signals) q.runId
    rcases q.drive_cases u signals with ⟨-, refusal, h⟩ | h
    · cases ran.symm.trans h
    · cases ran.symm.trans h
      exact comesBack_of_orderly htrace (hended.emit setup.now)

/-- The trace of a loop over a branch comes back. -/
theorem looped_trace_comes_back :
    let u : Setup := { executor := fun _ _ => { result := .ok (.obj [("n", .num (.int 1))]) } }
    let action : Step := ⟨{ id := "c", inputs := [("q", "1")], outputs := [("n", "x"), ("m", "y")] },
      .action ⟨"echo", []⟩⟩
    let branch : Step := ⟨{ id := "b" }, .branch [⟨"default", none, [action]⟩]⟩
    let loop : Step := ⟨{ id := "a" }, .loop { loopType := .times, count := some (.literal 2) } [branch]⟩
    let q : Request := { runId := "run", workflow := { id := "w", steps := [loop] } }
    u.Orderly ∧ q.Orderly ∧ ∃ out, q.drive u { events := some #[] } = .ok out ∧
      (out.1.steps.flatMap Record.walk).length = 5 ∧ Trace.decode? (.ofJson out.1.encode) = some out.1 := by
  intro u action branch loop q
  have hu : u.Orderly := by
    refine ⟨⟨by decide, by decide⟩, List.forall_mem_nil _, ?_⟩
    rintro calls a value ⟨⟩
    exact .obj (List.pairwise_singleton ..) (List.forall_mem_singleton.mpr (.num _))
  have haction : action.Orderly := .action ⟨by decide, by decide⟩ (.obj List.Pairwise.nil (List.forall_mem_nil _))
  have hloop : loop.Orderly := .loop ⟨by decide, by decide⟩ (List.forall_mem_singleton.mpr
    (.branch ⟨by decide, by decide⟩ (List.forall_mem_singleton.mpr (List.forall_mem_singleton.mpr haction))))
  have hq : q.Orderly := ⟨⟨List.nodup_nil, List.forall_mem_nil _, List.nodup_nil, List.forall_mem_nil _,
    List.forall_mem_singleton.mpr hloop⟩, List.forall_mem_nil _, List.forall_mem_nil _⟩
  have valid : validate q.workflow.steps = [] := by decide +kernel
  rcases q.drive_cases u { events := some #[] } with ⟨mistaken, -⟩ | hdrive
  · exact absurd valid mistaken
  have hback := (traces_come_back_but_for_nulls hu).2 q _ _ hq hdrive
  exact ⟨hu, hq, _, hdrive, by decide +kernel, hback.same.mpr (by decide +kernel)⟩

/-- A variable that was bound to null comes back as one that was left undefined. -/
theorem null_comes_back_undefined :
    let u : Setup := { executor := fun _ _ => { result := .ok (.obj [("a", .null)]) } }
    let s : Step := ⟨{ id := "s", outputs := [("a", "x"), ("b", "y")] },
      .action ⟨"const", [("result", .obj [("a", .null)])]⟩⟩
    let t := (u.run "run" [s] { scope := .empty }).1
    t.variableChanges = [⟨"s", "x", none, some .null⟩, ⟨"s", "y", none, none⟩] ∧
      Trace.decode? (.ofJson t.encode) ≠ some t ∧ ∃ t', Trace.decode? (.ofJson t.encode) = some t' ∧
        t'.variableChanges = [⟨"s", "x", none, none⟩, ⟨"s", "y", none, none⟩] := by
  intro u s t
  have hu : u.Orderly := by
    refine ⟨⟨by decide, by decide⟩, List.forall_mem_nil _, ?_⟩
    rintro calls a value ⟨⟩
    exact .obj (List.pairwise_singleton ..) (List.forall_mem_singleton.mpr .null)
  have hnull : (Json.obj [("a", .null)]).Normal :=
    .obj (List.pairwise_singleton ..) (List.forall_mem_singleton.mpr .null)
  have hs : s.Orderly := .action ⟨by decide, by decide⟩
    (.obj (List.pairwise_singleton ..) (List.forall_mem_singleton.mpr hnull))
  have hempty : State.Orderly [] { scope := .empty } :=
    ⟨List.forall_mem_singleton.mpr (List.forall_mem_nil _), nofun, [], rfl, List.forall_mem_nil _⟩
  obtain ⟨htrace, hended⟩ := orderly_run hu (List.forall_mem_singleton.mpr hs) hempty "run"
  have hback := comesBack_of_orderly htrace hended
  have hchanges : t.variableChanges = [⟨"s", "x", none, some .null⟩, ⟨"s", "y", none, none⟩] := rfl
  refine ⟨hchanges, fun hsame => ?_, t.withoutNulls, hback.trace, rfl⟩
  have hnulls := hback.same.mp hsame ⟨"s", "x", none, some .null⟩ (hchanges ▸ List.mem_cons_self)
  exact hnulls.2 rfl

end StepTree
