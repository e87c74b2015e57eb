import StepTree.Proofs.Provenance
import StepTree.Proofs.Redaction

/-! # Secrets at the moment of recording

Whatever text a run writes into its trace hides the secrets of the scope at that moment. The texts of a step are
written in the scope in which the step is taken up, which calls and loops restore before they record anything of
their own; those of an iteration in the scope of its round, and those of a write in the scope that the write leads
to. Only the text with which a branch fails is put together from texts that were hidden one by one. -/

namespace StepTree

open Setup

/-! ### Steps -/

/-- The inputs, the outputs and the arms in the record hide the secrets of the scope. -/
structure Record.Conceals (marker : String) (scope : Scope) (r : Record) : Prop where
  inputs : ∀ input ∈ r.head.resolvedInputs, scope.Hides marker input.2
  outputs : ∀ output ∈ r.head.capturedOutputs, ∀ text ∈ output.2.strings, scope.Hides marker text
  arms : ∀ b ∈ r.branch, ∀ e ∈ b.selection.evaluated, ∀ text ∈ e.error, scope.Hides marker text

/-- The error in the record hides the secrets of the scope. -/
def Record.ConcealsError (marker : String) (scope : Scope) (r : Record) : Prop :=
  ∀ text ∈ r.head.error, scope.Hides marker text

section Steps
variable {u : Setup} {depth frame : Nat} {marker : String} {scope : Scope} {st now : State}

theorem concealsError_fail (u : Setup) (st : State) (r : Record) (e : StepError) :
    (u.fail st r e).ConcealsError u.settings.redactionMarker st.scope := by
  intro text htext
  obtain rfl : u.redact st e.message = text := Option.some.inj htext
  exact st.scope.hides_redact _ _

theorem captured_hides (u : Setup) (st : State) (value : Json) :
    ∀ output ∈ u.captured st value, ∀ text ∈ output.2.strings, st.scope.Hides u.settings.redactionMarker text := by
  intro output houtput
  cases value with
  | null => cases houtput
  | obj entries =>
    obtain ⟨entry, -, rfl⟩ := List.mem_map.mp houtput
    exact Scope.hides_redactValue
  | _ =>
    obtain rfl := List.mem_singleton.mp houtput
    exact Scope.hides_redactValue

theorem recordInputs_hides (u : Setup) (st : State) (r : Record) (a : Action) :
    ∀ input ∈ (u.recordInputs st r a).head.resolvedInputs, st.scope.Hides u.settings.redactionMarker input.2 := by
  intro input hinput
  obtain ⟨entry, -, rfl⟩ := List.mem_map.mp hinput
  exact st.scope.hides_redact _ _

/-- What a record says hides the secrets of the scope of a state. -/
def Hidden (u : Setup) (st : State) (r : Record) : Prop :=
  r.Conceals u.settings.redactionMarker st.scope ∧ r.ConcealsError u.settings.redactionMarker st.scope

theorem Hidden.of_scope {r : Record} (h : Hidden u st r) (scope : st.scope = now.scope) : Hidden u now r := by
  rw [Hidden, ← scope]
  exact h

section Records
variable {r : Record} (inputs : ∀ input ∈ r.head.resolvedInputs, st.scope.Hides u.settings.redactionMarker input.2)
  (outputs : r.head.capturedOutputs = []) (arms : r.branch = none)
include inputs outputs arms

/-- A record that says no more than the inputs of its step. -/
theorem conceals_inputs : r.Conceals u.settings.redactionMarker st.scope := by
  refine ⟨inputs, ?_, fun b hb => ?_⟩
  · rw [outputs]
    exact List.forall_mem_nil _
  · rw [arms] at hb
    cases hb

theorem hidden_silent (error : r.head.error = none) : Hidden u st r := by
  refine ⟨conceals_inputs inputs outputs arms, fun text htext => ?_⟩
  rw [error] at htext
  cases htext

theorem hidden_failed (e : StepError) : Hidden u st (u.fail st r e) := by
  have hsame := conceals_inputs inputs outputs arms
  exact ⟨⟨hsame.inputs, hsame.outputs, hsame.arms⟩, concealsError_fail u st r e⟩

theorem hidden_conclude {head : StepHead} {result : Except StepError Json} (error : r.head.error = none) :
    Hidden u st (u.conclude frame head r result st).1 := by
  cases result with
  | ok value =>
    have hsame := hidden_silent inputs outputs arms error
    exact ⟨⟨hsame.1.inputs, captured_hides u st value, hsame.1.arms⟩, hsame.2⟩
  | error e => exact hidden_failed inputs outputs arms e

end Records

theorem hidden_act (body : Option Body) (head : StepHead) (spec : ActionSpec) (st : State) :
    Hidden u st (u.act body frame head spec (u.begin ⟨head, .action spec⟩) st).1 := by
  have hinputs := recordInputs_hides u st (u.begin ⟨head, .action spec⟩) (resolved st head spec)
  rcases u.act_cases body frame head spec (u.begin ⟨head, .action spec⟩) st with
    ⟨-, n, commands, result, -, -, h⟩ | ⟨-, e, -, h⟩ | ⟨-, run, id, w, -, -, h⟩ <;> rw [h]
  · have hhanded : (st.handed (resolved st head spec) n commands).scope = st.scope := rfl
    exact (hidden_conclude (hhanded ▸ hinputs) rfl rfl rfl).of_scope hhanded
  · exact hidden_failed (r := recordAttempts (u.supplied head spec _ st) 1) hinputs rfl rfl e
  · generalize run w.steps (calleeState id w (resolved st head spec) st) = out
    -- The scope of the caller is back when its call is recorded.
    have hback : (returned st out.2).scope = st.scope := rfl
    rcases u.callEnded_cases frame head (u.supplied head spec (u.begin ⟨head, .action spec⟩) st) id st out with
      ⟨-, h⟩ | ⟨-, -, h⟩ | ⟨-, -, h⟩ <;> rw [h]
    · exact hidden_silent hinputs rfl rfl rfl
    · exact (hidden_failed (hback ▸ hinputs) rfl rfl _).of_scope hback
    · exact (hidden_conclude (hback ▸ hinputs) rfl rfl rfl).of_scope hback

theorem hidden_loop (stepId : String) (config : LoopConfig) (isEmpty : Bool) {body : State → List Record × State}
    (hbody : ∀ st, Kept st (body st).2) (s : Step) (st : State) :
    Hidden u st (u.loop stepId config isEmpty body (u.begin s) st).1 := by
  have hscope : (u.loop stepId config isEmpty body (u.begin s) st).2.scope = st.scope := loop_scope hbody _ st
  rcases u.loop_cases stepId config isEmpty body (u.begin s) st with ⟨-, h⟩ | ⟨-, e, -, h⟩ | ⟨-, plan, -, h⟩ <;>
    rw [h] at hscope ⊢
  · exact hidden_silent (List.forall_mem_nil _) rfl rfl rfl
  · exact hidden_failed (List.forall_mem_nil _) rfl rfl _
  · rw [Repetition.run_eq] at hscope ⊢
    dsimp only at hscope ⊢
    -- The frames of the loop are off again when its own error is recorded.
    rcases Repetition.ended_cases u (u.begin s) _ _ _ with ⟨e, -, h⟩ | ⟨reason, -, h⟩ <;> rw [h]
    · exact (hidden_failed (List.forall_mem_nil _) rfl rfl _).of_scope hscope
    · exact hidden_silent (List.forall_mem_nil _) rfl rfl rfl

theorem evaluate_hides (u : Setup) (st : State) (index : Nat) (a : Arm) :
    ∀ text ∈ (a.evaluate u st index).error, st.scope.Hides u.settings.redactionMarker text := by
  intro text htext
  unfold Arm.evaluate at htext
  dsimp only at htext
  split at htext
  · cases htext
  · split at htext
    · cases htext
    · obtain rfl := Option.some.inj htext
      exact st.scope.hides_redact _ _

/-- The error of a branch that took no arm is put together from the errors of its arms. -/
theorem conceals_branch (stepId : String) (arms : List Arm) (body : Nat → State → List Record × State) (s : Step)
    (st : State) :
    (u.branch stepId arms body (u.begin s) st).1.Conceals u.settings.redactionMarker st.scope := by
  rcases u.branch_cases stepId arms body (u.begin s) st with ⟨-, h⟩ | ⟨-, -, h⟩ | ⟨e, -, h⟩
  · rw [h]
    exact conceals_inputs (List.forall_mem_nil _) rfl rfl
  · rw [h, noneTaken]
    split
    · exact conceals_inputs (List.forall_mem_nil _) rfl rfl
    · exact conceals_inputs (List.forall_mem_nil _) rfl rfl
  · dsimp only at h
    rw [h]
    refine ⟨List.forall_mem_nil _, List.forall_mem_nil _, fun b hb e' he' => ?_⟩
    obtain rfl := Option.some.inj hb
    obtain ⟨a, -, i, rfl⟩ := Arm.mem_evaluateAll he'
    exact evaluate_hides u st i a

/-- A step writes its own texts in the scope in which it is taken up, and hides the secrets of that scope; the error
of a branch that began excepted. -/
theorem runStep_conceals (u : Setup) (depth frame : Nat) (s : Step) (st : State) :
    (u.runStep (u.bodyWithin depth) frame s st).1.Conceals u.settings.redactionMarker st.scope ∧
      ((s.tag = .branch → gate s.head st ≠ .begin) →
        (u.runStep (u.bodyWithin depth) frame s st).1.ConcealsError u.settings.redactionMarker st.scope) := by
  have hinside : (u.inside s st).scope = st.scope := rfl
  have both : ∀ {r : Record}, Hidden u st r → r.Conceals u.settings.redactionMarker st.scope ∧
      ((s.tag = .branch → gate s.head st ≠ .begin) → r.ConcealsError u.settings.redactionMarker st.scope) :=
    fun h => ⟨h.1, fun _ => h.2⟩
  rcases u.runStep_cases (u.bodyWithin depth) frame s st with ⟨reason, -, h⟩ | ⟨e, -, h⟩ | ⟨hg, h⟩ <;> rw [h]
  · exact both (hidden_silent (List.forall_mem_nil _) rfl rfl rfl)
  · exact both ((hidden_failed (List.forall_mem_nil _) rfl rfl _).of_scope hinside)
  · obtain ⟨head, kind⟩ := s
    rw [begun]
    cases kind with
    | action spec =>
      rw [runKind]
      exact both (hidden_act _ head spec (u.inside ⟨head, .action spec⟩ st))
    | group children =>
      rw [runKind]
      exact both (hidden_silent (List.forall_mem_nil _) rfl rfl rfl)
    | loop config children =>
      rw [runKind]
      exact both (hidden_loop head.id config children.isEmpty (fun st => (u.run_kept depth).2 children false st)
        ⟨head, .loop config children⟩ (u.inside ⟨head, .loop config children⟩ st))
    | branch arms =>
      rw [runKind]
      refine ⟨conceals_branch head.id arms _ _ (u.inside ⟨head, .branch arms⟩ st), fun other => ?_⟩
      exact absurd hg (other rfl)

end Steps

/-- A record of a run from `m` that hides what was secret when its step was skipped or taken up. -/
inductive Record.Discreet (u : Setup) (m : Moment) : Record → Prop
  /-- Nothing is said of a step that is skipped unseen. -/
  | skipped (s : Step) (reason : SkipReason) : Discreet u m (.skipped s reason)
  | taken {depth frame : Nat} {s : Step} {now : State} (reaches : Reaches u m (.step depth frame s now))
    (conceals : (u.runStep (u.bodyWithin depth) frame s now).1.Conceals u.settings.redactionMarker now.scope)
    (error : (s.tag = .branch → gate s.head now ≠ .begin) →
      (u.runStep (u.bodyWithin depth) frame s now).1.ConcealsError u.settings.redactionMarker now.scope) :
    Discreet u m (u.runStep (u.bodyWithin depth) frame s now).1

theorem Made.discreet {u : Setup} {m : Moment} {r : Record} (h : Made u m r) : r.Discreet u m := by
  cases h with
  | skipped s reason => exact .skipped s reason
  | @taken depth frame s now reaches =>
    obtain ⟨conceals, error⟩ := runStep_conceals u depth frame s now
    exact .taken reaches conceals error

/-! ### Iterations -/

/-- The item and the error of an iteration hide the secrets of the scope. -/
structure Iteration.Conceals (marker : String) (scope : Scope) (i : Iteration) : Prop where
  item : ∀ text ∈ i.head.itemValue.strings, scope.Hides marker text
  error : ∀ text ∈ i.head.error, scope.Hides marker text

/-- An iteration of a run from `m` that hides what was secret when its round was opened. -/
def Iteration.Discreet (u : Setup) (m : Moment) (i : Iteration) : Prop :=
  ∃ l now, Opens u m l i.head.index now ∧ i = (l.round u i.head.index now).1 ∧
    i.Conceals u.settings.redactionMarker now.scope

theorem round_conceals (l : Repetition) (u : Setup) (index : Nat) (now : State) :
    (l.round u index now).1.Conceals u.settings.redactionMarker now.scope := by
  have hitem : ∀ text ∈ (u.redactValue now (l.plan.item index)).strings,
      now.scope.Hides u.settings.redactionMarker text := Scope.hides_redactValue
  rw [Repetition.round_eq, Repetition.iteration]
  dsimp only
  rcases l.iterate_cases u index (u.redactValue now (l.plan.item index)) _ with ⟨-, h⟩ | ⟨e, -, h⟩ | ⟨-, h⟩ <;> rw [h]
  · exact ⟨hitem, fun text htext => by cases htext⟩
  · refine ⟨hitem, fun text htext => ?_⟩
    obtain rfl := Option.some.inj htext
    exact now.scope.hides_redact _ _
  · exact ⟨hitem, fun text htext => by cases htext⟩

theorem MadeRound.discreet {u : Setup} {m : Moment} {i : Iteration} (h : MadeRound u m i) : i.Discreet u m := by
  obtain ⟨l, now, opens, hround⟩ := h
  refine ⟨l, now, opens, hround, ?_⟩
  rw [hround]
  exact round_conceals l u _ now

/-! ### Writes and events -/

/-- The two values of a write hide the secrets of the scope. -/
structure VariableChange.Conceals (marker : String) (scope : Scope) (c : VariableChange) : Prop where
  old : ∀ value ∈ c.oldValue, ∀ text ∈ value.strings, scope.Hides marker text
  new : ∀ value ∈ c.newValue, ∀ text ∈ value.strings, scope.Hides marker text

/-- A change in a run from `m` that hides what is secret once its output is bound. -/
def VariableChange.Discreet (u : Setup) (m : Moment) (c : VariableChange) : Prop :=
  ∃ frame head result o rest now, Binds u m frame head result (o :: rest) now ∧
    c = u.change frame head.id result now o ∧ c.Conceals u.settings.redactionMarker (written frame result now o).scope

theorem change_conceals (u : Setup) (frame : Nat) (stepId : String) (result : Json) (now : State)
    (o : String × String) :
    (u.change frame stepId result now o).Conceals u.settings.redactionMarker (written frame result now o).scope := by
  constructor <;>
  · intro value hvalue
    obtain ⟨value, -, rfl⟩ := Option.map_eq_some_iff.mp hvalue
    exact Scope.hides_redactValue

theorem MadeChange.discreet {u : Setup} {m : Moment} {c : VariableChange} (h : MadeChange u m c) : c.Discreet u m := by
  obtain ⟨frame, head, result, o, rest, now, binds, rfl⟩ := h
  exact ⟨frame, head, result, o, rest, now, binds, rfl, change_conceals u frame head.id result now o⟩

/-- An event of a run from `m` whose value, if it tells of one, hides what was secret when the round was opened or the
output was bound. -/
def Event.Discreet (u : Setup) (m : Moment) : Event → Prop
  | .iterationStarted stepId index item => ∃ l now, Opens u m l index now ∧ stepId = l.stepId ∧
    item = u.redactValue now (l.plan.item index) ∧
      ∀ text ∈ item.strings, now.scope.Hides u.settings.redactionMarker text
  | .variableChanged stepId name value => ∃ c : VariableChange, c.Discreet u m ∧ c.stepId = stepId ∧ c.name = name ∧
    c.newValue = value
  | _ => True

theorem MadeEvent.discreet {u : Setup} {m : Moment} {e : Event} (h : MadeEvent u m e) : e.Discreet u m := by
  cases e with
  | iterationStarted stepId index item =>
    obtain ⟨l, now, opens, hid, rfl⟩ := h
    exact ⟨l, now, opens, hid, rfl, Scope.hides_redactValue⟩
  | variableChanged stepId name value =>
    obtain ⟨c, made, heq⟩ := h
    cases heq
    exact ⟨c, made.discreet, rfl, rfl, rfl⟩
  | _ => trivial

/-- Whatever a run writes into its trace, at any depth, hides the secrets of the scope at that moment: the inputs, the
outputs, the arms and the error of a step, the item and the error of an iteration, the two values of a write, and the
values that events tell of. -/
theorem recorded_texts_hide_secrets (u : Setup) (runId : String) (steps : List Step) (st : State) :
    let m := Moment.first u steps st
    let out := u.run runId steps st
    (∀ r ∈ Record.walkAll out.1.steps, r.Discreet u m ∧ ∀ l ∈ r.loop, ∀ i ∈ l.iterations, i.Discreet u m) ∧
      (∀ c ∈ out.1.variableChanges, c ∈ st.changes.toList ∨ c.Discreet u m) ∧
      ∀ e ∈ out.2.reported, e ∈ st.reported ∨ e.Discreet u m := by
  obtain ⟨records, changes, events⟩ := run_made u runId steps st
  refine ⟨fun r hr => ?_, fun c hc => (changes c hc).imp_right MadeChange.discreet,
    fun e he => (events e he).imp_right MadeEvent.discreet⟩
  exact ⟨(records r hr).made.discreet, fun l hl i hi => ((records r hr).rounds l hl i hi).discreet⟩

/-- The secret is handed on to a workflow, where an action fails with it in its error. -/
theorem error_inside_call_hides :
    let enter : Step := ⟨{ id := "open", inputs := [("door", "{{ door }}")] }, .action ⟨"open", []⟩⟩
    let u : Setup :=
      { executor := fun _ a => { result := .error ("cannot open " ++ (a.inputs.lookup "door").getD "") }
        settings := { redactionMarker := "***" }
        library := [("enter", { inputs := [("door", {})], steps := [enter] })] }
    let steps : List Step := [⟨{ id := "call", inputs := [("door", "{{ token }}")] },
      .action ⟨"workflow", [("workflowId", .str "enter")]⟩⟩]
    let st : State := { scope := ⟨[("token", ⟨some (.str "sesame"), true⟩)], []⟩, signals := {} }
    let out := u.run "run" steps st
    "sesame" ∈ st.scope.secrets ∧ Redaction.Apart u.settings.redactionMarker "sesame" ∧
      (Record.walkAll out.1.steps).map (fun r => (r.head.resolvedInputs, r.head.error)) =
        [([("door", "***")], some "sub-workflow 'enter' failed"), ([("door", "***")], some "cannot open ***")] ∧
      ∀ r ∈ Record.walkAll out.1.steps, r.Discreet u (.first u steps st) ∧
        ∀ l ∈ r.loop, ∀ i ∈ l.iterations, i.Discreet u (.first u steps st) :=
  ⟨by decide +kernel, ⟨by decide, by simp⟩, by decide +kernel, (recorded_texts_hide_secrets _ "run" _ _).1⟩

end StepTree
