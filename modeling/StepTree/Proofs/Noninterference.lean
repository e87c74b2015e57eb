import StepTree.Proofs.Kinds
import StepTree.Proofs.Outline

/-! # What is secret does not steer a run

Of two runs that differ in marks of secrecy and in their markers alone, the one does what the other does: they
hand over the same actions and leave the same outline. Every function that carries a step out is given two
setups without their marks alike and two states of one outline, and ends in states of one outline. -/

namespace StepTree

open Setup

/-- The outline of what a step comes to. -/
def Setup.outlined (out : Record × State) : Record × State := (out.1.outline, out.2.outline)

/-- The outline of what a sequence comes to. -/
def Setup.outlinedAll (out : List Record × State) : List Record × State := (Record.outlineAll out.1, out.2.outline)

/-- Two ways to run steps come to one outline from states of one outline. -/
def Alike (body body' : State → List Record × State) : Prop :=
  ∀ st st' : State, st.outline = st'.outline → outlinedAll (body st) = outlinedAll (body' st')

/-! ### States of one outline -/

namespace State
variable {st st' : State} (h : st.outline = st'.outline)
include h

theorem calls_alike : st.calls = st'.calls := (congrArg State.calls h :)

theorem callStack_alike : st.callStack = st'.callStack := (congrArg State.callStack h :)

theorem cancelled_alike : st.cancelled = st'.cancelled := (congrArg State.cancelled h :)

theorem plain_alike : st.scope.plain = st'.scope.plain := (congrArg State.scope h :)

theorem currentFrame_alike : st.scope.currentFrame = st'.scope.currentFrame := by
  rw [← Scope.currentFrame_plain, plain_alike h, Scope.currentFrame_plain]

theorem lookup_alike : st.scope.lookup = st'.scope.lookup := by
  rw [← Scope.lookup_plain, plain_alike h, Scope.lookup_plain]

theorem get?_alike (name : String) : st.scope.get? name = st'.scope.get? name := by
  rw [← Scope.get?_plain, plain_alike h, Scope.get?_plain]

theorem rootValues_alike : st.scope.root.values = st'.scope.root.values := by
  rw [← Frame.values_plain, ← Scope.root_plain, plain_alike h, Scope.root_plain, Frame.values_plain]

theorem holds_alike : st.holds = st'.holds := by
  unfold holds
  rw [lookup_alike h]

theorem checkpoint_alike : st.checkpoint.outline = st'.checkpoint.outline := by
  rw [checkpoint_outline, h, checkpoint_outline]

theorem emit_alike {e e' : Event} (he : e.outline = e'.outline) : (st.emit e).outline = (st'.emit e').outline := by
  rw [emit_outline, h, he, emit_outline]

theorem withScope_alike {s s' : Scope} (hs : s.plain = s'.plain) :
    ({ st with scope := s } : State).outline = ({ st' with scope := s' } : State).outline := by
  have hlike : ({ st.outline with scope := s.plain } : State) = { st'.outline with scope := s'.plain } := by rw [h, hs]
  exact hlike

theorem withChange_alike {c c' : VariableChange} (hc : c.outline = c'.outline) :
    ({ st with changes := st.changes.push c } : State).outline =
      ({ st' with changes := st'.changes.push c' } : State).outline := by
  have hlike : ({ st.outline with changes := st.outline.changes.push c.outline } : State) =
      { st'.outline with changes := st'.outline.changes.push c'.outline } := by rw [h, hc]
  unfold outline
  rw [Array.map_push, Array.map_push]
  exact hlike

theorem handed_alike (a : Action) (n : Nat) (commands : List Command) :
    (st.handed a n commands).outline = (st'.handed a n commands).outline := by
  have hlike : st.outline.handed a n commands = st'.outline.handed a n commands := by rw [h]
  exact hlike

end State

/-! ### Setups that are alike without their marks -/

namespace Setup
variable {u u' : Setup} (h : u.plain = u'.plain)
include h

theorem executor_alike : u.executor = u'.executor := (congrArg Setup.executor h :)

theorem begin_alike (s : Step) : u.begin s = u'.begin s := by
  have hnow : u.now = u'.now := (congrArg Setup.now h :)
  unfold begin
  rw [hnow]

theorem timeLimit_alike (declared : Option UInt64) : u.settings.timeLimit declared = u'.settings.timeLimit declared :=
  (congrArg (fun u : Setup => u.settings.timeLimit declared) h :)

theorem iterationLimit_alike (declared : Option UInt32) :
    u.settings.iterationLimit declared = u'.settings.iterationLimit declared :=
  (congrArg (fun u : Setup => u.settings.iterationLimit declared) h :)

theorem maxCallDepth_alike : u.settings.maxCallDepth = u'.settings.maxCallDepth :=
  (congrArg (fun u : Setup => u.settings.maxCallDepth) h :)

theorem inside_alike {st st' : State} (hst : st.outline = st'.outline) (s : Step) :
    (u.inside s st).outline = (u'.inside s st').outline := by
  have hnow : u.now = u'.now := (congrArg Setup.now h :)
  have hevent : u.started (u.begin s) = u'.started (u'.begin s) := by
    unfold started
    rw [begin_alike h, hnow]
  exact State.emit_alike hst (congrArg Event.outline hevent)

end Setup

theorem sequenceStatus_alike {records records' : List Record}
    (h : Record.outlineAll records = Record.outlineAll records') :
    sequenceStatus records = sequenceStatus records' := by
  rw [← sequenceStatus_outline, h, sequenceStatus_outline]

/-! ### Actions -/

section Kinds
variable {u u' : Setup} {st st' : State} {r r' : Record} {frame : Nat}

theorem resolved_alike (h : st.outline = st'.outline) (head : StepHead) (spec : ActionSpec) :
    resolved st head spec = resolved st' head spec := by
  unfold resolved Scope.resolve
  rw [State.lookup_alike h]

theorem tryOnce_alike (hu : u.plain = u'.plain) (h : st.outline = st'.outline) (limit : Option UInt64) (a : Action) :
    (u.tryOnce limit a st).1 = (u'.tryOnce limit a st').1 ∧
      (u.tryOnce limit a st).2.outline = (u'.tryOnce limit a st').2.outline := by
  have houtcome : u.executor st.calls a = u'.executor st'.calls a := by
    rw [executor_alike hu, State.calls_alike h]
  unfold tryOnce
  rw [houtcome]
  exact ⟨rfl, State.handed_alike h a 1 _⟩

theorem tryAction_alike (hu : u.plain = u'.plain) (h : st.outline = st'.outline) (limit : Option UInt64) (a : Action)
    (more made : Nat) :
    (u.tryAction limit a more made st).1 = (u'.tryAction limit a more made st').1 ∧
      (u.tryAction limit a more made st).2.1 = (u'.tryAction limit a more made st').2.1 ∧
      (u.tryAction limit a more made st).2.2.outline = (u'.tryAction limit a more made st').2.2.outline := by
  induction more generalizing made st st' with
  | zero => exact ⟨rfl, tryOnce_alike hu h limit a⟩
  | succ more ih =>
    obtain ⟨hresult, hstate⟩ := tryOnce_alike hu h limit a
    rw [tryAction, tryAction]
    generalize u.tryOnce limit a st = out at hresult hstate ⊢
    generalize u'.tryOnce limit a st' = out' at hresult hstate ⊢
    obtain ⟨result, inner⟩ := out
    obtain ⟨result', inner'⟩ := out'
    obtain rfl : result = result' := hresult
    cases result with
    | ok value => exact ⟨rfl, rfl, hstate⟩
    | error e => exact ih hstate (made + 1)

theorem redactValue_outline (u : Setup) (st : State) (value : Json) :
    (u.redactValue st value).outline = value.outline := Json.redact_outline _ _ value

theorem mapRedactValue_outline (u : Setup) (st : State) (value : Option Json) :
    (value.map (u.redactValue st)).map Json.outline = value.map Json.outline := by
  cases value with
  | none => rfl
  | some value => exact congrArg some (redactValue_outline u st value)

theorem written_alike (h : st.outline = st'.outline) (result : Json) (o : String × String) :
    (written frame result st o).outline = (written frame result st' o).outline := by
  refine State.withScope_alike h ?_
  rw [Scope.bindInFrame_plain, Scope.bindInFrame_plain, State.plain_alike h]
  rfl

theorem change_alike (h : st.outline = st'.outline) (stepId : String) (result : Json) (o : String × String) :
    (u.change frame stepId result st o).outline = (u'.change frame stepId result st' o).outline := by
  unfold change VariableChange.outline
  dsimp only
  rw [State.get?_alike h]
  iterate 4 rw [mapRedactValue_outline]

theorem bindOutput_alike (h : st.outline = st'.outline) (stepId : String) (result : Json) (o : String × String) :
    (u.bindOutput frame stepId result st o).outline = (u'.bindOutput frame stepId result st' o).outline := by
  have hchange : (u.change frame stepId result st o).outline = (u'.change frame stepId result st' o).outline :=
    change_alike h stepId result o
  have hevent : (Event.variableChanged stepId o.2 (u.change frame stepId result st o).newValue).outline =
      (Event.variableChanged stepId o.2 (u'.change frame stepId result st' o).newValue).outline :=
    congrArg (fun c : VariableChange => Event.variableChanged stepId o.2 c.newValue) hchange
  rw [bindOutput_eq, bindOutput_eq]
  exact State.withChange_alike (State.emit_alike (written_alike h result o) hevent) hchange

theorem bindOutputs_alike (h : st.outline = st'.outline) (head : StepHead) (result : Json) :
    (u.bindOutputs frame head result st).outline = (u'.bindOutputs frame head result st').outline := by
  unfold bindOutputs
  induction head.outputs generalizing st st' with
  | nil => exact h
  | cons o rest ih => exact ih (bindOutput_alike h head.id result o)

/-- The names under which a result is recorded do not depend on what is secret. -/
theorem captured_alike (u u' : Setup) (st st' : State) (result : Json) :
    (u.captured st result).map (fun output => (output.1, output.2.outline)) =
      (u'.captured st' result).map fun output => (output.1, output.2.outline) := by
  have hentries : ∀ (u : Setup) (st : State) (entries : List (String × Json)),
      (entries.map fun entry => (entry.1, u.redactValue st entry.2)).map (fun output => (output.1, output.2.outline)) =
        entries.map fun output => (output.1, output.2.outline) := by
    intro u st entries
    rw [List.map_map]
    exact List.map_congr_left fun entry _ => congrArg (entry.1, ·) (redactValue_outline u st entry.2)
  cases result with
  | null => rfl
  | obj entries => exact (hentries u st entries).trans (hentries u' st' entries).symm
  | _ =>
    exact congrArg (fun value => [("result", value)])
      ((redactValue_outline u st _).trans (redactValue_outline u' st' _).symm)

theorem fail_alike (u u' : Setup) (st st' : State) (hr : r.outline = r'.outline) (e : StepError) :
    (u.fail st r e).outline = (u'.fail st' r' e).outline := by
  unfold fail
  rw [Record.fail_outline, hr, Record.fail_outline]

theorem conclude_alike (h : st.outline = st'.outline) (hr : r.outline = r'.outline) (head : StepHead)
    (result : Except StepError Json) :
    outlined (u.conclude frame head r result st) = outlined (u'.conclude frame head r' result st') := by
  cases result with
  | error e => exact Prod.ext (fail_alike u u' st st' hr e) h
  | ok value =>
    refine Prod.ext ?_ (bindOutputs_alike h head value)
    change (Record.withStatus { r with head := { r.head with capturedOutputs := _ } } .passed).outline =
      (Record.withStatus { r' with head := { r'.head with capturedOutputs := _ } } .passed).outline
    rw [Record.withStatus_outline, Record.withOutputs_outline, hr, captured_alike u u' st st' value,
      ← Record.withOutputs_outline, ← Record.withStatus_outline]

theorem perform_alike (hu : u.plain = u'.plain) (h : st.outline = st'.outline) (hr : r.outline = r'.outline)
    (head : StepHead) (a : Action) :
    outlined (u.perform frame head a r st) = outlined (u'.perform frame head a r' st') := by
  obtain ⟨hmade, hresult, hstate⟩ :=
    tryAction_alike hu h (u.settings.timeLimit head.timeoutMs) a (head.attempts - 1) 0
  unfold perform
  dsimp only
  rw [← timeLimit_alike hu, hmade, hresult]
  refine conclude_alike hstate ?_ head _
  rw [Record.withAttempts_outline, hr, Record.withAttempts_outline]

/-! ### Calls -/

/-- The workflow that a call enters is the same up to the marks of its inputs. -/
theorem callee_alike (hu : u.plain = u'.plain) (h : st.outline = st'.outline) (mayEnter : Bool) (a : Action) :
    (u.callee mayEnter st a).map (fun entered => (entered.1, entered.2.plain)) =
      (u'.callee mayEnter st' a).map fun entered => (entered.1, entered.2.plain) := by
  have hactive : u.active st = u'.active st' := by
    have hroot : u.root = u'.root := (congrArg Setup.root hu :)
    rw [active, active, hroot, State.callStack_alike h]
  have hlibrary : ∀ id, (Ordered.get? id u.library).map Workflow.plain =
      (Ordered.get? id u'.library).map Workflow.plain := by
    intro id
    rw [← Ordered.get?_map, ← Ordered.get?_map]
    exact congrArg (fun u : Setup => Ordered.get? id u.library) hu
  unfold callee
  rw [hactive, maxCallDepth_alike hu]
  cases calleeId? a with
  | none => rfl
  | some id =>
    have hentry := hlibrary id
    dsimp only
    split
    · rfl
    · split
      · rfl
      · generalize Ordered.get? id u.library = w at hentry ⊢
        generalize Ordered.get? id u'.library = w' at hentry ⊢
        cases w <;> cases w'
        · rfl
        · cases hentry
        · cases hentry
        · exact congrArg (fun w => Except.ok (id, w)) (Option.some.inj hentry)

theorem calleeState_alike (h : st.outline = st'.outline) {w w' : Workflow} (hw : w.plain = w'.plain) (id : String)
    (a : Action) : (calleeState id w a st).outline = (calleeState id w' a st').outline := by
  have hdefaults : w.inputDefaults = w'.inputDefaults := by
    rw [← w.inputDefaults_plain, hw, w'.inputDefaults_plain]
  have hvars : w.vars = w'.vars := (congrArg Workflow.vars hw :)
  have hscope : (calleeScope w st.scope.secrets a.inputs).plain =
      (calleeScope w' st'.scope.secrets a.inputs).plain := by
    rw [calleeScope_plain, calleeScope_plain, hdefaults, hvars]
  change ({ st.outline with
      scope := (calleeScope w st.scope.secrets a.inputs).plain, callStack := st.outline.callStack ++ [id] } : State) =
    { st'.outline with
      scope := (calleeScope w' st'.scope.secrets a.inputs).plain, callStack := st'.outline.callStack ++ [id] }
  rw [h, hscope]

theorem callEnded_alike (h : st.outline = st'.outline) (hr : r.outline = r'.outline) (head : StepHead) (id : String)
    {out out' : List Record × State} (hout : outlinedAll out = outlinedAll out') :
    outlined (u.callEnded frame head r id st out) = outlined (u'.callEnded frame head r' id st' out') := by
  have hchildren : Record.outlineAll out.1 = Record.outlineAll out'.1 := congrArg Prod.fst hout
  have hinner : out.2.outline = out'.2.outline := congrArg Prod.snd hout
  have hback : (returned st out.2).outline = (returned st' out'.2).outline := by
    change returned st.outline out.2.outline = returned st'.outline out'.2.outline
    rw [h, hinner]
  have hrecord : ({ recordAttempts r 1 with children := out.1 } : Record).outline =
      ({ recordAttempts r' 1 with children := out'.1 } : Record).outline := by
    rw [Record.withChildren_outline, Record.withAttempts_outline, hr, hchildren, ← Record.withAttempts_outline,
      ← Record.withChildren_outline]
  have hstatus : sequenceStatus out.1 = sequenceStatus out'.1 := sequenceStatus_alike hchildren
  have hvalues : out.2.scope.root.values = out'.2.scope.root.values := State.rootValues_alike hinner
  unfold callEnded
  dsimp only
  rw [State.cancelled_alike hback, hstatus, hvalues]
  split
  · refine Prod.ext ?_ hback
    rw [outlined, outlined, Record.skip_outline, hrecord, Record.skip_outline]
  · split
    · exact Prod.ext (fail_alike u u' _ _ hrecord _) hback
    · exact conclude_alike hback hrecord head _

/-- Two ways to run the steps of callees. -/
def AlikeBodies (body body' : Option Body) : Prop :=
  body.isSome = body'.isSome ∧ ∀ run ∈ body, ∀ run' ∈ body', ∀ steps, Alike (run steps) (run' steps)

theorem call_alike (hu : u.plain = u'.plain) {body body' : Option Body} (hbody : AlikeBodies body body')
    (h : st.outline = st'.outline) (hr : r.outline = r'.outline) (head : StepHead) (a : Action) :
    outlined (u.call body frame head a r st) = outlined (u'.call body' frame head a r' st') := by
  have hattempts : (recordAttempts r 1).outline = (recordAttempts r' 1).outline := by
    rw [Record.withAttempts_outline, hr, Record.withAttempts_outline]
  have hcallee := callee_alike hu h body.isSome a
  cases he : u.callee body.isSome st a with
  | error e =>
    cases he' : u'.callee body.isSome st' a with
    | error e' =>
      rw [he, he'] at hcallee
      obtain rfl : e = e' := Except.error.inj hcallee
      rw [call_of_error he, call_of_error (hbody.1 ▸ he')]
      exact Prod.ext (fail_alike u u' st st' hattempts e) h
    | ok entered' =>
      rw [he, he'] at hcallee
      cases hcallee
  | ok entered =>
    cases he' : u'.callee body.isSome st' a with
    | error e' =>
      rw [he, he'] at hcallee
      cases hcallee
    | ok entered' =>
      rw [he, he'] at hcallee
      obtain ⟨id, w⟩ := entered
      obtain ⟨id', w'⟩ := entered'
      obtain ⟨rfl, hw⟩ : id = id' ∧ w.plain = w'.plain := Prod.mk.inj (Except.ok.inj hcallee)
      have hsteps : w.steps = w'.steps := (congrArg Workflow.steps hw :)
      have hsome : body.isSome = true := (callee_eq_ok.mp he).2.2.1
      obtain ⟨run, rfl⟩ := Option.isSome_iff_exists.mp hsome
      obtain ⟨run', rfl⟩ := Option.isSome_iff_exists.mp (hbody.1.symm.trans hsome)
      rw [call_of_ok he, call_of_ok he', ← hsteps]
      exact callEnded_alike h hr head id (hbody.2 run rfl run' rfl w.steps _ _ (calleeState_alike h hw id a))

theorem act_alike (hu : u.plain = u'.plain) {body body' : Option Body} (hbody : AlikeBodies body body')
    (h : st.outline = st'.outline) (hr : r.outline = r'.outline) (head : StepHead) (spec : ActionSpec) :
    outlined (u.act body frame head spec r st) = outlined (u'.act body' frame head spec r' st') := by
  have hinputs : (u.recordInputs st r (resolved st head spec)).outline =
      (u'.recordInputs st' r' (resolved st' head spec)).outline := by
    unfold recordInputs
    rw [Record.withInputs_outline, Record.withInputs_outline, hr, resolved_alike h, List.map_map, List.map_map]
    rfl
  have haction := resolved_alike h head spec
  unfold act
  dsimp only
  rw [haction] at hinputs ⊢
  split
  · exact call_alike hu hbody h hinputs head _
  · exact perform_alike hu h hinputs head _

/-! ### Branches -/

theorem evaluate_alike (h : st.outline = st'.outline) (index : Nat) (a : Arm) :
    (a.evaluate u st index).outline = (a.evaluate u' st' index).outline := by
  unfold Arm.evaluate
  dsimp only
  rw [State.holds_alike h]
  split
  · rfl
  · cases st'.holds a.condition with
    | ok result => rfl
    | error e => simp only [ArmEvaluation.outline, Option.map_some]

theorem evaluateAll_alike (h : st.outline = st'.outline) (index : Nat) (arms : List Arm) :
    (Arm.evaluateAll u st index arms).map ArmEvaluation.outline =
      (Arm.evaluateAll u' st' index arms).map ArmEvaluation.outline := by
  induction arms generalizing index with
  | nil => rfl
  | cons a rest ih =>
    have hone : (a.evaluate u st index).outline = (a.evaluate u' st' index).outline := evaluate_alike h index a
    have hresult : (a.evaluate u st index).result = (a.evaluate u' st' index).result := by
      rw [← ArmEvaluation.outline_result, hone, ArmEvaluation.outline_result]
    rw [Arm.evaluateAll, Arm.evaluateAll, hresult]
    split
    · exact congrArg ([·]) hone
    · rw [List.map_cons, List.map_cons, hone, ih]

theorem noneTaken_alike (hr : r.outline = r'.outline) {evaluated evaluated' : List ArmEvaluation}
    (h : evaluated.map ArmEvaluation.outline = evaluated'.map ArmEvaluation.outline) :
    (noneTaken evaluated r).outline = (noneTaken evaluated' r').outline := by
  have herrors : ∀ evaluated : List ArmEvaluation, (evaluated.filterMap (·.error)).map (fun _ => "") =
      (evaluated.map ArmEvaluation.outline).filterMap (·.error) := by
    intro evaluated
    rw [List.map_filterMap, List.filterMap_map]
    rfl
  have hsame : (evaluated.filterMap (·.error)).map (fun _ => "") =
      (evaluated'.filterMap (·.error)).map fun _ => "" := by
    rw [herrors, h, herrors]
  unfold noneTaken
  generalize evaluated.filterMap (·.error) = errors at hsame ⊢
  generalize evaluated'.filterMap (·.error) = errors' at hsame ⊢
  cases errors <;> cases errors'
  · dsimp only
    rw [Record.skip_outline, hr, Record.skip_outline]
  · cases hsame
  · cases hsame
  · dsimp only
    rw [Record.fail_outline, hr, Record.fail_outline]

theorem branch_alike (hr : r.outline = r'.outline) (h : st.outline = st'.outline) (stepId : String) (arms : List Arm)
    {body body' : Nat → State → List Record × State} (hbody : ∀ index, Alike (body index) (body' index)) :
    outlined (u.branch stepId arms body r st) = outlined (u'.branch stepId arms body' r' st') := by
  have hall : (Arm.evaluateAll u st 0 arms).map ArmEvaluation.outline =
      (Arm.evaluateAll u' st' 0 arms).map ArmEvaluation.outline := evaluateAll_alike h 0 arms
  have hfind : ∀ evaluated : List ArmEvaluation, (evaluated.find? (·.result)).map ArmEvaluation.outline =
      (evaluated.map ArmEvaluation.outline).find? (·.result) := by
    intro evaluated
    rw [List.find?_map]
    rfl
  have htaken : ((Arm.evaluateAll u st 0 arms).find? (·.result)).map ArmEvaluation.outline =
      ((Arm.evaluateAll u' st' 0 arms).find? (·.result)).map ArmEvaluation.outline := by
    rw [hfind, hall, hfind]
  unfold branch
  split
  · refine Prod.ext ?_ h
    rw [outlined, outlined, Record.withStatus_outline, hr, Record.withStatus_outline]
  · dsimp only
    cases he : (Arm.evaluateAll u st 0 arms).find? (·.result) with
    | none =>
      rw [he] at htaken
      rw [Option.map_eq_none_iff.mp htaken.symm]
      exact Prod.ext (noneTaken_alike hr hall) h
    | some e =>
      rw [he] at htaken
      obtain ⟨e', he', hsame⟩ := Option.map_eq_some_iff.mp htaken.symm
      have hindex : e'.index = e.index := (congrArg ArmEvaluation.index hsame :)
      have hlabel : e'.label = e.label := (congrArg ArmEvaluation.label hsame :)
      rw [he']
      dsimp only
      rw [hindex, hlabel]
      have hout := hbody e.index _ _ (State.emit_alike h (e := .branchSelected stepId e.index e.label) rfl)
      generalize body e.index (st.emit (.branchSelected stepId e.index e.label)) = out at hout ⊢
      generalize body' e.index (st'.emit (.branchSelected stepId e.index e.label)) = out' at hout ⊢
      have hchildren : Record.outlineAll out.1 = Record.outlineAll out'.1 := (congrArg Prod.fst hout :)
      have hstatus : sequenceStatus out.1 = sequenceStatus out'.1 := sequenceStatus_alike hchildren
      refine Prod.ext ?_ (congrArg Prod.snd hout :)
      rw [outlined, outlined, Record.withStatus_outline, Record.withStatus_outline, Record.withBranch_outline,
        Record.withBranch_outline, hr, hchildren, hstatus, Selection.outline, Selection.outline, hall]

end Kinds

/-! ### Loops -/

namespace Repetition
variable {l : Repetition} {u u' : Setup} {st st' : State} {index : Nat}

theorem opened_outline (l : Repetition) (index : Nat) (st : State) :
    (l.opened index st).outline = l.opened index st.outline := by
  have hscope : (l.opened index st).scope.plain = (l.opened index st.outline).scope := by
    unfold opened
    dsimp only
    rw [Scope.set_plain, Scope.set_plain, apply_ite Scope.plain, Scope.set_plain, Scope.push_plain]
    rfl
  exact congrArg (fun scope => ({ st.outline with scope } : State)) hscope

theorem opened_alike (h : st.outline = st'.outline) :
    (l.opened index st).outline = (l.opened index st').outline := by
  rw [opened_outline, h, opened_outline]

theorem carry_plain (l : Repetition) (bound : Frame) (s : Scope) :
    (l.carry bound s).plain = l.carry bound.plain s.plain := by
  unfold carry Frame.plain
  dsimp only
  rw [List.filter_map, List.foldl_map]
  exact (List.foldl_hom Scope.plain fun s entry => (s.bindInFrame_plain l.frame entry.1 entry.2).symm).symm

theorem closed_outline (l : Repetition) (st : State) : (l.closed st).outline = l.closed st.outline := by
  have hpop : st.outline.scope.pop? = st.scope.pop?.map fun p => (p.1.plain, p.2.plain) := st.scope.pop?_plain
  unfold closed
  rw [hpop]
  cases st.scope.pop? with
  | none => rfl
  | some p =>
    have hscope : (if l.plan.isWhilst then l.carry p.1 p.2 else p.2).plain =
        if l.plan.isWhilst then l.carry p.1.plain p.2.plain else p.2.plain := by
      rw [apply_ite Scope.plain, carry_plain]
    exact congrArg (fun scope => ({ st.outline with scope } : State)) hscope

theorem closed_alike (h : st.outline = st'.outline) : (l.closed st).outline = (l.closed st').outline := by
  rw [closed_outline, h, closed_outline]

theorem stopBefore?_alike (h : st.outline = st'.outline) : l.stopBefore? index st = l.stopBefore? index st' := by
  unfold stopBefore?
  rw [State.cancelled_alike h, State.holds_alike h]

theorem stop?_alike (h : st.outline = st'.outline) : l.stop? index st = l.stop? index st' := by
  have hbreak : l.break? (l.opened index st) = l.break? (l.opened index st') := by
    unfold break?
    rw [State.holds_alike (opened_alike h)]
  unfold stop?
  rw [stopBefore?_alike h, hbreak]

theorem iterationHead_alike {i i' : Iteration} (h : i.outline = i'.outline) : i.head.outline = i'.head.outline := by
  rw [← Iteration.head_outline, h, Iteration.head_outline]

theorem stopAfter?_alike (h : st.outline = st'.outline) {i i' : Iteration} (hi : i.outline = i'.outline) :
    l.stopAfter? i st = l.stopAfter? i' st' := by
  have hstatus : i.head.status = i'.head.status := (congrArg IterationHead.status (iterationHead_alike hi) :)
  unfold stopAfter?
  rw [State.cancelled_alike h, hstatus]

theorem iterate_alike {body : State → List Record × State} (hbody : Alike l.body body) (h : st.outline = st'.outline)
    {item item' : Json} (hitem : item.outline = item'.outline) :
    (l.iterate u index item st).1.outline = ((l.withBody body).iterate u' index item' st').1.outline ∧
      (l.iterate u index item st).2.outline = ((l.withBody body).iterate u' index item' st').2.outline := by
  have hhead : ∀ status, ({ index, itemValue := item, status } : IterationHead).outline =
      ({ index, itemValue := item', status } : IterationHead).outline := by
    intro status
    rw [IterationHead.outline, IterationHead.outline, hitem]
  have hout : outlinedAll (l.body st) = outlinedAll (body st') := hbody st st' h
  have hchildren : Record.outlineAll (l.body st).1 = Record.outlineAll (body st').1 := (congrArg Prod.fst hout :)
  have hran : (Iteration.mk { index, itemValue := item, status := sequenceStatus (l.body st).1 }
        (l.body st).1).outline =
      (Iteration.mk { index, itemValue := item', status := sequenceStatus (body st').1 } (body st').1).outline := by
    rw [Iteration.outline, Iteration.outline, hhead, hchildren, sequenceStatus_alike hchildren]
  have hconfig : (l.withBody body).config = l.config := rfl
  unfold iterate
  rw [hconfig, State.holds_alike h]
  rcases l.config.continueCondition.map st'.holds with _ | (e | b)
  · exact ⟨hran, (congrArg Prod.snd hout :)⟩
  · exact ⟨congrArg (fun head : IterationHead => Iteration.mk { head with error := some "" } []) (hhead .failed), h⟩
  · cases b
    · exact ⟨hran, (congrArg Prod.snd hout :)⟩
    · exact ⟨congrArg (Iteration.mk · []) (hhead .skipped), h⟩

theorem round_alike {body : State → List Record × State} (hbody : Alike l.body body) (h : st.outline = st'.outline)
    (index : Nat) :
    (l.round u index st).1.outline = ((l.withBody body).round u' index st').1.outline ∧
      (l.round u index st).2.outline = ((l.withBody body).round u' index st').2.outline := by
  have hitem : (u.redactValue st (l.plan.item index)).outline = (u'.redactValue st' (l.plan.item index)).outline := by
    rw [redactValue_outline, redactValue_outline]
  have hstart : (st.emit (.iterationStarted l.stepId index (u.redactValue st (l.plan.item index)))).outline =
      (st'.emit (.iterationStarted l.stepId index (u'.redactValue st' (l.plan.item index)))).outline :=
    State.emit_alike h (congrArg (Event.iterationStarted l.stepId index) hitem)
  obtain ⟨hi, hst⟩ : (l.iteration u index st).1.outline = ((l.withBody body).iteration u' index st').1.outline ∧
      (l.iteration u index st).2.outline = ((l.withBody body).iteration u' index st').2.outline :=
    iterate_alike hbody hstart hitem
  rw [round_eq, round_eq]
  generalize l.iteration u index st = out at hi hst ⊢
  generalize (l.withBody body).iteration u' index st' = out' at hi hst ⊢
  have hhead := iterationHead_alike hi
  have hstatus : out.1.head.status = out'.1.head.status := (congrArg IterationHead.status hhead :)
  have hduration : out.1.head.durationMs = out'.1.head.durationMs := (congrArg IterationHead.durationMs hhead :)
  refine ⟨hi, State.emit_alike (closed_alike hst) ?_⟩
  rw [hstatus, hduration]
  rfl

theorem rounds_alike {body : State → List Record × State} (hbody : Alike l.body body) (left index : Nat)
    {record record' : LoopRecord} (hrecord : record.outline = record'.outline) (h : st.outline = st'.outline) :
    (l.rounds u left index record st).1.outline = ((l.withBody body).rounds u' left index record' st').1.outline ∧
      (l.rounds u left index record st).2.1 = ((l.withBody body).rounds u' left index record' st').2.1 ∧
      (l.rounds u left index record st).2.2.outline =
        ((l.withBody body).rounds u' left index record' st').2.2.outline := by
  have hbodiless : ∀ index st, (l.withBody body).stop? index st = l.stop? index st := fun _ _ => rfl
  -- The states and the records of the two loops may differ anew in every round, but not their outlines.
  induction left generalizing index record record' st st' with
  | zero =>
    have hlook := State.checkpoint_alike h
    have hstop : (l.withBody body).stopBefore? index st'.checkpoint = l.stopBefore? index st.checkpoint := by
      rw [stopBefore?_alike hlook]
      rfl
    rw [rounds_zero, rounds_zero, hstop]
    exact ⟨hrecord, rfl, hlook⟩
  | succ left ih =>
    have hlook := State.checkpoint_alike h
    obtain ⟨hi, hst⟩ : (l.round u index (l.opened index st.checkpoint)).1.outline =
          ((l.withBody body).round u' index (l.opened index st'.checkpoint)).1.outline ∧
        (l.round u index (l.opened index st.checkpoint)).2.outline =
          ((l.withBody body).round u' index (l.opened index st'.checkpoint)).2.outline :=
      round_alike hbody (opened_alike hlook) index
    have hround : (l.withBody body).round u' index ((l.withBody body).opened index st'.checkpoint) =
        (l.withBody body).round u' index (l.opened index st'.checkpoint) := rfl
    have hafter : (l.withBody body).stopAfter? = l.stopAfter? := rfl
    rw [rounds_succ, rounds_succ, hbodiless, stop?_alike hlook, hround]
    cases l.stop? index st'.checkpoint with
    | some stop => exact ⟨hrecord, rfl, hlook⟩
    | none =>
      generalize l.round u index (l.opened index st.checkpoint) = out at hi hst ⊢
      generalize (l.withBody body).round u' index (l.opened index st'.checkpoint) = out' at hi hst ⊢
      have hadd : (record.add out.1).outline = (record'.add out'.1).outline := by
        rw [LoopRecord.add_outline, hrecord, hi, LoopRecord.add_outline]
      dsimp only
      rw [hafter, ← stopAfter?_alike hst hi]
      cases l.stopAfter? out.1 out.2 with
      | some stop => exact ⟨hadd, rfl, hst⟩
      | none => exact ih (index + 1) hadd hst

theorem ended_alike {r r' : Record} {record record' : LoopRecord} (hr : r.outline = r'.outline)
    (hrecord : record.outline = record'.outline) (stop : Stop) :
    (ended u r record stop st).outline = (ended u' r' record' stop st').outline := by
  have hloop : ({ r with loop := some record } : Record).outline =
      ({ r' with loop := some record' } : Record).outline := by
    rw [Record.withLoop_outline, hr, hrecord, Record.withLoop_outline]
  have hfailed : record.summary.failed = record'.summary.failed := by
    rw [← LoopRecord.summary_outline, hrecord, LoopRecord.summary_outline]
  cases stop with
  | failure e => exact fail_alike u u' st st' hloop _
  | exit reason =>
    unfold ended
    dsimp only
    rw [Record.withStatus_outline, hloop, hfailed, Record.withStatus_outline]

theorem run_alike {r r' : Record} {body : State → List Record × State} (hbody : Alike l.body body)
    (hr : r.outline = r'.outline) (h : st.outline = st'.outline) :
    outlined (l.run u r st) = outlined ((l.withBody body).run u' r' st') := by
  have hpushed : ({ st with scope := st.scope.push } : State).outline =
      ({ st' with scope := st'.scope.push } : State).outline :=
    State.withScope_alike h (by rw [Scope.push_plain, State.plain_alike h, Scope.push_plain])
  obtain ⟨hrecord, hstop, hst⟩ : (l.turns u st).1.outline = ((l.withBody body).turns u' st').1.outline ∧
      (l.turns u st).2.1 = ((l.withBody body).turns u' st').2.1 ∧
      (l.turns u st).2.2.outline = ((l.withBody body).turns u' st').2.2.outline :=
    rounds_alike hbody l.limit.toNat 0 rfl hpushed
  rw [run_eq, run_eq]
  generalize l.turns u st = out at hrecord hstop hst ⊢
  generalize (l.withBody body).turns u' st' = out' at hrecord hstop hst ⊢
  dsimp only
  rw [hstop]
  have hended : (out.1.ended out'.2.1.reason).outline = (out'.1.ended out'.2.1.reason).outline := by
    rw [LoopRecord.ended_outline, hrecord, LoopRecord.ended_outline]
  have hsummary : (out.1.ended out'.2.1.reason).summary = (out'.1.ended out'.2.1.reason).summary := by
    rw [← LoopRecord.summary_outline, hended, LoopRecord.summary_outline]
  have hpopped : ({ out.2.2 with scope := out.2.2.scope.pop } : State).outline =
      ({ out'.2.2 with scope := out'.2.2.scope.pop } : State).outline :=
    State.withScope_alike hst (by rw [Scope.pop_plain, State.plain_alike hst, Scope.pop_plain])
  refine Prod.ext (ended_alike hr hended _) (State.emit_alike hpopped ?_)
  rw [hstop, hsummary]
  rfl

end Repetition

section Kinds
variable {u u' : Setup} {st st' : State} {r r' : Record} {frame : Nat}

theorem loop_alike (hu : u.plain = u'.plain) (hr : r.outline = r'.outline) (h : st.outline = st'.outline)
    (stepId : String) (config : LoopConfig) (isEmpty : Bool) {body body' : State → List Record × State}
    (hbody : Alike body body') :
    outlined (u.loop stepId config isEmpty body r st) = outlined (u'.loop stepId config isEmpty body' r' st') := by
  have hrecord : ∀ record : LoopRecord, ({ r with loop := some record } : Record).outline =
      ({ r' with loop := some record } : Record).outline := by
    intro record
    rw [Record.withLoop_outline, hr, Record.withLoop_outline]
  unfold loop
  rw [← iterationLimit_alike hu, State.lookup_alike h]
  dsimp only
  split
  · refine Prod.ext ?_ h
    rw [outlined, outlined, Record.withStatus_outline, hrecord, Record.withStatus_outline]
  · cases config.plan st'.scope.lookup with
    | error e => exact Prod.ext (fail_alike u u' st st' (hrecord _) _) h
    | ok plan =>
      have hframe : st.scope.push.currentFrame = st'.scope.push.currentFrame :=
        congrArg (· + 1) (State.currentFrame_alike h)
      rw [hframe]
      exact Repetition.run_alike hbody hr h

/-! ### Steps -/

theorem gate_alike (h : st.outline = st'.outline) (head : StepHead) : gate head st = gate head st' := by
  unfold gate
  rw [State.holds_alike h]

theorem reported_alike {out out' : Record × State} (h : outlined out = outlined out') :
    outlined (reported out) = outlined (reported out') := by
  have hrecord : out.1.outline = out'.1.outline := (congrArg Prod.fst h :)
  have hevent : out.1.finished.outline = out'.1.finished.outline := by
    rw [Record.finished_outline, hrecord, Record.finished_outline]
  exact Prod.ext hrecord (State.emit_alike (congrArg Prod.snd h :) hevent)

theorem skip_alike (h : st.outline = st'.outline) (s : Step) (reason : SkipReason) :
    outlined (st.skip s reason) = outlined (st'.skip s reason) :=
  Prod.ext rfl (State.emit_alike h rfl)

theorem runStep_alike (hu : u.plain = u'.plain) (h : st.outline = st'.outline) {callee callee' : Option Body} {s : Step}
    (kind : outlined (u.runKind callee frame s.head s.kind (u.begin s) (u.inside s st)) =
      outlined (u'.runKind callee' frame s.head s.kind (u'.begin s) (u'.inside s st'))) :
    outlined (u.runStep callee frame s st) = outlined (u'.runStep callee' frame s st') := by
  have hgate := gate_alike h s.head
  cases hg : gate s.head st with
  | skip reason =>
    rw [runStep_of_skip hg, runStep_of_skip (hgate ▸ hg)]
    exact skip_alike h s reason
  | failure e =>
    rw [runStep_of_failure hg, runStep_of_failure (hgate ▸ hg)]
    refine reported_alike (Prod.ext ?_ (inside_alike hu h s))
    exact fail_alike u u' _ _ (congrArg Record.outline (begin_alike hu s)) _
  | begin =>
    rw [runStep_of_begin hg, runStep_of_begin (hgate ▸ hg)]
    exact reported_alike kind

theorem visit_alike {callee callee' : Option Body} {s : Step}
    (one : ∀ st st' : State, st.outline = st'.outline →
      outlined (u.runStep callee frame s st) = outlined (u'.runStep callee' frame s st'))
    (h : st.outline = st'.outline) (stopped : Bool) :
    outlined (u.visit callee frame stopped s st) = outlined (u'.visit callee' frame stopped s st') := by
  have hlook := State.checkpoint_alike h
  unfold visit
  dsimp only
  rw [State.cancelled_alike hlook]
  split
  · exact skip_alike hlook s _
  · split
    · exact skip_alike hlook s _
    · exact one _ _ hlook

theorem stops_alike (h : r.outline = r'.outline) (head : StepHead) : stops head r = stops head r' := by
  unfold stops
  rw [← Record.hasOwnFailure_outline, h, Record.hasOwnFailure_outline]

end Kinds

/-! ### Whole runs -/

namespace Setup
variable {u u' : Setup}

/-- Every step and every sequence comes to the same in both runs. -/
theorem run_alike (hu : u.plain = u'.plain) (depth : Nat) :
    (∀ s frame st st', st.outline = st'.outline → outlined (u.runStep (u.bodyWithin depth) frame s st) =
      outlined (u'.runStep (u'.bodyWithin depth) frame s st')) ∧
    ∀ steps frame stopped, Alike (u.runSteps (u.bodyWithin depth) frame stopped steps)
      (u'.runSteps (u'.bodyWithin depth) frame stopped steps) := by
  -- A sequence inside a step writes into the frame that is innermost when it begins, the same in both runs.
  have inner : ∀ depth steps, (∀ frame stopped, Alike (u.runSteps (u.bodyWithin depth) frame stopped steps)
      (u'.runSteps (u'.bodyWithin depth) frame stopped steps)) →
      Alike (fun st => u.runSteps (u.bodyWithin depth) st.scope.currentFrame false steps st)
        (fun st => u'.runSteps (u'.bodyWithin depth) st.scope.currentFrame false steps st) := by
    intro depth steps all st st' h
    dsimp only
    rw [← State.currentFrame_alike h]
    exact all _ _ _ _ h
  refine run_induction
    (fun depth s => ∀ frame st st', st.outline = st'.outline → outlined (u.runStep (u.bodyWithin depth) frame s st) =
      outlined (u'.runStep (u'.bodyWithin depth) frame s st'))
    (fun depth steps => ∀ frame stopped, Alike (u.runSteps (u.bodyWithin depth) frame stopped steps)
      (u'.runSteps (u'.bodyWithin depth) frame stopped steps)) ?nil ?cons ?action ?group ?loop ?branch depth
  case nil =>
    intro depth frame stopped st st' h
    rw [runSteps_nil, runSteps_nil]
    exact Prod.ext rfl h
  case cons =>
    intro depth s rest one all frame stopped st st' h
    have hvisit : outlined (u.visit (u.bodyWithin depth) frame stopped s st) =
        outlined (u'.visit (u'.bodyWithin depth) frame stopped s st') := visit_alike (one frame) h stopped
    rw [runSteps_cons, runSteps_cons]
    generalize u.visit (u.bodyWithin depth) frame stopped s st = out at hvisit ⊢
    generalize u'.visit (u'.bodyWithin depth) frame stopped s st' = out' at hvisit ⊢
    have hrecord : out.1.outline = out'.1.outline := (congrArg Prod.fst hvisit :)
    have hrest := all frame (stopped || stops s.head out.1) out.2 out'.2 (congrArg Prod.snd hvisit :)
    dsimp only
    rw [← stops_alike hrecord]
    exact Prod.ext (congrArg₂ List.cons hrecord (congrArg Prod.fst hrest :)) (congrArg Prod.snd hrest :)
  case action =>
    intro depth head spec callee frame st st' h
    refine runStep_alike hu h ?_
    rw [runKind, runKind]
    refine act_alike hu ⟨?_, ?_⟩ (inside_alike hu h _) (congrArg Record.outline (begin_alike hu _)) head spec
    · cases depth <;> rfl
    · intro run hrun run' hrun' steps st st' h
      obtain ⟨d, rfl, rfl⟩ := bodyWithin_eq_some hrun
      obtain rfl : u'.runWithin d = run' := Option.some.inj hrun'
      rw [runWithin_eq, runWithin_eq]
      exact inner d steps (callee d rfl steps) st st' h
  case group =>
    intro depth head children all frame st st' h
    refine runStep_alike hu h ?_
    rw [runKind, runKind]
    have hinside := inside_alike hu h ⟨head, .group children⟩
    have hbegin : (u.begin ⟨head, .group children⟩).outline = (u'.begin ⟨head, .group children⟩).outline :=
      congrArg Record.outline (begin_alike hu _)
    have hout := inner depth children all _ _ hinside
    dsimp only at hout ⊢
    generalize u.runSteps _ _ _ _ _ = out at hout ⊢
    generalize u'.runSteps _ _ _ _ _ = out' at hout ⊢
    have hchildren : Record.outlineAll out.1 = Record.outlineAll out'.1 := (congrArg Prod.fst hout :)
    refine Prod.ext ?_ (congrArg Prod.snd hout :)
    rw [outlined, outlined, Record.withStatus_outline, Record.withChildren_outline, hbegin, hchildren,
      sequenceStatus_alike hchildren, ← Record.withChildren_outline, ← Record.withStatus_outline]
  case loop =>
    intro depth head config children all frame st st' h
    refine runStep_alike hu h ?_
    rw [runKind, runKind]
    exact loop_alike hu (congrArg Record.outline (begin_alike hu _)) (inside_alike hu h _) _ _ _
      (inner depth children all)
  case branch =>
    intro depth head arms all frame st st' h
    refine runStep_alike hu h ?_
    rw [runKind, runKind]
    refine branch_alike (congrArg Record.outline (begin_alike hu _)) (inside_alike hu h _) _ _ fun index => ?_
    intro st st' h
    dsimp only
    rw [runArm_eq, runArm_eq]
    split
    · exact Prod.ext rfl h
    · next a ha => exact inner depth a.children (all a (List.mem_of_getElem? ha)) st st' h

theorem trace_alike (hu : u.plain = u'.plain) (runId : String) (steps : List Step) {st st' : State}
    (h : st.outline = st'.outline) :
    (u.run runId steps st).1.outline = (u'.run runId steps st').1.outline ∧
      (u.run runId steps st).2.outline = (u'.run runId steps st').2.outline := by
  have hout : outlinedAll (u.runWithin u.settings.maxCallDepth steps st) =
      outlinedAll (u'.runWithin u'.settings.maxCallDepth steps st') := by
    rw [maxCallDepth_alike hu, runWithin_eq, runWithin_eq, State.currentFrame_alike h]
    exact (run_alike hu _).2 steps _ false st st' h
  have hnow : u.now = u'.now := (congrArg Setup.now hu :)
  unfold run
  generalize u.runWithin u.settings.maxCallDepth steps st = out at hout ⊢
  generalize u'.runWithin u'.settings.maxCallDepth steps st' = out' at hout ⊢
  have hrecords : Record.outlineAll out.1 = Record.outlineAll out'.1 := (congrArg Prod.fst hout :)
  have hstate : out.2.outline = out'.2.outline := (congrArg Prod.snd hout :)
  have hstatus : RunStatus.of out.1 out.2.cancelled = .of out'.1 out'.2.cancelled := by
    rw [← RunStatus.of_outline, hrecords, State.cancelled_alike hstate, RunStatus.of_outline]
  have hsummary : RunSummary.of out.1 = .of out'.1 := by
    rw [← RunSummary.of_outline, hrecords, RunSummary.of_outline]
  have hchanges : out.2.changes.toList.map VariableChange.outline =
      out'.2.changes.toList.map VariableChange.outline := by
    rw [← Array.toList_map, ← Array.toList_map]
    exact (congrArg (fun st : State => st.changes.toList) hstate :)
  refine ⟨?_, hstate⟩
  rw [Trace.outline, Trace.outline]
  dsimp only
  rw [hstatus, hsummary, hchanges, hrecords, hnow]

end Setup

/-- Of two runs whose scopes have the same frames and values, and whose setups differ in the marker and in the marks
of the workflows to call alone, the one hands over the same actions as the other, with the same inputs; its trace and
its events have the same outline, and its scope holds the same values in the end. -/
theorem secrets_do_not_steer (u u' : Setup) (runId : String) (steps : List Step) (scope scope' : Scope)
    (signals : Signals) (setups : u.plain = u'.plain) (scopes : scope.plain = scope'.plain) :
    let out := u.run runId steps { scope, signals }
    let out' := u'.run runId steps { scope := scope', signals }
    out.2.calls = out'.2.calls ∧ out.1.outline = out'.1.outline ∧ out.2.signals.outline = out'.2.signals.outline ∧
      out.2.scope.plain = out'.2.scope.plain := by
  have hstart : ({ scope, signals } : State).outline = ({ scope := scope', signals } : State).outline := by
    rw [State.outline, State.outline, scopes]
  obtain ⟨htrace, hstate⟩ := trace_alike setups runId steps hstart
  exact ⟨State.calls_alike hstate, htrace, (congrArg State.signals hstate :), State.plain_alike hstate⟩

/-- A called workflow repeats a text with a secret in it. Whether the texts recorded of that are masked is all in which
the two runs differ. -/
theorem masked_call_runs_alike :
    let say : Step := ⟨{ id := "say", inputs := [("text", "{{ text }}")], outputs := [("said", "heard")] },
      .action ⟨"say", []⟩⟩
    let call : Step := ⟨{ id := "call", inputs := [("text", "it is {{ token }}")] },
      .action ⟨"workflow", [("workflowId", .str "tell")]⟩⟩
    let setup (marker : String) (isSecret : Bool) : Setup :=
      { executor := fun _ a => { result := .ok (.obj [("said", .str ((a.inputs.lookup "text").getD ""))]) }
        settings := { redactionMarker := marker }
        library := [("tell", { inputs := [("text", { isSecret })], steps := [say] })] }
    let scope (isSecret : Bool) : Scope := ⟨[("token", ⟨some (.str "sesame"), isSecret⟩)], []⟩
    let masked := (setup "***" true).run "run" [call] { scope := scope true, signals := {} }
    let clear := (setup "-" false).run "run" [call] { scope := scope false, signals := {} }
    let recorded (t : Trace) := (Record.walkAll t.steps).map fun r => r.head.resolvedInputs
    (setup "***" true).plain = (setup "-" false).plain ∧ (scope true).plain = (scope false).plain ∧
      (masked.2.calls = clear.2.calls ∧ masked.1.outline = clear.1.outline ∧
        masked.2.signals.outline = clear.2.signals.outline ∧ masked.2.scope.plain = clear.2.scope.plain) ∧
      recorded masked.1 = [[("text", "it is ***")], [("text", "***")]] ∧
      recorded clear.1 = [[("text", "it is sesame")], [("text", "it is sesame")]] :=
  ⟨rfl, rfl, secrets_do_not_steer _ _ "run" _ _ _ {} rfl rfl, by decide +kernel, by decide +kernel⟩

end StepTree
