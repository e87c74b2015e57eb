import Mathlib.Data.List.Basic
import StepTree.Proofs.Records
import StepTree.Run.Call

/-! # Outlines

The outline of what a run works with and leaves behind: scopes without their marks of secrecy, values, records
and events without the texts that are masked in them. To redact a value does not change its outline. -/

namespace StepTree

/-! ### Values -/

namespace Json

mutual

/-- The value without its texts and its numbers, either of which may be masked by a text. -/
def outline : Json → Json
  | str _ => str ""
  | num _ => str ""
  | arr items => arr (outlineItems items)
  | obj entries => obj (outlineEntries entries)
  | null => null
  | bool b => bool b

def outlineItems : List Json → List Json
  | [] => []
  | item :: items => outline item :: outlineItems items

def outlineEntries : List (String × Json) → List (String × Json)
  | [] => []
  | (key, value) :: entries => (key, outline value) :: outlineEntries entries

end

section
variable (secrets : Secrets) (marker : String)

mutual

@[simp] theorem redact_outline : ∀ value : Json, (value.redact secrets marker).outline = value.outline
  | str _ => rfl
  | num n => by
    rw [redact]
    split <;> rfl
  | arr items => by rw [redact, outline, outline, redactItems_outline items]
  | obj entries => by rw [redact, outline, outline, redactEntries_outline entries]
  | null => rfl
  | bool _ => rfl

theorem redactItems_outline : ∀ items : List Json, outlineItems (redactItems secrets marker items) = outlineItems items
  | [] => rfl
  | item :: items => by rw [redactItems, outlineItems, outlineItems, redact_outline item, redactItems_outline items]

theorem redactEntries_outline : ∀ entries : List (String × Json),
    outlineEntries (redactEntries secrets marker entries) = outlineEntries entries
  | [] => rfl
  | (key, value) :: entries => by
    rw [redactEntries, outlineEntries, outlineEntries, redact_outline value, redactEntries_outline entries]

end

end

end Json

/-! ### Scopes -/

/-- The binding without its mark of secrecy. -/
def Binding.plain (b : Binding) : Binding := { b with isSecret := false }

def Frame.plain (f : Frame) : Frame := f.map fun entry => (entry.1, entry.2.plain)

def Scope.plain (s : Scope) : Scope := ⟨s.innermost.plain, s.outer.map Frame.plain⟩

namespace Ordered
variable {α β : Type} (g : α → β)

theorem get?_map (name : String) (entries : List (String × α)) :
    get? name (entries.map fun entry => (entry.1, g entry.2)) = (get? name entries).map g := by
  induction entries with
  | nil => rfl
  | cons entry rest ih =>
    rw [List.map_cons, get?, get?]
    split
    · rfl
    · exact ih

theorem insert_map (name : String) (value : α) (entries : List (String × α)) :
    insert name (g value) (entries.map fun entry => (entry.1, g entry.2)) =
      (insert name value entries).map fun entry => (entry.1, g entry.2) := by
  induction entries with
  | nil => rfl
  | cons entry rest ih =>
    rw [List.map_cons, insert, insert]
    split
    · rfl
    · exact congrArg ((entry.1, g entry.2) :: ·) ih

/-- To write the value again that a name has changes nothing. -/
theorem insert_get? {name : String} {value : α} {entries : List (String × α)} (h : get? name entries = some value) :
    insert name value entries = entries := by
  induction entries with
  | nil => cases h
  | cons entry rest ih =>
    rw [get?] at h
    rw [insert]
    split at h
    · next hn =>
      rw [if_pos hn, ← Option.some.inj h]
    · next hn =>
      rw [if_neg hn, ih h]

end Ordered

namespace Frame

@[simp] theorem get?_plain (f : Frame) (name : String) :
    Ordered.get? name f.plain = (Ordered.get? name f).map Binding.plain := Ordered.get?_map _ name f

theorem insert_plain (f : Frame) (name : String) (b : Binding) :
    Ordered.insert name b.plain f.plain = plain (Ordered.insert name b f) := Ordered.insert_map _ name b f

@[simp] theorem values_plain (f : Frame) : f.plain.values = f.values := by
  unfold values defined plain
  rw [List.filterMap_map]
  rfl

end Frame

namespace Scope
variable (s : Scope)

theorem stack_plain : s.plain.stack = s.stack.map Frame.plain := rfl

@[simp] theorem currentFrame_plain : s.plain.currentFrame = s.currentFrame := List.length_map _

@[simp] theorem push_plain : s.push.plain = s.plain.push := rfl

theorem ofStack_plain (frames : List Frame) : (ofStack frames).plain = ofStack (frames.map Frame.plain) := by
  cases frames <;> rfl

theorem pop_plain : s.pop.plain = s.plain.pop := by
  obtain ⟨innermost, outer⟩ := s
  cases outer <;> rfl

theorem pop?_plain : s.plain.pop? = s.pop?.map fun p => (p.1.plain, p.2.plain) := by
  obtain ⟨innermost, outer⟩ := s
  cases outer <;> rfl

theorem bindInFrame_plain (frame : Nat) (name : String) (b : Binding) :
    (s.bindInFrame frame name b).plain = s.plain.bindInFrame frame name b.plain := by
  have hposition : s.plain.position frame = s.position frame := by
    rw [position, position, currentFrame_plain]
  unfold bindInFrame
  rw [ofStack_plain, hposition, stack_plain]
  refine congrArg ofStack (List.ext_getElem? fun index => ?_)
  rw [List.getElem?_map, List.getElem?_modify, List.getElem?_modify, List.getElem?_map]
  cases s.stack[index]? with
  | none => rfl
  | some f =>
    by_cases h : s.position frame = index
    · simp [h, Frame.insert_plain]
    · simp [h]

theorem bind_plain (name : String) (b : Binding) : (s.bind name b).plain = s.plain.bind name b.plain := by
  unfold bind
  rw [plain, plain, Frame.insert_plain]

@[simp] theorem binding?_plain (name : String) : s.plain.binding? name = (s.binding? name).map Binding.plain := by
  unfold binding?
  rw [stack_plain]
  induction s.stack with
  | nil => rfl
  | cons f rest ih =>
    rw [List.map_cons, List.findSome?_cons, List.findSome?_cons, Frame.get?_plain, ih]
    cases Ordered.get? name f <;> rfl

@[simp] theorem get?_plain (name : String) : s.plain.get? name = s.get? name := by
  unfold get?
  rw [binding?_plain]
  cases s.binding? name <;> rfl

@[simp] theorem lookup_plain : s.plain.lookup = s.lookup := by
  funext path
  unfold lookup
  simp only [get?_plain]

theorem set_plain (name : String) (value : Json) : (s.set name value).plain = s.plain.set name value :=
  s.bind_plain name _

theorem setAll_plain (values : List (String × Json)) : (s.setAll values).plain = s.plain.setAll values :=
  (List.foldl_hom plain fun s entry => (set_plain s entry.1 entry.2).symm).symm

theorem markIn?_plain (name : String) : ∀ {frames marked : List Frame}, markIn? name frames = some marked →
    marked.map Frame.plain = frames.map Frame.plain
  | f :: rest, marked, h => by
    rw [markIn?] at h
    split at h
    · next b hb =>
      have hget : Ordered.get? name f.plain = some b.plain := by rw [Frame.get?_plain, hb, Option.map_some]
      have hmark : Ordered.insert name b.plain f.plain = f.plain := Ordered.insert_get? hget
      rw [← Option.some.inj h, List.map_cons, List.map_cons, ← hmark]
      exact congrArg (· :: _) (Frame.insert_plain f name _).symm
    · obtain ⟨frames, hframes, rfl⟩ := Option.map_eq_some_iff.mp h
      exact congrArg (f.plain :: ·) (markIn?_plain name hframes)

@[simp] theorem markSecret_plain (name : String) : (s.markSecret name).plain = s.plain := by
  unfold markSecret
  split
  · next frames h => rw [ofStack_plain, markIn?_plain name h]; rfl
  · rfl

@[simp] theorem root_plain : s.plain.root = s.root.plain := by
  unfold root plain
  rw [List.getLastD_eq_getLast?, List.getLastD_eq_getLast?, List.getLast?_map]
  cases s.outer.getLast? <;> rfl

end Scope

/-! ### Workflows and setups -/

/-- The input without its mark of secrecy. -/
def WorkflowInput.plain (i : WorkflowInput) : WorkflowInput := { i with isSecret := false }

def Workflow.plain (w : Workflow) : Workflow := { w with inputs := w.inputs.map fun entry => (entry.1, entry.2.plain) }

def Library.plain (library : Library) : Library := library.map fun entry => (entry.1, entry.2.plain)

/-- The setup without the marks of secrecy in its library, and without its marker. -/
def Setup.plain (u : Setup) : Setup :=
  { u with settings := { u.settings with redactionMarker := "" }, library := Library.plain u.library }

@[simp] theorem Workflow.inputDefaults_plain (w : Workflow) : w.plain.inputDefaults = w.inputDefaults := by
  unfold inputDefaults plain
  rw [List.filterMap_map]
  rfl

theorem Scope.markAll_plain (names : List String) (s : Scope) : (names.foldl markSecret s).plain = s.plain :=
  List.foldlRecOn (motive := fun t : Scope => t.plain = s.plain) names _ rfl
    fun t ht name _ => (t.markSecret_plain name).trans ht

/-- The values that a callee starts with do not depend on what is secret. -/
theorem Setup.calleeScope_plain (w : Workflow) (secrets : Secrets) (inputs : List (String × String)) :
    (calleeScope w secrets inputs).plain =
      inputs.foldl (fun s entry => s.set entry.1 (.str entry.2))
        ((Scope.empty.setAll w.inputDefaults).setAll w.vars) := by
  have hstart : ((Scope.empty.setAll w.inputDefaults).setAll w.vars).plain =
      (Scope.empty.setAll w.inputDefaults).setAll w.vars := by
    rw [Scope.setAll_plain, Scope.setAll_plain]
    rfl
  have hinputs : ∀ s : Scope, (inputs.foldl (fun s entry => s.bind entry.1
      ⟨some (.str entry.2), secrets.any fun secret => Text.occursIn secret.toList entry.2.toList⟩) s).plain =
      inputs.foldl (fun s entry => s.set entry.1 (.str entry.2)) s.plain :=
    fun s => (List.foldl_hom Scope.plain fun s entry => (s.bind_plain entry.1 ⟨some (.str entry.2), _⟩).symm).symm
  rw [← hstart, ← hinputs]
  exact Scope.markAll_plain w.secretInputs _

/-! ### Records -/

/-- Only whether there is an error is left of it. -/
def RecordHead.outline (h : RecordHead) : RecordHead :=
  { h with
    resolvedInputs := h.resolvedInputs.map fun input => (input.1, "")
    capturedOutputs := h.capturedOutputs.map fun output => (output.1, output.2.outline)
    error := h.error.map fun _ => "" }

def IterationHead.outline (h : IterationHead) : IterationHead :=
  { h with itemValue := h.itemValue.outline, error := h.error.map fun _ => "" }

def ArmEvaluation.outline (e : ArmEvaluation) : ArmEvaluation := { e with error := e.error.map fun _ => "" }

theorem ArmEvaluation.outline_result (e : ArmEvaluation) : e.outline.result = e.result := rfl

def Selection.outline (s : Selection) : Selection := { s with evaluated := s.evaluated.map ArmEvaluation.outline }

mutual

def Record.outline : Record → Record
  | ⟨head, children, loop, branch⟩ =>
    ⟨head.outline, Record.outlineAll children, LoopRecord.outlineOption loop, BranchRecord.outlineOption branch⟩

def Record.outlineAll : List Record → List Record
  | [] => []
  | r :: rest => r.outline :: Record.outlineAll rest

def LoopRecord.outlineOption : Option LoopRecord → Option LoopRecord
  | none => none
  | some l => some l.outline

def LoopRecord.outline : LoopRecord → LoopRecord
  | ⟨summary, iterations⟩ => ⟨summary, Iteration.outlineAll iterations⟩

def Iteration.outlineAll : List Iteration → List Iteration
  | [] => []
  | i :: rest => i.outline :: Iteration.outlineAll rest

def Iteration.outline : Iteration → Iteration
  | ⟨head, children⟩ => ⟨head.outline, Record.outlineAll children⟩

def BranchRecord.outlineOption : Option BranchRecord → Option BranchRecord
  | none => none
  | some b => some b.outline

def BranchRecord.outline : BranchRecord → BranchRecord
  | ⟨selection, children⟩ => ⟨selection.outline, Record.outlineAll children⟩

end

def VariableChange.outline (c : VariableChange) : VariableChange :=
  { c with oldValue := c.oldValue.map Json.outline, newValue := c.newValue.map Json.outline }

def Trace.outline (t : Trace) : Trace :=
  { t with steps := Record.outlineAll t.steps, variableChanges := t.variableChanges.map VariableChange.outline }

theorem Record.outlineAll_eq_map (records : List Record) : outlineAll records = records.map outline := by
  induction records with
  | nil => rfl
  | cons r rest ih => rw [outlineAll, ih, List.map_cons]

theorem Iteration.outlineAll_eq_map (iterations : List Iteration) : outlineAll iterations = iterations.map outline := by
  induction iterations with
  | nil => rfl
  | cons i rest ih => rw [outlineAll, ih, List.map_cons]

theorem Iteration.head_outline (i : Iteration) : i.outline.head = i.head.outline := by
  cases i
  rfl

theorem Iteration.children_outline (i : Iteration) : i.outline.children = i.children.map Record.outline := by
  cases i
  exact Record.outlineAll_eq_map _

namespace Record
variable (r : Record)

@[simp] theorem outline_head : r.outline.head = r.head.outline := by
  cases r
  rfl

theorem status_outline : r.outline.head.status = r.head.status := by
  rw [outline_head]
  rfl

theorem withStatus_outline (status : StepStatus) : (r.withStatus status).outline = r.outline.withStatus status := by
  cases r
  rfl

theorem skip_outline (reason : SkipReason) : (r.skip reason).outline = r.outline.skip reason := by
  cases r
  rfl

/-- Of a failure the outline keeps the kind alone. -/
theorem fail_outline (kind : ErrorKind) (message : String) :
    (r.fail kind message).outline = r.outline.fail kind "" := by
  cases r
  rfl

theorem withOutputs_outline (capturedOutputs : List (String × Json)) :
    ({ r with head := { r.head with capturedOutputs } } : Record).outline =
      { r.outline with head := { r.outline.head with
        capturedOutputs := capturedOutputs.map fun output => (output.1, output.2.outline) } } := by
  cases r
  rfl

theorem withInputs_outline (resolvedInputs : List (String × String)) :
    ({ r with head := { r.head with resolvedInputs } } : Record).outline =
      { r.outline with head := { r.outline.head with
        resolvedInputs := resolvedInputs.map fun input => (input.1, "") } } := by
  cases r
  rfl

theorem withAttempts_outline (attempts : Nat) :
    (Setup.recordAttempts r attempts).outline = Setup.recordAttempts r.outline attempts := by
  cases r
  rfl

theorem withChildren_outline (children : List Record) :
    ({ r with children } : Record).outline = { r.outline with children := outlineAll children } := by
  cases r
  rfl

theorem withLoop_outline (l : LoopRecord) :
    ({ r with loop := some l } : Record).outline = { r.outline with loop := some l.outline } := by
  cases r
  rfl

theorem withBranch_outline (selection : Selection) (children : List Record) :
    ({ r with branch := some ⟨selection, children⟩ } : Record).outline =
      { r.outline with branch := some ⟨selection.outline, outlineAll children⟩ } := by
  cases r
  rfl

theorem hasOwnFailure_outline : r.outline.hasOwnFailure = r.hasOwnFailure := by
  simp [hasOwnFailure, RecordHead.outline]

theorem nested_outline : r.outline.nested = r.nested.map outline := by
  obtain ⟨head, children, loop, branch⟩ := r
  have hrounds : ∀ iterations : List Iteration, (Iteration.outlineAll iterations).flatMap (·.children) =
      (iterations.flatMap (·.children)).map outline := by
    intro iterations
    rw [Iteration.outlineAll_eq_map, List.flatMap_map, List.map_flatMap]
    exact List.flatMap_congr fun i _ => i.children_outline
  rcases loop with _ | ⟨summary, iterations⟩ <;> rcases branch with _ | ⟨selection, arm⟩ <;>
    simp [outline, nested, LoopRecord.outlineOption, LoopRecord.outline, BranchRecord.outlineOption,
      BranchRecord.outline, outlineAll_eq_map, hrounds]

theorem walk_outline : r.outline.walk = r.walk.map outline := by
  induction r using nested_induction with
  | inside r ih =>
    rw [walk_eq, walk_eq r, nested_outline, List.map_cons, walkAll_eq_flatMap, walkAll_eq_flatMap, List.flatMap_map,
      List.map_flatMap]
    exact congrArg (r.outline :: ·) (List.flatMap_congr ih)

theorem walkAll_outline (records : List Record) : walkAll (outlineAll records) = (walkAll records).map outline := by
  rw [outlineAll_eq_map, walkAll_eq_flatMap, walkAll_eq_flatMap, List.flatMap_map, List.map_flatMap]
  exact List.flatMap_congr fun r _ => r.walk_outline

end Record

/-! ### What is counted -/

/-- What is counted about records is counted about their outlines. -/
theorem RunSummary.of_outline (records : List Record) : RunSummary.of (Record.outlineAll records) = .of records := by
  unfold RunSummary.of
  rw [Record.walkAll_outline, List.map_map]
  have hstatus : (fun r : Record => r.head.status) ∘ Record.outline = fun r => r.head.status := by
    funext r
    exact r.status_outline
  rw [hstatus]

theorem any_failed_outline (records : List Record) :
    ((records.map Record.outline).any fun r => r.head.status = .failed) =
      records.any fun r => r.head.status = .failed := by
  rw [List.any_map]
  congr 1
  funext r
  exact congrArg (decide <| · = StepStatus.failed) r.status_outline

theorem RunStatus.of_outline (records : List Record) (cancelled : Bool) :
    RunStatus.of (Record.outlineAll records) cancelled = .of records cancelled := by
  unfold RunStatus.of
  rw [Record.walkAll_outline, any_failed_outline]

theorem sequenceStatus_outline (records : List Record) :
    sequenceStatus (Record.outlineAll records) = sequenceStatus records := by
  unfold sequenceStatus
  rw [Record.outlineAll_eq_map, any_failed_outline]

theorem LoopRecord.summary_outline (l : LoopRecord) : l.outline.summary = l.summary := by
  cases l
  rfl

theorem LoopRecord.add_outline (l : LoopRecord) (i : Iteration) : (l.add i).outline = l.outline.add i.outline := by
  cases l
  cases i
  simp [add, outline, Iteration.outlineAll_eq_map, Iteration.outline, IterationHead.outline]

theorem LoopRecord.ended_outline (l : LoopRecord) (reason : ExitReason) :
    (l.ended reason).outline = l.outline.ended reason := by
  cases l
  rfl

/-! ### Events and states -/

def Event.outline : Event → Event
  | .stepFinished stepId status durationMs attempts error =>
    .stepFinished stepId status durationMs attempts (error.map fun _ => "")
  | .iterationStarted stepId index item => .iterationStarted stepId index item.outline
  | .variableChanged stepId name value => .variableChanged stepId name (value.map Json.outline)
  | e => e

theorem Record.finished_outline (r : Record) : r.finished.outline = r.outline.finished := by
  rw [finished, finished, outline_head]
  rfl

/-- The signals, with what was reported told in another way. -/
def Signals.retold (tell : Option (Array Event) → Option (Array Event)) (s : Signals) : Signals :=
  { s with events := tell s.events }

/-- Changes of phase are told as they are. -/
def TellsPhases (tell : Option (Array Event) → Option (Array Event)) : Prop :=
  ∀ events phase message, tell (events.map (·.push (.phaseChanged phase message))) =
    (tell events).map (·.push (.phaseChanged phase message))

def Signals.outline (s : Signals) : Signals := { s with events := s.events.map (·.map Event.outline) }

namespace Signals
variable (s : Signals)

section Retold
variable {tell : Option (Array Event) → Option (Array Event)} (h : TellsPhases tell)
include h

theorem reportPhase_retold (phase : Phase) (message : Option String) :
    (s.reportPhase phase message).retold tell = (s.retold tell).reportPhase phase message := by
  unfold reportPhase emit retold
  dsimp only
  rw [h]

theorem obey_retold (c : Command) : (s.obey c).retold tell = (s.retold tell).obey c := by
  have hpaused : (s.retold tell).paused = s.paused := rfl
  have hcancel : (s.retold tell).cancelRequested = s.cancelRequested := rfl
  unfold obey
  cases c <;> dsimp only <;> rw [apply_ite (retold tell), reportPhase_retold _ h] <;>
    simp only [hpaused, hcancel] <;> rfl

theorem drain_retold : s.drain.retold tell = (s.retold tell).drain := by
  unfold drain
  have hmailbox : (s.retold tell).mailbox = s.mailbox := rfl
  rw [hmailbox]
  cases s.mailbox with
  | none => rfl
  | some m => exact (List.foldl_hom (retold tell) fun s c => (s.obey_retold h c).symm).symm

theorem obeyWhilePaused_retold (commands : List Command) :
    obeyWhilePaused commands (s.retold tell) =
      ((obeyWhilePaused commands s).1, (obeyWhilePaused commands s).2.retold tell) := by
  have hpaused : (s.retold tell).paused = s.paused := rfl
  induction commands generalizing s with
  | nil =>
    rw [obeyWhilePaused, obeyWhilePaused, hpaused]
    cases s.paused <;> rfl
  | cons c rest ih =>
    rw [obeyWhilePaused, obeyWhilePaused, hpaused, ← obey_retold _ h, ih _ rfl]
    cases s.paused <;> rfl

theorem await_retold : s.await.retold tell = (s.retold tell).await := by
  unfold await
  have hmailbox : (s.retold tell).mailbox = s.mailbox := rfl
  rw [hmailbox]
  cases s.mailbox with
  | none => rfl
  | some m =>
    dsimp only
    rw [obeyWhilePaused_retold _ h]
    rfl

/-- What a checkpoint does to the phase of a run does not depend on what was reported before. -/
theorem checkpoint_retold : s.checkpoint.retold tell = (s.retold tell).checkpoint := by
  unfold checkpoint
  have hpaused : (s.drain.retold tell).paused = s.drain.paused := rfl
  dsimp only
  rw [← drain_retold _ h, hpaused, ← await_retold _ h, apply_ite (retold tell)]

end Retold

@[simp] theorem emit_outline (e : Event) : (s.emit e).outline = s.outline.emit e.outline := by
  unfold emit outline
  cases s.events <;> simp

theorem checkpoint_outline : s.checkpoint.outline = s.outline.checkpoint := by
  refine s.checkpoint_retold fun events phase message => ?_
  cases events <;> simp [Event.outline]

end Signals

/-- The state without marks of secrecy and without masked texts. -/
def State.outline (st : State) : State :=
  { st with
    scope := st.scope.plain
    changes := st.changes.map VariableChange.outline
    signals := st.signals.outline }

namespace State
variable (st : State)

theorem emit_outline (e : Event) : (st.emit e).outline = st.outline.emit e.outline := by
  unfold emit outline
  rw [Signals.emit_outline]

theorem checkpoint_outline : st.checkpoint.outline = st.outline.checkpoint := by
  have hcancelled : st.outline.cancelled = st.cancelled := rfl
  unfold checkpoint
  rw [hcancelled, apply_ite outline]
  congr 1
  have hsignals : st.outline.signals.checkpoint = st.signals.checkpoint.outline := st.signals.checkpoint_outline.symm
  dsimp only
  rw [hsignals]
  rfl

end State

end StepTree
