import StepTree.Proofs.Encoding.Steps
import StepTree.Proofs.Encoding.Times
import StepTree.Proofs.Records
import StepTree.Trace.Decoding

/-! # Traces and events survive their encoding

A trace that was written as a value is read back as it was, however deep its records nest, and so is an event; but
where a write tells of a value that is null, it comes back as if there had been no value. -/

namespace StepTree

open Node

/-! ### Well-formed records -/

/-- A time that exists, in whole nanoseconds below a second. -/
structure Timestamp.WellFormed (t : Timestamp) : Prop where
  valid : t.isValid = true
  fraction : t.nanosecond < 10 ^ 9

namespace RecordHead

/-- The record was begun at a time that exists, no input is named twice and no output, and the outputs are normal. -/
structure Orderly (h : RecordHead) : Prop where
  startTime : ∀ t ∈ h.startTime, t.WellFormed
  inputs : (h.resolvedInputs.map (·.1)).Nodup
  outputs : (h.capturedOutputs.map (·.1)).Nodup
  values : ∀ e ∈ h.capturedOutputs, e.2.Normal

/-- The record with its inputs and outputs in an order. -/
def inOrder (o : KeyOrder) (h : RecordHead) : RecordHead :=
  { h with resolvedInputs := o.order h.resolvedInputs, capturedOutputs := o.order h.capturedOutputs }

end RecordHead

/-- All records in a tree are orderly, and the items of its iterations are normal. -/
inductive Record.Orderly : Record → Prop
  | intro {head : RecordHead} {children : List Record} {loop : Option LoopRecord} {branch : Option BranchRecord}
    (head_orderly : head.Orderly) (children_orderly : ∀ r ∈ children, Orderly r)
    (items_normal : ∀ l ∈ loop, ∀ i ∈ l.iterations, i.head.itemValue.Normal)
    (rounds_orderly : ∀ l ∈ loop, ∀ i ∈ l.iterations, ∀ r ∈ i.children, Orderly r)
    (arm_orderly : ∀ b ∈ branch, ∀ r ∈ b.children, Orderly r) : Orderly ⟨head, children, loop, branch⟩

mutual

/-- The tree with the inputs and outputs of every record in an order. -/
def Record.inOrder (o : KeyOrder) : Record → Record
  | ⟨head, children, loop, branch⟩ =>
    ⟨head.inOrder o, Record.allInOrder o children, LoopRecord.someInOrder o loop, BranchRecord.someInOrder o branch⟩

def Record.allInOrder (o : KeyOrder) : List Record → List Record
  | [] => []
  | r :: rest => r.inOrder o :: Record.allInOrder o rest

def LoopRecord.someInOrder (o : KeyOrder) : Option LoopRecord → Option LoopRecord
  | none => none
  | some l => some (l.inOrder o)

def LoopRecord.inOrder (o : KeyOrder) : LoopRecord → LoopRecord
  | ⟨summary, iterations⟩ => ⟨summary, Iteration.allInOrder o iterations⟩

def Iteration.allInOrder (o : KeyOrder) : List Iteration → List Iteration
  | [] => []
  | i :: rest => i.inOrder o :: Iteration.allInOrder o rest

def Iteration.inOrder (o : KeyOrder) : Iteration → Iteration
  | ⟨head, children⟩ => ⟨head, Record.allInOrder o children⟩

def BranchRecord.someInOrder (o : KeyOrder) : Option BranchRecord → Option BranchRecord
  | none => none
  | some b => some (b.inOrder o)

def BranchRecord.inOrder (o : KeyOrder) : BranchRecord → BranchRecord
  | ⟨selection, children⟩ => ⟨selection, Record.allInOrder o children⟩

end

section Lists
variable (o : KeyOrder)

theorem Record.allInOrder_eq (records : List Record) :
    Record.allInOrder o records = records.map (Record.inOrder o) := by
  induction records with
  | nil => rfl
  | cons r rest ih => rw [Record.allInOrder, ih, List.map_cons]

theorem Iteration.allInOrder_eq (iterations : List Iteration) :
    Iteration.allInOrder o iterations = iterations.map (Iteration.inOrder o) := by
  induction iterations with
  | nil => rfl
  | cons i rest ih => rw [Iteration.allInOrder, ih, List.map_cons]

theorem LoopRecord.someInOrder_eq (l : Option LoopRecord) :
    LoopRecord.someInOrder o l = l.map (LoopRecord.inOrder o) := by cases l <;> rfl

theorem BranchRecord.someInOrder_eq (b : Option BranchRecord) :
    BranchRecord.someInOrder o b = b.map (BranchRecord.inOrder o) := by cases b <;> rfl

/-- In the order in which they are written the inputs and outputs of all records stay as they are. -/
@[simp] theorem Record.inOrder_written (r : Record) : r.inOrder .written = r := by
  induction r using Record.nested_induction with
  | inside r ih =>
    obtain ⟨head, children, loop, branch⟩ := r
    have hsame : ∀ records ⊆ (Record.mk head children loop branch).nested,
        records.map (Record.inOrder .written) = records :=
      fun records h => (List.map_congr_left fun r hr => ih r (h hr)).trans (List.map_id' records)
    have hchildren : children.map (Record.inOrder .written) = children := hsame _ (by simp [Record.nested])
    have hloop : loop.map (LoopRecord.inOrder .written) = loop := by
      rcases loop with _ | ⟨summary, iterations⟩
      · rfl
      · have hround : ∀ i ∈ iterations, i.inOrder .written = i := by
          intro i hi
          have hinside : i.children.map (Record.inOrder .written) = i.children :=
            hsame _ fun r hr => by simpa [Record.nested] using Or.inr (Or.inl ⟨i, hi, hr⟩)
          cases i
          rw [Iteration.inOrder, Record.allInOrder_eq, hinside]
        rw [Option.map_some, LoopRecord.inOrder, Iteration.allInOrder_eq, List.map_congr_left hround, List.map_id']
    have hbranch : branch.map (BranchRecord.inOrder .written) = branch := by
      rcases branch with _ | ⟨selection, arm⟩
      · rfl
      · have harm : arm.map (Record.inOrder .written) = arm := hsame _ (by simp [Record.nested])
        rw [Option.map_some, BranchRecord.inOrder, Record.allInOrder_eq, harm]
    rw [Record.inOrder, Record.allInOrder_eq, LoopRecord.someInOrder_eq, BranchRecord.someInOrder_eq, hchildren, hloop,
      hbranch]
    rfl

theorem Record.encodeAll_eq (records : List Record) : Record.encodeAll records = records.map Record.encode := by
  induction records with
  | nil => rfl
  | cons r rest ih => rw [Record.encodeAll, ih, List.map_cons]

theorem Iteration.encodeAll_eq (iterations : List Iteration) :
    Iteration.encodeAll iterations = iterations.map Iteration.encode := by
  induction iterations with
  | nil => rfl
  | cons i rest ih => rw [Iteration.encodeAll, ih, List.map_cons]

theorem LoopRecord.field_eq (l : Option LoopRecord) :
    LoopRecord.field l = Json.fieldOf "loopExecution" LoopRecord.encode l := by cases l <;> rfl

theorem BranchRecord.field_eq (b : Option BranchRecord) :
    BranchRecord.field b = Json.fieldOf "branchExecution" BranchRecord.encode b := by cases b <;> rfl

end Lists

/-! ### Names and times -/

namespace Node.Reads
variable {o : KeyOrder}

theorem status (s : StepStatus) : Reads o StepStatus.decode? (.str s.name) s := .choice (by cases s <;> decide)

theorem skipReason (r : SkipReason) : Reads o SkipReason.decode? r.encode r := .choice (by cases r <;> decide)

theorem errorKind (k : ErrorKind) : Reads o ErrorKind.decode? k.encode k := .choice (by cases k <;> decide)

theorem exitReason (r : ExitReason) : Reads o ExitReason.decode? (.str r.name) r := .choice (by cases r <;> decide)

theorem runStatus (s : RunStatus) : Reads o RunStatus.decode? (.str s.name) s := .choice (by cases s <;> decide)

theorem phase (p : Phase) : Reads o Phase.decode? (.str p.name) p := .choice (by cases p <;> decide)

theorem tag (t : StepTag) : Reads o StepTag.decode? t.encode t := by cases t <;> exact .choice (by decide)

theorem time {t : Timestamp} (h : t.WellFormed) : Reads o Timestamp.decode? t.encode t := by
  intro settled
  rw [Timestamp.encode, Timestamp.decode?, Reads.string t.text settled, Option.bind_eq_bind, Option.bind_some,
    Timestamp.ofText?_text h.valid h.fraction]

end Node.Reads

variable {o : KeyOrder} {settled : Bool}

/-! ### Heads and summaries -/

theorem RecordHead.fields_names (h : RecordHead) : (h.fields.map (·.1)).Sublist names := by
  have hnames : names = ["stepId", "stepName", "stepKind"] ++ ["actionType"] ++ ["status"] ++ ["skipReason"] ++
    ["startTime", "durationMs", "resolvedInputs", "capturedOutputs"] ++ ["error"] ++ ["errorKind"] ++
    ["attempts"] := rfl
  rw [hnames]
  simp only [fields, List.map_append]
  exact ((((((List.Sublist.refl _).append (Json.fieldOf_names ..)).append (List.Sublist.refl _)).append
    (Json.fieldOf_names ..)).append (List.Sublist.refl _)).append (Json.fieldOf_names ..)).append
    (Json.fieldOf_names ..) |>.append (List.Sublist.refl _)

theorem RecordHead.decode?_of_show {h : RecordHead} (orderly : h.Orderly) {f : Fields}
    (shows : f.Show o settled names h.fields) : decode? f = some (h.inOrder o) := by
  have hid : f.required? "stepId" string? = some h.stepId :=
    shows.required "stepId" (by decide) (by simp [fields]) (.string _)
  have hname : f.required? "stepName" string? = some h.stepName :=
    shows.required "stepName" (by decide) (by simp [fields, Entries.lookup_cons]) (.string _)
  have hkind : f.required? "stepKind" StepTag.decode? = some h.stepKind :=
    shows.required "stepKind" (by decide) (by simp [fields, Entries.lookup_cons]) (.tag _)
  have htype : f.optional? "actionType" string? = some h.actionType :=
    shows.optional "actionType" (by decide) (by simp [fields, List.lookup_append, Entries.lookup_cons])
      fun _ _ => ⟨.string _, nofun⟩
  have hstatus : f.required? "status" StepStatus.decode? = some h.status :=
    shows.required "status" (by decide) (by simp [fields, List.lookup_append, Entries.lookup_cons]) (.status _)
  have hreason : f.optional? "skipReason" SkipReason.decode? = some h.skipReason :=
    shows.optional "skipReason" (by decide) (by simp [fields, List.lookup_append, Entries.lookup_cons])
      fun _ _ => ⟨.skipReason _, nofun⟩
  have hstart : f.optional? "startTime" Timestamp.decode? = some h.startTime :=
    shows.optional_null "startTime" (by decide)
      (by simp [fields, List.lookup_append, Entries.lookup_cons, Json.ofTime?])
      fun t ht => ⟨.time (orderly.startTime t ht), nofun⟩
  have hduration : f.withDefault? "durationMs" 0 word? = some h.durationMs :=
    shows.withDefault "durationMs" (by decide) _ (by simp [fields, List.lookup_append, Entries.lookup_cons]) (.word _)
  have hinputs : f.withDefault? "resolvedInputs" [] texts? = some (o.order h.resolvedInputs) :=
    shows.withDefault "resolvedInputs" (by decide) _ (by simp [fields, List.lookup_append, Entries.lookup_cons])
      (.texts orderly.inputs)
  have houtputs : f.withDefault? "capturedOutputs" [] (mapOf? value?) = some (o.order h.capturedOutputs) :=
    shows.withDefault "capturedOutputs" (by decide) _ (by simp [fields, List.lookup_append, Entries.lookup_cons])
      (.values orderly.outputs orderly.values)
  have herror : f.optional? "error" string? = some h.error :=
    shows.optional "error" (by decide) (by simp [fields, List.lookup_append, Entries.lookup_cons])
      fun _ _ => ⟨.string _, nofun⟩
  have herrorKind : f.optional? "errorKind" ErrorKind.decode? = some h.errorKind :=
    shows.optional "errorKind" (by decide) (by simp [fields, List.lookup_append, Entries.lookup_cons])
      fun _ _ => ⟨.errorKind _, nofun⟩
  have hattempts : f.withDefault? "attempts" 0 halfWord? = some h.attempts :=
    shows.withDefault "attempts" (by decide) _ (by simp [fields, List.lookup_append, Entries.lookup_cons])
      (.halfWord _)
  simp only [decode?, hid, hname, hkind, htype, hstatus, hreason, hstart, hduration, hinputs, houtputs, herror,
    herrorKind, hattempts, Option.bind_eq_bind, Option.bind_some]
  rfl

theorem LoopSummary.decode?_of_show {l : LoopSummary} {f : Fields} (shows : f.Show o settled names l.fields) :
    decode? f = some l := by
  have htype : f.nullable? "loopType" LoopType.decode? = some l.loopType := by
    rw [shows.nullable]
    exact shows.optional_null "loopType" (by decide) (by simp [fields])
      fun t _ => ⟨.loopType t, by cases t <;> nofun⟩
  have htotal : f.optional? "totalIterations" size? = some l.totalIterations :=
    shows.optional_null "totalIterations" (by decide) (by simp [fields, Entries.lookup_cons, Json.ofNat?])
      fun _ _ => ⟨.size _, nofun⟩
  have hmost : f.required? "maxIterations" halfWord? = some l.maxIterations :=
    shows.required "maxIterations" (by decide) (by simp [fields, Entries.lookup_cons]) (.halfWord _)
  have hcompleted : f.required? "completedIterations" size? = some l.completed :=
    shows.required "completedIterations" (by decide) (by simp [fields, Entries.lookup_cons]) (.size _)
  have hpassed : f.required? "passedIterations" size? = some l.passed :=
    shows.required "passedIterations" (by decide) (by simp [fields, Entries.lookup_cons]) (.size _)
  have hfailed : f.required? "failedIterations" size? = some l.failed :=
    shows.required "failedIterations" (by decide) (by simp [fields, Entries.lookup_cons]) (.size _)
  have hskipped : f.required? "skippedIterations" size? = some l.skipped :=
    shows.required "skippedIterations" (by decide) (by simp [fields, Entries.lookup_cons]) (.size _)
  have hexit : f.required? "exitReason" ExitReason.decode? = some l.exitReason :=
    shows.required "exitReason" (by decide) (by simp [fields, Entries.lookup_cons]) (.exitReason _)
  simp only [decode?, htype, htotal, hmost, hcompleted, hpassed, hfailed, hskipped, hexit, Option.bind_eq_bind,
    Option.bind_some]

theorem Node.Reads.evaluation (e : ArmEvaluation) : Reads o ArmEvaluation.decode? e.encode e := by
  intro settled
  have hnodup : ((([("index", Json.ofNat e.index), ("label", .str e.label), ("condition", .str e.condition),
      ("result", .bool e.result)] ++ Json.fieldOf "error" Json.str e.error)).map (·.1)).Nodup := by
    cases e.error <;> simp [Json.fieldOf]
  obtain ⟨f, hf, shows⟩ := Fields.show_of?_obj o settled ["index", "label", "condition", "result", "error"] _ hnodup
  have hindex : f.required? "index" size? = some e.index :=
    shows.required "index" (by decide) (by simp) (.size _)
  have hlabel : f.required? "label" string? = some e.label :=
    shows.required "label" (by decide) (by simp [Entries.lookup_cons]) (.string _)
  have hcondition : f.required? "condition" string? = some e.condition :=
    shows.required "condition" (by decide) (by simp [Entries.lookup_cons]) (.string _)
  have hresult : f.required? "result" bool? = some e.result :=
    shows.required "result" (by decide) (by simp [Entries.lookup_cons]) (.bool _)
  have herror : f.optional? "error" string? = some e.error :=
    shows.optional "error" (by decide) (by simp [Entries.lookup_cons]) fun _ _ => ⟨.string _, by rintro ⟨⟩⟩
  simp only [ArmEvaluation.encode, ArmEvaluation.decode?, hf, hindex, hlabel, hcondition, hresult, herror,
    Option.bind_eq_bind, Option.bind_some]

theorem Selection.decode?_of_show {s : Selection} {f : Fields} (shows : f.Show o settled names s.fields) :
    decode? f = some s := by
  have hindex : f.required? "selectedBranchIndex" size? = some s.index :=
    shows.required "selectedBranchIndex" (by decide) (by simp [fields]) (.size _)
  have hlabel : f.required? "selectedLabel" string? = some s.label :=
    shows.required "selectedLabel" (by decide) (by simp [fields, Entries.lookup_cons]) (.string _)
  have hdefault : f.required? "isDefault" bool? = some s.isDefault :=
    shows.required "isDefault" (by decide) (by simp [fields, Entries.lookup_cons]) (.bool _)
  have hevaluated : f.withDefault? "evaluatedConditions" [] (listOf? ArmEvaluation.decode?) = some s.evaluated := by
    have hlist : Reads o (listOf? ArmEvaluation.decode?) (.arr (s.evaluated.map ArmEvaluation.encode))
        (s.evaluated.map fun e => e) := .list ArmEvaluation.encode (fun e => e) fun e _ => .evaluation e
    rw [List.map_id'] at hlist
    exact shows.withDefault "evaluatedConditions" (by decide) _ (by simp [fields, Entries.lookup_cons]) hlist
  simp only [decode?, hindex, hlabel, hdefault, hevaluated, Option.bind_eq_bind, Option.bind_some]

/-! ### Trees of records -/

namespace Record

/-- The fields of a record that hold other records. -/
def nestedFields (children : List Record) (loop : Option LoopRecord) (branch : Option BranchRecord) :
    List (String × Json) :=
  (if children.isEmpty then [] else [("children", .arr (children.map encode))]) ++
    Json.fieldOf "loopExecution" LoopRecord.encode loop ++ Json.fieldOf "branchExecution" BranchRecord.encode branch

theorem encode_eq (head : RecordHead) (children : List Record) (loop : Option LoopRecord)
    (branch : Option BranchRecord) :
    encode ⟨head, children, loop, branch⟩ = .obj (head.fields ++ nestedFields children loop branch) := by
  rw [encode, encodeAll_eq, LoopRecord.field_eq, BranchRecord.field_eq, nestedFields, ← List.append_assoc,
    ← List.append_assoc]

theorem nestedFields_names (children : List Record) (loop : Option LoopRecord) (branch : Option BranchRecord) :
    ((nestedFields children loop branch).map (·.1)).Sublist ["children", "loopExecution", "branchExecution"] := by
  have hnames : ["children", "loopExecution", "branchExecution"] =
    ["children"] ++ ["loopExecution"] ++ ["branchExecution"] := rfl
  rw [hnames, nestedFields, List.map_append, List.map_append]
  refine (List.Sublist.append ?_ (Json.fieldOf_names ..)).append (Json.fieldOf_names ..)
  split
  · exact List.nil_sublist _
  · exact List.Sublist.refl _

theorem nodup_encode (head : RecordHead) (children : List Record) (loop : Option LoopRecord)
    (branch : Option BranchRecord) : ((head.fields ++ nestedFields children loop branch).map (·.1)).Nodup := by
  have hnames : (RecordHead.names ++ ["children", "loopExecution", "branchExecution"]).Nodup := by decide
  rw [List.map_append]
  exact hnames.sublist (head.fields_names.append (nestedFields_names ..))

end Record

theorem Iteration.reads_within {i : Iteration} (item : i.head.itemValue.Normal)
    (inside : ∀ r ∈ i.children, ReadsWithin o Record.decodeWithin? r.encode (r.inOrder o)) :
    ReadsWithin o decodeWithin? i.encode (i.inOrder o) := by
  obtain ⟨head, children⟩ := i
  intro fuel enough settled
  rw [encode, Record.encodeAll_eq] at enough ⊢
  have hnodup : (([("index", Json.ofNat head.index), ("itemValue", head.itemValue), ("status", .str head.status.name),
      ("durationMs", .ofWord head.durationMs), ("children", .arr (children.map Record.encode))] ++
      Json.fieldOf "error" Json.str head.error).map (·.1)).Nodup := by
    cases head.error <;> simp [Json.fieldOf]
  obtain ⟨f, hf, shows⟩ := Fields.show_of?_obj o settled
    ["index", "itemValue", "status", "durationMs", "children", "error"] _ hnodup
  have hlevels : levelsIn o (.arr (children.map Record.encode)) ≤ fuel :=
    Nat.le_trans (Nat.le_of_lt (levelsIn_entry hnodup "children" (by simp))) enough
  have hindex : f.required? "index" size? = some head.index :=
    shows.required "index" (by decide) (by simp) (.size _)
  have hitem : f.required? "itemValue" value? = some head.itemValue :=
    shows.required "itemValue" (by decide) (by simp [Entries.lookup_cons]) (.value item)
  have hstatus : f.required? "status" StepStatus.decode? = some head.status :=
    shows.required "status" (by decide) (by simp [Entries.lookup_cons]) (.status _)
  have hduration : f.required? "durationMs" word? = some head.durationMs :=
    shows.required "durationMs" (by decide) (by simp [Entries.lookup_cons]) (.word _)
  have herror : f.optional? "error" string? = some head.error :=
    shows.optional "error" (by decide) (by simp [Entries.lookup_cons]) fun _ _ => ⟨.string _, by rintro ⟨⟩⟩
  have hchildren : f.withDefault? "children" [] (listOf? (Record.decodeWithin? fuel)) =
      some (children.map (Record.inOrder o)) :=
    shows.withDefault "children" (by decide) [] (by simp [Entries.lookup_cons])
      (ReadsWithin.list Record.encode (Record.inOrder o) inside hlevels)
  rw [decodeWithin?, hf, inOrder, Record.allInOrder_eq]
  simp only [hindex, hitem, hstatus, hduration, herror, hchildren, Option.bind_eq_bind, Option.bind_some]

theorem LoopRecord.reads_within {l : LoopRecord}
    (inside : ∀ i ∈ l.iterations, ReadsWithin o Iteration.decodeWithin? i.encode (i.inOrder o)) :
    ReadsWithin o decodeWithin? l.encode (l.inOrder o) := by
  obtain ⟨summary, iterations⟩ := l
  intro fuel enough settled
  rw [encode, Iteration.encodeAll_eq] at enough ⊢
  have hnodup : ((summary.fields ++ [("iterations", Json.arr (iterations.map Iteration.encode))]).map (·.1)).Nodup := by
    simp [LoopSummary.fields]
  obtain ⟨f, hf, shows⟩ := Fields.show_of?_obj o settled (LoopSummary.names ++ ["iterations"]) _ hnodup
  have hlevels : levelsIn o (.arr (iterations.map Iteration.encode)) ≤ fuel :=
    Nat.le_trans (Nat.le_of_lt (levelsIn_entry hnodup "iterations" (by simp))) enough
  have hsummary : LoopSummary.decode? f = some summary := by
    refine LoopSummary.decode?_of_show (shows.part (List.subset_append_left ..) fun name hname => ?_)
    rw [List.lookup_append, Entries.lookup_cons, if_neg, List.lookup_nil, Option.or_none]
    rintro rfl
    exact absurd hname (by decide)
  have hiterations : f.withDefault? "iterations" [] (listOf? (Iteration.decodeWithin? fuel)) =
      some (iterations.map (Iteration.inOrder o)) :=
    shows.withDefault "iterations" (by decide) [] (by simp [LoopSummary.fields, Entries.lookup_cons])
      (ReadsWithin.list Iteration.encode (Iteration.inOrder o) inside hlevels)
  rw [decodeWithin?, hf, inOrder, Iteration.allInOrder_eq]
  simp only [hsummary, hiterations, Option.bind_eq_bind, Option.bind_some]

theorem BranchRecord.reads_within {b : BranchRecord}
    (inside : ∀ r ∈ b.children, ReadsWithin o Record.decodeWithin? r.encode (r.inOrder o)) :
    ReadsWithin o decodeWithin? b.encode (b.inOrder o) := by
  obtain ⟨selection, children⟩ := b
  intro fuel enough settled
  rw [encode, Record.encodeAll_eq] at enough ⊢
  have hnodup : ((selection.fields ++ [("children", Json.arr (children.map Record.encode))]).map (·.1)).Nodup := by
    simp [Selection.fields]
  obtain ⟨f, hf, shows⟩ := Fields.show_of?_obj o settled (Selection.names ++ ["children"]) _ hnodup
  have hlevels : levelsIn o (.arr (children.map Record.encode)) ≤ fuel :=
    Nat.le_trans (Nat.le_of_lt (levelsIn_entry hnodup "children" (by simp))) enough
  have hselection : Selection.decode? f = some selection := by
    refine Selection.decode?_of_show (shows.part (List.subset_append_left ..) fun name hname => ?_)
    rw [List.lookup_append, Entries.lookup_cons, if_neg, List.lookup_nil, Option.or_none]
    rintro rfl
    exact absurd hname (by decide)
  have hchildren : f.withDefault? "children" [] (listOf? (Record.decodeWithin? fuel)) =
      some (children.map (Record.inOrder o)) :=
    shows.withDefault "children" (by decide) [] (by simp [Selection.fields, Entries.lookup_cons])
      (ReadsWithin.list Record.encode (Record.inOrder o) inside hlevels)
  rw [decodeWithin?, hf, inOrder, Record.allInOrder_eq]
  simp only [hselection, hchildren, Option.bind_eq_bind, Option.bind_some]

/-- Every orderly record is read back. -/
theorem Record.Orderly.reads_within {r : Record} (orderly : r.Orderly) :
    ReadsWithin o Record.decodeWithin? r.encode (r.inOrder o) := by
  induction orderly with
  | @intro head children loop branch head_orderly _ items_normal _ _ inside rounds arm =>
    intro fuel enough settled
    rw [encode_eq] at enough ⊢
    have hnodup := nodup_encode head children loop branch
    obtain ⟨f, hf, shows⟩ := Fields.show_of?_obj o settled
      (RecordHead.names ++ ["children", "loopExecution", "branchExecution"]) _ hnodup
    have hhead : RecordHead.decode? f = some (head.inOrder o) := by
      refine RecordHead.decode?_of_show head_orderly (shows.part (List.subset_append_left ..) fun name hname => ?_)
      have hother : name ∉ (nestedFields children loop branch).map (·.1) := by
        intro hmem
        have hnames : ∀ name ∈ RecordHead.names, name ∉ ["children", "loopExecution", "branchExecution"] := by decide
        exact hnames name hname ((nestedFields_names ..).subset hmem)
      rw [List.lookup_append, Entries.lookup_eq_none hother, Option.or_none]
    have hlookup : ∀ name, name ∉ RecordHead.names → (head.fields ++ nestedFields children loop branch).lookup name =
        (nestedFields children loop branch).lookup name :=
      fun name h => Entries.lookup_append_of_fresh (fun hmem => h (head.fields_names.subset hmem)) _
    -- A record inside an entry has fewer levels, so the fuel that is left is enough for it.
    have hlevels : ∀ key value, (key, value) ∈ nestedFields children loop branch → levelsIn o value < fuel :=
      fun key value h => Nat.lt_of_lt_of_le (levelsIn_entry hnodup key (List.mem_append_right _ h)) enough
    have hchildren : f.withDefault? "children" [] (listOf? (decodeWithin? fuel)) = some (children.map (inOrder o)) := by
      refine shows.listed "children" (by decide) ((hlookup "children" (by decide)).trans ?_) fun some_child =>
        ReadsWithin.list encode (inOrder o) inside (Nat.le_of_lt (hlevels "children" _ ?_))
      · cases children <;> simp [nestedFields, List.lookup_append]
      · simp [nestedFields, some_child]
    have hloop : f.optional? "loopExecution" (LoopRecord.decodeWithin? fuel) =
        some (loop.map (LoopRecord.inOrder o)) := by
      have hpresent : (nestedFields children loop branch).lookup "loopExecution" = loop.map LoopRecord.encode := by
        cases children <;> simp [nestedFields, List.lookup_append, Entries.lookup_cons]
      refine shows.optional_map "loopExecution" (by decide) ((hlookup "loopExecution" (by decide)).trans hpresent) ?_
      rintro l rfl
      have hreads : ReadsWithin o LoopRecord.decodeWithin? l.encode (l.inOrder o) :=
        LoopRecord.reads_within fun i hi => Iteration.reads_within (items_normal l rfl i hi) (rounds l rfl i hi)
      exact ⟨hreads.reads (hlevels "loopExecution" _ (by simp [nestedFields, Json.fieldOf])), by cases l; rintro ⟨⟩⟩
    have hbranch : f.optional? "branchExecution" (BranchRecord.decodeWithin? fuel) =
        some (branch.map (BranchRecord.inOrder o)) := by
      have hpresent : (nestedFields children loop branch).lookup "branchExecution" =
          branch.map BranchRecord.encode := by
        cases children <;> simp [nestedFields, List.lookup_append, Entries.lookup_cons]
      refine shows.optional_map "branchExecution" (by decide)
        ((hlookup "branchExecution" (by decide)).trans hpresent) ?_
      rintro b rfl
      have hreads : ReadsWithin o BranchRecord.decodeWithin? b.encode (b.inOrder o) :=
        BranchRecord.reads_within (arm b rfl)
      exact ⟨hreads.reads (hlevels "branchExecution" _ (by simp [nestedFields, Json.fieldOf])), by cases b; rintro ⟨⟩⟩
    rw [decodeWithin?, hf, inOrder, allInOrder_eq, LoopRecord.someInOrder_eq, BranchRecord.someInOrder_eq]
    simp only [hhead, hchildren, hloop, hbranch, Option.bind_eq_bind, Option.bind_some]

theorem Record.Orderly.reads {r : Record} (orderly : r.Orderly) : Reads o Record.decode? r.encode (r.inOrder o) := by
  intro settled
  rw [Record.decode?, levels_shown]
  exact orderly.reads_within _ (Nat.le_refl _) settled

/-! ### Writes -/

namespace Json

/-- The value, but nothing where it is null. -/
def nonNull? : Json → Option Json
  | null => none
  | value => some value

instance decidableEqNull (v : Option Json) : Decidable (v = some null) :=
  match v with
  | some null => isTrue rfl
  | none | some (bool _) | some (num _) | some (str _) | some (arr _) | some (obj _) => isFalse (by rintro ⟨⟩)

theorem bind_nonNull? {v : Option Json} : v.bind nonNull? = v ↔ v ≠ some null := by
  cases v with
  | none => simp
  | some v => cases v <;> simp [nonNull?]

end Json

/-- A value that may be missing is read as missing if it is null. -/
theorem Node.Reads.presence {v : Option Json} (normal : ∀ value ∈ v, value.Normal) :
    Reads o (optional? value?) (.ofValue? v) (v.bind Json.nonNull?) := by
  intro settled
  cases v with
  | none => rfl
  | some v =>
    have hread : value? (shown o settled v) = some v := Reads.value (normal v rfl) settled
    cases v with
    | null => rfl
    | _ => exact congrArg (Option.map some) hread

namespace VariableChange

structure Orderly (c : VariableChange) : Prop where
  oldValue : ∀ value ∈ c.oldValue, value.Normal
  newValue : ∀ value ∈ c.newValue, value.Normal

/-- The change as it is read: a value that is null is missing. -/
def withoutNull (c : VariableChange) : VariableChange :=
  { c with oldValue := c.oldValue.bind Json.nonNull?, newValue := c.newValue.bind Json.nonNull? }

theorem withoutNull_eq {c : VariableChange} :
    c.withoutNull = c ↔ c.oldValue ≠ some .null ∧ c.newValue ≠ some .null := by
  obtain ⟨stepId, name, oldValue, newValue⟩ := c
  simp [withoutNull, Json.bind_nonNull?]

theorem Orderly.reads {c : VariableChange} (orderly : c.Orderly) :
    Reads o VariableChange.decode? c.encode c.withoutNull := by
  intro settled
  obtain ⟨f, hf, shows⟩ := Fields.show_of?_obj o settled ["stepId", "name", "oldValue", "newValue"]
    [("stepId", .str c.stepId), ("name", .str c.name), ("oldValue", Json.ofValue? c.oldValue),
      ("newValue", Json.ofValue? c.newValue)] (by simp)
  have hid : f.required? "stepId" string? = some c.stepId :=
    shows.required "stepId" (by decide) (by simp) (.string _)
  have hname : f.required? "name" string? = some c.name :=
    shows.required "name" (by decide) (by simp [Entries.lookup_cons]) (.string _)
  have hold : f.nullable? "oldValue" value? = some (c.oldValue.bind Json.nonNull?) := by
    rw [shows.nullable]
    exact shows.withDefault "oldValue" (by decide) none (by simp [Entries.lookup_cons]) (.presence orderly.oldValue)
  have hnew : f.nullable? "newValue" value? = some (c.newValue.bind Json.nonNull?) := by
    rw [shows.nullable]
    exact shows.withDefault "newValue" (by decide) none (by simp [Entries.lookup_cons]) (.presence orderly.newValue)
  simp only [encode, decode?, hf, hid, hname, hold, hnew, Option.bind_eq_bind, Option.bind_some]
  rfl

end VariableChange

/-! ### Traces -/

theorem Node.Reads.summary (s : RunSummary) : Reads o RunSummary.decode? s.encode s := by
  intro settled
  obtain ⟨f, hf, shows⟩ := Fields.show_of?_obj o settled ["total", "passed", "failed", "skipped"]
    [("total", .ofNat s.total), ("passed", .ofNat s.passed), ("failed", .ofNat s.failed),
      ("skipped", .ofNat s.skipped)] (by simp)
  have htotal : f.required? "total" size? = some s.total := shows.required "total" (by decide) (by simp) (.size _)
  have hpassed : f.required? "passed" size? = some s.passed :=
    shows.required "passed" (by decide) (by simp [Entries.lookup_cons]) (.size _)
  have hfailed : f.required? "failed" size? = some s.failed :=
    shows.required "failed" (by decide) (by simp [Entries.lookup_cons]) (.size _)
  have hskipped : f.required? "skipped" size? = some s.skipped :=
    shows.required "skipped" (by decide) (by simp [Entries.lookup_cons]) (.size _)
  simp only [RunSummary.encode, RunSummary.decode?, hf, htotal, hpassed, hfailed, hskipped, Option.bind_eq_bind,
    Option.bind_some]

namespace Trace

structure Orderly (t : Trace) : Prop where
  startedAt : t.startedAt.WellFormed
  steps : ∀ r ∈ t.steps, r.Orderly
  changes : ∀ c ∈ t.variableChanges, c.Orderly

/-- The trace with the inputs and outputs of its records in an order. -/
def inOrder (o : KeyOrder) (t : Trace) : Trace := { t with steps := t.steps.map (Record.inOrder o) }

@[simp] theorem inOrder_written (t : Trace) : t.inOrder .written = t := by
  have hsteps : t.steps.map (Record.inOrder .written) = t.steps :=
    (List.map_congr_left fun r _ => r.inOrder_written).trans (List.map_id' t.steps)
  rw [inOrder, hsteps]

/-- The trace as it is read: a value of a write that is null is missing. -/
def withoutNulls (t : Trace) : Trace := { t with variableChanges := t.variableChanges.map VariableChange.withoutNull }

theorem withoutNulls_eq {t : Trace} :
    t.withoutNulls = t ↔ ∀ c ∈ t.variableChanges, c.oldValue ≠ some .null ∧ c.newValue ≠ some .null := by
  obtain ⟨runId, status, startedAt, durationMs, steps, changes, summary⟩ := t
  have hmap := List.map_inj_left (l := changes) (f := VariableChange.withoutNull) (g := fun c => c)
  rw [List.map_id'] at hmap
  simp only [withoutNulls, Trace.mk.injEq, true_and, and_true, hmap, VariableChange.withoutNull_eq]

theorem Orderly.reads {t : Trace} (orderly : t.Orderly) :
    Reads o Trace.decode? t.encode (t.inOrder o).withoutNulls := by
  intro settled
  obtain ⟨f, hf, shows⟩ := Fields.show_of?_obj o settled
    ["runId", "status", "startedAt", "durationMs", "steps", "variableChanges", "summary"]
    [("runId", .str t.runId), ("status", .str t.status.name), ("startedAt", t.startedAt.encode),
      ("durationMs", Json.ofWord t.durationMs), ("steps", .arr (Record.encodeAll t.steps)),
      ("variableChanges", .arr (t.variableChanges.map VariableChange.encode)), ("summary", t.summary.encode)] (by simp)
  have hid : f.required? "runId" string? = some t.runId := shows.required "runId" (by decide) (by simp) (.string _)
  have hstatus : f.required? "status" RunStatus.decode? = some t.status :=
    shows.required "status" (by decide) (by simp [Entries.lookup_cons]) (.runStatus _)
  have hstarted : f.required? "startedAt" Timestamp.decode? = some t.startedAt :=
    shows.required "startedAt" (by decide) (by simp [Entries.lookup_cons]) (.time orderly.startedAt)
  have hduration : f.required? "durationMs" word? = some t.durationMs :=
    shows.required "durationMs" (by decide) (by simp [Entries.lookup_cons]) (.word _)
  have hsteps : f.required? "steps" (listOf? Record.decode?) = some (t.steps.map (Record.inOrder o)) :=
    shows.required "steps" (by decide) (by simp [Entries.lookup_cons, Record.encodeAll_eq])
      (.list Record.encode (Record.inOrder o) fun r hr => (orderly.steps r hr).reads)
  have hchanges : f.withDefault? "variableChanges" [] (listOf? VariableChange.decode?) =
      some (t.variableChanges.map VariableChange.withoutNull) :=
    shows.withDefault "variableChanges" (by decide) _ (by simp [Entries.lookup_cons])
      (.list VariableChange.encode VariableChange.withoutNull fun c hc => (orderly.changes c hc).reads)
  have hsummary : f.required? "summary" RunSummary.decode? = some t.summary :=
    shows.required "summary" (by decide) (by simp [Entries.lookup_cons]) (.summary _)
  simp only [encode, decode?, hf, hid, hstatus, hstarted, hduration, hsteps, hchanges, hsummary, Option.bind_eq_bind,
    Option.bind_some]
  rfl

end Trace

/-! ### Events -/

namespace Event

/-- The times that the event tells of exist, and the values are normal. -/
def Orderly : Event → Prop
  | .runStarted _ time => time.WellFormed
  | .stepStarted _ _ _ startedAt => startedAt.WellFormed
  | .iterationStarted _ _ itemValue => itemValue.Normal
  | .variableChanged _ _ value => ∀ v ∈ value, v.Normal
  | .runCompleted _ _ _ finishedAt => finishedAt.WellFormed
  | _ => True

/-- The event as it is read: a written value that is null is missing. -/
def withoutNull : Event → Event
  | .variableChanged stepId name value => .variableChanged stepId name (value.bind Json.nonNull?)
  | e => e

theorem withoutNull_eq {e : Event} :
    e.withoutNull = e ↔ ∀ stepId name, e ≠ .variableChanged stepId name (some .null) := by
  cases e with
  | variableChanged stepId name value =>
    rw [withoutNull, Event.variableChanged.injEq, Json.bind_nonNull?]
    simp
  | _ => simp [withoutNull]

theorem nodup_fields (e : Event) : ((("type", .str e.kind) :: e.fields).map (·.1)).Nodup := by
  cases e <;> simp [fields]

/-- The kind of an event decides how the others of its fields are read. -/
theorem decode?_encode (e : Event) {read : Node → Option Event} (known : readers.lookup e.kind = some read)
    (names : List String) (apart : "type" ∉ names) (settled : Bool) :
    ∃ n f, decode? (shown o settled e.encode) = read n ∧ Fields.of? names n = some f ∧
      f.Show o true names e.fields := by
  have hnodup := e.nodup_fields
  have hlisted := o.nodup_order hnodup
  generalize hrest : (o.order (("type", Json.str e.kind) :: e.fields)).filter (·.1 ≠ "type") = rest
  obtain ⟨f, hf, shows⟩ := Fields.show_of? o true names rest
    (hrest ▸ hlisted.sublist (List.filter_sublist.map _))
  refine ⟨_, f, ?_, hf, shows.part (List.Subset.refl _) fun name hname => ?_⟩
  · have hmark : (o.order (("type", Json.str e.kind) :: e.fields)).lookup "type" = some (.str e.kind) := by
      rw [Entries.lookup_order o hnodup, Entries.lookup_cons, if_pos rfl]
    have htyped : (table true (rest.map fun e => (str e.1, shown o settled e.2))).typed? = some (tableOf o true rest) :=
      typed?_tableOf o settled rest
    have hkind : string? (shown o settled (.str e.kind)) = some e.kind := rfl
    rw [encode, shown_obj, tableOf, decode?]
    simp only [Fields.takeMark?_entries "type" _ hlisted, hmark, hrest, hkind, known, htyped, Option.bind_eq_bind,
      Option.bind_some, Option.map_some]
  · have hother : name ≠ "type" := fun h => apart (h ▸ hname)
    rw [← hrest, Entries.lookup_filter_keys (· ≠ "type") hother, Entries.lookup_order o hnodup, Entries.lookup_cons,
      if_neg hother]

theorem reads_runStarted (runId : String) {time : Timestamp} (orderly : time.WellFormed) :
    Reads o Event.decode? (encode (.runStarted runId time)) (.runStarted runId time) := by
  intro settled
  obtain ⟨n, f, hdecode, hf, shows⟩ := decode?_encode (o := o) (.runStarted runId time) rfl ["runId", "at"]
    (by decide) settled
  have hid : f.required? "runId" string? = some runId :=
    shows.required "runId" (by decide) (by simp [fields]) (.string _)
  have htime : f.required? "at" Timestamp.decode? = some time :=
    shows.required "at" (by decide) (by simp [fields, Entries.lookup_cons]) (.time orderly)
  rw [hdecode]
  simp only [hf, hid, htime, Option.bind_eq_bind, Option.bind_some]

theorem reads_phaseChanged (phase : Phase) (message : Option String) :
    Reads o Event.decode? (encode (.phaseChanged phase message)) (.phaseChanged phase message) := by
  intro settled
  obtain ⟨n, f, hdecode, hf, shows⟩ := decode?_encode (o := o) (.phaseChanged phase message) rfl ["phase", "message"]
    (by decide) settled
  have hphase : f.required? "phase" Phase.decode? = some phase :=
    shows.required "phase" (by decide) (by simp [fields]) (.phase _)
  have hmessage : f.nullable? "message" string? = some message := by
    rw [shows.nullable]
    exact shows.optional_null "message" (by decide) (by simp [fields, Entries.lookup_cons, Json.ofText?])
      fun _ _ => ⟨.string _, by rintro ⟨⟩⟩
  rw [hdecode]
  simp only [hf, hphase, hmessage, Option.bind_eq_bind, Option.bind_some]

theorem reads_stepStarted (stepId stepName : String) (stepKind : StepTag) {startedAt : Timestamp}
    (orderly : startedAt.WellFormed) :
    Reads o Event.decode? (encode (.stepStarted stepId stepName stepKind startedAt))
      (.stepStarted stepId stepName stepKind startedAt) := by
  intro settled
  obtain ⟨n, f, hdecode, hf, shows⟩ := decode?_encode (o := o) (.stepStarted stepId stepName stepKind startedAt) rfl
    ["stepId", "stepName", "stepKind", "startedAt"] (by decide) settled
  have hid : f.required? "stepId" string? = some stepId :=
    shows.required "stepId" (by decide) (by simp [fields]) (.string _)
  have hname : f.required? "stepName" string? = some stepName :=
    shows.required "stepName" (by decide) (by simp [fields, Entries.lookup_cons]) (.string _)
  have hkind : f.required? "stepKind" StepTag.decode? = some stepKind :=
    shows.required "stepKind" (by decide) (by simp [fields, Entries.lookup_cons]) (.tag _)
  have htime : f.required? "startedAt" Timestamp.decode? = some startedAt :=
    shows.required "startedAt" (by decide) (by simp [fields, Entries.lookup_cons]) (.time orderly)
  rw [hdecode]
  simp only [hf, hid, hname, hkind, htime, Option.bind_eq_bind, Option.bind_some]

theorem reads_stepFinished (stepId : String) (status : StepStatus) (durationMs : UInt64) (attempts : UInt32)
    (error : Option String) :
    Reads o Event.decode? (encode (.stepFinished stepId status durationMs attempts error))
      (.stepFinished stepId status durationMs attempts error) := by
  intro settled
  obtain ⟨n, f, hdecode, hf, shows⟩ := decode?_encode (o := o) (.stepFinished stepId status durationMs attempts error)
    rfl ["stepId", "status", "durationMs", "attempts", "error"] (by decide) settled
  have hid : f.required? "stepId" string? = some stepId :=
    shows.required "stepId" (by decide) (by simp [fields]) (.string _)
  have hstatus : f.required? "status" StepStatus.decode? = some status :=
    shows.required "status" (by decide) (by simp [fields, Entries.lookup_cons]) (.status _)
  have hduration : f.required? "durationMs" word? = some durationMs :=
    shows.required "durationMs" (by decide) (by simp [fields, Entries.lookup_cons]) (.word _)
  have hattempts : f.required? "attempts" halfWord? = some attempts :=
    shows.required "attempts" (by decide) (by simp [fields, Entries.lookup_cons]) (.halfWord _)
  have herror : f.nullable? "error" string? = some error := by
    rw [shows.nullable]
    exact shows.optional_null "error" (by decide) (by simp [fields, Entries.lookup_cons, Json.ofText?])
      fun _ _ => ⟨.string _, by rintro ⟨⟩⟩
  rw [hdecode]
  simp only [hf, hid, hstatus, hduration, hattempts, herror, Option.bind_eq_bind, Option.bind_some]

theorem reads_iterationStarted (stepId : String) (index : Nat) {itemValue : Json} (orderly : itemValue.Normal) :
    Reads o Event.decode? (encode (.iterationStarted stepId index itemValue))
      (.iterationStarted stepId index itemValue) := by
  intro settled
  obtain ⟨n, f, hdecode, hf, shows⟩ := decode?_encode (o := o) (.iterationStarted stepId index itemValue) rfl
    ["stepId", "index", "itemValue"] (by decide) settled
  have hid : f.required? "stepId" string? = some stepId :=
    shows.required "stepId" (by decide) (by simp [fields]) (.string _)
  have hindex : f.required? "index" size? = some index :=
    shows.required "index" (by decide) (by simp [fields, Entries.lookup_cons]) (.size _)
  have hitem : f.required? "itemValue" value? = some itemValue :=
    shows.required "itemValue" (by decide) (by simp [fields, Entries.lookup_cons]) (.value orderly)
  rw [hdecode]
  simp only [hf, hid, hindex, hitem, Option.bind_eq_bind, Option.bind_some]

theorem reads_iterationFinished (stepId : String) (index : Nat) (status : StepStatus) (durationMs : UInt64) :
    Reads o Event.decode? (encode (.iterationFinished stepId index status durationMs))
      (.iterationFinished stepId index status durationMs) := by
  intro settled
  obtain ⟨n, f, hdecode, hf, shows⟩ := decode?_encode (o := o) (.iterationFinished stepId index status durationMs) rfl
    ["stepId", "index", "status", "durationMs"] (by decide) settled
  have hid : f.required? "stepId" string? = some stepId :=
    shows.required "stepId" (by decide) (by simp [fields]) (.string _)
  have hindex : f.required? "index" size? = some index :=
    shows.required "index" (by decide) (by simp [fields, Entries.lookup_cons]) (.size _)
  have hstatus : f.required? "status" StepStatus.decode? = some status :=
    shows.required "status" (by decide) (by simp [fields, Entries.lookup_cons]) (.status _)
  have hduration : f.required? "durationMs" word? = some durationMs :=
    shows.required "durationMs" (by decide) (by simp [fields, Entries.lookup_cons]) (.word _)
  rw [hdecode]
  simp only [hf, hid, hindex, hstatus, hduration, Option.bind_eq_bind, Option.bind_some]

theorem reads_loopFinished (stepId : String) (reason : ExitReason) (completed : Nat) :
    Reads o Event.decode? (encode (.loopFinished stepId reason completed)) (.loopFinished stepId reason completed) := by
  intro settled
  obtain ⟨n, f, hdecode, hf, shows⟩ := decode?_encode (o := o) (.loopFinished stepId reason completed) rfl
    ["stepId", "exitReason", "completedIterations"] (by decide) settled
  have hid : f.required? "stepId" string? = some stepId :=
    shows.required "stepId" (by decide) (by simp [fields]) (.string _)
  have hreason : f.required? "exitReason" ExitReason.decode? = some reason :=
    shows.required "exitReason" (by decide) (by simp [fields, Entries.lookup_cons]) (.exitReason _)
  have hcompleted : f.required? "completedIterations" size? = some completed :=
    shows.required "completedIterations" (by decide) (by simp [fields, Entries.lookup_cons]) (.size _)
  rw [hdecode]
  simp only [hf, hid, hreason, hcompleted, Option.bind_eq_bind, Option.bind_some]

theorem reads_branchSelected (stepId : String) (index : Nat) (label : String) :
    Reads o Event.decode? (encode (.branchSelected stepId index label)) (.branchSelected stepId index label) := by
  intro settled
  obtain ⟨n, f, hdecode, hf, shows⟩ := decode?_encode (o := o) (.branchSelected stepId index label) rfl
    ["stepId", "index", "label"] (by decide) settled
  have hid : f.required? "stepId" string? = some stepId :=
    shows.required "stepId" (by decide) (by simp [fields]) (.string _)
  have hindex : f.required? "index" size? = some index :=
    shows.required "index" (by decide) (by simp [fields, Entries.lookup_cons]) (.size _)
  have hlabel : f.required? "label" string? = some label :=
    shows.required "label" (by decide) (by simp [fields, Entries.lookup_cons]) (.string _)
  rw [hdecode]
  simp only [hf, hid, hindex, hlabel, Option.bind_eq_bind, Option.bind_some]

theorem reads_variableChanged (stepId name : String) {value : Option Json} (orderly : ∀ v ∈ value, v.Normal) :
    Reads o Event.decode? (encode (.variableChanged stepId name value))
      (.variableChanged stepId name (value.bind Json.nonNull?)) := by
  intro settled
  obtain ⟨n, f, hdecode, hf, shows⟩ := decode?_encode (o := o) (.variableChanged stepId name value) rfl
    ["stepId", "name", "value"] (by decide) settled
  have hid : f.required? "stepId" string? = some stepId :=
    shows.required "stepId" (by decide) (by simp [fields]) (.string _)
  have hname : f.required? "name" string? = some name :=
    shows.required "name" (by decide) (by simp [fields, Entries.lookup_cons]) (.string _)
  have hvalue : f.nullable? "value" value? = some (value.bind Json.nonNull?) := by
    rw [shows.nullable]
    exact shows.withDefault "value" (by decide) none (by simp [fields, Entries.lookup_cons]) (.presence orderly)
  rw [hdecode]
  simp only [hf, hid, hname, hvalue, Option.bind_eq_bind, Option.bind_some]

theorem reads_runCompleted (runId : String) (status : RunStatus) (summary : RunSummary) {finishedAt : Timestamp}
    (orderly : finishedAt.WellFormed) :
    Reads o Event.decode? (encode (.runCompleted runId status summary finishedAt))
      (.runCompleted runId status summary finishedAt) := by
  intro settled
  obtain ⟨n, f, hdecode, hf, shows⟩ := decode?_encode (o := o) (.runCompleted runId status summary finishedAt) rfl
    ["runId", "status", "summary", "finishedAt"] (by decide) settled
  have hid : f.required? "runId" string? = some runId :=
    shows.required "runId" (by decide) (by simp [fields]) (.string _)
  have hstatus : f.required? "status" RunStatus.decode? = some status :=
    shows.required "status" (by decide) (by simp [fields, Entries.lookup_cons]) (.runStatus _)
  have hsummary : f.required? "summary" RunSummary.decode? = some summary :=
    shows.required "summary" (by decide) (by simp [fields, Entries.lookup_cons]) (.summary _)
  have htime : f.required? "finishedAt" Timestamp.decode? = some finishedAt :=
    shows.required "finishedAt" (by decide) (by simp [fields, Entries.lookup_cons]) (.time orderly)
  rw [hdecode]
  simp only [hf, hid, hstatus, hsummary, htime, Option.bind_eq_bind, Option.bind_some]

/-- Every orderly event is read back. -/
theorem Orderly.reads {e : Event} (orderly : e.Orderly) : Reads o Event.decode? e.encode e.withoutNull := by
  cases e with
  | runStarted => exact reads_runStarted _ orderly
  | phaseChanged => exact reads_phaseChanged _ _
  | stepStarted => exact reads_stepStarted _ _ _ orderly
  | stepFinished => exact reads_stepFinished _ _ _ _ _
  | iterationStarted => exact reads_iterationStarted _ _ orderly
  | iterationFinished => exact reads_iterationFinished _ _ _ _
  | loopFinished => exact reads_loopFinished _ _ _
  | branchSelected => exact reads_branchSelected _ _ _
  | variableChanged => exact reads_variableChanged _ _ orderly
  | runCompleted => exact reads_runCompleted _ _ _ orderly

end Event

end StepTree
