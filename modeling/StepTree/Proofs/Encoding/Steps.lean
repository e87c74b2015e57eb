import StepTree.Proofs.Encoding.Reading
import StepTree.Proofs.Walk
import StepTree.Workflow.Encoding

/-! # Workflows survive their encoding

A workflow that was written as a value is read back as it was. The fields of a step's kind stand among those of its
head, so reading tells them apart by their names; a field that was left out comes back at its default. Named values
come back in the order in which the keys of the value come. -/

namespace StepTree

open Node

/-! ### Fields that may be left out -/

namespace Json
variable {α : Type} {names : List String}

@[simp] theorem lookup_fieldOf (name key : String) (encode : α → Json) (a : Option α) :
    (fieldOf name encode a).lookup key = if key = name then a.map encode else none := by
  cases a with
  | none => simp [fieldOf]
  | some a => simp [fieldOf, Entries.lookup_cons]

@[simp] theorem lookup_flagOf (name key : String) (b : Bool) :
    (flagOf name b).lookup key = if key = name then (if b = true then some (bool true) else none) else none := by
  cases b with
  | false => simp [flagOf]
  | true => simp [flagOf, Entries.lookup_cons]

@[simp] theorem lookup_textsOf (name key : String) (entries : List (String × String)) :
    (textsOf name entries).lookup key =
      if key = name then (if entries.isEmpty = false then some (ofTexts entries) else none) else none := by
  cases entries with
  | nil => simp [textsOf]
  | cons e rest => simp [textsOf, Entries.lookup_cons]

theorem fieldOf_names (name : String) (encode : α → Json) (a : Option α) :
    ((fieldOf name encode a).map (·.1)).Sublist [name] := by
  cases a with
  | none => exact List.nil_sublist _
  | some a => exact List.Sublist.refl _

theorem flagOf_names (name : String) (b : Bool) : ((flagOf name b).map (·.1)).Sublist [name] := by
  cases b with
  | false => exact List.nil_sublist _
  | true => exact List.Sublist.refl _

theorem textsOf_names (name : String) (entries : List (String × String)) :
    ((textsOf name entries).map (·.1)).Sublist [name] := by
  cases entries with
  | nil => exact List.nil_sublist _
  | cons e rest => exact List.Sublist.refl _

end Json

/-! ### What the fields of a step hold -/

namespace StepHead

/-- No parameter is named twice, and no part of the result. -/
structure Orderly (h : StepHead) : Prop where
  inputs : (h.inputs.map (·.1)).Nodup
  outputs : (h.outputs.map (·.1)).Nodup

/-- The head with its named texts in an order. -/
def inOrder (o : KeyOrder) (h : StepHead) : StepHead :=
  { h with inputs := o.order h.inputs, outputs := o.order h.outputs }

theorem fields_names (h : StepHead) : (h.fields.map (·.1)).Sublist names := by
  have hnames : names = ["id", "name"] ++ ["condition"] ++ ["disabled"] ++ ["continueOnFail"] ++ ["timeoutMs"] ++
    ["retry"] ++ ["inputs"] ++ ["outputs"] := rfl
  rw [hnames]
  simp only [fields, List.map_append]
  exact (((((((List.Sublist.refl _).append (Json.fieldOf_names ..)).append (Json.flagOf_names ..)).append
    (Json.flagOf_names ..)).append (Json.fieldOf_names ..)).append (Json.fieldOf_names ..)).append
    (Json.textsOf_names ..)).append (Json.textsOf_names ..)

end StepHead

variable {o : KeyOrder} {settled : Bool}

namespace Node.Reads

theorem retry (r : RetryPolicy) : Reads o RetryPolicy.decode? r.encode r := by
  intro settled
  obtain ⟨f, hf, shows⟩ := Fields.show_of?_obj o settled RetryPolicy.fieldNames
    [("count", .ofHalfWord r.count), ("delayMs", .ofWord r.delayMs)] (by simp)
  have hcount : f.withDefault? "count" 0 halfWord? = some r.count :=
    shows.withDefault "count" (by decide) 0 (by simp) (.halfWord _)
  have hdelay : f.withDefault? "delayMs" 0 word? = some r.delayMs :=
    shows.withDefault "delayMs" (by decide) 0 (by simp [Entries.lookup_cons]) (.word _)
  simp only [RetryPolicy.encode, RetryPolicy.decode?, hf, hcount, hdelay, Option.bind_eq_bind, Option.bind_some]

theorem loopType (t : LoopType) : Reads o LoopType.decode? t.encode t := by
  cases t <;> exact .choice (by decide)

theorem count (c : CountSpec) : Reads o CountSpec.decode? c.encode c := by
  intro settled
  cases c with
  | literal n =>
    have hword : word? (shown o true (.ofWord n)) = some n := Reads.word n true
    rw [CountSpec.encode, CountSpec.decode?, typed?_shown, Option.bind_eq_bind, Option.bind_some, hword]
  | expression text =>
    have hword : word? (shown o true (.str text)) = none := by simp [word?, shown, natural?]
    rw [CountSpec.encode, CountSpec.decode?, typed?_shown, Option.bind_eq_bind, Option.bind_some, hword]
    rfl

end Node.Reads

/-- The fields of a head are read back. -/
theorem StepHead.decode?_of_show {h : StepHead} (orderly : h.Orderly) {f : Fields}
    (shows : f.Show o settled names h.fields) : decode? f = some (h.inOrder o) := by
  have hid : f.required? "id" string? = some h.id := shows.required "id" (by decide) (by simp [fields]) (.string _)
  have hname : f.withDefault? "name" "" string? = some h.name :=
    shows.withDefault "name" (by decide) "" (by simp [fields, Entries.lookup_cons]) (.string _)
  have hcondition : f.optional? "condition" string? = some h.condition :=
    shows.optional "condition" (by decide) (by simp [fields, List.lookup_append, Entries.lookup_cons])
      fun _ _ => ⟨.string _, nofun⟩
  have hdisabled : f.withDefault? "disabled" false bool? = some h.disabled :=
    shows.flag "disabled" (by decide) (by simp [fields, List.lookup_append, Entries.lookup_cons])
  have htolerant : f.withDefault? "continueOnFail" false bool? = some h.continueOnFail :=
    shows.flag "continueOnFail" (by decide) (by simp [fields, List.lookup_append, Entries.lookup_cons])
  have htimeout : f.optional? "timeoutMs" word? = some h.timeoutMs :=
    shows.optional "timeoutMs" (by decide) (by simp [fields, List.lookup_append, Entries.lookup_cons])
      fun _ _ => ⟨.word _, nofun⟩
  have hretry : f.optional? "retry" RetryPolicy.decode? = some h.retry :=
    shows.optional "retry" (by decide) (by simp [fields, List.lookup_append, Entries.lookup_cons])
      fun _ _ => ⟨.retry _, nofun⟩
  have hinputs : f.withDefault? "inputs" [] texts? = some (o.order h.inputs) :=
    shows.texts "inputs" (by decide) orderly.inputs (by simp [fields, List.lookup_append, Entries.lookup_cons])
  have houtputs : f.withDefault? "outputs" [] texts? = some (o.order h.outputs) :=
    shows.texts "outputs" (by decide) orderly.outputs (by simp [fields, List.lookup_append, Entries.lookup_cons])
  simp only [decode?, hid, hname, hcondition, hdisabled, htolerant, htimeout, hretry, hinputs, houtputs,
    Option.bind_eq_bind, Option.bind_some]
  rfl

/-! ### Telling the fields of a step apart -/

/-- The head of a step reads the entries under its own names. -/
theorem StepHead.collect?_owned (settled : Bool) {entries : List (String × Json)} (nodup : (entries.map (·.1)).Nodup) :
    ∃ owned, Fields.collect? names ((entries.map fun e => (str e.1, shown o settled e.2)).filter owns) = some owned ∧
      ∀ name ∈ names, owned.lookup name = (entries.lookup name).map (shown o settled) := by
  have hfilter : (entries.map fun e => (str e.1, shown o settled e.2)).filter owns =
      (entries.filter fun e => e.1 ∈ names).map fun e => (str e.1, shown o settled e.2) := by
    rw [List.filter_map]
    rfl
  refine ⟨_, by rw [hfilter, Fields.collect?_entries _ _ (nodup.sublist (List.filter_sublist.map _))], ?_⟩
  intro name hname
  rw [Entries.lookup_map_values, Entries.lookup_filter_keys (· ∈ names) hname,
    Entries.lookup_filter_keys (· ∈ names) hname]

/-- The types of the other entries are decided. -/
theorem StepKind.mapM_entry? (settled : Bool) (entries : List (String × Json)) :
    ((entries.map fun e => (str e.1, shown o settled e.2)).filter (!StepHead.owns ·)).mapM entry? =
      some ((entries.filter fun e => e.1 ∉ StepHead.names).map fun e => (str e.1, shown o true e.2)) := by
  have hfilter : (entries.map fun e => (str e.1, shown o settled e.2)).filter (!StepHead.owns ·) =
      (entries.filter fun e => e.1 ∉ StepHead.names).map fun e => (str e.1, shown o settled e.2) := by
    rw [List.filter_map]
    exact congrArg (List.map _) (List.filter_congr fun e _ => by simp [StepHead.owns])
  rw [hfilter]
  refine mapM_eq_some.mpr ?_
  rw [List.forall₂_map_left_iff, List.forall₂_map_right_iff, List.forall₂_same]
  intro e _
  simp only [ entry?, typed?_shown, Option.bind_eq_bind, Option.bind_some]

namespace Step

theorem encode_eq (s : Step) : s.encode = .obj (s.head.fields ++ ("kind", s.kind.tag.encode) :: s.kind.fields) := by
  cases s
  rw [encode]

/-- The fields of a kind have other names than those of a head. -/
theorem names_apart (kind : StepKind) : (StepHead.names ++ "kind" :: kind.fields.map (·.1)).Nodup := by
  cases kind <;> simp [StepKind.fields, StepHead.names]

theorem nodup_encode (s : Step) :
    ((s.head.fields ++ ("kind", s.kind.tag.encode) :: s.kind.fields).map (·.1)).Nodup := by
  rw [List.map_append]
  exact (names_apart s.kind).sublist (s.head.fields_names.append (List.Sublist.refl _))

theorem not_mem_names {kind : StepKind} {e : String × Json} (h : e ∈ ("kind", kind.tag.encode) :: kind.fields) :
    e.1 ∉ StepHead.names :=
  fun hname => (List.nodup_append.mp (names_apart kind)).2.2 _ hname _ (List.mem_map_of_mem h) rfl

theorem levelsIn_field (s : Step) (key : String) {value : Json} (h : (key, value) ∈ s.kind.fields) :
    levelsIn o value < levelsIn o s.encode := by
  rw [encode_eq]
  exact levelsIn_entry s.nodup_encode key (List.mem_append_right _ (List.mem_cons_of_mem _ h))

/-- The entries of a step are told apart by their names. -/
theorem parts?_encode (s : Step) (orderly : s.head.Orderly) (settled : Bool) :
    ∃ rest, parts? (shown o settled s.encode) = some (s.head.inOrder o, s.kind.tag, tableOf o true rest) ∧
      (rest.map (·.1)).Nodup ∧ ∀ key value, (key, value) ∈ s.kind.fields → rest.lookup key = some value := by
  have nodup := s.nodup_encode
  have hlisted := o.nodup_order nodup
  obtain ⟨owned, howned, hlookup⟩ := StepHead.collect?_owned (o := o) settled hlisted
  have hhead : StepHead.decode? ⟨owned, false⟩ = some (s.head.inOrder o) := by
    have hshows : ∀ name ∈ StepHead.names, owned.lookup name = (s.head.fields.lookup name).map (shown o settled) := by
      intro name hname
      have hkind : (("kind", s.kind.tag.encode) :: s.kind.fields).lookup name = none := by
        refine Entries.lookup_eq_none fun hmem => ?_
        obtain ⟨e, he, rfl⟩ := List.mem_map.mp hmem
        exact not_mem_names he hname
      rw [hlookup name hname, Entries.lookup_order o nodup, List.lookup_append, hkind, Option.or_none]
    exact StepHead.decode?_of_show orderly ⟨rfl, hshows⟩
  generalize hkept : ((o.order (s.head.fields ++ ("kind", s.kind.tag.encode) :: s.kind.fields)).filter
    fun e => e.1 ∉ StepHead.names) = kept
  have hnodup : (kept.map (·.1)).Nodup := hkept ▸ hlisted.sublist (List.filter_sublist.map _)
  have hfields : ∀ e ∈ ("kind", s.kind.tag.encode) :: s.kind.fields, kept.lookup e.1 = some e.2 := by
    intro e he
    rw [← hkept, Entries.lookup_filter_keys (· ∉ StepHead.names) (not_mem_names he), Entries.lookup_order o nodup]
    exact (Entries.lookup_iff_mem nodup).mpr (List.mem_append_right _ he)
  have hmark : mark? StepTag.names (shown o true s.kind.tag.encode) = some s.kind.tag := by
    cases s.kind.tag <;> rfl
  refine ⟨kept.filter (·.1 ≠ "kind"), ?_, hnodup.sublist (List.filter_sublist.map _), ?_⟩
  · rw [encode_eq, shown_obj, tableOf, parts?]
    simp only [howned, StepKind.mapM_entry?, hkept, Fields.takeMark?_entries "kind" _ hnodup,
      hfields _ List.mem_cons_self, hhead, hmark, Option.bind_eq_bind, Option.bind_some, Option.map_some]
    rfl
  · intro key value h
    have hother : key ≠ "kind" := by
      rintro rfl
      exact (List.nodup_cons.mp (List.nodup_append.mp (names_apart s.kind)).2.1).1 (List.mem_map_of_mem h)
    rw [Entries.lookup_filter_keys (· ≠ "kind") hother, hfields _ (List.mem_cons_of_mem _ h)]

end Step

/-! ### Loops and actions -/

theorem Node.Reads.loop (c : LoopConfig) : Reads o LoopConfig.decode? c.encode c := by
  intro settled
  have hnodup : ∀ entries, c.encode = .obj entries → (entries.map (·.1)).Nodup := by
    rintro _ ⟨⟩
    have hnames : (["type"] ++ ["source"] ++ ["condition"] ++ ["count"] ++ ["itemVar", "indexVar"] ++
      ["maxIterations"] ++ ["breakCondition"] ++ ["continueCondition"] ++ ["stopOnFailure"]).Nodup := by decide
    refine hnames.sublist ?_
    simp only [List.map_append]
    exact ((((((((List.Sublist.refl _).append (Json.fieldOf_names ..)).append (Json.fieldOf_names ..)).append
      (Json.fieldOf_names ..)).append (List.Sublist.refl _)).append (Json.fieldOf_names ..)).append
      (Json.fieldOf_names ..)).append (Json.fieldOf_names ..)).append (Json.flagOf_names ..)
  obtain ⟨f, hf, shows⟩ := Fields.show_of?_obj o settled ["type", "source", "condition", "count", "itemVar", "indexVar",
    "maxIterations", "breakCondition", "continueCondition", "stopOnFailure"] _ (hnodup _ rfl)
  have htype : f.required? "type" LoopType.decode? = some c.loopType :=
    shows.required "type" (by decide) (by simp) (.loopType _)
  have hsource : f.optional? "source" string? = some c.source :=
    shows.optional "source" (by decide) (by simp [List.lookup_append, Entries.lookup_cons])
      fun _ _ => ⟨.string _, nofun⟩
  have hcondition : f.optional? "condition" string? = some c.condition :=
    shows.optional "condition" (by decide) (by simp [List.lookup_append, Entries.lookup_cons])
      fun _ _ => ⟨.string _, nofun⟩
  have hcount : f.optional? "count" CountSpec.decode? = some c.count :=
    shows.optional "count" (by decide) (by simp [List.lookup_append, Entries.lookup_cons])
      fun spec _ => ⟨.count spec, by cases spec <;> nofun⟩
  have hitem : f.withDefault? "itemVar" "item" string? = some c.itemVar :=
    shows.withDefault "itemVar" (by decide) _ (by simp [List.lookup_append, Entries.lookup_cons]) (.string _)
  have hindex : f.withDefault? "indexVar" "i" string? = some c.indexVar :=
    shows.withDefault "indexVar" (by decide) _ (by simp [List.lookup_append, Entries.lookup_cons]) (.string _)
  have hmost : f.optional? "maxIterations" halfWord? = some c.maxIterations :=
    shows.optional "maxIterations" (by decide) (by simp [List.lookup_append, Entries.lookup_cons])
      fun _ _ => ⟨.halfWord _, nofun⟩
  have hbreak : f.optional? "breakCondition" string? = some c.breakCondition :=
    shows.optional "breakCondition" (by decide) (by simp [List.lookup_append, Entries.lookup_cons])
      fun _ _ => ⟨.string _, nofun⟩
  have hcontinue : f.optional? "continueCondition" string? = some c.continueCondition :=
    shows.optional "continueCondition" (by decide) (by simp [List.lookup_append, Entries.lookup_cons])
      fun _ _ => ⟨.string _, nofun⟩
  have hstop : f.withDefault? "stopOnFailure" false bool? = some c.stopOnFailure :=
    shows.flag "stopOnFailure" (by decide) (by simp [List.lookup_append, Entries.lookup_cons])
  simp only [LoopConfig.encode, LoopConfig.decode?, hf, htype, hsource, hcondition, hcount, hitem, hindex, hmost,
    hbreak, hcontinue, hstop, Option.bind_eq_bind, Option.bind_some]

theorem ActionSpec.decode?_of_fields {spec : ActionSpec} (normal : (Json.obj spec.config).Normal)
    {rest : List (String × Json)} (nodup : (rest.map (·.1)).Nodup)
    (actionType : rest.lookup "actionType" = some (.str spec.actionType))
    (config : rest.lookup "config" = some (.obj spec.config)) : decode? (tableOf o settled rest) = some spec := by
  obtain ⟨f, hf, shows⟩ := Fields.show_of? o settled ["actionType", "config"] rest nodup
  have htype : f.required? "actionType" string? = some spec.actionType :=
    shows.required "actionType" (by decide) actionType (.string _)
  have hconfig : f.withDefault? "config" [] valueMap? = some spec.config :=
    shows.withDefault "config" (by decide) [] config (.valueMap normal)
  simp only [decode?, hf, htype, hconfig, Option.bind_eq_bind, Option.bind_some]

/-! ### Trees of steps -/

/-- The heads in a tree are orderly, and the actions are given normal values. -/
inductive Step.Orderly : Step → Prop
  | action {head : StepHead} {spec : ActionSpec} (head_orderly : head.Orderly)
    (normal : (Json.obj spec.config).Normal) : Orderly ⟨head, .action spec⟩
  | group {head : StepHead} {children : List Step} (head_orderly : head.Orderly)
    (inside : ∀ s ∈ children, Orderly s) : Orderly ⟨head, .group children⟩
  | loop {head : StepHead} {config : LoopConfig} {children : List Step} (head_orderly : head.Orderly)
    (inside : ∀ s ∈ children, Orderly s) : Orderly ⟨head, .loop config children⟩
  | branch {head : StepHead} {arms : List Arm} (head_orderly : head.Orderly)
    (inside : ∀ a ∈ arms, ∀ s ∈ a.children, Orderly s) : Orderly ⟨head, .branch arms⟩

mutual

/-- The tree with the named texts of every step in an order. -/
def Step.inOrder (o : KeyOrder) : Step → Step
  | ⟨head, kind⟩ => ⟨head.inOrder o, kind.inOrder o⟩

def StepKind.inOrder (o : KeyOrder) : StepKind → StepKind
  | .action spec => .action spec
  | .group children => .group (Step.allInOrder o children)
  | .loop config children => .loop config (Step.allInOrder o children)
  | .branch arms => .branch (Arm.allInOrder o arms)

def Step.allInOrder (o : KeyOrder) : List Step → List Step
  | [] => []
  | s :: rest => s.inOrder o :: Step.allInOrder o rest

def Arm.allInOrder (o : KeyOrder) : List Arm → List Arm
  | [] => []
  | a :: rest => a.inOrder o :: Arm.allInOrder o rest

def Arm.inOrder (o : KeyOrder) : Arm → Arm
  | ⟨condition, label, children⟩ => ⟨condition, label, Step.allInOrder o children⟩

end

theorem Step.allInOrder_eq (o : KeyOrder) (steps : List Step) : allInOrder o steps = steps.map (inOrder o) := by
  induction steps with
  | nil => rfl
  | cons s rest ih => rw [allInOrder, ih, List.map_cons]

theorem Arm.allInOrder_eq (o : KeyOrder) (arms : List Arm) : allInOrder o arms = arms.map (inOrder o) := by
  induction arms with
  | nil => rfl
  | cons a rest ih => rw [allInOrder, ih, List.map_cons]

theorem Step.encodeAll_eq (steps : List Step) : encodeAll steps = steps.map encode := by
  induction steps with
  | nil => rfl
  | cons s rest ih => rw [encodeAll, ih, List.map_cons]

theorem Arm.encodeAll_eq (arms : List Arm) : encodeAll arms = arms.map encode := by
  induction arms with
  | nil => rfl
  | cons a rest ih => rw [encodeAll, ih, List.map_cons]

/-- In the order in which it is written a tree stays as it is. -/
@[simp] theorem Step.inOrder_written (s : Step) : s.inOrder .written = s := by
  refine @Step.tree_induction (fun s => s.inOrder .written = s) (fun steps => allInOrder .written steps = steps) rfl
    ?cons ?action ?group ?loop ?branch s
  case cons =>
    intro s rest hs hrest
    rw [allInOrder, hs, hrest]
  case action => exact fun head spec => rfl
  case group =>
    intro head children h
    rw [inOrder, StepKind.inOrder, h]
    rfl
  case loop =>
    intro head config children h
    rw [inOrder, StepKind.inOrder, h]
    rfl
  case branch =>
    intro head arms h
    have harms : ∀ a ∈ arms, a.inOrder .written = a := by
      intro a ha
      cases a
      rw [Arm.inOrder, h _ ha]
    rw [inOrder, StepKind.inOrder, Arm.allInOrder_eq, (List.map_congr_left harms).trans (List.map_id' arms)]
    rfl

theorem Arm.reads_within {a : Arm}
    (inside : ∀ s ∈ a.children, ReadsWithin o Step.decodeWithin? s.encode (s.inOrder o)) :
    ReadsWithin o decodeWithin? a.encode (a.inOrder o) := by
  obtain ⟨condition, label, children⟩ := a
  intro fuel enough settled
  rw [encode, Step.encodeAll_eq] at enough ⊢
  have hnodup : ((("condition", Json.str condition) :: (Json.fieldOf "label" Json.str label ++
      [("children", Json.arr (children.map Step.encode))])).map (·.1)).Nodup := by
    cases label <;> simp [Json.fieldOf]
  obtain ⟨f, hf, shows⟩ := Fields.show_of?_obj o settled ["condition", "label", "children"] _ hnodup
  have hlevels : levelsIn o (.arr (children.map Step.encode)) ≤ fuel :=
    Nat.le_trans (Nat.le_of_lt (levelsIn_entry hnodup "children" (by simp))) enough
  have hcondition : f.withDefault? "condition" "" string? = some condition :=
    shows.withDefault "condition" (by decide) "" (by simp) (.string _)
  have hlabel : f.optional? "label" string? = some label :=
    shows.optional "label" (by decide) (by simp [List.lookup_append, Entries.lookup_cons]) fun _ _ => ⟨.string _, nofun⟩
  have hchildren : f.withDefault? "children" [] (listOf? (Step.decodeWithin? fuel)) =
      some (children.map (Step.inOrder o)) :=
    shows.withDefault "children" (by decide) [] (by simp [List.lookup_append, Entries.lookup_cons])
      (ReadsWithin.list Step.encode (Step.inOrder o) inside hlevels)
  rw [decodeWithin?, hf, inOrder, Step.allInOrder_eq]
  simp only [hcondition, hlabel, hchildren, Option.bind_eq_bind, Option.bind_some]

/-- Every orderly step is read back. -/
theorem Step.Orderly.reads_within {s : Step} (orderly : s.Orderly) :
    ReadsWithin o Step.decodeWithin? s.encode (s.inOrder o) := by
  induction orderly with
  | @action head spec head_orderly normal =>
    intro fuel _ settled
    obtain ⟨rest, hparts, hnodup, hfields⟩ := parts?_encode (o := o) ⟨head, .action spec⟩ head_orderly settled
    have hspec : ActionSpec.decode? (tableOf o true rest) = some spec :=
      ActionSpec.decode?_of_fields normal hnodup (hfields "actionType" _ (by simp [StepKind.fields]))
        (hfields "config" _ (by simp [StepKind.fields]))
    rw [decodeWithin?, hparts]
    simp only [StepKind.tag, hspec, Option.bind_eq_bind, Option.bind_some, Option.map_some]
    rfl
  | @group head children head_orderly _ inside =>
    intro fuel enough settled
    obtain ⟨rest, hparts, hnodup, hfields⟩ := parts?_encode (o := o) ⟨head, .group children⟩ head_orderly settled
    obtain ⟨f, hf, shows⟩ := Fields.show_of? o true ["children"] rest hnodup
    have hmem : ("children", Json.arr (children.map encode)) ∈ (StepKind.group children).fields := by
      simp [StepKind.fields, encodeAll_eq]
    have hlevels := Nat.le_trans (Nat.le_of_lt (levelsIn_field ⟨head, .group children⟩ "children" hmem)) enough
    have hchildren : f.withDefault? "children" [] (listOf? (decodeWithin? fuel)) = some (children.map (inOrder o)) :=
      shows.withDefault "children" (by decide) [] (hfields _ _ hmem)
        (ReadsWithin.list encode (inOrder o) inside hlevels)
    rw [decodeWithin?, hparts, inOrder, StepKind.inOrder, allInOrder_eq]
    simp only [StepKind.tag, hf, hchildren, Option.bind_eq_bind, Option.bind_some]
  | @loop head config children head_orderly _ inside =>
    intro fuel enough settled
    obtain ⟨rest, hparts, hnodup, hfields⟩ := parts?_encode (o := o) ⟨head, .loop config children⟩ head_orderly settled
    obtain ⟨f, hf, shows⟩ := Fields.show_of? o true ["loop", "children"] rest hnodup
    have hloop : f.required? "loop" LoopConfig.decode? = some config :=
      shows.required "loop" (by decide) (hfields "loop" _ (by simp [StepKind.fields])) (.loop config)
    have hmem : ("children", Json.arr (children.map encode)) ∈ (StepKind.loop config children).fields := by
      simp [StepKind.fields, encodeAll_eq]
    have hlevels := Nat.le_trans (Nat.le_of_lt (levelsIn_field ⟨head, .loop config children⟩ "children" hmem)) enough
    have hchildren : f.withDefault? "children" [] (listOf? (decodeWithin? fuel)) = some (children.map (inOrder o)) :=
      shows.withDefault "children" (by decide) [] (hfields _ _ hmem)
        (ReadsWithin.list encode (inOrder o) inside hlevels)
    rw [decodeWithin?, hparts, inOrder, StepKind.inOrder, allInOrder_eq]
    simp only [StepKind.tag, hf, hloop, hchildren, Option.bind_eq_bind, Option.bind_some]
  | @branch head arms head_orderly _ inside =>
    intro fuel enough settled
    obtain ⟨rest, hparts, hnodup, hfields⟩ := parts?_encode (o := o) ⟨head, .branch arms⟩ head_orderly settled
    obtain ⟨f, hf, shows⟩ := Fields.show_of? o true ["branches"] rest hnodup
    have hmem : ("branches", Json.arr (arms.map Arm.encode)) ∈ (StepKind.branch arms).fields := by
      simp [StepKind.fields, Arm.encodeAll_eq]
    have hlevels := Nat.le_trans (Nat.le_of_lt (levelsIn_field ⟨head, .branch arms⟩ "branches" hmem)) enough
    have harms : f.withDefault? "branches" [] (listOf? (Arm.decodeWithin? fuel)) = some (arms.map (Arm.inOrder o)) :=
      shows.withDefault "branches" (by decide) [] (hfields _ _ hmem)
        (ReadsWithin.list Arm.encode (Arm.inOrder o) (fun a ha => Arm.reads_within (inside a ha)) hlevels)
    rw [decodeWithin?, hparts, inOrder, StepKind.inOrder, Arm.allInOrder_eq]
    simp only [StepKind.tag, hf, harms, Option.bind_eq_bind, Option.bind_some]

theorem Step.Orderly.reads {s : Step} (orderly : s.Orderly) : Reads o Step.decode? s.encode (s.inOrder o) := by
  intro settled
  rw [Step.decode?, levels_shown]
  exact orderly.reads_within _ (Nat.le_refl _) settled

/-! ### Workflows -/

namespace Workflow

/-- No input is named twice and no variable, every value is normal, and the steps are orderly. -/
structure Orderly (w : Workflow) : Prop where
  inputs : (w.inputs.map (·.1)).Nodup
  defaults : ∀ e ∈ w.inputs, ∀ value ∈ e.2.default, value.Normal
  vars : (w.vars.map (·.1)).Nodup
  values : ∀ e ∈ w.vars, e.2.Normal
  steps : ∀ s ∈ w.steps, s.Orderly

/-- The workflow with its named values and those of its steps in an order. -/
def inOrder (o : KeyOrder) (w : Workflow) : Workflow :=
  { w with inputs := o.order w.inputs, vars := o.order w.vars, steps := w.steps.map (Step.inOrder o) }

@[simp] theorem inOrder_written (w : Workflow) : w.inOrder .written = w := by
  have hsteps : w.steps.map (Step.inOrder .written) = w.steps :=
    (List.map_congr_left fun s _ => s.inOrder_written).trans (List.map_id' w.steps)
  rw [inOrder, hsteps]
  rfl

end Workflow

theorem Node.Reads.input {i : WorkflowInput} (normal : ∀ value ∈ i.default, value.Normal)
    (plain : i.default ≠ some .null) : Reads o WorkflowInput.decode? i.encode i := by
  intro settled
  obtain ⟨f, hf, shows⟩ := Fields.show_of?_obj o settled WorkflowInput.fieldNames
    [("description", Json.ofText? i.description), ("default", i.default.getD .null), ("secret", .bool i.isSecret)]
    (by simp)
  have hdescription : f.optional? "description" string? = some i.description :=
    shows.optional_null "description" (by decide) (by simp [Json.ofText?]) fun _ _ => ⟨.string _, nofun⟩
  have hdefault : f.optional? "default" value? = some i.default := by
    refine shows.optional_null "default" (by decide) ?_
      fun value h => ⟨.value (normal value h), fun hnull => plain (hnull ▸ h)⟩
    rw [Option.map_id']
    simp [Entries.lookup_cons]
  have hsecret : f.withDefault? "secret" false bool? = some i.isSecret :=
    shows.withDefault "secret" (by decide) _ (by simp [Entries.lookup_cons]) (.bool _)
  simp only [WorkflowInput.encode, WorkflowInput.decode?, hf, hdescription, hdefault, hsecret, Option.bind_eq_bind,
    Option.bind_some]

theorem Workflow.Orderly.reads {w : Workflow} (orderly : w.Orderly) (plain : ∀ e ∈ w.inputs, e.2.default ≠ some .null) :
    Reads o Workflow.decode? w.encode (w.inOrder o) := by
  intro settled
  obtain ⟨f, hf, shows⟩ := Fields.show_of?_obj o settled Workflow.fieldNames
    [("workflow", .str w.id), ("name", Json.ofText? w.name), ("description", Json.ofText? w.description),
      ("inputs", .obj (w.inputs.map fun e => (e.1, e.2.encode))), ("variables", .obj w.vars),
      ("steps", .arr (Step.encodeAll w.steps))] (by simp)
  have hid : f.withDefault? "workflow" "" string? = some w.id :=
    shows.withDefault "workflow" (by decide) _ (by simp) (.string _)
  have hname : f.optional? "name" string? = some w.name :=
    shows.optional_null "name" (by decide) (by simp [Json.ofText?, Entries.lookup_cons]) fun _ _ => ⟨.string _, nofun⟩
  have hdescription : f.optional? "description" string? = some w.description :=
    shows.optional_null "description" (by decide) (by simp [Json.ofText?, Entries.lookup_cons])
      fun _ _ => ⟨.string _, nofun⟩
  have hinputs : f.withDefault? "inputs" [] (mapOf? WorkflowInput.decode?) = some (o.order w.inputs) :=
    shows.withDefault "inputs" (by decide) _ (by simp [Entries.lookup_cons])
      (.map WorkflowInput.encode orderly.inputs fun e he => .input (orderly.defaults e he) (plain e he))
  have hvars : f.withDefault? "variables" [] (mapOf? value?) = some (o.order w.vars) :=
    shows.withDefault "variables" (by decide) _ (by simp [Entries.lookup_cons]) (.values orderly.vars orderly.values)
  have hsteps : f.withDefault? "steps" [] (listOf? Step.decode?) = some (w.steps.map (Step.inOrder o)) :=
    shows.withDefault "steps" (by decide) _ (by simp [Entries.lookup_cons, Step.encodeAll_eq])
      (.list Step.encode (Step.inOrder o) fun s hs => (orderly.steps s hs).reads)
  simp only [Workflow.encode, Workflow.decode?, hf, hid, hname, hdescription, hinputs, hvars, hsteps,
    Option.bind_eq_bind, Option.bind_some]
  rfl

/-- Steps and workflows come back from their values as they were, none of whose inputs has null for its default; when
the keys of the values come in another order, so do the named values that are read. -/
theorem definitions_survive_encoding :
    (∀ s : Step, s.Orderly → Step.decode? (.ofJson s.encode) = some s ∧
      ∀ o : KeyOrder, Step.decode? (.ofJson (s.encode.inOrder o)) = some (s.inOrder o)) ∧
    ∀ w : Workflow, w.Orderly → (∀ e ∈ w.inputs, e.2.default ≠ some .null) →
      Workflow.decode? (.ofJson w.encode) = some w ∧
      ∀ o : KeyOrder, Workflow.decode? (.ofJson (w.encode.inOrder o)) = some (w.inOrder o) := by
  have hsteps : ∀ s : Step, s.Orderly → ∀ o : KeyOrder,
      Step.decode? (.ofJson (s.encode.inOrder o)) = some (s.inOrder o) := by
    intro s orderly o
    rw [ofJson_inOrder]
    exact orderly.reads false
  have hworkflows : ∀ w : Workflow, w.Orderly → (∀ e ∈ w.inputs, e.2.default ≠ some .null) → ∀ o : KeyOrder,
      Workflow.decode? (.ofJson (w.encode.inOrder o)) = some (w.inOrder o) := by
    intro w orderly plain o
    rw [ofJson_inOrder]
    exact orderly.reads plain false
  exact ⟨fun s orderly => ⟨by simpa using hsteps s orderly .written, hsteps s orderly⟩,
    fun w orderly plain => ⟨by simpa using hworkflows w orderly plain .written, hworkflows w orderly plain⟩⟩

/-- A loop over a branch with an action comes back, and the workflow that holds it. -/
theorem nested_definition_survives_encoding :
    let action : Step := ⟨{ id := "b", retry := some ⟨2, 5⟩, inputs := [("q", "${x}"), ("p", "1")] },
      .action ⟨"http", [("url", .str "u")]⟩⟩
    let s : Step := ⟨{ id := "a", disabled := true }, .loop { loopType := .times, count := some (.expression "n") }
      [⟨{ id := "c", condition := some "true" }, .branch [⟨"default", none, [action]⟩]⟩]⟩
    let w : Workflow := { id := "w", inputs := [("x", { default := some (.str "d"), isSecret := true })], steps := [s] }
    s.Orderly ∧ Step.decode? (.ofJson s.encode) = some s ∧
      Step.decode? (.ofJson s.encode.normalize) = some (s.inOrder .sorted) ∧
      Workflow.decode? (.ofJson w.encode) = some w := by
  intro action s w
  have haction : action.Orderly := .action ⟨by decide, by decide⟩ (.obj (List.pairwise_singleton ..) (by
    simpa using Json.Normal.str "u"))
  have hs : s.Orderly := .loop ⟨by decide, by decide⟩ (List.forall_mem_singleton.mpr
    (.branch ⟨by decide, by decide⟩ (List.forall_mem_singleton.mpr (List.forall_mem_singleton.mpr haction))))
  have hw : w.Orderly :=
    { inputs := by decide
      defaults := by
        intro e he value hvalue
        obtain rfl := List.mem_singleton.mp he
        cases hvalue
        exact .str "d"
      vars := List.nodup_nil
      values := List.forall_mem_nil _
      steps := List.forall_mem_singleton.mpr hs }
  refine ⟨hs, (definitions_survive_encoding.1 s hs).1, ?_, (definitions_survive_encoding.2 w hw (by simp [w])).1⟩
  rw [← Json.inOrder_sorted]
  exact (definitions_survive_encoding.1 s hs).2 .sorted

end StepTree
