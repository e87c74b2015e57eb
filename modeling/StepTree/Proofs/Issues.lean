import StepTree.Proofs.Validity

/-! # What validation reports

Validation goes through a tree once. It looks at each step and then at the steps inside it, and remembers the identifiers
that are taken. Nothing is reported just if nothing is wrong anywhere in the tree. Otherwise everything that is wrong is
reported once: each blank identifier, action type and output, each loop without what drives it, and an identifier every
time that it comes again. -/

namespace StepTree

/-! ### All steps of a tree -/

namespace Step

theorem forest_eq_flatMap (steps : List Step) : forest steps = steps.flatMap subtree := by
  induction steps with
  | nil => rfl
  | cons s rest ih => rw [forest, ih, List.flatMap_cons]

theorem forest_append (xs ys : List Step) : forest (xs ++ ys) = forest xs ++ forest ys := by
  rw [forest_eq_flatMap, List.flatMap_append, ← forest_eq_flatMap, ← forest_eq_flatMap]

theorem mem_forest {t : Step} {steps : List Step} : t ∈ forest steps ↔ ∃ s ∈ steps, t ∈ s.subtree := by
  rw [forest_eq_flatMap, List.mem_flatMap]

theorem armForest_eq (arms : List Arm) : Arm.forest arms = forest (arms.flatMap (·.children)) := by
  induction arms with
  | nil => rfl
  | cons a rest ih =>
    cases a
    rw [Arm.forest, ih, List.flatMap_cons, forest_append]
    rfl

/-- The steps inside a step are those directly inside it, each with the steps inside it. -/
theorem subtree_eq (s : Step) : s.subtree = s :: forest s.nested := by
  obtain ⟨head, kind⟩ := s
  rw [subtree]
  cases kind with
  | branch arms => rw [StepKind.steps, armForest_eq]; rfl
  | _ => rfl

/-- What holds of a step as soon as it holds of the steps directly inside it holds of all steps. -/
theorem nested_induction {P : Step → Prop} (inside : ∀ s, (∀ c ∈ s.nested, P c) → P s) (s : Step) : P s := by
  refine @tree_induction P (fun steps => ∀ c ∈ steps, P c) (List.forall_mem_nil _) ?_ ?_ ?_ ?_ ?_ s
  · exact fun s rest hs hrest => List.forall_mem_cons.mpr ⟨hs, hrest⟩
  · exact fun head spec => inside _ (List.forall_mem_nil _)
  · exact fun head children h => inside _ h
  · exact fun head config children h => inside _ h
  · intro head arms h
    refine inside _ fun c hc => ?_
    obtain ⟨a, ha, hc⟩ := List.mem_flatMap.mp hc
    exact h a ha c hc

/-- A step of the list, or a step at any depth inside one: in the body of a group or a loop, or in an arm of a branch. -/
inductive Within (steps : List Step) : Step → Prop
  | listed {s : Step} (h : s ∈ steps) : Within steps s
  | nested {outer s : Step} (within : Within steps outer) (h : s ∈ outer.nested) : Within steps s

/-- With a step, the steps inside it are in the tree. -/
theorem nested_subset_subtree {s t : Step} (h : t ∈ s.subtree) : t.nested ⊆ s.subtree := by
  induction s using nested_induction with
  | inside s ih =>
    intro c hc
    rw [subtree_eq] at h ⊢
    rcases List.mem_cons.mp h with rfl | h
    · exact List.mem_cons_of_mem _ (mem_forest.mpr ⟨c, hc, c.mem_subtree⟩)
    · obtain ⟨d, hd, ht⟩ := mem_forest.mp h
      exact List.mem_cons_of_mem _ (mem_forest.mpr ⟨d, hd, ih d hd ht hc⟩)

theorem mem_forest_iff_within {t : Step} {steps : List Step} : t ∈ forest steps ↔ t.Within steps := by
  constructor
  · intro h
    obtain ⟨s, hs, ht⟩ := mem_forest.mp h
    -- The way down to the step is followed from a step of the list on, which is no longer one of the list then.
    have within : s.Within steps := .listed hs
    clear hs h
    induction s using nested_induction with
    | inside s ih =>
      rw [subtree_eq] at ht
      rcases List.mem_cons.mp ht with rfl | ht
      · exact within
      · obtain ⟨c, hc, ht⟩ := mem_forest.mp ht
        exact ih c hc ht (.nested within hc)
  · intro h
    induction h with
    | listed h => exact mem_forest.mpr ⟨_, h, mem_subtree _⟩
    | nested _ h ih =>
      obtain ⟨s, hs, ht⟩ := mem_forest.mp ih
      exact mem_forest.mpr ⟨s, hs, nested_subset_subtree ht h⟩

end Step

/-! ### One visit to the tree -/

namespace Validation

/-- What is known in the middle of a validation: the identifiers that are taken, and the mistakes found. -/
structure Survey where
  taken : List String := []
  issues : List Issue := []

namespace Survey

/-- Looks at a step by itself. -/
def note (v : Survey) (s : Step) : Survey where
  taken := if Text.allBlank s.head.id then v.taken else s.head.id :: v.taken
  issues := v.issues ++ stepIssues v.taken s

mutual

/-- Looks at a step and then at the steps inside it. -/
def visit (v : Survey) : Step → Survey
  | ⟨head, kind⟩ => (v.note ⟨head, kind⟩).visitKind kind

def visitKind (v : Survey) : StepKind → Survey
  | .action _ => v
  | .group children => v.visitAll children
  | .loop _ children => v.visitAll children
  | .branch arms => v.visitArms arms

def visitAll (v : Survey) : List Step → Survey
  | [] => v
  | s :: rest => (v.visit s).visitAll rest

def visitArms (v : Survey) : List Arm → Survey
  | [] => v
  | a :: rest => (v.visitArm a).visitArms rest

def visitArm (v : Survey) : Arm → Survey
  | ⟨_, _, children⟩ => v.visitAll children

end

theorem visit_eq (v : Survey) (s : Step) : v.visit s = s.subtree.foldl note v := by
  refine @Step.tree_induction (fun s => ∀ v : Survey, v.visit s = s.subtree.foldl note v)
    (fun steps => ∀ v : Survey, v.visitAll steps = (Step.forest steps).foldl note v) ?_ ?_ ?_ ?_ ?_ ?_ s v
  · intro v
    rw [visitAll, Step.forest, List.foldl_nil]
  · intro s rest hs hrest v
    rw [visitAll, Step.forest, List.foldl_append, hs, hrest]
  · intro head spec v
    rw [visit, visitKind, Step.subtree, StepKind.steps, List.foldl_cons, List.foldl_nil]
  · intro head children h v
    rw [visit, visitKind, Step.subtree, StepKind.steps, List.foldl_cons, h]
  · intro head config children h v
    rw [visit, visitKind, Step.subtree, StepKind.steps, List.foldl_cons, h]
  · intro head arms h v
    have harms : ∀ v : Survey, v.visitArms arms = (Arm.forest arms).foldl note v := by
      induction arms with
      | nil =>
        intro v
        rw [visitArms, Arm.forest, List.foldl_nil]
      | cons a rest ih =>
        obtain ⟨ha, hrest⟩ := List.forall_mem_cons.mp h
        intro v
        cases a
        rw [visitArms, visitArm, Arm.forest, Arm.steps, List.foldl_append, ha, ih hrest]
    rw [visit, visitKind, Step.subtree, StepKind.steps, List.foldl_cons, harms]

/-- A visit looks at the steps one after the other, as the tree lists them. -/
theorem visitAll_eq (v : Survey) (steps : List Step) : v.visitAll steps = (Step.forest steps).foldl note v := by
  induction steps generalizing v with
  | nil => rw [visitAll, Step.forest, List.foldl_nil]
  | cons s rest ih => rw [visitAll, Step.forest, List.foldl_append, visit_eq, ih]

theorem issues_foldl_note (v : Survey) (steps : List Step) :
    (steps.foldl note v).issues = v.issues ++ scan v.taken steps := by
  induction steps generalizing v with
  | nil => rw [List.foldl_nil, scan, List.append_nil]
  | cons s rest ih => rw [List.foldl_cons, ih, scan, note, List.append_assoc]

end Survey

theorem validate_eq_visit (steps : List Step) : validate steps = (Survey.visitAll {} steps).issues := by
  rw [Survey.visitAll_eq, Survey.issues_foldl_note, List.nil_append, validate]

end Validation

/-! ### What may be wrong with a step -/

/-- What loops of a type are called, and the field that drives them. -/
def LoopType.driver : LoopType → String × String
  | .forEach => ("forEach", "source")
  | .whilst => ("while", "condition")
  | .times => ("count", "count")

/-- The field that drives the loop is there and not blank. -/
def LoopConfig.isDriven (c : LoopConfig) : Bool :=
  match c.loopType with
  | .forEach => c.source.any (!Text.allBlank ·)
  | .whilst => c.condition.any (!Text.allBlank ·)
  | .times => c.count.any fun
    | .literal _ => true
    | .expression text => !Text.allBlank text

theorem Validation.missingField?_eq (c : LoopConfig) :
    missingField? c = if c.isDriven then none else some c.loopType.driver := by
  have hblank : ∀ text : Option String, isBlank text = !text.any (!Text.allBlank ·) := by
    intro text
    cases text <;> simp [isBlank]
  unfold missingField? LoopConfig.isDriven
  cases c.loopType with
  | forEach =>
    simp only [hblank]
    cases c.source.any (!Text.allBlank ·) <;> rfl
  | whilst =>
    simp only [hblank]
    cases c.condition.any (!Text.allBlank ·) <;> rfl
  | times =>
    cases c.count with
    | none => rfl
    | some count =>
      cases count with
      | literal n => rfl
      | expression text => cases h : Text.allBlank text <;> simp [h, LoopType.driver]

/-- At most one of the arms is a default, and it is the last. -/
structure Arm.DefaultLast (arms : List Arm) : Prop where
  once : arms.countP (·.isDefault) ≤ 1
  last : ∀ index a, arms[index]? = some a → a.isDefault = true → index + 1 = arms.length

theorem Arm.defaultLast_iff {arms : List Arm} : DefaultLast arms ↔ ∀ a ∈ arms.dropLast, a.isDefault = false := by
  rcases List.eq_nil_or_concat arms with rfl | ⟨init, b, rfl⟩
  · exact ⟨fun _ => List.forall_mem_nil _, fun _ => ⟨Nat.zero_le _, fun _ _ h => by cases h⟩⟩
  rw [List.concat_eq_append, List.dropLast_concat]
  constructor
  · rintro ⟨-, last⟩ a ha
    obtain ⟨index, hindex, rfl⟩ := List.mem_iff_getElem.mp ha
    cases hd : init[index].isDefault with
    | false => rfl
    | true =>
      have hend := last index init[index] (by rw [List.getElem?_append_left hindex, List.getElem?_eq_getElem hindex]) hd
      rw [List.length_append, List.length_singleton] at hend
      omega
  · intro h
    have hnone : init.countP (·.isDefault) = 0 := List.countP_eq_zero.mpr fun a ha => by simp [h a ha]
    refine ⟨?_, fun index a hindex hd => ?_⟩
    · rw [List.countP_append, hnone, Nat.zero_add]
      exact List.countP_le_length
    · have hlt := (List.getElem?_eq_some_iff.mp hindex).1
      rw [List.length_append, List.length_singleton] at hlt ⊢
      by_contra hne
      rw [List.getElem?_append_left (by omega)] at hindex
      rw [h a (List.mem_of_getElem? hindex)] at hd
      cases hd

namespace Step

/-- An action without a type. -/
def isUntyped (s : Step) : Bool :=
  match s.kind with
  | .action spec => Text.allBlank spec.actionType
  | _ => false

/-- The type of a loop without what drives it. -/
def undriven? (s : Step) : Option LoopType :=
  match s.kind with
  | .loop config _ => if config.isDriven then none else some config.loopType
  | _ => none

/-- The outputs of a step that name no variable. -/
def blankOutputs (s : Step) : List (String × String) := s.head.outputs.filter (Text.allBlank ·.2)

/-- What is wrong with a step by itself, its identifier and the arms of a branch aside. -/
def mistakes (s : Step) : List Issue :=
  s.blankOutputs.map (fun o => .emptyOutputVariable s.id o.1) ++
    ((if s.isUntyped then [.emptyActionType s.id] else []) ++
      (s.undriven?.map fun t => .missingLoopField s.id t.driver.1 t.driver.2).toList)

theorem wellFormed_iff {s : Step} :
    s.WellFormed ↔
      Text.allBlank s.id = false ∧ (∀ o ∈ s.head.outputs, Text.allBlank o.2 = false) ∧
      (∀ spec, s.kind = .action spec → Text.allBlank spec.actionType = false) ∧
      (∀ config children, s.kind = .loop config children → config.isDriven = true) ∧
      ∀ arms, s.kind = .branch arms → Arm.DefaultLast arms := by
  have hdriven : ∀ c : LoopConfig, Validation.missingField? c = none ↔ c.isDriven = true := by
    intro c
    rw [Validation.missingField?_eq]
    cases c.isDriven <;> simp
  simp only [Arm.defaultLast_iff, ← hdriven]
  exact ⟨fun ⟨named, outputs, action, loop, branch⟩ => ⟨named, outputs, action, loop, branch⟩,
    fun ⟨named, outputs, action, loop, branch⟩ => ⟨named, outputs, action, loop, branch⟩⟩

end Step

/-! ### The mistakes of one kind -/

namespace Validation

section
variable {p : Issue → Bool} (multiple : ∀ step, p (.multipleDefaultArms step) = false)
  (notLast : ∀ step index, p (.defaultArmNotLast step index) = false)
include multiple notLast

theorem filter_armIssues (step : String) (last index : Nat) (seen : Bool) (arms : List Arm) :
    (armIssues step last index seen arms).filter p = [] := by
  induction arms generalizing index seen with
  | nil => rfl
  | cons a rest ih =>
    rw [armIssues]
    split
    · rw [List.filter_append, ih, List.append_nil]
      split
      · simp [multiple]
      · split <;> simp [notLast]
    · exact ih (index + 1) seen

theorem filter_stepIssues (seen : List String) (s : Step) :
    (stepIssues seen s).filter p = (idIssues seen s.head).filter p ++ s.mistakes.filter p := by
  have houtputs : outputIssues s.head = s.blankOutputs.map fun o => .emptyOutputVariable s.id o.1 := by
    rw [Step.blankOutputs, ← List.filterMap_eq_map, List.filterMap_filter]
    rfl
  rw [stepIssues, Step.mistakes, houtputs, List.append_assoc, List.filter_append, List.filter_append _ (kindIssues _ _),
    List.filter_append _ (_ ++ _)]
  congr 2
  rw [Step.isUntyped, Step.undriven?]
  cases s.kind with
  | action spec => simp [kindIssues]
  | group children => rfl
  | loop config children =>
    rw [kindIssues, missingField?_eq]
    cases h : config.isDriven <;> simp [h]
  | branch arms => exact filter_armIssues multiple notLast _ _ _ _ _

/-- The mistakes of a kind that does not depend on other steps or on arms are those of each step by itself. -/
theorem filter_validate (alone : ∀ id, p (.duplicateId id) = false) (steps : List Step) :
    (validate steps).filter p = (Step.forest steps).flatMap fun s =>
      (if Text.allBlank s.id then [Issue.emptyId s.head.name] else []).filter p ++ s.mistakes.filter p := by
  have hid : ∀ seen (s : Step), (idIssues seen s.head).filter p =
      (if Text.allBlank s.id then [Issue.emptyId s.head.name] else []).filter p := by
    intro seen s
    unfold idIssues
    split
    · rfl
    · split <;> simp [alone]
  have hscan : ∀ seen all, (scan seen all).filter p = all.flatMap fun s =>
      (if Text.allBlank s.id then [Issue.emptyId s.head.name] else []).filter p ++ s.mistakes.filter p := by
    intro seen all
    induction all generalizing seen with
    | nil => rfl
    | cons s rest ih => rw [scan, List.filter_append, ih, filter_stepIssues multiple notLast, hid, List.flatMap_cons]
  exact hscan [] _

end

section
variable (steps : List Step)

theorem map_filter_eq_flatMap {α β : Type} (q : α → Bool) (f : α → β) (l : List α) :
    (l.filter q).map f = l.flatMap fun a => if q a then [f a] else [] := by
  induction l with
  | nil => rfl
  | cons a rest ih => cases h : q a <;> simp [h, ih]

theorem filter_emptyId :
    (validate steps).filter (fun i => i matches .emptyId _) =
      ((Step.forest steps).filter (Text.allBlank ·.id)).map fun s => .emptyId s.head.name := by
  rw [filter_validate (fun _ => rfl) (fun _ _ => rfl) (fun _ => rfl), map_filter_eq_flatMap]
  refine List.flatMap_congr fun s _ => ?_
  rw [Step.mistakes, List.filter_append, List.filter_append, List.filter_map]
  cases Text.allBlank s.id <;> cases s.isUntyped <;> cases s.undriven? <;> simp

theorem filter_emptyActionType :
    (validate steps).filter (fun i => i matches .emptyActionType _) =
      ((Step.forest steps).filter (·.isUntyped)).map fun s => .emptyActionType s.id := by
  rw [filter_validate (fun _ => rfl) (fun _ _ => rfl) (fun _ => rfl), map_filter_eq_flatMap]
  refine List.flatMap_congr fun s _ => ?_
  rw [Step.mistakes, List.filter_append, List.filter_append, List.filter_map]
  cases Text.allBlank s.id <;> cases s.isUntyped <;> cases s.undriven? <;> simp

theorem filter_emptyOutputVariable :
    (validate steps).filter (fun i => i matches .emptyOutputVariable ..) =
      (Step.forest steps).flatMap fun s => s.blankOutputs.map fun o => .emptyOutputVariable s.id o.1 := by
  rw [filter_validate (fun _ => rfl) (fun _ _ => rfl) (fun _ => rfl)]
  refine List.flatMap_congr fun s _ => ?_
  have hall : (s.blankOutputs.map fun o => Issue.emptyOutputVariable s.id o.1).filter
      (fun i => i matches .emptyOutputVariable ..) = s.blankOutputs.map fun o => .emptyOutputVariable s.id o.1 :=
    List.filter_eq_self.mpr (List.forall_mem_map.mpr fun o _ => rfl)
  rw [Step.mistakes, List.filter_append, List.filter_append, hall]
  cases Text.allBlank s.id <;> cases s.isUntyped <;> cases s.undriven? <;> simp

theorem filter_missingLoopField :
    (validate steps).filter (fun i => i matches .missingLoopField ..) =
      (Step.forest steps).filterMap fun s =>
        s.undriven?.map fun t => .missingLoopField s.id t.driver.1 t.driver.2 := by
  rw [filter_validate (fun _ => rfl) (fun _ _ => rfl) (fun _ => rfl), List.filterMap_eq_flatMap_toList]
  refine List.flatMap_congr fun s _ => ?_
  rw [Step.mistakes, List.filter_append, List.filter_append, List.filter_map]
  cases Text.allBlank s.id <;> cases s.isUntyped <;> cases s.undriven? <;> simp

end

theorem count_stepIssues {id : String} (named : Text.allBlank id = false) (seen : List String) (s : Step) :
    (stepIssues seen s).count (.duplicateId id) = if s.id = id ∧ id ∈ seen then 1 else 0 := by
  have hother : Issue.duplicateId id ∉ s.mistakes := by
    simp only [Step.mistakes, List.mem_append, List.mem_map, Option.mem_toList, Option.map_eq_some_iff]
    rintro (⟨o, -, ho⟩ | hi | ⟨t, -, ht⟩)
    · cases ho
    · split at hi <;> simp at hi
    · cases ht
  have hnone : s.mistakes.filter (· == .duplicateId id) = [] :=
    List.filter_eq_nil_iff.mpr fun i hi heq => hother (beq_iff_eq.mp heq ▸ hi)
  rw [List.count_eq_length_filter, filter_stepIssues (fun _ => rfl) (fun _ _ => rfl), hnone, List.append_nil]
  unfold idIssues
  split
  · next hblank =>
    have hne : s.id ≠ id := by
      rintro rfl
      exact absurd hblank (by simp [named])
    simp [hne]
  · split
    · next hseen =>
      by_cases hs : s.id = id
      · subst hs
        simp [hseen]
      · simp [hs]
    · next hseen =>
      have hnew : ¬(s.id = id ∧ id ∈ seen) := by
        rintro ⟨rfl, hid⟩
        exact hseen hid
      simp [hnew]

/-- An identifier is taken again each time that it comes but the first. -/
theorem count_scan {id : String} (named : Text.allBlank id = false) (seen : List String) (steps : List Step) :
    (scan seen steps).count (.duplicateId id) = (steps.map (·.id)).count id - if id ∈ seen then 0 else 1 := by
  induction steps generalizing seen with
  | nil => simp [scan]
  | cons s rest ih =>
    rw [scan, List.count_append, count_stepIssues named, ih, List.map_cons, List.count_cons]
    by_cases hs : s.id = id
    · -- From here on the identifier is taken; if it was not before, this step is the one that is not reported.
      subst hs
      rw [named]
      by_cases hseen : s.id ∈ seen
      · simp [hseen]
        omega
      · simp [hseen]
    · have hkept : (id ∈ if Text.allBlank s.head.id then seen else s.head.id :: seen) ↔ id ∈ seen := by
        split
        · rfl
        · rw [List.mem_cons, or_iff_right (Ne.symm hs)]
      simp [hs, hkept]

end Validation

/-! ### What is reported -/

/-- Validation of a tree is one visit to it. It reports nothing just if every step in the tree is as it has to be, and
their identifiers are different. An identifier is reported as often as it comes again, and a blank identifier, action
type or output and a loop without what drives it once each, in the order of the tree. -/
theorem validation_reports (steps : List Step) :
    let all := Step.forest steps
    let issues := validate steps
    issues = (Validation.Survey.visitAll {} steps).issues ∧ (∀ s : Step, s ∈ all ↔ s.Within steps) ∧
    (issues = [] ↔
      (∀ s : Step, s.Within steps →
        Text.allBlank s.id = false ∧ (∀ o ∈ s.head.outputs, Text.allBlank o.2 = false) ∧
        (∀ spec, s.kind = .action spec → Text.allBlank spec.actionType = false) ∧
        (∀ config children, s.kind = .loop config children → config.isDriven = true) ∧
        ∀ arms, s.kind = .branch arms → Arm.DefaultLast arms) ∧
      (all.map (·.id)).Nodup) ∧
    (∀ id, Text.allBlank id = false → issues.count (.duplicateId id) = (all.map (·.id)).count id - 1) ∧
    issues.filter (fun i => i matches .emptyId _) =
      (all.filter (Text.allBlank ·.id)).map (fun s => .emptyId s.head.name) ∧
    issues.filter (fun i => i matches .emptyActionType _) =
      (all.filter (·.isUntyped)).map (fun s => .emptyActionType s.id) ∧
    issues.filter (fun i => i matches .emptyOutputVariable ..) =
      all.flatMap (fun s => s.blankOutputs.map fun o => .emptyOutputVariable s.id o.1) ∧
    issues.filter (fun i => i matches .missingLoopField ..) =
      all.filterMap fun s => s.undriven?.map fun t => .missingLoopField s.id t.driver.1 t.driver.2 := by
  refine ⟨Validation.validate_eq_visit steps, fun s => Step.mem_forest_iff_within, ?_,
    fun id named => Validation.count_scan named [] _, Validation.filter_emptyId steps,
    Validation.filter_emptyActionType steps, Validation.filter_emptyOutputVariable steps,
    Validation.filter_missingLoopField steps⟩
  rw [validate_eq_nil]
  constructor
  · rintro ⟨wellFormed, distinct⟩
    exact ⟨fun s hs => Step.wellFormed_iff.mp (wellFormed s (Step.mem_forest_iff_within.mpr hs)), distinct⟩
  · rintro ⟨wellFormed, distinct⟩
    exact ⟨fun s hs => Step.wellFormed_iff.mpr (wellFormed s (Step.mem_forest_iff_within.mp hs)), distinct⟩

end StepTree
