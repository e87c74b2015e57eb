import StepTree.Proofs.RootFrame

/-! # Valid step trees

Validation finds no mistake in a tree just if its identifiers are different and not blank, only the last arm of a branch
is a default, and every step has what drives it. A requested run is refused unless its own tree is valid. The trees of
callees are not looked at again: a step that is run is one of the requested workflow as long as no call is open, and
else one of the workflow of the library that was called last, whatever the library has there. -/

namespace StepTree

open Setup

/-! ### What validation accepts -/

/-- The step by itself, without those inside it, has no mistake. -/
structure Step.WellFormed (s : Step) : Prop where
  named : Text.allBlank s.head.id = false
  outputs : ∀ o ∈ s.head.outputs, Text.allBlank o.2 = false
  action : ∀ spec, s.kind = .action spec → Text.allBlank spec.actionType = false
  loop : ∀ config steps, s.kind = .loop config steps → Validation.missingField? config = none
  /-- Only the last arm can be a default. -/
  branch : ∀ arms, s.kind = .branch arms → ∀ a ∈ arms.dropLast, a.isDefault = false

/-- A list of steps in which nothing is wrong, the steps inside them included. -/
structure Valid (steps : List Step) : Prop where
  wellFormed : ∀ s ∈ Step.forest steps, s.WellFormed
  distinct : ((Step.forest steps).map (·.head.id)).Nodup

namespace Validation

/-- Arms have no mistake just if none but the last is a default. -/
theorem armIssues_eq_nil {step : String} {index : Nat} {arms : List Arm} :
    armIssues step (index + arms.length - 1) index false arms = [] ↔ ∀ a ∈ arms.dropLast, a.isDefault = false := by
  induction arms generalizing index with
  | nil => simp [armIssues]
  | cons a rest ih =>
    rw [armIssues]
    cases hd : a.isDefault with
    | true =>
      cases rest with
      | nil => simp [armIssues]
      | cons b rest => simp [hd]
    | false =>
      have hlast : index + (a :: rest).length - 1 = index + 1 + rest.length - 1 := by
        rw [List.length_cons]
        omega
      rw [hlast]
      simp only [Bool.false_eq_true, ↓reduceIte, ih]
      cases rest with
      | nil => simp
      | cons b rest => simp [hd]

theorem outputIssues_eq_nil {head : StepHead} :
    outputIssues head = [] ↔ ∀ o ∈ head.outputs, Text.allBlank o.2 = false := by
  simp [outputIssues]

theorem idIssues_eq_nil {seen : List String} {head : StepHead} :
    idIssues seen head = [] ↔ Text.allBlank head.id = false ∧ head.id ∉ seen := by
  unfold idIssues
  cases Text.allBlank head.id <;> simp

theorem kindIssues_eq_nil {id : String} {kind : StepKind} :
    kindIssues id kind = [] ↔
      (∀ spec, kind = .action spec → Text.allBlank spec.actionType = false) ∧
      (∀ config steps, kind = .loop config steps → missingField? config = none) ∧
      ∀ arms, kind = .branch arms → ∀ a ∈ arms.dropLast, a.isDefault = false := by
  cases kind with
  | action spec => simp [kindIssues]
  | group children => simp [kindIssues]
  | loop config children => cases h : missingField? config <;> simp [kindIssues, h]
  | branch arms =>
    have harms := @armIssues_eq_nil id 0 arms
    rw [Nat.zero_add] at harms
    simp [kindIssues, harms]

/-- A step has no mistake just if it is well-formed and its identifier is not taken. -/
theorem stepIssues_eq_nil {seen : List String} {s : Step} :
    stepIssues seen s = [] ↔ s.WellFormed ∧ s.head.id ∉ seen := by
  rw [stepIssues, List.append_eq_nil_iff, List.append_eq_nil_iff, idIssues_eq_nil, outputIssues_eq_nil,
    kindIssues_eq_nil]
  constructor
  · rintro ⟨⟨⟨named, fresh⟩, outputs⟩, action, loop, branch⟩
    exact ⟨⟨named, outputs, action, loop, branch⟩, fresh⟩
  · rintro ⟨⟨named, outputs, action, loop, branch⟩, fresh⟩
    exact ⟨⟨⟨named, fresh⟩, outputs⟩, action, loop, branch⟩

/-- Steps that are visited one after the other have no mistake just if each is well-formed and no identifier is taken
or comes twice. -/
theorem scan_eq_nil {seen : List String} {steps : List Step} :
    scan seen steps = [] ↔
      (∀ s ∈ steps, s.WellFormed ∧ s.head.id ∉ seen) ∧ (steps.map (·.head.id)).Nodup := by
  induction steps generalizing seen with
  | nil => simp [scan]
  | cons s rest ih =>
    rw [scan, List.append_eq_nil_iff, stepIssues_eq_nil, List.forall_mem_cons, List.map_cons, List.nodup_cons]
    constructor
    · rintro ⟨⟨well, fresh⟩, hrest⟩
      rw [well.named] at hrest
      obtain ⟨hsteps, distinct⟩ := ih.mp hrest
      refine ⟨⟨⟨well, fresh⟩, fun t ht => ?_⟩, fun hmem => ?_, distinct⟩
      · obtain ⟨well, fresh⟩ := hsteps t ht
        exact ⟨well, fun hseen => fresh (List.mem_cons_of_mem _ hseen)⟩
      · obtain ⟨t, ht, hid⟩ := List.mem_map.mp hmem
        exact (hsteps t ht).2 (hid ▸ List.mem_cons_self)
    · rintro ⟨⟨⟨well, fresh⟩, hsteps⟩, once, distinct⟩
      rw [well.named]
      refine ⟨⟨well, fresh⟩, ih.mpr ⟨fun t ht => ⟨(hsteps t ht).1, fun hmem => ?_⟩, distinct⟩⟩
      rcases List.mem_cons.mp hmem with hid | hseen
      · exact once (List.mem_map.mpr ⟨t, ht, hid⟩)
      · exact (hsteps t ht).2 hseen

end Validation

theorem validate_eq_nil {steps : List Step} : validate steps = [] ↔ Valid steps := by
  rw [validate, Validation.scan_eq_nil]
  constructor
  · rintro ⟨wellFormed, distinct⟩
    exact ⟨fun s hs => (wellFormed s hs).1, distinct⟩
  · rintro ⟨wellFormed, distinct⟩
    exact ⟨fun s hs => ⟨wellFormed s hs, List.not_mem_nil⟩, distinct⟩

/-! ### Parts of trees -/

namespace Step

theorem mem_subtree (s : Step) : s ∈ s.subtree := by
  cases s
  exact List.mem_cons_self

/-- The steps inside an arm are steps inside its branch. -/
theorem forest_subset_subtree {head : StepHead} {arms : List Arm} {a : Arm} (h : a ∈ arms) :
    forest a.children ⊆ (⟨head, .branch arms⟩ : Step).subtree := by
  refine List.subset_cons_of_subset _ ?_
  rw [StepKind.steps]
  induction arms with
  | nil => cases h
  | cons b rest ih =>
    rw [Arm.forest]
    rcases List.mem_cons.mp h with rfl | h
    · cases a
      exact List.subset_append_left _ _
    · exact List.subset_append_of_subset_right _ (ih h)

end Step

/-! ### The steps of a run -/

/-- The steps that are left to be run at the moment, those inside them included. -/
def Moment.steps : Moment → List Step
  | .sequence _ _ _ steps _ => Step.forest steps
  | .step _ _ s _ => s.subtree
  | .loop _ steps _ _ => Step.forest steps
  | .round _ steps _ _ _ _ => Step.forest steps
  | .pop _ => []

/-- The workflow whose steps are run while the calls are open: the requested one if there are none, and else the one
that the library has under the identifier called last. -/
inductive Owner (library : Library) (main : Workflow) (callStack : List String) : Workflow → Prop
  | requested (closed : callStack = []) : Owner library main callStack main
  | called {id : String} {w : Workflow} (last : callStack.getLast? = some id)
    (known : Ordered.get? id library = some w) : Owner library main callStack w

section Moments
variable {u : Setup} {m m' : Moment} {main : Workflow}

/-- A moment leads to steps inside those that were left, or a workflow is entered. -/
theorem Leads.steps (h : Leads u m m') : m'.steps ⊆ m.steps ∨ Enters u m m' := by
  cases h with
  | take => exact Or.inl (List.subset_append_left _ _)
  | next => exact Or.inl (List.subset_append_right _ _)
  | call _ isCall enters => exact Or.inr (.intro isCall enters)
  | group => exact Or.inl (List.subset_cons_self _ _)
  | arm _ _ isArm => exact Or.inl (Step.forest_subset_subtree (List.mem_of_getElem? isArm))
  | loop => exact Or.inl (List.subset_cons_self _ _)
  | rounds => exact Or.inl (List.Subset.refl _)
  | finish => exact Or.inl (List.nil_subset _)
  | giveUp => exact Or.inl (List.nil_subset _)
  | iteration => exact Or.inl (List.Subset.refl _)
  | close => exact Or.inl (List.nil_subset _)
  | again => exact Or.inl (List.Subset.refl _)

/-- The steps that are left are steps of the workflow that the open calls are in. -/
def Moment.Owned (u : Setup) (main : Workflow) (m : Moment) : Prop :=
  ∃ w, Owner u.library main m.state.callStack w ∧ m.steps ⊆ Step.forest w.steps

theorem Enters.owned (h : Enters u m m') : m'.Owned u main := by
  cases h with
  | @intro _ _ _ _ _ id w _ enters =>
    obtain ⟨-, -, -, known⟩ := callee_eq_ok.mp enters
    exact ⟨w, .called List.getLast?_concat known, List.Subset.refl _⟩

theorem Leads.owned (h : Leads u m m') (framed : m.Framed) (hm : m.Owned u main) : m'.Owned u main := by
  rcases h.steps with inside | enters
  · rcases h.callStack framed with same | enters
    · obtain ⟨w, owner, steps⟩ := hm
      exact ⟨w, same ▸ owner, List.Subset.trans inside steps⟩
    · exact enters.owned
  · exact enters.owned

theorem Reaches.owned (h : Reaches u m m') (framed : m.Framed) (first : m.Owned u main) : m'.Owned u main :=
  h.framed_invariant (fun _ _ => Leads.owned) framed first

end Moments

/-! ### Requested runs -/

/-- A requested run is refused unless its workflow is valid. Each step that it comes to is one of the workflow that the
open calls are in; so it is well-formed, and in a valid tree, if the workflows of the library that are called validate.
The run does not see to that. -/
theorem requested_steps_valid (q : Request) (u : Setup) (signals : Signals) :
    (¬Valid q.workflow.steps ∧ ∃ refusal, q.drive u signals = .error refusal) ∨
    (Valid q.workflow.steps ∧ ∃ out, q.drive u signals = .ok out) ∧
    ∀ depth frame s now,
      Reaches (q.setup u) (.first (q.setup u) q.workflow.steps (q.opening (q.setup u) signals))
        (.step depth frame s now) →
      ∃ w, Owner u.library q.workflow now.callStack w ∧ s ∈ Step.forest w.steps ∧
        ((∀ id ∈ now.callStack, ∀ w, Ordered.get? id u.library = some w → validate w.steps = []) →
          Valid w.steps ∧ s.WellFormed) := by
  by_cases valid : Valid q.workflow.steps
  · refine Or.inr ⟨⟨valid, ?_⟩, fun depth frame s now reaches => ?_⟩
    · rcases q.drive_cases u signals with ⟨mistaken, -⟩ | hdrive
      · exact absurd (validate_eq_nil.mpr valid) mistaken
      · exact ⟨_, hdrive⟩
    · obtain ⟨w, owner, steps⟩ := reaches.owned rfl ⟨q.workflow, .requested rfl, List.Subset.refl _⟩
      have part : s ∈ Step.forest w.steps := steps s.mem_subtree
      refine ⟨w, owner, part, fun callees => ?_⟩
      have hvalid : Valid w.steps := by
        cases owner with
        | requested => exact valid
        | called last known => exact validate_eq_nil.mp (callees _ (List.mem_of_getLast? last) w known)
      exact ⟨hvalid, hvalid.wellFormed s part⟩
  · refine Or.inl ⟨valid, ?_⟩
    unfold Request.drive
    cases hissues : validate q.workflow.steps with
    | nil => exact absurd (validate_eq_nil.mp hissues) valid
    | cons issue issues => exact ⟨_, rfl⟩

/-- A workflow calls one of the library that has no mistake. -/
theorem called_step_is_wellFormed :
    let note : Step := ⟨{ id := "note" }, .action ⟨"note", []⟩⟩
    let child : Workflow := { id := "child", steps := [note] }
    let go : Step := ⟨{ id := "go" }, .action ⟨callActionType, [("workflowId", .str "child")]⟩⟩
    let q : Request := { runId := "run", workflow := { id := "main", steps := [go] } }
    let u : Setup := { executor := fun _ _ => { result := .ok .null }, library := [("child", child)] }
    ∃ depth frame now, Reaches (q.setup u) (.first (q.setup u) q.workflow.steps (q.opening (q.setup u) {}))
      (.step depth frame note now) ∧ now.callStack = ["child"] ∧
        ∃ w : Workflow, note ∈ Step.forest w.steps ∧ Valid w.steps ∧ note.WellFormed := by
  intro note child go q u
  have hgo : Reaches (q.setup u) (.first (q.setup u) q.workflow.steps (q.opening (q.setup u) {})) _ :=
    .tail .refl (.take rfl)
  have hchild : Reaches (q.setup u) (.first (q.setup u) q.workflow.steps (q.opening (q.setup u) {})) _ :=
    .tail hgo (.call rfl rfl rfl)
  have hnote : Reaches (q.setup u) (.first (q.setup u) q.workflow.steps (q.opening (q.setup u) {})) _ :=
    .tail hchild (.take rfl)
  have valid : Valid q.workflow.steps := validate_eq_nil.mp (by decide +kernel)
  have callees : ∀ id ∈ ["child"], ∀ w, Ordered.get? id u.library = some w → validate w.steps = [] := by
    intro id hid w known
    obtain rfl := List.mem_singleton.mp hid
    obtain rfl : child = w := Option.some.inj known
    decide +kernel
  rcases requested_steps_valid q u {} with ⟨mistaken, -⟩ | ⟨-, run⟩
  · exact absurd valid mistaken
  · obtain ⟨w, -, part, called⟩ := run _ _ _ _ hnote
    exact ⟨_, _, _, hnote, rfl, w, part, called callees⟩

/-- A workflow calls one of the library in which two steps have the same identifier, and both are run. -/
theorem invalid_callee_is_run :
    let note (name : String) : Step := ⟨{ id := "note", name }, .action ⟨"note", []⟩⟩
    let child : Workflow := { id := "child", steps := [note "first", note "second"] }
    let go : Step := ⟨{ id := "go" }, .action ⟨callActionType, [("workflowId", .str "child")]⟩⟩
    let q : Request := { runId := "run", workflow := { id := "main", steps := [go] } }
    let u : Setup := { executor := fun _ _ => { result := .ok .null }, library := [("child", child)] }
    validate child.steps = [.duplicateId "note"] ∧
    (∃ depth frame now, Reaches (q.setup u) (.first (q.setup u) q.workflow.steps (q.opening (q.setup u) {}))
      (.step depth frame (note "first") now) ∧ now.callStack = ["child"]) ∧
    (q.drive u {}).toOption.map (fun out => (out.1.status, out.2.calls.toList.map (·.stepId))) =
      some (.passed, ["note", "note"]) := by
  intro note child go q u
  have hgo : Reaches (q.setup u) (.first (q.setup u) q.workflow.steps (q.opening (q.setup u) {})) _ :=
    .tail .refl (.take rfl)
  have hchild : Reaches (q.setup u) (.first (q.setup u) q.workflow.steps (q.opening (q.setup u) {})) _ :=
    .tail hgo (.call rfl rfl rfl)
  have hfirst : Reaches (q.setup u) (.first (q.setup u) q.workflow.steps (q.opening (q.setup u) {})) _ :=
    .tail hchild (.take rfl)
  exact ⟨by decide +kernel, ⟨_, _, _, hfirst, rfl⟩, by decide +kernel⟩

end StepTree
