import StepTree.Proofs.Condition.Reference
import StepTree.Proofs.Effects
import StepTree.Proofs.Encoding.Texts
import StepTree.Proofs.Seeding

/-! # Arrays that are handed over as texts

A called workflow is handed texts. An array becomes the text of its value, and where a loop source is that text it is
read as an array again. So a loop of the callee over such an input goes over the items that a loop of the caller over the
array would go over, whatever the strings in them hold: what was put in for a placeholder is not expanded again. -/

namespace StepTree

open Setup Condition
open Template (Lookup Slot)

theorem Condition.items?_text {items : List Json} (normal : (Json.arr items).Normal)
    (integral : (Json.arr items).Integral) (shallow : (Json.arr items).nesting ≤ Json.maxDepth) :
    items? (.str (Json.arr items).plainText) = some items := by
  have hread : Json.ofString? (Json.arr items).plainText = some (.arr items) := by
    rw [Json.ofString?, Json.toList_plainText (by simp) (by simp)]
    exact Json.read?_text normal integral shallow
  rw [items?, hread]

theorem Template.Slot.lookup_of_value? {p : Slot} {lookup : Lookup} {value : Json}
    (selects : p.value? lookup = some value) : lookup p.path = some value := by
  rw [Slot.value?] at selects
  split at selects
  · cases selects
  · exact selects

/-- A text that is one placeholder is expanded to the text of the value that the placeholder stands for. -/
theorem Scope.resolve_slot {s : Scope} {p : Slot} {value : Json} (selects : p.value? s.lookup = some value) :
    s.resolve (String.ofList p.text) = value.plainText := by
  rw [Slot.text, s.resolve_placeholder p.inner_unbraced, p.expandPiece_inner, Slot.filled, selects]
  exact String.ofList_toList

/-- In the scope of a callee the name of an input has the text that was handed over. -/
theorem Setup.calleeScope_get? {w : Workflow} {secrets : Secrets} {inputs : List (String × String)} {name text : String}
    (handed : (name, text) ∈ inputs) (distinct : (inputs.map (·.1)).Nodup) :
    (calleeScope w secrets inputs).get? name = some (.str text) := by
  obtain ⟨before, after, rfl⟩ := List.append_of_mem handed
  have hlast : name ∉ after.map (·.1) := by
    rw [List.map_append, List.map_cons] at distinct
    exact (List.nodup_cons.mp (List.nodup_append.mp distinct).2.1).1
  have hseeded {binding : String × String → Binding} :
      name ∉ (after.map fun input => (input.1, binding input)).map (·.1) := by
    rwa [List.map_map]
  rw [calleeScope_eq, Workflow.bindings, List.map_append, List.map_cons, ← List.append_assoc, ← List.append_assoc,
    Scope.get?, Scope.binding?, Scope.stack, List.findSome?_cons, Frame.get?_seeded_last hseeded]
  rfl

theorem LoopConfig.plan_of_evalArray {config : LoopConfig} {lookup : Lookup} {source : String} {items : List Json}
    (isForEach : config.loopType = .forEach) (eval : evalArray lookup source = .ok items) :
    { config with source := some source }.plan lookup = .ok (.items items) := by
  simp only [LoopConfig.plan, isForEach, eval, Except.map]

/-- An array without floats that is handed to a workflow by its placeholder is there again: a loop source that refers to
the input goes over its items, as one in the caller that refers to the array does. -/
theorem arrays_survive_as_texts {st : State} {head : StepHead} {spec : ActionSpec} {id : String} {w : Workflow}
    {config : LoopConfig} {p : Slot} {items : List Json} {name : String} {source : List Char}
    (selects : p.value? st.scope.lookup = some (.arr items)) (normal : (Json.arr items).Normal)
    (integral : (Json.arr items).Integral) (shallow : (Json.arr items).nesting ≤ Json.maxDepth)
    (handed : (name, String.ofList p.text) ∈ head.inputs) (distinct : (head.inputs.map (·.1)).Nodup)
    (identifier : Identifier name) (refers : Refers name.toList source) (isForEach : config.loopType = .forEach) :
    let text := st.scope.resolve (String.ofList p.text)
    let callee := calleeState id w (resolved st head spec) st
    callee.scope.get? name = some (.str text) ∧
      (∀ scope : Scope, scope.get? name = some (.str text) →
        evalArray scope.lookup (String.ofList source) = .ok items ∧
          { config with source := some (String.ofList source) }.plan scope.lookup = .ok (.items items)) ∧
      evalArray st.scope.lookup (String.ofList p.text) = .ok items ∧
      { config with source := some (String.ofList p.text) }.plan st.scope.lookup = .ok (.items items) := by
  intro text callee
  have hhanded : (name, text) ∈ (resolved st head spec).inputs :=
    List.mem_map.mpr ⟨_, handed, rfl⟩
  have hdistinct : ((resolved st head spec).inputs.map (·.1)).Nodup := by
    rw [resolved, List.map_map]
    exact distinct
  have hcaller : evalArray st.scope.lookup (String.ofList p.text) = .ok items :=
    (Refers.placeholder p).evalArray_of_items (Slot.lookup_of_value? selects) rfl
  refine ⟨calleeScope_get? hhanded hdistinct, fun scope bound => ?_, hcaller, LoopConfig.plan_of_evalArray isForEach hcaller⟩
  have hlookup : scope.lookup name.toList = some (.str text) := by
    rw [Scope.lookup_identifier identifier refers.trim_path, bound]
  have hcallee : evalArray scope.lookup (String.ofList source) = .ok items := by
    refine refers.evalArray_of_items hlookup ?_
    rw [show text = (Json.arr items).plainText from Scope.resolve_slot selects]
    exact items?_text normal integral shallow
  exact ⟨hcallee, LoopConfig.plan_of_evalArray isForEach hcallee⟩

/-- A text that looks like a placeholder and one with a quote and a line end come back as they are. -/
theorem mixed_array_survives :
    let items : List Json :=
      [.null, .bool true, .num (.int (-1)), .str "\x7b\x7bx\x7d\x7d", .arr [.str "\"\n"], .obj [("k", .num (.int 2))]]
    let p : Slot := ⟨[' '], ['k', 'e', 'y', 's'], [], by simp [Text.isBlank], by simp [Template.isBrace], rfl, by simp⟩
    let q : Slot := ⟨[], ['k'], [], by simp, by simp [Template.isBrace], rfl, by simp⟩
    let st : State := { scope := ⟨[("keys", .defined (.arr items))], []⟩ }
    let head : StepHead := { id := "call", inputs := [("k", "\x7b\x7b keys\x7d\x7d")] }
    let callee := calleeState "each" {} (resolved st head ⟨"workflow", []⟩) st
    evalArray callee.scope.lookup (String.ofList q.text) = .ok items ∧
      evalArray st.scope.lookup (String.ofList p.text) = .ok items := by
  intro items p q st head callee
  have normal : (Json.arr items).Normal := by
    refine .arr fun j hj => ?_
    simp only [items, List.mem_cons, List.not_mem_nil, or_false] at hj
    rcases hj with rfl | rfl | rfl | rfl | rfl | rfl
    · exact .null
    · exact .bool true
    · exact .num _
    · exact .str _
    · exact .arr (List.forall_mem_singleton.mpr (.str _))
    · exact .obj (List.pairwise_singleton _ _) (List.forall_mem_singleton.mpr (.num _))
  have integral : (Json.arr items).Integral := by
    refine .arr fun j hj => ?_
    simp only [items, List.mem_cons, List.not_mem_nil, or_false] at hj
    rcases hj with rfl | rfl | rfl | rfl | rfl | rfl
    · exact .null
    · exact .bool true
    · exact .int ⟨by decide, by decide⟩
    · exact .str _
    · exact .arr (List.forall_mem_singleton.mpr (.str _))
    · exact .obj (List.forall_mem_singleton.mpr (.int ⟨by decide, by decide⟩))
  have shallow : (Json.arr items).nesting ≤ Json.maxDepth := by decide
  have identifier : Identifier "k" := ⟨by decide, by simp⟩
  have hsurvives := @arrays_survive_as_texts st head ⟨"workflow", []⟩ "each" {} { loopType := .forEach } p items "k" _
    rfl normal integral shallow (List.mem_singleton_self _) (List.nodup_singleton _) identifier (.placeholder q) rfl
  exact ⟨(hsurvives.2.1 callee.scope hsurvives.1).1, hsurvives.2.2.1⟩

end StepTree
