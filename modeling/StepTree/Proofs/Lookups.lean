import StepTree.CommandLine.Basic
import StepTree.Proofs.Kinds
import StepTree.Proofs.Seeding

/-! # Workflows found by identifier

A library has its workflows under their identifiers without the blanks around them, and no two under one. A bundle finds
a workflow first by the key under which it is declared, and then by its identifier as it is written. The two agree on an
identifier unless it is also the key of a workflow with another identifier. -/

namespace StepTree

/-- The identifier under which a library has the workflow. -/
def Workflow.key (w : Workflow) : String := Text.trimmed w.id

namespace Library
variable {library library' : Library} {ws : List Workflow} {w : Workflow} {id : String}

theorem add_eq_ok :
    library.add w = .ok library' ↔
      w.key ≠ "" ∧ w.key ∉ library.map (·.1) ∧ library' = library ++ [(w.key, w)] := by
  have hname : (Ordered.get? w.key library).isSome = true ↔ w.key ∈ library.map (·.1) := by
    rw [Option.isSome_iff_exists]
    refine ⟨fun ⟨w', hw'⟩ => List.mem_map_of_mem (Ordered.mem_of_get? hw'), Ordered.exists_get?_of_mem⟩
  rw [add, ← Workflow.key]
  split
  · next hblank => simp [hblank]
  · next hblank =>
    split
    · next hmem => simp [hname.mp hmem]
    · next hfree => simp [hblank, mt hname.mpr hfree, eq_comm]

theorem foldlM_add_eq_ok :
    ws.foldlM add library = .ok library' ↔
      (∀ w ∈ ws, w.key ≠ "" ∧ w.key ∉ library.map (·.1)) ∧ (ws.map Workflow.key).Nodup ∧
        library' = library ++ ws.map fun w => (w.key, w) := by
  induction ws generalizing library with
  | nil =>
    rw [List.foldlM_nil, List.map_nil, List.map_nil, List.append_nil]
    refine ⟨fun h => ⟨List.forall_mem_nil _, List.nodup_nil, (Except.ok.inj h).symm⟩, ?_⟩
    rintro ⟨-, -, rfl⟩
    rfl
  | cons w rest ih =>
    have hstep : (w :: rest).foldlM add library = .ok library' ↔
        (w.key ≠ "" ∧ w.key ∉ library.map (·.1)) ∧
          rest.foldlM add (library ++ [(w.key, w)]) = .ok library' := by
      rw [List.foldlM_cons]
      cases hadd : library.add w with
      | error e =>
        have hnot : ¬(w.key ≠ "" ∧ w.key ∉ library.map (·.1)) := fun ⟨hne, hfresh⟩ => by
          have hok := add_eq_ok.mpr ⟨hne, hfresh, rfl⟩
          rw [hadd] at hok
          cases hok
        exact ⟨(nomatch ·), fun h => absurd h.1 hnot⟩
      | ok next =>
        obtain ⟨hne, hfresh, rfl⟩ := add_eq_ok.mp hadd
        exact ⟨fun h => ⟨⟨hne, hfresh⟩, h⟩, fun h => h.2⟩
    rw [hstep, ih, List.map_cons, List.map_cons, List.nodup_cons, List.append_assoc, List.singleton_append]
    constructor
    · rintro ⟨hw, hrest, hnodup, hlibrary⟩
      refine ⟨List.forall_mem_cons.mpr ⟨hw, fun w' hw' => ?_⟩, ⟨fun hmem => ?_, hnodup⟩, hlibrary⟩
      · obtain ⟨hne, hfresh⟩ := hrest w' hw'
        rw [List.map_append, List.mem_append, not_or] at hfresh
        exact ⟨hne, hfresh.1⟩
      · obtain ⟨w', hw', heq⟩ := List.mem_map.mp hmem
        refine (hrest w' hw').2 ?_
        rw [heq, List.map_append]
        exact List.mem_append_right _ (List.mem_singleton_self _)
    · rintro ⟨hall, ⟨hfresh, hnodup⟩, hlibrary⟩
      obtain ⟨hw, hrest⟩ := List.forall_mem_cons.mp hall
      refine ⟨hw, fun w' hw' => ⟨(hrest w' hw').1, fun hmem => ?_⟩, hnodup, hlibrary⟩
      rw [List.map_append] at hmem
      rcases List.mem_append.mp hmem with hold | hnew
      · exact (hrest w' hw').2 hold
      · have heq : w'.key = w.key := List.mem_singleton.mp hnew
        exact hfresh (heq ▸ List.mem_map_of_mem hw')

/-- Workflows make a library if they have identifiers, and different ones. -/
theorem ofWorkflows_eq_ok :
    ofWorkflows ws = .ok library ↔
      (∀ w ∈ ws, w.key ≠ "") ∧ (ws.map Workflow.key).Nodup ∧ library = ws.map fun w => (w.key, w) := by
  rw [ofWorkflows, foldlM_add_eq_ok]
  simp

/-- A library has just the workflows that it is made of, each under its identifier. -/
theorem get?_eq_some (ok : ofWorkflows ws = .ok library) : Ordered.get? id library = some w ↔ w ∈ ws ∧ w.key = id := by
  obtain ⟨-, hnodup, rfl⟩ := ofWorkflows_eq_ok.mp ok
  constructor
  · intro hget
    obtain ⟨w', hw', heq⟩ := List.mem_map.mp (Ordered.mem_of_get? hget)
    cases heq
    exact ⟨hw', rfl⟩
  · rintro ⟨hw, rfl⟩
    have hnames : ((ws.map fun w => (w.key, w)).map (·.1)).Nodup := by
      rw [List.map_map]
      exact hnodup
    exact Ordered.get?_of_mem_of_nodup hnames (List.mem_map_of_mem hw)

end Library

namespace Bundle
variable {b : Bundle} {library : Library} {id : String} {w other : Workflow}

theorem get?_of_key (h : Ordered.get? id b.entries = some w) : b.get? id = some w := by rw [get?, h]; rfl

theorem mem_workflows (h : Ordered.get? id b.entries = some w) : w ∈ b.workflows :=
  List.mem_map_of_mem (Ordered.mem_of_get? h)

/-- A workflow whose identifier is written without blanks around it is found by it if no key is in the way. -/
theorem get?_of_id (ok : b.library = .ok library) (known : Ordered.get? id library = some w)
    (free : Ordered.get? id b.entries = none) (written : w.id = id) : b.get? id = some w := by
  obtain ⟨hmem, hkey⟩ := (Library.get?_eq_some ok).mp known
  obtain ⟨found, hfound⟩ : ∃ found, b.workflows.find? (fun w => w.id == id) = some found :=
    Option.isSome_iff_exists.mp (List.find?_isSome.mpr ⟨w, hmem, beq_iff_eq.mpr written⟩)
  -- Whatever is found has the same identifier, under which the library has only one workflow.
  have hid : found.id = id := by simpa using List.find?_some hfound
  have hfoundKey : found.key = id := by rw [Workflow.key, hid, ← written, ← Workflow.key, hkey, written]
  have hsame := (Library.get?_eq_some ok).mpr ⟨List.mem_of_find?_eq_some hfound, hfoundKey⟩
  rw [known] at hsame
  cases hsame
  rw [get?, free]
  exact hfound

/-- For every identifier in the library of a bundle, the bundle finds the workflow that the library has under it, which
is the one that the command line runs and that a call enters; unless the identifier is the key of a workflow with
another one: that is the one found then. Where no key is the identifier, it has to be written without blanks around
it. -/
theorem lookups_agree (ok : b.library = .ok library) (known : Ordered.get? id library = some w) :
    (∀ other, Ordered.get? id b.entries = some other → other.key ≠ id → b.get? id = some other ∧ other ≠ w) ∧
    ((∀ other, Ordered.get? id b.entries = some other → other.key = id) →
      (id ∈ b.entries.map (·.1) ∨ Text.trimmed w.id = w.id) →
        b.get? id = some w ∧ CommandLine.select b (some id) = .ok w ∧
          ∀ (u : Setup) (st : State) (a : Action), u.library = library →
            a.config.lookup "workflowId" = some (.str id) → id ∉ u.root.toList ++ st.callStack →
              u.callee true st a = .ok (id, w)) := by
  obtain ⟨hmem, hkey⟩ := (Library.get?_eq_some ok).mp known
  constructor
  · intro other hother hne
    exact ⟨get?_of_key hother, fun heq => hne (heq ▸ hkey)⟩
  · intro hkeys hwritten
    have hget : b.get? id = some w := by
      cases hentry : Ordered.get? id b.entries with
      | some other =>
        have hother := (Library.get?_eq_some ok).mpr ⟨mem_workflows hentry, hkeys other hentry⟩
        rw [known] at hother
        cases hother
        exact get?_of_key hentry
      | none =>
        have hfree : id ∉ b.entries.map (·.1) := by
          intro hin
          obtain ⟨other, hother⟩ := Ordered.exists_get?_of_mem hin
          rw [hentry] at hother
          cases hother
        have htidy : Text.trimmed w.id = w.id := hwritten.resolve_left hfree
        exact get?_of_id ok known hentry (htidy.symm.trans hkey)
    refine ⟨hget, ?_, fun u st a hlibrary names fresh => ?_⟩
    · rw [CommandLine.select, hget]
    · exact Setup.callee_eq_ok.mpr ⟨names, fresh, rfl, by rw [hlibrary, known]⟩

/-- The identifier of the second workflow is not its key, and no other key is that identifier. -/
theorem flow_found_by_identifier :
    let flow : Workflow := { id := "purchase-flow" }
    let b : Bundle := ⟨[("login", { id := "login" }), ("purchase", flow)]⟩
    let library : Library := b.workflows.map fun w => (w.key, w)
    b.library = .ok library ∧ Ordered.get? "purchase-flow" library = some flow ∧
      b.get? "purchase-flow" = some flow ∧ CommandLine.select b (some "purchase-flow") = .ok flow := by
  intro flow b library
  have ok : b.library = .ok library := Library.ofWorkflows_eq_ok.mpr ⟨by decide +kernel, by decide +kernel, rfl⟩
  have known : Ordered.get? "purchase-flow" library = some flow :=
    (Library.get?_eq_some ok).mpr ⟨List.mem_cons_of_mem _ List.mem_cons_self, by decide +kernel⟩
  have agree := (lookups_agree ok known).2 (fun _ h => by cases h) (Or.inr (by decide +kernel))
  exact ⟨ok, known, agree.1, agree.2.1⟩

/-- Each of the two workflows of a document has the key of the other one as its identifier. -/
theorem key_goes_before_identifier :
    let text := "workflows:\n  a:\n    workflow: b\n  b:\n    workflow: a\n"
    ∃ b library w other, ofText? text.toList = some b ∧ b.library = .ok library ∧
      Ordered.get? "a" library = some w ∧ b.get? "a" = some other ∧ w.id = "a" ∧ other.id = "b" := by
  intro text
  have hread : ((ofText? text.toList).bind fun b => b.library.toOption.bind fun library =>
      (Ordered.get? "a" library).bind fun w => (b.get? "a").map fun other => (w.id, other.id)) = some ("a", "b") := by
    decide +kernel
  obtain ⟨b, hb, hread⟩ := Option.bind_eq_some_iff.mp hread
  obtain ⟨library, hlibrary, hread⟩ := Option.bind_eq_some_iff.mp hread
  obtain ⟨w, hw, hread⟩ := Option.bind_eq_some_iff.mp hread
  obtain ⟨other, hother, hids⟩ := Option.map_eq_some_iff.mp hread
  obtain ⟨hid, hotherId⟩ := Prod.mk.inj hids
  have ok : b.library = .ok library := by
    cases hok : b.library with
    | error e =>
      rw [hok] at hlibrary
      cases hlibrary
    | ok found =>
      rw [hok] at hlibrary
      exact congrArg Except.ok (Option.some.inj hlibrary)
  exact ⟨b, library, w, other, hb, ok, hw, hother, hid, hotherId⟩

-- The library has an identifier without the blanks around it, but the bundle is searched for it as it is written.
example :
    ((ofText? "workflows:\n  x:\n    workflow: ' main '\n".toList).map fun b =>
      (b.library.toOption.map fun library => library.map (·.1), (b.get? "main").isSome, (b.get? " main ").isSome)) =
      some (some ["main"], false, true) := by decide +kernel

end Bundle

end StepTree
