import StepTree.Proofs.Lookups
import StepTree.Proofs.RootFrame
import StepTree.Proofs.Simulation

/-! # Workflows entered again

The calls that are open at any moment of a run are of different workflows of the library, and none is of the workflow
for which the run was started. So that workflow is not entered again, however its calls lead back to it, and what the
library has under its identifier does not matter to the run. Both hold of an identifier that is written without blanks
around it, as the library has it. -/

namespace StepTree

open Setup

/-! ### Open calls -/

/-- No identifier comes twice among the running workflows, and each call is of a workflow of the library. -/
structure Moment.Nested (u : Setup) (m : Moment) : Prop where
  nodup : (u.active m.state).Nodup
  known : ∀ id ∈ m.state.callStack, ∃ w, Ordered.get? id u.library = some w

section Calls
variable {u : Setup} {m m' : Moment}

theorem Moment.Nested.of_eq (h : m.Nested u) (same : m'.state.callStack = m.state.callStack) : m'.Nested u := by
  refine ⟨?_, ?_⟩
  · rw [active, same]
    exact h.nodup
  · rw [same]
    exact h.known

theorem Enters.nested (h : Enters u m m') (hm : m.Nested u) : m'.Nested u := by
  cases h with
  | @intro depth frame head spec st id w isCall enters =>
    obtain ⟨-, hfresh, -, hknown⟩ := callee_eq_ok.mp enters
    refine ⟨?_, fun id' hid' => ?_⟩
    · have hfreshActive : id ∉ u.active st := hfresh
      have hconcat := List.Nodup.concat hfreshActive hm.nodup
      rw [List.concat_eq_append, active, List.append_assoc] at hconcat
      exact hconcat
    · rcases List.mem_append.mp hid' with hold | hnew
      · exact hm.known id' hold
      · obtain rfl := List.mem_singleton.mp hnew
        exact ⟨w, hknown⟩

theorem Leads.nested (h : Leads u m m') (framed : m.Framed) (hm : m.Nested u) : m'.Nested u := by
  rcases h.callStack framed with same | enters
  · exact hm.of_eq same
  · exact enters.nested hm

theorem Reaches.nested (h : Reaches u m m') (framed : m.Framed) (first : m.Nested u) : m'.Nested u :=
  h.framed_invariant (fun _ _ => Leads.nested) framed first

end Calls

/-! ### Runs with another library -/

namespace Setup

def withLibrary (u : Setup) (library : Library) : Setup := { u with library }

section Library
variable {u : Setup} {library : Library}

theorem simulates_withLibrary : Simulates u (u.withLibrary library) Eq Eq where
  settings := rfl
  now := rfl
  event _ := rfl
  scope h := h ▸ rfl
  callStack h := h ▸ rfl
  cancelled h := h ▸ rfl
  emit h _ _ he := by rw [h, he]
  checkpoint h := by rw [h]
  move h scope callStack := by rw [h]
  record h c := by rw [h]
  answer h limit a := h ▸ rfl
  attempt h limit a := h ▸ rfl

/-- Apart from the workflow for which the run was started, calls find the same workflows in the two libraries. -/
def AgreesElsewhere (u : Setup) (library : Library) : Prop :=
  ∀ id, u.root ≠ some id → Ordered.get? id library = Ordered.get? id u.library

/-- The entry of the workflow for which the run was started is never looked up. -/
theorem callee_withLibrary (agrees : u.AgreesElsewhere library) (mayEnter : Bool) (st : State) (a : Action) :
    (u.withLibrary library).callee mayEnter st a = u.callee mayEnter st a := by
  have hactive : (u.withLibrary library).active st = u.active st := rfl
  unfold callee
  rw [hactive]
  cases calleeId? a with
  | none => rfl
  | some id =>
    dsimp only
    split
    · rfl
    · next hfresh =>
      have hroot : u.root ≠ some id := by
        intro heq
        have hmem : id ∈ u.active st := List.mem_append_left _ (by rw [heq]; exact List.mem_singleton_self _)
        exact hfresh (List.contains_iff_mem.mpr hmem)
      have hentry : Ordered.get? id (u.withLibrary library).library = Ordered.get? id u.library := agrees id hroot
      rw [hentry]
      rfl

/-- What the library has for the workflow for which the run was started does not matter to any step. -/
theorem run_withLibrary (agrees : u.AgreesElsewhere library) (runId : String) (steps : List Step) (st : State) :
    (u.withLibrary library).run runId steps st = u.run runId steps st := by
  have hsteps : (u.withLibrary library).runWithin (u.withLibrary library).settings.maxCallDepth steps st =
      u.runWithin u.settings.maxCallDepth steps st := by
    have hcallees : ∀ {st st' : State}, st = st' → ∀ mayEnter a,
        (u.withLibrary library).callee mayEnter st' a = u.callee mayEnter st a := by
      rintro st _ rfl mayEnter a
      exact callee_withLibrary agrees mayEnter st a
    obtain ⟨hmade, hstates⟩ := simulates_withLibrary.runWithin_same hcallees (rfl : st = st) steps
    exact (Prod.ext hmade hstates).symm
  unfold run
  rw [hsteps]
  rfl

end Library

end Setup

/-! ### The requested workflow -/

namespace Request
variable {q : Request} {u : Setup} {ws : List Workflow}

/-- A workflow of the library whose identifier is written without blanks around it is known as running. -/
theorem setup_root (ok : Library.ofWorkflows ws = .ok u.library) (listed : q.workflow ∈ ws)
    (written : Text.trimmed q.workflow.id = q.workflow.id) : (q.setup u).root = some q.workflow.id := by
  obtain ⟨hkeys, -, -⟩ := Library.ofWorkflows_eq_ok.mp ok
  have hne : q.workflow.id ≠ "" := by
    rw [← written]
    exact hkeys _ listed
  exact if_neg hne

theorem nested_opening (q : Request) (u : Setup) (signals : Signals) :
    (Moment.first (q.setup u) q.workflow.steps (q.opening (q.setup u) signals)).Nested (q.setup u) := by
  refine ⟨?_, fun id hid => ?_⟩
  · have hactive : (q.setup u).active (q.opening (q.setup u) signals) = (q.setup u).root.toList := List.append_nil _
    change ((q.setup u).active (q.opening (q.setup u) signals)).Nodup
    rw [hactive]
    cases (q.setup u).root with
    | none => exact List.nodup_nil
    | some id => exact List.nodup_singleton id
  · cases hid

theorem drive_withLibrary {library : Library} (agrees : (q.setup u).AgreesElsewhere library) (signals : Signals) :
    q.drive (u.withLibrary library) signals = q.drive u signals := by
  have hsetup : q.setup (u.withLibrary library) = (q.setup u).withLibrary library := rfl
  unfold drive
  rw [hsetup]
  simp only [run_withLibrary agrees]
  rfl

/-- The workflow for which a run was started, if the library has it and its identifier is written without blanks around
it, is not entered at any moment of the run and is no call that is open; and the run is the same with a library that has
another workflow in its place, or none. -/
theorem requested_workflow_not_reentered (signals : Signals) (ok : Library.ofWorkflows ws = .ok u.library)
    (listed : q.workflow ∈ ws) (written : Text.trimmed q.workflow.id = q.workflow.id) :
    (∀ m, Reaches (q.setup u) (.first (q.setup u) q.workflow.steps (q.opening (q.setup u) signals)) m →
      (∀ a id w, (q.setup u).callee true m.state a = .ok (id, w) → w ≠ q.workflow) ∧
      (∀ id ∈ m.state.callStack, ∃ w, Ordered.get? id u.library = some w ∧ w ≠ q.workflow)) ∧
    ∀ library : Library, (∀ id, id ≠ q.workflow.id → Ordered.get? id library = Ordered.get? id u.library) →
      q.drive (u.withLibrary library) signals = q.drive u signals := by
  have hroot := setup_root ok listed written
  -- The library has the workflow under its identifier alone, which is the first of the running ones.
  have hother : ∀ id w, Ordered.get? id u.library = some w → id ∉ (q.setup u).root.toList → w ≠ q.workflow := by
    rintro id w hknown hfresh rfl
    obtain ⟨-, hkey⟩ := (Library.get?_eq_some ok).mp hknown
    have hid : id = q.workflow.id := by rw [← hkey, Workflow.key, written]
    rw [hroot, hid] at hfresh
    exact hfresh (List.mem_singleton_self _)
  refine ⟨fun m hm => ⟨fun a id w enters => ?_, fun id hid => ?_⟩, fun library agrees => ?_⟩
  · obtain ⟨-, hfresh, -, hknown⟩ := callee_eq_ok.mp enters
    exact hother id w hknown fun hmem => hfresh (List.mem_append_left _ hmem)
  · have hnested := hm.nested rfl (q.nested_opening u signals)
    obtain ⟨w, hknown⟩ := hnested.known id hid
    refine ⟨w, hknown, hother id w hknown fun hmem => ?_⟩
    exact (List.nodup_append.mp hnested.nodup).2.2 id hmem id hid rfl
  · refine drive_withLibrary (fun id hid => agrees id ?_) signals
    rintro rfl
    exact hid hroot

/-- The workflow calls another one, which calls it back. -/
theorem call_back_is_refused :
    let call (id : String) : ActionSpec := ⟨callActionType, [("workflowId", .str id)]⟩
    let back : StepHead := { id := "back" }
    let child : Workflow := { id := "child", steps := [⟨back, .action (call "main")⟩] }
    let main : Workflow := { id := "main", steps := [⟨{ id := "go" }, .action (call "child")⟩] }
    let q : Request := { runId := "run", workflow := main }
    let u : Setup :=
      { executor := fun _ _ => { result := .ok .null }, library := [("main", main), ("child", child)] }
    Library.ofWorkflows [main, child] = .ok u.library ∧ Text.trimmed main.id = main.id ∧
      (∃ depth frame st, Reaches (q.setup u) (.first (q.setup u) main.steps (q.opening (q.setup u) {}))
        (.step depth frame ⟨back, .action (call "main")⟩ st) ∧ st.callStack = ["child"] ∧
          ∀ a id w, (q.setup u).callee true st a = .ok (id, w) → w ≠ main) ∧
      q.drive (u.withLibrary [("child", child)]) {} = q.drive u {} := by
  intro call back child main q u
  have mainKey : main.key = "main" := by decide +kernel
  have childKey : child.key = "child" := by decide +kernel
  have ok : Library.ofWorkflows [main, child] = .ok u.library :=
    Library.ofWorkflows_eq_ok.mpr
      ⟨by simp [mainKey, childKey], by simp [mainKey, childKey], by simp [u, mainKey, childKey]⟩
  have written : Text.trimmed main.id = main.id := by decide +kernel
  obtain ⟨entered, same⟩ := requested_workflow_not_reentered (q := q) {} ok List.mem_cons_self written
  have hgo : Reaches (q.setup u) (.first (q.setup u) main.steps (q.opening (q.setup u) {})) _ :=
    .tail .refl (.take rfl)
  have hchild : Reaches (q.setup u) (.first (q.setup u) main.steps (q.opening (q.setup u) {})) _ :=
    .tail hgo (.call rfl rfl rfl)
  have hback : Reaches (q.setup u) (.first (q.setup u) main.steps (q.opening (q.setup u) {})) _ :=
    .tail hchild (.take rfl)
  refine ⟨ok, written, ⟨_, _, _, hback, rfl, (entered _ hback).1⟩, same _ fun id hid => ?_⟩
  have hmain : "main" ≠ id := Ne.symm hid
  exact (if_neg hmain).symm

/-- The identifier of the workflow is written with blanks around it, and the workflow calls itself by the name that the
library has for it. -/
theorem blank_identifier_is_reentered :
    let again : StepHead := { id := "again" }
    let spec : ActionSpec := ⟨callActionType, [("workflowId", .str "main")]⟩
    let q : Request := { runId := "run", workflow := { id := " main ", steps := [⟨again, .action spec⟩] } }
    let u : Setup := { executor := fun _ _ => { result := .ok .null }, library := [("main", q.workflow)] }
    let st := q.opening (q.setup u) {}
    Library.ofWorkflows [q.workflow] = .ok u.library ∧
      Reaches (q.setup u) (.first (q.setup u) q.workflow.steps st) (.step 8 0 ⟨again, .action spec⟩ st) ∧
      (q.setup u).callee true st (resolved st again spec) = .ok ("main", q.workflow) := by
  intro again spec q u st
  have key : q.workflow.key = "main" := by decide +kernel
  have ok : Library.ofWorkflows [q.workflow] = .ok u.library :=
    Library.ofWorkflows_eq_ok.mpr ⟨by simp [key], by simp, by simp [u, key]⟩
  exact ⟨ok, .tail .refl (.take rfl), rfl⟩

end Request

end StepTree
