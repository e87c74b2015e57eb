import StepTree.Proofs.Containment
import StepTree.Proofs.Uncontrolled

/-! # Groups are transparent

A group opens no frame, its steps write where the steps around it write, and its checkpoint and its two events change
nothing that a step reads. What it adds is that a failure inside stops the group and not the sequence around it; where
no failure stops the sequence, the steps can stand in a group or by themselves. -/

namespace StepTree

open Setup

namespace Setup
variable {u : Setup} {depth : Nat} {xs : List Step} {st : State}

/-! ### Sequences one after the other -/

theorem length_runWithin (steps : List Step) (st : State) : (u.runWithin depth steps st).1.length = steps.length := by
  rw [runWithin_eq]
  exact length_runSteps false steps st

theorem runWithin_single (s : Step) (st : State) :
    u.runWithin depth [s] st =
      let out := u.visit (u.bodyWithin depth) st.scope.currentFrame false s st
      ([out.1], out.2) := by
  rw [runWithin_eq, runSteps_cons]
  simp only [runSteps_nil]

theorem runWithin_append_records (u : Setup) (depth : Nat) (xs ys : List Step) (st : State) :
    ∃ after, (u.runWithin depth (xs ++ ys) st).1 = (u.runWithin depth xs st).1 ++ after := by
  rw [runWithin_eq, runWithin_eq, runSteps_append]
  exact ⟨_, rfl⟩

/-- Two sequences run as one, unless a failure stops the first. -/
theorem runWithin_append (ys : List Step) (goes : anyStops xs (u.runWithin depth xs st).1 = false) :
    u.runWithin depth (xs ++ ys) st =
      let out := u.runWithin depth xs st
      let rest := u.runWithin depth ys out.2
      (out.1 ++ rest.1, rest.2) := by
  have hkept := (u.run_kept depth).2 xs false st
  simp only [runWithin_eq] at goes ⊢
  rw [runSteps_append, hkept.currentFrame]
  dsimp only
  rw [goes, Bool.or_false]

/-- Neither of the two sequences is stopped by a failure when they run one after the other. -/
def PassesBoth (u : Setup) (depth : Nat) (xs ys : List Step) (st : State) : Prop :=
  anyStops xs (u.runWithin depth xs st).1 = false ∧
    anyStops ys (u.runWithin depth ys (u.runWithin depth xs st).2).1 = false

theorem anyStops_append {records : List Record} (length : xs.length = records.length) (ys : List Step)
    (after : List Record) : anyStops (xs ++ ys) (records ++ after) = (anyStops xs records || anyStops ys after) := by
  unfold anyStops
  rw [List.zip_append length, List.any_append]

theorem passesBoth_of_tolerated {ys zs : List Step}
    (tolerated : ¬FailedBefore (xs ++ ys ++ zs) (u.runWithin depth (xs ++ ys ++ zs) st).1 (xs ++ ys).length) :
    u.PassesBoth depth xs ys st := by
  obtain ⟨after, hrecords⟩ := u.runWithin_append_records depth (xs ++ ys) zs st
  rw [hrecords] at tolerated
  have goes : anyStops (xs ++ ys) (u.runWithin depth (xs ++ ys) st).1 = false := by
    rw [← Bool.not_eq_true]
    intro hstops
    refine tolerated ((stopped_iff ?_ (by simp)).mp ?_)
    · rw [length_runWithin, List.take_left]
    · rwa [List.take_left]
  have hfirst : anyStops xs (u.runWithin depth xs st).1 = false := by
    obtain ⟨inside, hinside⟩ := u.runWithin_append_records depth xs ys st
    rw [hinside, anyStops_append (length_runWithin xs st).symm, Bool.or_eq_false_iff] at goes
    exact goes.1
  rw [runWithin_append ys hfirst, anyStops_append (length_runWithin xs st).symm, Bool.or_eq_false_iff] at goes
  exact goes

theorem PassesBoth.run {ys : List Step} (h : u.PassesBoth depth xs ys st) (zs : List Step) :
    u.runWithin depth (xs ++ ys ++ zs) st =
      let before := u.runWithin depth xs st
      let inside := u.runWithin depth ys before.2
      let after := u.runWithin depth zs inside.2
      (before.1 ++ inside.1 ++ after.1, after.2) := by
  have goes : anyStops (xs ++ ys) (u.runWithin depth (xs ++ ys) st).1 = false := by
    rw [runWithin_append ys h.1, anyStops_append (length_runWithin xs st).symm, Bool.or_eq_false_iff]
    exact h
  rw [runWithin_append zs goes, runWithin_append ys h.1]

/-! ### One group -/

/-- The record of a group that holds records. -/
def gathered (u : Setup) (g : Step) (inside : List Record) : Record :=
  ({ u.begin g with children := inside }).withStatus (sequenceStatus inside)

theorem stops_gathered (head : StepHead) (g : Step) (inside : List Record) :
    stops head (u.gathered g inside) = false := by
  simp [stops, gathered, Record.hasOwnFailure, Record.withStatus, begin, Record.start, Record.pending]

/-- What a group does in a run to which no command is sent is what its steps do. -/
theorem runWithin_group (depth : Nat) {g : StepHead} (enabled : g.disabled = false) (unconditional : g.condition = none)
    (mid : List Step) (free : u.Free st) :
    (u.runWithin depth [⟨g, .group mid⟩] st).1 = [u.gathered ⟨g, .group mid⟩ (u.runWithin depth mid st).1] ∧
      u.InStep (u.runWithin depth mid st).2 (u.runWithin depth [⟨g, .group mid⟩] st).2 := by
  have hgate : gate g st.checkpoint = .begin := by
    unfold gate
    rw [enabled, unconditional]
    rfl
  have hbegun : u.InStep st (u.inside ⟨g, .group mid⟩ st.checkpoint) := (InStep.refl free).checked.emitted _
  have hinside := hbegun.runWithin_same depth mid
  rw [runWithin_single, visit_of_free free.checkpoint.goes, runStep_of_begin hgate, begun, runKind, ← runWithin_eq,
    hinside.made]
  exact ⟨rfl, hinside.states.emitted _⟩

end Setup

/-- A sequence of a run to which no command is sent, in which no failure of `pre` or `mid` keeps later steps from
running, does the same when `mid` is put into a group. Only the records of `mid` move, into that of the group. -/
theorem group_transparent (u : Setup) (depth : Nat) (pre mid post : List Step) {g : StepHead}
    (enabled : g.disabled = false) (unconditional : g.condition = none) {st : State} (free : u.Free st)
    (tolerated : ¬FailedBefore (pre ++ mid ++ post) (u.runWithin depth (pre ++ mid ++ post) st).1 (pre ++ mid).length) :
    let flat := u.runWithin depth (pre ++ mid ++ post) st
    let grouped := u.runWithin depth (pre ++ [⟨g, .group mid⟩] ++ post) st
    grouped.2.calls = flat.2.calls ∧ grouped.2.changes = flat.2.changes ∧ grouped.2.scope = flat.2.scope ∧
      ∃ before inside after, before.length = pre.length ∧ inside.length = mid.length ∧ after.length = post.length ∧
        flat.1 = before ++ inside ++ after ∧ grouped.1 = before ++ [u.gathered ⟨g, .group mid⟩ inside] ++ after := by
  intro flat grouped
  have hpasses := passesBoth_of_tolerated tolerated
  have hfree : u.Free (u.runWithin depth pre st).2 := ((InStep.refl free).runWithin_same depth pre).states.free
  obtain ⟨hrecord, hstates⟩ := runWithin_group depth enabled unconditional mid hfree
  have hgroup : u.PassesBoth depth pre [⟨g, .group mid⟩] st := by
    refine ⟨hpasses.1, ?_⟩
    rw [hrecord]
    simp [anyStops, stops_gathered]
  have hafter := hstates.runWithin_same depth post
  have hflat := hpasses.run post
  have hgrouped := hgroup.run post
  dsimp only at hflat hgrouped
  rw [hrecord, ← hafter.made] at hgrouped
  change grouped = _ at hgrouped
  change flat = _ at hflat
  rw [hflat, hgrouped]
  exact ⟨hafter.states.calls, hafter.states.changes, hafter.states.scope, _, _, _, length_runWithin pre _,
    length_runWithin mid _, length_runWithin post _, rfl, rfl⟩

/-- What a step before the group binds is found inside it, and a failure inside that is let pass stops nothing. -/
theorem grouped_steps_alike :
    let answer (a : Action) : Except String Json :=
      if a.actionType = "ask" then .ok (.obj [("pin", .str "7")]) else .error "down"
    let u : Setup := { executor := fun _ a => { result := answer a } }
    let ask : Step := ⟨{ id := "ask", outputs := [("pin", "pin")] }, .action ⟨"ask", []⟩⟩
    let send (id : String) : Step := ⟨{ id, continueOnFail := true, inputs := [("text", "{{ pin }}")] },
      .action ⟨"send", []⟩⟩
    let g : StepHead := { id := "both" }
    let st : State := { scope := .empty }
    let flat := u.runWithin 8 ([ask] ++ [send "first", send "second"] ++ [send "last"]) st
    let grouped := u.runWithin 8 ([ask] ++ [⟨g, .group [send "first", send "second"]⟩] ++ [send "last"]) st
    u.Free st ∧
      ¬FailedBefore ([ask] ++ [send "first", send "second"] ++ [send "last"]) flat.1
        ([ask] ++ [send "first", send "second"]).length ∧
      grouped.2.calls = flat.2.calls ∧
      (grouped.2.calls.toList.map fun a => (a.stepId, a.inputs)) = [("ask", []), ("first", [("text", "7")]),
        ("second", [("text", "7")]), ("last", [("text", "7")])] := by
  -- The two runs stay written out: to compare them with a name for them is to evaluate them.
  intro answer u ask send g st
  have free : u.Free st := ⟨rfl, rfl, rfl, fun _ hm => by cases hm⟩
  have tolerated : ¬FailedBefore ([ask] ++ [send "first", send "second"] ++ [send "last"])
      (u.runWithin 8 ([ask] ++ [send "first", send "second"] ++ [send "last"]) st).1
      ([ask] ++ [send "first", send "second"]).length := by
    have goes : anyStops ([ask] ++ [send "first", send "second"])
        ((u.runWithin 8 ([ask] ++ [send "first", send "second"] ++ [send "last"]) st).1.take 3) = false := by
      decide +kernel
    rw [← List.take_append_drop 3 (u.runWithin 8 _ st).1, ← stopped_iff (by decide +kernel) (by decide),
      List.take_left, goes]
    exact Bool.false_ne_true
  obtain ⟨calls, -⟩ := group_transparent u 8 [ask] [send "first", send "second"] [send "last"] (g := g) rfl rfl free
    tolerated
  exact ⟨free, tolerated, calls, by decide +kernel⟩

end StepTree
