import StepTree.Proofs.Kinds

/-! # Choosing an arm

A branch takes the first arm that fits, and what comes after that arm does not matter. What is recorded of the arms
before it, and of all arms when none fits, is what each of them came to: its truth, or the error of its condition. -/

namespace StepTree

open Setup

/-! ### The first arm that fits -/

namespace Arm
variable {u : Setup} {st : State} {arms arms' : List Arm} {k index : Nat} {a b : Arm}

/-- The condition of the arm, which is not a default one, has no value. -/
def Faults (a : Arm) (st : State) (e : Condition.EvalError) : Prop :=
  a.isDefault = false ∧ st.holds a.condition = .error e

/-- The arm at a position fits, and none before it does. -/
structure FirstFit (arms : List Arm) (st : State) (k : Nat) (a : Arm) : Prop where
  there : arms[k]? = some a
  fits : a.Fits st
  before : ∀ j < k, ∀ b, arms[j]? = some b → ¬b.Fits st

/-- Arms that are not told apart by a branch that takes the arm at a position: up to there they have the same labels
and conditions, and at it the same steps. -/
structure Alike (k : Nat) (arms arms' : List Arm) : Prop where
  taken : arms'[k]? = arms[k]?
  before : ∀ j < k, (arms'[j]?).map (fun a => (a.label, a.condition)) = (arms[j]?).map fun a => (a.label, a.condition)

theorem firstFit_append {before : List Arm} (after : List Arm) (fits : a.Fits st)
    (unfit : ∀ b ∈ before, ¬b.Fits st) : FirstFit (before ++ a :: after) st before.length a where
  there := by simp
  fits := fits
  before := by
    intro j hj b hb
    rw [List.getElem?_append_left hj] at hb
    exact unfit b (List.mem_of_getElem? hb)

theorem FirstFit.split (h : FirstFit arms st k a) :
    ∃ before after, arms = before ++ a :: after ∧ before.length = k ∧ ∀ b ∈ before, ¬b.Fits st := by
  obtain ⟨hk, rfl⟩ := List.getElem?_eq_some_iff.mp h.there
  refine ⟨arms.take k, arms.drop (k + 1), ?_, by rw [List.length_take]; omega, fun b hb => ?_⟩
  · rw [List.getElem_cons_drop, List.take_append_drop]
  · obtain ⟨j, hj, rfl⟩ := List.mem_take_iff_getElem.mp hb
    exact h.before j (by omega) _ (List.getElem?_eq_getElem (by omega))

/-- There is only one first arm that fits. -/
theorem FirstFit.unique {k' : Nat} {a' : Arm} (h : FirstFit arms st k a) (h' : FirstFit arms st k' a') :
    k = k' ∧ a = a' := by
  obtain rfl : k = k' := Nat.le_antisymm (Nat.not_lt.mp fun hlt => h.before k' hlt a' h'.there h'.fits)
    (Nat.not_lt.mp fun hlt => h'.before k hlt a h.there h.fits)
  exact ⟨rfl, Option.some.inj (h.there.symm.trans h'.there)⟩

theorem Fits.congr (h : b.condition = a.condition) : b.Fits st ↔ a.Fits st := by
  unfold Fits isDefault
  rw [h]

theorem Alike.firstFit (h : Alike k arms arms') (first : FirstFit arms st k a) : FirstFit arms' st k a where
  there := h.taken.trans first.there
  fits := first.fits
  before := by
    intro j hj b' hb'
    have hsame := h.before j hj
    rw [hb'] at hsame
    obtain ⟨b, hb, hpair⟩ := Option.map_eq_some_iff.mp hsame.symm
    exact fun hfits => first.before j hj b hb ((Fits.congr (congrArg Prod.snd hpair)).mpr hfits)

/-! ### What is recorded of arms -/

/-- The error of an arm that was looked at tells of the fault of its condition. -/
theorem evaluate_error_eq_some {text : String} : (a.evaluate u st index).error = some text ↔
    ∃ e, a.Faults st e ∧ text = u.redact st (a.shown index ++ ": " ++ e.message) := by
  unfold evaluate Faults
  cases a.isDefault
  · rcases st.holds a.condition with e | b
    · simp [eq_comm]
    · simp
  · simp

@[simp] theorem evaluate_condition (index : Nat) (a : Arm) : (a.evaluate u st index).condition = a.condition := by
  unfold evaluate
  dsimp only
  split
  · rfl
  · split <;> rfl

/-- What is recorded of an arm depends on its label and its condition alone. -/
theorem evaluate_congr (label : b.label = a.label) (condition : b.condition = a.condition) :
    b.evaluate u st index = a.evaluate u st index := by
  unfold evaluate isDefault shown
  rw [label, condition]

theorem Alike.map_evaluate (h : Alike k arms arms') {j : Nat} (hj : j ≤ k) :
    (arms'[j]?).map (fun b => b.evaluate u st j) = (arms[j]?).map fun b => b.evaluate u st j := by
  rcases Nat.lt_or_eq_of_le hj with hlt | rfl
  · have hsame := h.before j hlt
    cases hb' : arms'[j]? with
    | none =>
      rw [hb'] at hsame
      rw [Option.map_eq_none_iff.mp hsame.symm]
    | some b' =>
      rw [hb'] at hsame
      obtain ⟨b, hb, hpair⟩ := Option.map_eq_some_iff.mp hsame.symm
      obtain ⟨hlabel, hcondition⟩ := Prod.mk.inj hpair
      rw [hb]
      exact congrArg some (evaluate_congr hlabel.symm hcondition.symm)
  · rw [h.taken]

theorem evaluate_result_eq_false (h : ¬a.Fits st) : (a.evaluate u st index).result = false := by
  rwa [← evaluate_result (u := u), Bool.not_eq_true] at h

/-- None of the arms fits, or one is the first that does; that one is found. -/
theorem evaluateAll_cases (u : Setup) (st : State) (arms : List Arm) :
    (∀ a ∈ arms, ¬a.Fits st) ∨ ∃ k a, FirstFit arms st k a ∧
      (evaluateAll u st 0 arms).find? (·.result) = some (a.evaluate u st k) := by
  rcases find?_evaluateAll u st 0 arms with ⟨-, hnone⟩ | ⟨before, a, after, rfl, ha, hbefore, hfind⟩
  · exact Or.inl hnone
  · rw [Nat.zero_add] at hfind
    exact Or.inr ⟨before.length, a, firstFit_append after ha hbefore, hfind⟩

theorem FirstFit.find?_evaluateAll (h : FirstFit arms st k a) :
    (evaluateAll u st 0 arms).find? (·.result) = some (a.evaluate u st k) := by
  rcases evaluateAll_cases u st arms with hnone | ⟨k', a', hfirst, hfind⟩
  · exact absurd h.fits (hnone a (List.mem_of_getElem? h.there))
  · obtain ⟨rfl, rfl⟩ := h.unique hfirst
    exact hfind

/-- Arms that do not fit are passed over. -/
theorem evaluateAll_append {before : List Arm} (unfit : ∀ a ∈ before, ¬a.Fits st) (index : Nat) (rest : List Arm) :
    evaluateAll u st index (before ++ rest) =
      (before.mapIdx fun j b => b.evaluate u st (index + j)) ++ evaluateAll u st (index + before.length) rest := by
  induction before generalizing index with
  | nil => rfl
  | cons b before ih =>
    obtain ⟨hb, hbefore⟩ := List.forall_mem_cons.mp unfit
    rw [List.cons_append, evaluateAll, evaluate_result_eq_false hb, ih hbefore, List.mapIdx_cons]
    simp only [List.length_cons, Nat.add_assoc, Nat.add_comm 1]
    rfl

theorem evaluateAll_of_unfit (unfit : ∀ a ∈ arms, ¬a.Fits st) :
    evaluateAll u st 0 arms = arms.mapIdx fun j b => b.evaluate u st j := by
  have hall := evaluateAll_append (u := u) unfit 0 []
  rw [List.append_nil, evaluateAll, List.append_nil] at hall
  simpa only [Nat.zero_add] using hall

theorem FirstFit.evaluateAll_eq (h : FirstFit arms st k a) :
    evaluateAll u st 0 arms = (arms.take (k + 1)).mapIdx fun j b => b.evaluate u st j := by
  obtain ⟨before, after, rfl, rfl, hbefore⟩ := h.split
  have htake : (before ++ a :: after).take (before.length + 1) = before ++ [a] := by
    rw [List.take_length_add_append, List.take_succ_cons, List.take_zero]
  rw [evaluateAll_append hbefore, evaluateAll, if_pos (evaluate_result.mpr h.fits), htake, List.mapIdx_concat]
  simp only [Nat.zero_add]

theorem cases_of_unfit (h : ¬a.Fits st) : st.holds a.condition = .ok false ∨ ∃ e, a.Faults st e := by
  obtain ⟨hdefault, hholds⟩ := not_or.mp h
  cases hc : st.holds a.condition with
  | error e => exact Or.inr ⟨e, Bool.eq_false_iff.mpr hdefault, hc⟩
  | ok b =>
    cases b with
    | true => exact absurd hc hholds
    | false => exact Or.inl rfl

theorem mem_errors {text : String} : text ∈ (arms.mapIdx fun j b => b.evaluate u st j).filterMap (·.error) ↔
    ∃ j b fault, arms[j]? = some b ∧ Faults b st fault ∧ text = u.redact st (b.shown j ++ ": " ++ fault.message) := by
  rw [List.mem_filterMap]
  constructor
  · rintro ⟨e, he, herror⟩
    obtain ⟨j, hj, rfl⟩ := List.mem_mapIdx.mp he
    obtain ⟨fault, hfault, htext⟩ := evaluate_error_eq_some.mp herror
    exact ⟨j, arms[j], fault, List.getElem?_eq_getElem hj, hfault, htext⟩
  · rintro ⟨j, b, fault, hb, hfault, htext⟩
    obtain ⟨hj, rfl⟩ := List.getElem?_eq_some_iff.mp hb
    exact ⟨_, List.mem_mapIdx.mpr ⟨j, hj, rfl⟩, evaluate_error_eq_some.mpr ⟨fault, hfault, htext⟩⟩

end Arm

/-- What is recorded of the arm at a position when it is looked at in a state. -/
structure ArmEvaluation.Shows (e : ArmEvaluation) (u : Setup) (st : State) (k : Nat) (a : Arm) : Prop where
  index : e.index = k
  label : e.label = a.shown k
  condition : e.condition = a.condition
  error (text : String) :
    e.error = some text ↔ ∃ fault, a.Faults st fault ∧ text = u.redact st (a.shown k ++ ": " ++ fault.message)

theorem Arm.evaluate_shows (u : Setup) (st : State) (index : Nat) (a : Arm) :
    (a.evaluate u st index).Shows u st index a :=
  ⟨evaluate_index .., evaluate_label .., evaluate_condition .., fun _ => evaluate_error_eq_some⟩

/-! ### Branches -/

/-- A part is in the text that the parts are joined to. -/
theorem infix_intercalate {parts : List String} {part : String} (h : part ∈ parts) :
    part.toList <:+: ("; ".intercalate parts).toList := by
  induction parts with
  | nil => cases h
  | cons first rest ih =>
    cases rest with
    | nil =>
      obtain rfl := List.mem_singleton.mp h
      have halone : ("; ".intercalate [part]).toList = part.toList :=
        congrArg String.toList String.intercalate_singleton
      exact halone ▸ List.infix_refl part.toList
    | cons second rest =>
      rw [String.intercalate_cons_cons, String.toList_append, String.toList_append]
      rcases List.mem_cons.mp h with rfl | hrest
      · rw [List.append_assoc]
        exact (List.prefix_append _ _).isInfix
      · exact (ih hrest).trans (List.suffix_append _ _).isInfix

namespace Setup
variable {u : Setup} {callee : Option Body} {frame k : Nat} {head : StepHead} {arms arms' : List Arm} {a : Arm}
  {st : State}

/-- The records and the state that the steps of an arm lead to when the arm is taken. -/
def armRun (u : Setup) (callee : Option Body) (head : StepHead) (arms : List Arm) (st : State) (k : Nat) (a : Arm) :
    List Record × State :=
  u.runSteps callee st.scope.currentFrame false a.children
    ((u.inside ⟨head, .branch arms⟩ st).emit (.branchSelected head.id k (a.shown k)))

/-- A branch that was taken up in a state took the arm at a position: the arms are recorded up to that one, and the
steps of that one, and nothing else, were run, where the branch stands. -/
structure Takes (u : Setup) (callee : Option Body) (head : StepHead) (arms : List Arm) (st : State) (k : Nat) (a : Arm)
    (out : Record × State) : Prop where
  record : ∃ evaluated, evaluated.length = k + 1 ∧
    out.1.branch = some ⟨⟨k, a.shown k, a.isDefault, evaluated⟩, (u.armRun callee head arms st k a).1⟩ ∧
    ∀ j e, evaluated[j]? = some e → (e.result = true ↔ j = k) ∧ ∃ b, arms[j]? = some b ∧ e.Shows u st j b
  nested : out.1.nested = (u.armRun callee head arms st k a).1
  status : out.1.head.status = sequenceStatus (u.armRun callee head arms st k a).1
  state : out.2 = (u.armRun callee head arms st k a).2.emit out.1.finished

/-- A branch that was taken up in a state took no arm and ran nothing. It was skipped if all conditions are false, and
else failed with the errors of all conditions that have no value. -/
structure TakesNone (u : Setup) (arms : List Arm) (st : State) (out : Record × State) : Prop where
  branch : out.1.branch = none
  nested : out.1.nested = []
  scope : out.2.scope = st.scope
  calls : out.2.calls = st.calls
  changes : out.2.changes = st.changes
  verdict : ((∀ a ∈ arms, st.holds a.condition = .ok false) ∧ out.1.head.status = .skipped ∧
      out.1.head.skipReason = some .noBranchMatched ∧ out.1.head.error = none) ∨
    ((∃ a ∈ arms, ∃ fault, a.Faults st fault) ∧ out.1.head.status = .failed ∧
      out.1.head.errorKind = some .evaluation ∧ ∃ text, out.1.head.error = some text ∧
        ∀ j b fault, arms[j]? = some b → Arm.Faults b st fault →
          (u.redact st (b.shown j ++ ": " ++ fault.message)).toList <:+: text.toList)

theorem runStep_of_firstFit (begins : gate head st = .begin) (first : Arm.FirstFit arms st k a) :
    let evaluated := (arms.take (k + 1)).mapIdx fun j b => b.evaluate u st j
    let inner := u.armRun callee head arms st k a
    u.runStep callee frame ⟨head, .branch arms⟩ st =
      reported ({ u.begin ⟨head, .branch arms⟩ with
        branch := some ⟨⟨k, a.shown k, a.isDefault, evaluated⟩, inner.1⟩ }.withStatus (sequenceStatus inner.1),
        inner.2) := by
  intro evaluated inner
  have hne : arms ≠ [] := by
    rintro rfl
    cases first.there
  have hall : Arm.evaluateAll u (u.inside ⟨head, .branch arms⟩ st) 0 arms = evaluated := by
    rw [inside, Arm.evaluateAll_emit, first.evaluateAll_eq]
  have hfind : evaluated.find? (·.result) = some (a.evaluate u st k) := by
    rw [← hall, inside, Arm.evaluateAll_emit, first.find?_evaluateAll]
  have hdefault : (arms[k]?.map Arm.isDefault).getD false = a.isDefault := by
    rw [first.there]
    rfl
  have hinner : u.runArm callee k arms ((u.inside ⟨head, .branch arms⟩ st).emit (.branchSelected head.id k (a.shown k)))
      = inner := by
    rw [runArm_eq, first.there]
    rfl
  rw [runStep_of_begin begins, begun, runKind]
  rcases u.branch_cases head.id arms (fun index st => u.runArm callee index arms st) (u.begin ⟨head, .branch arms⟩)
    (u.inside ⟨head, .branch arms⟩ st) with ⟨hnil, -⟩ | ⟨-, hnone, -⟩ | ⟨e, he, h⟩
  · exact absurd hnil hne
  · rw [hall, hfind] at hnone
    cases hnone
  · rw [hall, hfind] at he
    obtain rfl := Option.some.inj he
    dsimp only at h
    rw [h, hall, Arm.evaluate_index, Arm.evaluate_label, hdefault, hinner]

theorem runStep_of_unfit (begins : gate head st = .begin) (some_arm : arms ≠ []) (unfit : ∀ a ∈ arms, ¬a.Fits st) :
    u.runStep callee frame ⟨head, .branch arms⟩ st =
      reported (noneTaken (arms.mapIdx fun j b => b.evaluate u st j) (u.begin ⟨head, .branch arms⟩),
        u.inside ⟨head, .branch arms⟩ st) := by
  have hall : Arm.evaluateAll u (u.inside ⟨head, .branch arms⟩ st) 0 arms =
      arms.mapIdx fun j b => b.evaluate u st j := by
    rw [inside, Arm.evaluateAll_emit, Arm.evaluateAll_of_unfit unfit]
  rw [runStep_of_begin begins, begun, runKind, ← hall]
  rcases u.branch_cases head.id arms (fun index st => u.runArm callee index arms st) (u.begin ⟨head, .branch arms⟩)
    (u.inside ⟨head, .branch arms⟩ st) with ⟨hnil, -⟩ | ⟨-, -, h⟩ | ⟨e, he, -⟩
  · exact absurd hnil some_arm
  · rw [h]
  · obtain ⟨a, ha, i, rfl⟩ := Arm.mem_evaluateAll (List.mem_of_find?_eq_some he)
    exact absurd (Arm.evaluate_result.mp (List.find?_some he)) (unfit a ha)

theorem takes_of_firstFit (begins : gate head st = .begin) (first : Arm.FirstFit arms st k a) :
    u.Takes callee head arms st k a (u.runStep callee frame ⟨head, .branch arms⟩ st) := by
  rw [runStep_of_firstFit begins first]
  have hlt : k < arms.length := (List.getElem?_eq_some_iff.mp first.there).1
  refine ⟨⟨_, ?_, rfl, fun j e he => ?_⟩, rfl, rfl, rfl⟩
  · rw [List.length_mapIdx, List.length_take]
    omega
  · rw [List.getElem?_mapIdx, Option.map_eq_some_iff] at he
    obtain ⟨b, hb, rfl⟩ := he
    -- Behind the arm that is taken nothing is recorded.
    have hj : j < k + 1 := by
      refine Nat.lt_of_not_le fun hge => ?_
      rw [List.getElem?_take_eq_none hge] at hb
      cases hb
    rw [List.getElem?_take_of_lt hj] at hb
    refine ⟨Arm.evaluate_result.trans ⟨fun hfits => ?_, ?_⟩, b, hb, b.evaluate_shows u st j⟩
    · exact Nat.le_antisymm (Nat.le_of_lt_succ hj) (Nat.not_lt.mp fun hlt => first.before j hlt b hb hfits)
    · rintro rfl
      obtain rfl := Option.some.inj (hb.symm.trans first.there)
      exact first.fits

theorem takesNone_of_unfit (begins : gate head st = .begin) (some_arm : arms ≠ []) (unfit : ∀ a ∈ arms, ¬a.Fits st) :
    u.TakesNone arms st (u.runStep callee frame ⟨head, .branch arms⟩ st) := by
  rw [runStep_of_unfit begins some_arm unfit]
  unfold noneTaken
  split
  · next hnil =>
    refine ⟨rfl, rfl, rfl, rfl, rfl, Or.inl ⟨fun a ha => ?_, rfl, rfl, rfl⟩⟩
    refine (Arm.cases_of_unfit (unfit a ha)).resolve_right fun ⟨fault, hfault⟩ => ?_
    obtain ⟨j, hj⟩ := List.getElem?_of_mem ha
    have hmem := Arm.mem_errors (u := u).mpr ⟨j, a, fault, hj, hfault, rfl⟩
    rw [hnil] at hmem
    cases hmem
  · next hne =>
    obtain ⟨text, htext⟩ := List.exists_mem_of_ne_nil _ hne
    obtain ⟨j, a, fault, hj, hfault, -⟩ := Arm.mem_errors.mp htext
    refine ⟨rfl, rfl, rfl, rfl, rfl, Or.inr ⟨⟨a, List.mem_of_getElem? hj, fault, hfault⟩, rfl, rfl, _, rfl, ?_⟩⟩
    intro j b fault hb hfault
    rw [String.toList_append]
    exact (infix_intercalate (Arm.mem_errors.mpr ⟨j, b, fault, hb, hfault, rfl⟩)).trans (List.suffix_append _ _).isInfix

/-- Branches whose arms are told apart only behind the arm that they take come to the same. -/
theorem runStep_of_alike (begins : gate head st = .begin) (first : Arm.FirstFit arms st k a)
    (alike : Arm.Alike k arms arms') :
    u.runStep callee frame ⟨head, .branch arms'⟩ st = u.runStep callee frame ⟨head, .branch arms⟩ st := by
  -- Both branches look at the same conditions, and their records say nothing else of the arms.
  have hlooked : ((arms'.take (k + 1)).mapIdx fun j b => b.evaluate u st j) =
      (arms.take (k + 1)).mapIdx fun j b => b.evaluate u st j := by
    refine List.ext_getElem? fun j => ?_
    rw [List.getElem?_mapIdx, List.getElem?_mapIdx]
    rcases Nat.lt_or_ge j (k + 1) with hj | hge
    · rw [List.getElem?_take_of_lt hj, List.getElem?_take_of_lt hj]
      exact alike.map_evaluate (Nat.le_of_lt_succ hj)
    · rw [List.getElem?_take_eq_none hge, List.getElem?_take_eq_none hge]
  rw [runStep_of_firstFit begins first, runStep_of_firstFit begins (alike.firstFit first), hlooked]
  rfl

end Setup

/-- A branch that begins, and has arms, takes the first one that is the default or whose condition is true. Its record
shows the arms up to that one, of which only that one holds and just those have an error whose conditions have no value.
Only the steps of that arm are run, in the frame in which the branch stands; the conditions of later arms, and the steps
of other arms, play no part. When no arm fits, nothing is run and no arm is recorded: the branch is skipped if all
conditions are false, and else it fails with a text in which the error of each arm without a value occurs. -/
theorem first_fitting_arm_is_taken (u : Setup) (callee : Option Body) (frame : Nat) {head : StepHead} {arms : List Arm}
    {st : State} (begins : gate head st = .begin) (some_arm : arms ≠ []) :
    let out := u.runStep callee frame ⟨head, .branch arms⟩ st
    (∃ k a, Arm.FirstFit arms st k a ∧ u.Takes callee head arms st k a out ∧
      ∀ arms', Arm.Alike k arms arms' → u.runStep callee frame ⟨head, .branch arms'⟩ st = out) ∨
    (∀ a ∈ arms, ¬a.Fits st) ∧ u.TakesNone arms st out := by
  intro out
  rcases Arm.evaluateAll_cases u st arms with hnone | ⟨k, a, hfirst, -⟩
  · exact Or.inr ⟨hnone, takesNone_of_unfit begins some_arm hnone⟩
  · exact Or.inl ⟨k, a, hfirst, takes_of_firstFit begins hfirst, fun _ halike => runStep_of_alike begins hfirst halike⟩

/-- The default arm is taken although it is not the last one, and the arm before it that has no value is passed over. -/
theorem default_arm_is_taken :
    let u : Setup := { executor := fun _ _ => { result := .ok .null } }
    let arm (condition id : String) : Arm := ⟨condition, none, [⟨{ id }, .action ⟨"ask", []⟩⟩]⟩
    let arms := [arm "1 +" "a", arm "false" "b", arm " default " "c", arm "true" "d"]
    let st : State := { scope := .empty }
    let out := u.runStep none 0 ⟨{ id := "pick" }, .branch arms⟩ st
    gate { id := "pick" } st = .begin ∧ arms ≠ [] ∧ Arm.FirstFit arms st 2 (arm " default " "c") ∧
      out.1.branch.map (·.selection.index) = some 2 ∧ out.1.nested.map (·.head.stepId) = ["c"] ∧
      out.2.calls.toList.map (·.stepId) = ["c"] := by
  intro u arm arms st out
  have begins : gate { id := "pick" } st = .begin := rfl
  have some_arm : arms ≠ [] := List.cons_ne_nil _ _
  have first : Arm.FirstFit arms st 2 (arm " default " "c") := by
    have notTrue {condition : String} (h : (st.holds condition).toOption ≠ some true) : st.holds condition ≠ .ok true :=
      fun holds => h (congrArg Except.toOption holds)
    refine ⟨rfl, Or.inl (by decide), fun j hj b hb => ?_⟩
    match j, hj with
    | 0, _ =>
      obtain rfl := Option.some.inj hb
      exact not_or.mpr ⟨by decide, notTrue (by decide +kernel)⟩
    | 1, _ =>
      obtain rfl := Option.some.inj hb
      exact not_or.mpr ⟨by decide, notTrue (by decide +kernel)⟩
  rcases first_fitting_arm_is_taken u none 0 begins some_arm with ⟨k, a, hfirst, htakes, -⟩ | ⟨hnone, -⟩
  · obtain ⟨rfl, rfl⟩ := hfirst.unique first
    obtain ⟨evaluated, -, hbranch, -⟩ := htakes.record
    refine ⟨begins, some_arm, first, ?_, ?_, ?_⟩
    · rw [hbranch]
      rfl
    · rw [htakes.nested]
      decide +kernel
    · rw [htakes.state]
      decide +kernel
  · exact absurd first.fits (hnone _ (List.mem_of_getElem? first.there))

end StepTree
