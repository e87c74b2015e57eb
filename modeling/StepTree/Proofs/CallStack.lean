import StepTree.Proofs.Reentry

/-! # The call stack

The levels that are left for calls and the calls that are open make up the limit of the settings at every moment of a
run. A call is refused as a recursion just if the workflow that it names is running or no level is left, and then it
ends where it began: it is recorded without anything inside it. No other step fails so. -/

namespace StepTree

open Setup

/-! ### Levels -/

/-- The number of calls that may still be opened one inside the other; none where no step is left to be run. -/
def Moment.levels? : Moment → Option Nat
  | .sequence depth _ _ _ _ => some depth
  | .step depth _ _ _ => some depth
  | .loop depth _ _ _ => some depth
  | .round depth _ _ _ _ _ => some depth
  | .pop _ => none

/-- The calls that are open, and those that may still be opened inside them, are as many as the settings allow. -/
structure Moment.Leveled (u : Setup) (m : Moment) : Prop where
  bounded : m.state.callStack.length ≤ u.settings.maxCallDepth
  levels : ∀ depth ∈ m.levels?, depth + m.state.callStack.length = u.settings.maxCallDepth

section Levels
variable {u : Setup} {m m' : Moment}

theorem Moment.Leveled.of_levels {depth : Nat} (left : m.levels? = some depth)
    (h : depth + m.state.callStack.length = u.settings.maxCallDepth) : m.Leveled u where
  bounded := Nat.le.intro ((Nat.add_comm _ _).trans h)
  levels depth' hdepth' := by
    obtain rfl : depth = depth' := Option.some.inj (left.symm.trans hdepth')
    exact h

/-- Only a call takes a level. -/
theorem Leads.levels? (h : Leads u m m') : (∀ depth ∈ m'.levels?, m.levels? = some depth) ∨ Enters u m m' := by
  cases h with
  | call _ isCall enters => exact Or.inr (.intro isCall enters)
  | _ => exact Or.inl fun depth hdepth => by cases hdepth <;> rfl

theorem Enters.leveled (h : Enters u m m') (hm : m.Leveled u) : m'.Leveled u := by
  have hlonger := h.length_callStack
  cases h with
  | @intro depth =>
    have hlevels := hm.levels (depth + 1) rfl
    exact .of_levels rfl (by omega)

theorem Leads.leveled (h : Leads u m m') (framed : m.Framed) (hm : m.Leveled u) : m'.Leveled u := by
  rcases h.levels? with kept | enters
  · rcases h.callStack framed with same | enters
    · exact ⟨same ▸ hm.bounded, fun depth hdepth => same ▸ hm.levels depth (kept depth hdepth)⟩
    · exact enters.leveled hm
  · exact enters.leveled hm

theorem Reaches.leveled (h : Reaches u m m') (framed : m.Framed) (first : m.Leveled u) : m'.Leveled u :=
  h.framed_invariant (fun _ _ => Leads.leveled) framed first

end Levels

/-! ### Recursions -/

namespace Setup
variable {u : Setup} {frame : Nat} {head : StepHead} {a : Action} {r : Record} {st : State}

/-- The step is a call that begins, but names a workflow that is running, or has no level left for it. -/
structure Recurs (u : Setup) (s : Step) (st : State) : Prop where
  begins : gate s.head st = .begin
  call : ∃ spec id, s.kind = .action spec ∧ spec.actionType = callActionType ∧
    spec.config.lookup "workflowId" = some (.str id) ∧
    (id ∈ u.active st ∨ u.settings.maxCallDepth ≤ st.callStack.length)

/-- A record without an error has not failed as a recursion. -/
theorem not_recursion {r : Record} (h : r.head.errorKind = none) : r.head.errorKind ≠ some .recursion := by
  rw [h]
  exact nofun

/-- What an action is answered is no recursion. -/
theorem judge_kind {limit : Option UInt64} {o : Outcome} {e : StepError} (h : judge limit o = .error e) :
    e.kind ≠ .recursion := by
  have hanswer : ∀ {e : StepError}, o.result.mapError .action = .error e → e.kind ≠ .recursion := by
    intro e h
    cases hresult : o.result with
    | error text =>
      rw [hresult] at h
      cases h
      exact fun h => by cases h
    | ok value =>
      rw [hresult] at h
      cases h
  unfold judge at h
  split at h
  · split at h
    · cases h
      exact fun h => by cases h
    · exact hanswer h
  · exact hanswer h

theorem tryAction_kind {limit : Option UInt64} {more made : Nat} {e : StepError}
    (h : (u.tryAction limit a more made st).2.1 = .error e) : e.kind ≠ .recursion := by
  induction more generalizing made st with
  | zero => exact judge_kind h
  | succ more ih =>
    rw [tryAction] at h
    split at h
    · cases h
    · exact ih h

theorem perform_kind (h : r.head.errorKind = none) :
    (u.perform frame head a r st).1.head.errorKind ≠ some .recursion := by
  unfold perform
  dsimp only
  generalize hanswer : u.tryAction (u.settings.timeLimit head.timeoutMs) a (head.attempts - 1) 0 st = answer
  obtain ⟨attempts, result, now⟩ := answer
  cases result with
  | ok value => exact not_recursion h
  | error e =>
    have hkind : e.kind ≠ .recursion := tryAction_kind (congrArg (·.2.1) hanswer)
    exact fun h => hkind (Option.some.inj h)

/-- A call names a workflow that is running or has no level left for it just if it is refused as a recursion. -/
theorem callee_kind {mayEnter : Bool} : (∃ e, u.callee mayEnter st a = .error e ∧ e.kind = .recursion) ↔
    ∃ id, a.config.lookup "workflowId" = some (.str id) ∧ (id ∈ u.active st ∨ mayEnter = false) := by
  simp only [← calleeId?_eq_some]
  unfold callee
  cases calleeId? a with
  | none => simp [StepError.kind]
  | some id =>
    by_cases hactive : id ∈ u.active st
    · simp [hactive, StepError.kind]
    · cases mayEnter
      · simp [hactive, StepError.kind]
      · cases hknown : Ordered.get? id u.library <;> simp [hactive, hknown, StepError.kind]

theorem call_kind {body : Option Body} (h : r.head.errorKind = none) :
    (u.call body frame head a r st).1.head.errorKind = some .recursion ↔
      ∃ e, u.callee body.isSome st a = .error e ∧ e.kind = .recursion := by
  cases hc : u.callee body.isSome st a with
  | error e =>
    rw [call_of_error hc]
    have hfail : (u.fail st (recordAttempts r 1) e).head.errorKind = some e.kind := rfl
    simp [hfail]
  | ok entered =>
    obtain ⟨id, w⟩ := entered
    have hnone : (u.call body frame head a r st).1.head.errorKind ≠ some .recursion := by
      rcases u.call_cases body frame head a r st with ⟨e, hrefused, -⟩ | ⟨run, id', w', -, -, h'⟩
      · exact absurd hc (hrefused _)
      · rw [h']
        rcases u.callEnded_cases frame head r id' st (run w'.steps (calleeState id' w' a st)) with
          ⟨-, h'⟩ | ⟨-, -, h'⟩ | ⟨-, -, h'⟩ <;> rw [h']
        · exact not_recursion h
        · exact fun hkind => by cases hkind
        · exact not_recursion h
    simp [hnone]

/-- A loop fails at an expression. -/
theorem loop_kind {stepId : String} {config : LoopConfig} {isEmpty : Bool} {body : State → List Record × State}
    (h : r.head.errorKind = none) : (u.loop stepId config isEmpty body r st).1.head.errorKind ≠ some .recursion := by
  rcases u.loop_cases stepId config isEmpty body r st with ⟨-, h'⟩ | ⟨-, e, -, h'⟩ | ⟨-, plan, -, h'⟩ <;> rw [h']
  · exact not_recursion h
  · exact fun hkind => by cases hkind
  · rw [Repetition.run_eq]
    dsimp only
    rcases Repetition.ended_cases u r _ _ _ with ⟨e, -, h'⟩ | ⟨reason, -, h'⟩ <;> rw [h']
    · exact fun hkind => by cases hkind
    · exact not_recursion h

/-- A branch fails at the conditions of its arms. -/
theorem branch_kind {stepId : String} {arms : List Arm} {body : Nat → State → List Record × State}
    (h : r.head.errorKind = none) : (u.branch stepId arms body r st).1.head.errorKind ≠ some .recursion := by
  rcases u.branch_cases stepId arms body r st with ⟨-, h'⟩ | ⟨-, -, h'⟩ | ⟨e, -, h'⟩
  · rw [h']
    exact not_recursion h
  · rw [h', noneTaken]
    split
    · exact not_recursion h
    · exact fun hkind => by cases hkind
  · dsimp only at h'
    rw [h']
    exact not_recursion h

/-- At the levels that a run has left, a step fails as a recursion just if it is a call that recurs. -/
theorem runStep_kind_iff {depth : Nat} {s : Step} (leveled : depth + st.callStack.length = u.settings.maxCallDepth) :
    (u.runStep (u.bodyWithin depth) frame s st).1.head.errorKind = some .recursion ↔ u.Recurs s st := by
  rcases u.runStep_cases (u.bodyWithin depth) frame s st with ⟨reason, hg, h⟩ | ⟨e, hg, h⟩ | ⟨hg, h⟩ <;> rw [h]
  · refine iff_of_false (fun hkind => by cases hkind) fun recurs => ?_
    cases hg.symm.trans recurs.begins
  · refine iff_of_false (fun hkind => by cases hkind) fun recurs => ?_
    cases hg.symm.trans recurs.begins
  · have hfull : (u.bodyWithin depth).isSome = false ↔ u.settings.maxCallDepth ≤ st.callStack.length := by
      cases depth with
      | zero => exact iff_of_true rfl (by omega)
      | succ depth => exact iff_of_false (fun hnone => by cases hnone) (by omega)
    obtain ⟨head, kind⟩ := s
    have hcompound : (∀ spec, kind ≠ .action spec) → ¬u.Recurs ⟨head, kind⟩ st := by
      rintro hkind ⟨-, spec, id, rfl, -⟩
      exact hkind spec rfl
    rw [begun]
    cases kind with
    | action spec =>
      rw [runKind]
      by_cases isCall : spec.actionType = callActionType
      · rw [act_of_call isCall]
        refine (call_kind rfl).trans (callee_kind.trans ?_)
        rw [hfull]
        constructor
        · rintro ⟨id, hid, hrefused⟩
          exact ⟨hg, spec, id, rfl, isCall, hid, hrefused⟩
        · rintro ⟨-, _, id, ⟨⟩, -, hid, hrefused⟩
          exact ⟨id, hid, hrefused⟩
      · rw [act_of_action isCall]
        refine iff_of_false (perform_kind rfl) ?_
        rintro ⟨-, _, id, ⟨⟩, hcall, -⟩
        exact isCall hcall
    | group children =>
      rw [runKind]
      exact iff_of_false (fun hkind => by cases hkind) (hcompound fun _ hkind => by cases hkind)
    | loop config children =>
      rw [runKind]
      exact iff_of_false (loop_kind rfl) (hcompound fun _ hkind => by cases hkind)
    | branch arms =>
      rw [runKind]
      exact iff_of_false (branch_kind rfl) (hcompound fun _ hkind => by cases hkind)

/-- A call that recurs ends where it began: nothing is recorded inside it, its start and its end are reported, and it
leads to no step. -/
structure Dismissed (u : Setup) (depth frame : Nat) (s : Step) (st : State) : Prop where
  nested : (u.runStep (u.bodyWithin depth) frame s st).1.nested = []
  state : (u.runStep (u.bodyWithin depth) frame s st).2 =
    (u.inside s st).emit (u.runStep (u.bodyWithin depth) frame s st).1.finished
  leads : ∀ m, ¬Leads u (.step depth frame s st) m

theorem Recurs.dismissed {depth : Nat} {s : Step} (h : u.Recurs s st)
    (leveled : depth + st.callStack.length = u.settings.maxCallDepth) : u.Dismissed depth frame s st := by
  have hkind : (u.runStep (u.bodyWithin depth) frame s st).1.head.errorKind = some .recursion :=
    (runStep_kind_iff leveled).mpr h
  obtain ⟨begins, spec, id, hspec, isCall, hid, -⟩ := h
  obtain ⟨head, kind⟩ := s
  obtain rfl : kind = .action spec := hspec
  rw [runStep_of_begin begins, begun, runKind, act_of_call isCall] at hkind
  obtain ⟨e, hrefused, -⟩ := (call_kind rfl).mp hkind
  have hrun : u.runStep (u.bodyWithin depth) frame ⟨head, .action spec⟩ st = reported
      (u.fail (u.inside ⟨head, .action spec⟩ st) (recordAttempts (u.supplied head spec (u.begin ⟨head, .action spec⟩)
        (u.inside ⟨head, .action spec⟩ st)) 1) e, u.inside ⟨head, .action spec⟩ st) := by
    rw [runStep_of_begin begins, begun, runKind, act_of_call isCall, call_of_error hrefused]
  refine ⟨?_, ?_, ?_⟩
  · rw [hrun]
    rfl
  · rw [hrun]
    rfl
  · rintro m (_ | _ | ⟨_, -, enters⟩)
    cases enters.symm.trans hrefused

end Setup

/-! ### The calls of a run -/

theorem Visits.moment_callStack {u : Setup} {m : Moment} {now : State} (h : Visits u m now) (framed : m.Framed) :
    ∃ m', Reaches u m m' ∧ now.callStack = m'.state.callStack := by
  cases h with
  | moment reaches => exact ⟨_, reaches, rfl⟩
  | output binds =>
    obtain ⟨_, _, _, reaches, hcalls, -⟩ := binds.taken framed
    exact ⟨_, reaches, hcalls⟩

/-- The calls that are open at any point of a run are of different workflows of the library and not of the workflow for
which the run was started, if that is known, and they are no more than the settings allow. Every step closes the calls
that it opens. It fails as a recursion just if it is a call of a workflow that is running, or of any workflow when no
more calls may be open, and then nothing of a callee is run. -/
theorem open_calls_nested (u : Setup) (runId : String) (steps : List Step) (scope : Scope) (signals : Signals) :
    let m := Moment.first u steps { scope, signals }
    (∀ now, Visits u m now → now.callStack.Nodup ∧ (∀ id ∈ u.root, id ∉ now.callStack) ∧
      now.callStack.length ≤ u.settings.maxCallDepth ∧
      ∀ id ∈ now.callStack, ∃ w, Ordered.get? id u.library = some w) ∧
    (∀ depth frame s now, Reaches u m (.step depth frame s now) →
      (u.runStep (u.bodyWithin depth) frame s now).2.callStack = now.callStack ∧
      ((u.runStep (u.bodyWithin depth) frame s now).1.head.errorKind = some .recursion ↔ u.Recurs s now) ∧
      (u.Recurs s now → u.Dismissed depth frame s now)) ∧
    (u.run runId steps { scope, signals }).2.callStack = [] := by
  intro m
  have hnested : m.Nested u := by
    refine ⟨?_, fun id hid => by cases hid⟩
    have hactive : u.active m.state = u.root.toList := List.append_nil _
    rw [hactive]
    cases u.root with
    | none => exact List.nodup_nil
    | some id => exact List.nodup_singleton id
  have hleveled : m.Leveled u := .of_levels rfl rfl
  refine ⟨fun now visits => ?_, fun depth frame s now reaches => ?_, ?_⟩
  · obtain ⟨m', reaches, hstack⟩ := visits.moment_callStack rfl
    obtain ⟨nodup, known⟩ := reaches.nested rfl hnested
    rw [active, List.nodup_append] at nodup
    obtain ⟨-, distinct, apart⟩ := nodup
    rw [hstack]
    refine ⟨distinct, fun id hid hmem => ?_, (reaches.leveled rfl hleveled).bounded, known⟩
    exact apart id (Option.mem_toList.mpr hid) id hmem rfl
  · obtain rfl : frame = now.scope.currentFrame := reaches.framed
    have hlevels := (reaches.leveled rfl hleveled).levels depth rfl
    exact ⟨((u.run_kept depth).1 s now).callStack, runStep_kind_iff hlevels, fun recurs => recurs.dismissed hlevels⟩
  · have hrun : (u.run runId steps { scope, signals }).2 =
        (u.runWithin u.settings.maxCallDepth steps { scope, signals }).2 := rfl
    rw [hrun, runWithin_eq]
    exact ((u.run_kept _).2 steps false _).callStack

/-- A workflow of the library calls itself. -/
theorem call_of_open_workflow_is_dismissed :
    let call (id : String) : ActionSpec := ⟨callActionType, [("workflowId", .str id)]⟩
    let again : Step := ⟨{ id := "again" }, .action (call "loop")⟩
    let u : Setup :=
      { executor := fun _ _ => { result := .ok .null }, library := [("loop", { id := "loop", steps := [again] })]
        root := some "main" }
    let m := Moment.first u [⟨{ id := "go" }, .action (call "loop")⟩] { scope := .empty }
    ∃ depth frame now, Reaches u m (.step depth frame again now) ∧ now.callStack = ["loop"] ∧ u.Recurs again now ∧
      (u.runStep (u.bodyWithin depth) frame again now).1.head.errorKind = some .recursion ∧
      u.Dismissed depth frame again now := by
  intro call again u m
  have hgo : Reaches u m _ := .tail .refl (.take rfl)
  have hentered : Reaches u m _ := .tail hgo (.call rfl rfl rfl)
  have hagain : Reaches u m _ := .tail hentered (.take rfl)
  obtain ⟨-, every, -⟩ := open_calls_nested u "run" [⟨{ id := "go" }, .action (call "loop")⟩] .empty {}
  obtain ⟨-, fails, dismissed⟩ := every _ _ _ _ hagain
  suffices recurs : u.Recurs again _ from ⟨_, _, _, hagain, rfl, recurs, fails.mpr recurs, dismissed recurs⟩
  exact ⟨rfl, call "loop", "loop", rfl, rfl, rfl, Or.inl (List.mem_cons_of_mem "main" (List.mem_singleton_self "loop"))⟩

end StepTree
