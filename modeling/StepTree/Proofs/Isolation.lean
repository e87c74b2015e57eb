import StepTree.Proofs.Noninterference
import StepTree.Proofs.Simulation

/-! # What a callee sees of its caller

A callee runs in a scope of its own, which is made from its workflow and from the inputs of the call. Whatever else two
callers have in their scopes, and whatever happened before, the callee does the same for both of them. Only marks of
secrecy reach it besides, and they do not steer it. -/

namespace StepTree

open Setup

/-! ### Signals to which nobody listens -/

/-- The signals without what was reported. -/
def Signals.muted (s : Signals) : Signals := { s with events := none }

theorem Signals.checkpoint_muted (s : Signals) : s.checkpoint.muted = s.muted.checkpoint := by
  have silent : TellsPhases fun _ => none := fun _ _ _ => rfl
  exact s.checkpoint_retold silent

theorem State.checkpoint_alikeMuted {st st' : State} (cancelled : st'.cancelled = st.cancelled)
    (signals : st'.signals.muted = st.signals.muted) :
    st'.checkpoint.cancelled = st.checkpoint.cancelled ∧
      st'.checkpoint.signals.muted = st.checkpoint.signals.muted := by
  have hchecked : st'.signals.checkpoint.muted = st.signals.checkpoint.muted := by
    rw [Signals.checkpoint_muted, signals, Signals.checkpoint_muted]
  unfold State.checkpoint
  rw [cancelled]
  split
  · exact ⟨cancelled, signals⟩
  · exact ⟨(congrArg Signals.cancelRequested hchecked :), hchecked⟩

/-! ### Callers -/

/-- What follows does not depend on in which of the two states it begins, as far as the scope does not matter: the
executor answers alike from here on, and the same workflows are running under the same commands. -/
structure State.AlikeOutside (u : Setup) (st st' : State) : Prop where
  answers : ∀ later a, u.executor (st'.calls ++ later) a = u.executor (st.calls ++ later) a
  callStack : st'.callStack = st.callStack
  cancelled : st'.cancelled = st.cancelled
  signals : st'.signals.muted = st.signals.muted

/-- Two runs that began in `first` and `first'` have done the same since then. -/
structure SameSince (first first' st st' : State) : Prop where
  scope : st'.scope = st.scope
  callStack : st'.callStack = st.callStack
  cancelled : st'.cancelled = st.cancelled
  signals : st'.signals.muted = st.signals.muted
  calls : ∃ made, st.calls = first.calls ++ made ∧ st'.calls = first'.calls ++ made

theorem SameSince.simulates {u : Setup} {first first' : State} (outside : first.AlikeOutside u first') :
    Simulates u u (fun _ _ => True) (SameSince first first') where
  settings := rfl
  now := rfl
  event _ := trivial
  scope h := h.scope
  callStack h := h.callStack
  cancelled h := h.cancelled
  emit h _ _ _ := ⟨h.scope, h.callStack, h.cancelled, h.signals, h.calls⟩
  checkpoint {st st'} h := by
    obtain ⟨hcancelled, hsignals⟩ := State.checkpoint_alikeMuted h.cancelled h.signals
    refine ⟨?_, ?_, hcancelled, hsignals, ?_⟩
    · rw [State.checkpoint_scope, h.scope, State.checkpoint_scope]
    · rw [State.checkpoint_callStack, h.callStack, State.checkpoint_callStack]
    · rw [State.checkpoint_calls, State.checkpoint_calls]
      exact h.calls
  move h _ _ := ⟨rfl, rfl, h.cancelled, h.signals, h.calls⟩
  record h _ := ⟨h.scope, h.callStack, h.cancelled, h.signals, h.calls⟩
  answer h limit a := by
    obtain ⟨made, hcalls, hcalls'⟩ := h.calls
    unfold tryOnce
    rw [hcalls, hcalls', outside.answers]
  attempt {st st'} h limit a := by
    obtain ⟨made, hcalls, hcalls'⟩ := h.calls
    have hanswer : u.executor st'.calls a = u.executor st.calls a := by rw [hcalls, hcalls', outside.answers]
    refine ⟨h.scope, h.callStack, h.cancelled, ?_, made.push a, ?_, ?_⟩
    · exact congrArg₂ Signals.send h.signals (congrArg Outcome.sends hanswer)
    · exact (congrArg (Array.push · a) hcalls).trans Array.append_push.symm
    · exact (congrArg (Array.push · a) hcalls').trans Array.append_push.symm

/-! ### Callees -/

/-- What a call enters depends on the inputs of the caller's step and on the running workflows alone. -/
theorem State.AlikeOutside.callee_eq {u : Setup} {st st' : State} (outside : st.AlikeOutside u st') {a a' : Action}
    (named : calleeId? a' = calleeId? a) (mayEnter : Bool) : u.callee mayEnter st' a' = u.callee mayEnter st a := by
  unfold callee active
  rw [named, outside.callStack]

/-- Two callers, whatever variables they have, that call a workflow with the same inputs: the same workflow is entered,
or the call is refused for the same reason. The callee hands over the same actions, leaves records of the same outline
and returns the same values, and both callers go on in places that are alike again. -/
theorem callee_sees_inputs_alone (u : Setup) (depth : Nat) (id : String) (w : Workflow) {st st' : State}
    {a a' : Action} (outside : st.AlikeOutside u st') (named : calleeId? a' = calleeId? a)
    (inputs : a'.inputs = a.inputs) :
    (∀ mayEnter, u.callee mayEnter st' a' = u.callee mayEnter st a) ∧
    let out := enter (u.runWithin depth) id w a st
    let out' := enter (u.runWithin depth) id w a' st'
    (∃ made, out.2.2.calls = st.calls ++ made ∧ out'.2.2.calls = st'.calls ++ made) ∧
      Record.outlineAll out.1 = Record.outlineAll out'.1 ∧ out.2.1.root.values = out'.2.1.root.values ∧
      out.2.2.AlikeOutside u out'.2.2 := by
  refine ⟨outside.callee_eq named, ?_⟩
  -- Between the two callees stands one that begins where the first does, with the marks of secrecy of the second.
  let first := calleeState id w a st
  let last := calleeState id w a' st'
  let between : State := { first with scope := last.scope }
  have hplain : first.scope.plain = between.scope.plain := by
    change (calleeScope w st.scope.secrets a.inputs).plain = (calleeScope w st'.scope.secrets a'.inputs).plain
    rw [calleeScope_plain, calleeScope_plain, inputs]
  have houtline : first.outline = between.outline := State.withScope_alike (rfl : first.outline = first.outline) hplain
  have hran : outlinedAll (u.runWithin depth w.steps first) = outlinedAll (u.runWithin depth w.steps between) := by
    rw [runWithin_eq, runWithin_eq, State.currentFrame_alike houtline]
    exact (run_alike rfl depth).2 w.steps _ false first between houtline
  have hsince : SameSince st st' between last :=
    ⟨rfl, congrArg (· ++ [id]) outside.callStack, outside.cancelled, outside.signals, #[], Array.append_empty.symm,
      Array.append_empty.symm⟩
  have sim := SameSince.simulates outside
  have hagree : Agree Eq (SameSince st st') (u.runWithin depth w.steps between) (u.runWithin depth w.steps last) :=
    sim.runWithin_same (fun h mayEnter a => sim.callee_eq h rfl rfl mayEnter a) hsince w.steps
  change (∃ made, (u.runWithin depth w.steps first).2.calls = st.calls ++ made ∧
      (u.runWithin depth w.steps last).2.calls = st'.calls ++ made) ∧
    Record.outlineAll (u.runWithin depth w.steps first).1 = Record.outlineAll (u.runWithin depth w.steps last).1 ∧
    (u.runWithin depth w.steps first).2.scope.root.values = (u.runWithin depth w.steps last).2.scope.root.values ∧
    (returned st (u.runWithin depth w.steps first).2).AlikeOutside u (returned st' (u.runWithin depth w.steps last).2)
  generalize u.runWithin depth w.steps first = out at hran ⊢
  generalize u.runWithin depth w.steps between = mid at hran hagree
  generalize u.runWithin depth w.steps last = out' at hagree ⊢
  obtain ⟨hmade, hstates⟩ := hagree
  obtain ⟨made, hcalls, hcalls'⟩ := hstates.calls
  have hinner : out.2.outline = mid.2.outline := (congrArg Prod.snd hran :)
  have hcallsHere : out.2.calls = st.calls ++ made := (State.calls_alike hinner).trans hcalls
  have hstack : out'.2.callStack = out.2.callStack :=
    hstates.callStack.trans (congrArg State.callStack hinner.symm :)
  refine ⟨⟨made, hcallsHere, hcalls'⟩, ?_, ?_, ?_, congrArg List.dropLast hstack, ?_, ?_⟩
  · rw [← hmade]
    exact (congrArg Prod.fst hran :)
  · rw [hstates.scope]
    exact State.rootValues_alike hinner
  · intro later a
    change u.executor (out'.2.calls ++ later) a = u.executor (out.2.calls ++ later) a
    rw [hcalls', hcallsHere, Array.append_assoc, Array.append_assoc]
    exact outside.answers _ _
  · exact hstates.cancelled.trans (State.cancelled_alike hinner).symm
  · exact hstates.signals.trans (congrArg (fun st : State => st.signals.muted) hinner.symm :)

/-- One caller has a secret that it gives away as an input, the other gives the same text away and has handed over an
action before. The callee does not find the variable of either. -/
theorem callee_overlooks_variables :
    let say : Step := ⟨{ id := "say", inputs := [("text", "{{ text }} {{ token }}")], outputs := [("text", "said")] },
      .action ⟨"echo", []⟩⟩
    let w : Workflow := { id := "tell", steps := [say] }
    let echo (a : Action) : Json := .obj (a.inputs.map fun (name, text) => (name, .str text))
    let u : Setup := { executor := fun _ a => { result := .ok (echo a) }, library := [("tell", w)] }
    let call (stepId : String) : Action := ⟨stepId, callActionType, [("workflowId", .str "tell")], [("text", "sesame")]⟩
    let st : State := { scope := ⟨[("token", ⟨some (.str "sesame"), true⟩)], []⟩ }
    let st' : State := { scope := ⟨[("token", .defined .null)], [[]]⟩, calls := #[⟨"ask", "echo", [], []⟩] }
    let out := enter (u.runWithin 8) "tell" w (call "first") st
    let out' := enter (u.runWithin 8) "tell" w (call "second") st'
    st.AlikeOutside u st' ∧ calleeId? (call "second") = calleeId? (call "first") ∧
      (call "second").inputs = (call "first").inputs ∧
      (∃ made, out.2.2.calls = st.calls ++ made ∧ out'.2.2.calls = st'.calls ++ made) ∧
      Record.outlineAll out.1 = Record.outlineAll out'.1 ∧ out.2.1.root.values = out'.2.1.root.values ∧
      (out.2.1.root.values.map fun (name, value) => (name, value.plainText)) =
        [("said", "sesame {{ token }}"), ("text", "sesame")] := by
  intro say w echo u call st st' out out'
  have outside : st.AlikeOutside u st' := ⟨fun _ _ => rfl, rfl, rfl, rfl⟩
  have named : calleeId? (call "second") = calleeId? (call "first") := rfl
  have inputs : (call "second").inputs = (call "first").inputs := rfl
  obtain ⟨-, calls, outlines, values, -⟩ := callee_sees_inputs_alone u 8 "tell" w outside named inputs
  exact ⟨outside, named, inputs, calls, outlines, values, by decide +kernel⟩

end StepTree
