import StepTree.Proofs.Simulation

/-! # Runs to which no command is sent

If no command waits for a run and none comes, its checkpoints change nothing, whether somebody could send commands or
not. So two runs to which no command is sent stay in step, whoever listens to them. -/

namespace StepTree

open Setup

/-- No command reaches a run with these signals: none waits, none comes before a checkpoint, and the executor sends none
if it could. -/
structure Setup.Undisturbed (u : Setup) (s : Signals) : Prop where
  running : s.paused = false
  unasked : s.cancelRequested = false
  silent : ∀ m ∈ s.mailbox, m.waiting = [] ∧ (∀ commands ∈ m.arrivals, commands = []) ∧
    ∀ earlier a, (u.executor earlier a).sends = []

namespace Setup.Undisturbed
variable {u : Setup} {s : Signals}

theorem emit (h : u.Undisturbed s) (e : Event) : u.Undisturbed (s.emit e) := ⟨h.running, h.unasked, h.silent⟩

theorem drain (h : u.Undisturbed s) : u.Undisturbed s.drain := by
  unfold Signals.drain
  split
  · exact h
  · next m hm =>
    obtain ⟨hwaiting, harrivals, hsends⟩ := h.silent m hm
    have hnext : m.arrivals.headD [] = [] := by
      cases ha : m.arrivals with
      | nil => rfl
      | cons commands rest => exact harrivals commands (ha ▸ List.mem_cons_self)
    rw [hwaiting, hnext]
    refine ⟨h.running, h.unasked, fun m' hm' => ?_⟩
    obtain rfl := Option.some.inj hm'
    exact ⟨rfl, fun commands hc => harrivals commands (List.mem_of_mem_tail hc), hsends⟩

theorem checkpoint (h : u.Undisturbed s) : u.Undisturbed s.checkpoint := by
  unfold Signals.checkpoint
  dsimp only
  rw [h.drain.running]
  exact h.drain

theorem send (h : u.Undisturbed s) (earlier : Array Action) (a : Action) :
    u.Undisturbed (s.send (u.executor earlier a).sends) := by
  refine ⟨h.running, h.unasked, fun m' hm' => ?_⟩
  obtain ⟨m, hm, rfl⟩ := Option.map_eq_some_iff.mp hm'
  obtain ⟨hwaiting, harrivals, hsends⟩ := h.silent m hm
  exact ⟨by simp [hwaiting, hsends], harrivals, hsends⟩

end Setup.Undisturbed

/-- A state of a run that goes on and to which no command is sent. -/
structure Setup.Free (u : Setup) (st : State) : Prop where
  goes : st.cancelled = false
  undisturbed : u.Undisturbed st.signals

namespace Setup.Free
variable {u : Setup} {st : State}

theorem checkpoint (h : u.Free st) : u.Free st.checkpoint := by
  have hchecked := h.undisturbed.checkpoint
  unfold State.checkpoint
  rw [h.goes]
  exact ⟨hchecked.unasked, hchecked⟩

theorem emit (h : u.Free st) (e : Event) : u.Free (st.emit e) := ⟨h.goes, h.undisturbed.emit e⟩

end Setup.Free

/-- Two free runs have come to the same point: their states differ in the signals alone. -/
structure Setup.InStep (u : Setup) (st st' : State) : Prop where
  scope : st'.scope = st.scope
  calls : st'.calls = st.calls
  changes : st'.changes = st.changes
  callStack : st'.callStack = st.callStack
  free : u.Free st
  free' : u.Free st'

namespace Setup.InStep
variable {u u' : Setup} {st st' : State}

theorem refl (h : u.Free st) : u.InStep st st := ⟨rfl, rfl, rfl, rfl, h, h⟩

theorem checkpoint (h : u.InStep st st') : u.InStep st.checkpoint st'.checkpoint where
  scope := by rw [State.checkpoint_scope, h.scope, State.checkpoint_scope]
  calls := by rw [State.checkpoint_calls, h.calls, State.checkpoint_calls]
  changes := by rw [State.checkpoint_changes, h.changes, State.checkpoint_changes]
  callStack := by rw [State.checkpoint_callStack, h.callStack, State.checkpoint_callStack]
  free := h.free.checkpoint
  free' := h.free'.checkpoint

theorem symm (h : u.InStep st st') : u.InStep st' st :=
  ⟨h.scope.symm, h.calls.symm, h.changes.symm, h.callStack.symm, h.free', h.free⟩

/-- A checkpoint of one of the runs leaves it where it is. -/
theorem checked (h : u.InStep st st') : u.InStep st st'.checkpoint where
  scope := by rw [State.checkpoint_scope, h.scope]
  calls := by rw [State.checkpoint_calls, h.calls]
  changes := by rw [State.checkpoint_changes, h.changes]
  callStack := by rw [State.checkpoint_callStack, h.callStack]
  free := h.free
  free' := h.free'.checkpoint

theorem emit (h : u.InStep st st') (e e' : Event) : u.InStep (st.emit e) (st'.emit e') :=
  ⟨h.scope, h.calls, h.changes, h.callStack, h.free.emit e, h.free'.emit e'⟩

/-- An event that one of the runs reports changes nothing. -/
theorem emitted (h : u.InStep st st') (e : Event) : u.InStep st (st'.emit e) :=
  ⟨h.scope, h.calls, h.changes, h.callStack, h.free, h.free'.emit e⟩

theorem simulates (executor : u'.executor = u.executor) (settings : u'.settings = u.settings) (now : u'.now = u.now) :
    Simulates u u' (fun _ _ => True) u.InStep where
  settings := settings
  now := now
  event _ := trivial
  scope h := h.scope
  callStack h := h.callStack
  cancelled h := h.free'.goes.trans h.free.goes.symm
  emit h e e' _ := h.emit e e'
  checkpoint h := h.checkpoint
  move h _ _ := ⟨rfl, h.calls, h.changes, rfl, ⟨h.free.goes, h.free.undisturbed⟩, ⟨h.free'.goes, h.free'.undisturbed⟩⟩
  record h c := ⟨h.scope, h.calls, congrArg (·.push c) h.changes, h.callStack, ⟨h.free.goes, h.free.undisturbed⟩,
    ⟨h.free'.goes, h.free'.undisturbed⟩⟩
  answer h limit a := by
    unfold tryOnce
    rw [executor, h.calls]
  attempt {st st'} h limit a := by
    refine ⟨h.scope, congrArg (·.push a) h.calls, h.changes, h.callStack, ⟨h.free.goes, h.free.undisturbed.send _ a⟩,
      ⟨h.free'.goes, ?_⟩⟩
    change u.Undisturbed (st'.signals.send (u'.executor st'.calls a).sends)
    rw [executor]
    exact h.free'.undisturbed.send _ a

/-- The same steps do the same, whatever commands there could have been. -/
theorem runWithin_same (h : u.InStep st st') (depth : Nat) (steps : List Step) :
    Agree Eq u.InStep (u.runWithin depth steps st) (u.runWithin depth steps st') := by
  have sim : Simulates u u (fun _ _ => True) u.InStep := simulates rfl rfl rfl
  exact sim.runWithin_same (fun h => sim.callee_eq h rfl rfl) h steps

end Setup.InStep

end StepTree
