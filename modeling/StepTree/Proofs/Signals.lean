import StepTree.Proofs.Kinds

/-! # What a checkpoint reports

A checkpoint reports nothing but changes of phase. As long as no cancellation was asked for, the first
command to cancel is reported, and nothing after it: it ends a pause, and what is sent later changes nothing. -/

namespace StepTree

/-! ### Events -/

namespace Event

/-- The event reports a change of phase. -/
def isPhase : Event → Bool
  | .phaseChanged .. => true
  | _ => false

/-- The event reports that a cancellation was asked for. -/
def isCancel : Event → Bool
  | .phaseChanged .cancelRequested _ => true
  | _ => false

end Event

namespace Signals

/-- The events so far; none for a run to which nobody listens. -/
def heard (s : Signals) : Option (List Event) := s.events.map (·.toList)

@[simp] theorem heard_emit (s : Signals) (e : Event) : (s.emit e).heard = s.heard.map (· ++ [e]) := by
  unfold heard emit
  cases s.events <;> simp

/-- Between `s` and `s'` only events of a kind are reported. -/
def Hears (kind : Event → Bool) (s s' : Signals) : Prop :=
  ∃ events : List Event, (∀ e ∈ events, kind e = true) ∧ s'.heard = s.heard.map (· ++ events)

namespace Hears
variable {kind : Event → Bool} {s s' s'' : Signals}

theorem of_eq (h : s'.heard = s.heard) : Hears kind s s' := ⟨[], List.forall_mem_nil _, by simp [h]⟩

theorem refl (s : Signals) : Hears kind s s := of_eq rfl

theorem trans (h : Hears kind s s') (h' : Hears kind s' s'') : Hears kind s s'' := by
  obtain ⟨before, hbefore, heard⟩ := h
  obtain ⟨after, hafter, heard'⟩ := h'
  refine ⟨before ++ after, List.forall_mem_append.mpr ⟨hbefore, hafter⟩, ?_⟩
  rw [heard', heard]
  cases s.heard <;> simp

theorem emit (h : Hears kind s s') {e : Event} (he : kind e = true) : Hears kind s (s'.emit e) :=
  h.trans ⟨[e], List.forall_mem_singleton.mpr he, heard_emit s' e⟩

end Hears

/-! ### Commands -/

/-- What every command keeps, and what neither the mailbox nor the end of a pause changes, a checkpoint keeps. -/
theorem checkpoint_keep {P : Signals → Prop} (obey : ∀ s c, P s → P (s.obey c))
    (mail : ∀ s mailbox, P s → P { s with mailbox }) (unpause : ∀ s, P s → P { s with paused := false })
    {s : Signals} (h : P s) : P s.checkpoint := by
  have hdrain : P s.drain := by
    unfold drain
    split
    · exact h
    · exact List.foldlRecOn _ _ (mail _ _ h) fun s hs c _ => obey s c hs
  have hpaused : ∀ commands s, P s → P (obeyWhilePaused commands s).2 := by
    intro commands
    induction commands with
    | nil =>
      intro s hs
      rw [obeyWhilePaused]
      split
      · exact unpause _ (mail s none hs)
      · exact hs
    | cons c rest ih =>
      intro s hs
      rw [obeyWhilePaused]
      split
      · exact ih _ (obey s c hs)
      · exact hs
  unfold checkpoint
  dsimp only
  split
  · unfold await
    split
    · exact unpause _ hdrain
    · exact mail _ _ (hpaused _ _ hdrain)
  · exact hdrain

/-- A command changes nothing, or it is reported as a change of phase. -/
theorem obey_cases (s : Signals) (c : Command) :
    s.obey c = s ∨
    (s.cancelRequested = false ∧ s.obey c = { s with paused := true }.reportPhase .paused) ∨
    (s.paused = true ∧ s.obey c = { s with paused := false }.reportPhase .running) ∨
    (s.cancelRequested = false ∧ s.obey c =
      { s with cancelRequested := true, paused := false }.reportPhase .cancelRequested (some "aborting…")) := by
  cases c <;> cases hp : s.paused <;> cases hc : s.cancelRequested <;> simp [obey, hp, hc]

/-- A checkpoint reports changes of phase only. -/
theorem checkpoint_hears (s : Signals) : s.Hears Event.isPhase s.checkpoint := by
  refine checkpoint_keep (P := fun s' => s.Hears Event.isPhase s') (fun s' c h => ?_) (fun _ _ h => h) (fun _ h => h)
    (.refl s)
  rcases obey_cases s' c with h' | ⟨-, h'⟩ | ⟨-, h'⟩ | ⟨-, h'⟩ <;> rw [h']
  · exact h
  · exact h.trans ((Hears.of_eq rfl).emit rfl)
  · exact h.trans ((Hears.of_eq rfl).emit rfl)
  · exact h.trans ((Hears.of_eq rfl).emit rfl)

/-- What came of commands that were obeyed from `s` on. -/
inductive Obeyed (s s' : Signals) : Prop
  | goes (hears : s.Hears (!·.isCancel) s') (goes : s'.cancelRequested = false)
  /-- The command to cancel was the last that changed anything. -/
  | cancelled {last : Signals} {e : Event} (hears : s.Hears (!·.isCancel) last) (isCancel : e.isCancel = true)
    (heard : s'.heard = last.heard.map (· ++ [e])) (cancelled : s'.cancelRequested = true)
    (unpaused : s'.paused = false)

theorem Obeyed.obey {s s' : Signals} (h : Obeyed s s') (c : Command) : Obeyed s (s'.obey c) := by
  cases h with
  | goes hears goes =>
    rcases obey_cases s' c with h' | ⟨-, h'⟩ | ⟨-, h'⟩ | ⟨-, h'⟩ <;> rw [h']
    · exact .goes hears goes
    · exact .goes (hears.trans ((Hears.of_eq rfl).emit rfl)) goes
    · exact .goes (hears.trans ((Hears.of_eq rfl).emit rfl)) goes
    · exact .cancelled hears rfl (heard_emit _ _) rfl rfl
  | cancelled hears isCancel heard cancelled unpaused =>
    rcases obey_cases s' c with h' | ⟨hc, -⟩ | ⟨hp, -⟩ | ⟨hc, -⟩
    · rw [h']
      exact .cancelled hears isCancel heard cancelled unpaused
    · cases cancelled.symm.trans hc
    · cases unpaused.symm.trans hp
    · cases cancelled.symm.trans hc

theorem checkpoint_obeyed {s : Signals} (h : s.cancelRequested = false) : Obeyed s s.checkpoint := by
  refine checkpoint_keep (P := Obeyed s) (fun s' c h' => h'.obey c) (fun s' mailbox h' => ?_) (fun s' h' => ?_)
    (.goes (.refl s) h)
  · cases h' with
    | goes hears goes => exact .goes hears goes
    | cancelled hears isCancel heard cancelled unpaused => exact .cancelled hears isCancel heard cancelled unpaused
  · cases h' with
    | goes hears goes => exact .goes hears goes
    | cancelled hears isCancel heard cancelled _ => exact .cancelled hears isCancel heard cancelled rfl

end Signals

end StepTree
