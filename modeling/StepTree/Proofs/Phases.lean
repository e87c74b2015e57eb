import Mathlib.Data.List.Chain
import StepTree.Proofs.SignalInvariants

/-! # Reported phases

A run reports that it is running before anything else, and then it reports pauses and their ends in turn, up to the
first cancellation. It does not begin a step, an iteration or an arm in a reported pause, and hands no action over: a
checkpoint ends every pause before the run goes on. Only if no more commands can come, the pause ends without being
reported as ended, and the run goes on in it until it is over. -/

namespace StepTree

open Setup

/-! ### Phases among the events -/

namespace Event

/-- The phase that the event reports. -/
def phase? : Event → Option Phase
  | .phaseChanged phase _ => some phase
  | _ => none

/-- The event reports that a step, an iteration or the steps of an arm begin. -/
def isWork : Event → Bool
  | .stepStarted .. | .iterationStarted .. | .branchSelected .. => true
  | _ => false

theorem phase?_eq_none {e : Event} (h : e.isPhase = false) : e.phase? = none := by
  cases e with
  | phaseChanged => cases h
  | _ => rfl

end Event

/-- The phases that events report, one after the other. -/
def phases (events : List Event) : List Phase := events.filterMap Event.phase?

/-- A phase can be reported after another one. -/
inductive Phase.Next : Phase → Phase → Prop
  | pause : Next .running .paused
  | resume : Next .paused .running
  | cancel {p : Phase} (live : p ≠ .cancelRequested) : Next p .cancelRequested

/-- The first phase is that the run is running; then pauses begin and end in turn, and a cancellation is the last. -/
structure Regular (word : List Phase) : Prop where
  first : word.head? = some .running
  turns : word.IsChain Phase.Next

/-- No step, iteration or arm begins while a pause was reported last. -/
def RestsInPauses (events : List Event) : Prop :=
  ∀ before e after, events = before ++ e :: after → e.isWork = true → (phases before).getLast? ≠ some .paused

section Events
variable {events : List Event} {e : Event}

theorem phases_append (before after : List Event) : phases (before ++ after) = phases before ++ phases after :=
  List.filterMap_append

theorem phases_concat_of_none (h : e.phase? = none) : phases (events ++ [e]) = phases events := by
  rw [phases_append]
  simp [phases, h]

theorem phases_concat_of_some {p : Phase} (h : e.phase? = some p) : phases (events ++ [e]) = phases events ++ [p] := by
  rw [phases_append]
  simp [phases, h]

theorem Regular.concat {word : List Phase} {p p' : Phase} (h : Regular word) (last : word.getLast? = some p)
    (next : p.Next p') : Regular (word ++ [p']) where
  first := by rw [List.head?_append, h.first, Option.some_or]
  turns := by
    refine List.isChain_append.mpr ⟨h.turns, List.isChain_singleton p', fun x hx y hy => ?_⟩
    obtain rfl : p = x := Option.some.inj (last.symm.trans hx)
    obtain rfl : p' = y := Option.some.inj hy
    exact next

theorem restsInPauses_nil : RestsInPauses [] := fun before _ _ split => absurd split.symm (by simp)

theorem RestsInPauses.concat (h : RestsInPauses events)
    (last : e.isWork = true → (phases events).getLast? ≠ some .paused) : RestsInPauses (events ++ [e]) := by
  intro before e' after split work
  rcases List.eq_nil_or_concat' after with rfl | ⟨rest, x, rfl⟩
  · obtain ⟨rfl, he⟩ := List.append_inj' split rfl
    obtain rfl : e = e' := List.head_eq_of_cons_eq he
    exact last work
  · rw [← List.cons_append, ← List.append_assoc] at split
    obtain ⟨rfl, -⟩ := List.append_inj' split rfl
    exact h before e' rest rfl work

end Events

/-! ### Commands -/

namespace Signals

/-- The signals are in the phase that was reported last. -/
inductive In (s : Signals) : Phase → Prop
  | running (unpaused : s.paused = false) (goes : s.cancelRequested = false) : In s .running
  | paused (paused : s.paused = true) (goes : s.cancelRequested = false) : In s .paused
  | cancelled (unpaused : s.paused = false) (cancelled : s.cancelRequested = true) : In s .cancelRequested

theorem In.of_eq {s s' : Signals} {p : Phase} (h : s.In p) (paused : s'.paused = s.paused)
    (cancelRequested : s'.cancelRequested = s.cancelRequested) : s'.In p := by
  cases h with
  | running unpaused goes => exact .running (paused.trans unpaused) (cancelRequested.trans goes)
  | paused hpaused goes => exact .paused (paused.trans hpaused) (cancelRequested.trans goes)
  | cancelled unpaused cancelled => exact .cancelled (paused.trans unpaused) (cancelRequested.trans cancelled)

/-- The phases reported in the events so far are regular, the run rested in the pauses, and it is in the last one. -/
structure Live (s : Signals) (events : List Event) : Prop where
  heard : s.heard = some events
  regular : Regular (phases events)
  rests : RestsInPauses events
  last : ∃ p, (phases events).getLast? = some p ∧ s.In p

/-- No more commands come since a pause, and the pause was the last phase to be reported. -/
structure Closed (s : Signals) : Prop where
  mailbox : s.mailbox = none
  unpaused : s.paused = false
  events : ∃ before after, s.heard = some (before ++ after) ∧ Regular (phases before) ∧ RestsInPauses before ∧
    (phases before).getLast? = some .paused ∧ phases after = []

section Commands
variable {s s' : Signals} {events : List Event}

theorem Live.of_eq (h : s.Live events) (heard : s'.heard = s.heard) (paused : s'.paused = s.paused)
    (cancelRequested : s'.cancelRequested = s.cancelRequested) : s'.Live events := by
  obtain ⟨p, hp, phase⟩ := h.last
  exact ⟨heard.trans h.heard, h.regular, h.rests, p, hp, phase.of_eq paused cancelRequested⟩

/-- The last reported phase of a run that is not paused is no pause. -/
theorem Live.not_in_pause (h : s.Live events) (unpaused : s.paused = false) :
    (phases events).getLast? ≠ some .paused := by
  intro last
  obtain ⟨p, hp, phase⟩ := h.last
  obtain rfl : p = .paused := Option.some.inj (hp.symm.trans last)
  cases phase with
  | paused paused => cases unpaused.symm.trans paused

theorem Live.emit (h : s.Live events) (unpaused : s.paused = false) {e : Event} (he : e.isPhase = false) :
    (s.emit e).Live (events ++ [e]) := by
  have hsame : phases (events ++ [e]) = phases events := phases_concat_of_none (Event.phase?_eq_none he)
  obtain ⟨p, hp, phase⟩ := h.last
  exact ⟨by simp [h.heard], hsame.symm ▸ h.regular, h.rests.concat fun _ => h.not_in_pause unpaused, p,
    hsame.symm ▸ hp, phase.of_eq rfl rfl⟩

/-- A phase that can come after the last one is reported. -/
theorem Live.report (h : s.Live events) {p p' : Phase} (last : (phases events).getLast? = some p) (next : p.Next p')
    (s' : Signals) (message : Option String) (heard : s'.heard = s.heard) (phase : s'.In p') :
    ∃ events', (s'.reportPhase p' message).Live events' := by
  have hadded : phases (events ++ [.phaseChanged p' message]) = phases events ++ [p'] := phases_concat_of_some rfl
  exact ⟨events ++ [.phaseChanged p' message], by simp [reportPhase, heard, h.heard],
    hadded.symm ▸ h.regular.concat last next, h.rests.concat nofun, p', by simp [hadded], phase.of_eq rfl rfl⟩

/-- A command is obeyed in one of the phases, and leads to one that can come after it. -/
theorem Live.obey (h : s.Live events) (c : Command) : ∃ events', (s.obey c).Live events' := by
  obtain ⟨p, hp, phase⟩ := h.last
  have hcancel : s.cancelRequested = false → ∃ events', (s.obey .cancel).Live events' := by
    intro goes
    have live : p ≠ .cancelRequested := by
      rintro rfl
      cases phase with
      | cancelled _ cancelled => cases cancelled.symm.trans goes
    simp only [Signals.obey, goes]
    exact h.report hp (.cancel live) _ _ rfl (.cancelled rfl rfl)
  cases phase with
  | running unpaused goes =>
    cases c with
    | pause =>
      simp only [Signals.obey, unpaused, goes]
      exact h.report hp .pause _ _ rfl (.paused rfl rfl)
    | resume =>
      simp only [Signals.obey, unpaused]
      exact ⟨events, h⟩
    | cancel => exact hcancel goes
  | paused paused goes =>
    cases c with
    | pause =>
      simp only [Signals.obey, paused]
      exact ⟨events, h⟩
    | resume =>
      simp only [Signals.obey, paused]
      exact h.report hp .resume _ _ rfl (.running rfl goes)
    | cancel => exact hcancel goes
  | cancelled unpaused cancelled =>
    have hobey : s.obey c = s := by cases c <;> simp [Signals.obey, unpaused, cancelled]
    exact ⟨events, hobey.symm ▸ h⟩

theorem Live.drain (h : s.Live events) : ∃ events', s.drain.Live events' := by
  unfold Signals.drain
  split
  · exact ⟨events, h⟩
  · exact List.foldlRecOn (motive := fun s : Signals => ∃ events', s.Live events') _ _
      ⟨events, h.of_eq rfl rfl rfl⟩ fun s ⟨events, hs⟩ c _ => hs.obey c

/-- A pause that ends with the commands is not reported as ended. -/
theorem Live.close (h : s.Live events) (paused : s.paused = true) :
    Closed { s with mailbox := none, paused := false } := by
  obtain ⟨p, hp, phase⟩ := h.last
  cases phase with
  | paused =>
    exact ⟨rfl, rfl, events, [], by rw [List.append_nil]; exact h.heard, h.regular, h.rests, hp, rfl⟩
  | running unpaused => cases unpaused.symm.trans paused
  | cancelled unpaused => cases unpaused.symm.trans paused

/-- Commands are obeyed up to the end of a pause, or they end in it. -/
theorem Live.obeyWhilePaused (h : s.Live events) (commands : List Command) :
    ((Signals.obeyWhilePaused commands s).2.paused = false ∧
      ∃ events', (Signals.obeyWhilePaused commands s).2.Live events') ∨
    (Signals.obeyWhilePaused commands s).2.Closed := by
  induction commands generalizing s events with
  | nil =>
    rw [Signals.obeyWhilePaused]
    cases hp : s.paused with
    | false => exact Or.inl ⟨hp, events, h⟩
    | true => exact Or.inr (h.close hp)
  | cons c rest ih =>
    rw [Signals.obeyWhilePaused]
    cases hp : s.paused with
    | false => exact Or.inl ⟨hp, events, h⟩
    | true =>
      obtain ⟨events', hobeyed⟩ := h.obey c
      exact ih hobeyed

theorem Closed.emit (h : s.Closed) {e : Event} (he : e.isPhase = false) : (s.emit e).Closed := by
  obtain ⟨before, after, heard, regular, rests, last, none⟩ := h.events
  refine ⟨h.mailbox, h.unpaused, before, after ++ [e], by simp [heard], regular, rests, last, ?_⟩
  rw [phases_concat_of_none (Event.phase?_eq_none he), none]

end Commands

/-! ### Checkpoints -/

/-- What holds between the checkpoints of a run that was begun with a mailbox. -/
inductive Phased (mailbox : Option Mailbox) (s : Signals) : Prop
  | live {events : List Event} (live : s.Live events) (unpaused : s.paused = false)
    (takes : s.mailbox.isSome = true → mailbox.isSome = true)
  | closed (took : mailbox.isSome = true) (closed : s.Closed)

theorem Phased.unpaused {mailbox : Option Mailbox} {s : Signals} (h : s.Phased mailbox) : s.paused = false := by
  cases h with
  | live _ unpaused => exact unpaused
  | closed _ closed => exact closed.unpaused

theorem checkpoint_of_no_mailbox {s : Signals} (none : s.mailbox = none) (unpaused : s.paused = false) :
    s.checkpoint = s := by
  simp [checkpoint, drain, none, unpaused]

/-- What is put into the mailbox changes nothing but that commands come, if they come. -/
theorem Phased.mail {mailbox : Option Mailbox} {s : Signals} (h : s.Phased mailbox) (f : Mailbox → Mailbox) :
    Phased mailbox { s with mailbox := s.mailbox.map f } := by
  cases h with
  | live live unpaused takes =>
    exact .live (live.of_eq rfl rfl rfl) unpaused fun some => takes (by rwa [Option.isSome_map] at some)
  | closed took closed =>
    obtain ⟨none, unpaused, events⟩ := closed
    exact .closed took ⟨by simp [none], unpaused, events⟩

/-- A checkpoint leads from a phase to one in which the run can go on. -/
theorem Phased.checkpoint {mailbox : Option Mailbox} {s : Signals} (h : s.Phased mailbox) :
    s.checkpoint.Phased mailbox := by
  cases hm : s.mailbox with
  | none => rwa [checkpoint_of_no_mailbox hm h.unpaused]
  | some m =>
    cases h with
    | closed _ closed => cases hm.symm.trans closed.mailbox
    | live live _ takes =>
      have took : mailbox.isSome = true := takes (by rw [hm]; rfl)
      obtain ⟨events, live⟩ := live.drain
      unfold Signals.checkpoint
      dsimp only
      cases hp : s.drain.paused with
      | false => exact .live live hp fun _ => took
      | true =>
        unfold await
        cases hmail : s.drain.mailbox with
        | none => exact .closed took (live.close hp)
        | some m' =>
          rcases live.obeyWhilePaused m'.later with ⟨unpaused, events, live⟩ | closed
          · exact Phased.mail (.live live unpaused fun _ => took) _
          · exact Phased.mail (.closed took closed) _

/-- A run is in a phase between its checkpoints. -/
theorem phased_invariant (mailbox : Option Mailbox) : Signals.Invariant (Phased mailbox) where
  emit s e he h := by
    cases h with
    | live live unpaused takes => exact .live (live.emit unpaused he) unpaused takes
    | closed took closed => exact .closed took (closed.emit he)
  send s commands h := h.mail _
  checkpoint s h := h.checkpoint

end Signals

/-! ### Actions handed over -/

/-- A run from `m` hands an action over to the executor, and can hand it over `more` times again. -/
inductive Hands (u : Setup) (m : Moment) (a : Action) (limit : Option UInt64) : (more : Nat) → State → Prop
  | first {depth frame : Nat} {head : StepHead} {spec : ActionSpec} {st : State}
    (reaches : Reaches u m (.step depth frame ⟨head, .action spec⟩ st)) (begins : gate head st = .begin)
    (isAction : spec.actionType ≠ callActionType) (supplied : a = resolved st head spec)
    (limited : limit = u.settings.timeLimit head.timeoutMs) :
    Hands u m a limit (head.attempts - 1) (u.inside ⟨head, .action spec⟩ st)
  | again {more : Nat} {st : State} {e : StepError} (hands : Hands u m a limit (more + 1) st)
    (fails : (u.tryOnce limit a st).1 = .error e) : Hands u m a limit more (u.tryOnce limit a st).2

/-- What holds of the signals throughout a run holds whenever it hands an action over. -/
theorem Hands.signals {u : Setup} {steps : List Step} {st now : State} {a : Action} {limit : Option UInt64} {more : Nat}
    {P : Signals → Prop} (h : Hands u (.first u steps st) a limit more now) (keeps : Signals.Invariant P)
    (hst : P st.signals) : P now.signals := by
  induction h with
  | first reaches => exact keeps.emit _ _ rfl (keeps.reaches reaches hst).signals
  | again _ _ ih => exact keeps.send _ _ ih

/-! ### Requested runs -/

/-- The run rested in the pauses up to some point of the last one, and from there on no phase was reported. -/
def ClosesInPause (events : List Event) : Prop :=
  ∃ before after, events = before ++ after ∧ RestsInPauses before ∧ (phases before).getLast? = some .paused ∧
    phases after = []

namespace Signals.Phased
variable {mailbox : Option Mailbox} {s : Signals}

theorem reported (h : s.Phased mailbox) : ∃ events, s.heard = some events ∧ Regular (phases events) ∧
    (RestsInPauses events ∨ mailbox.isSome = true ∧ s.mailbox = none ∧ ClosesInPause events) := by
  cases h with
  | live live => exact ⟨_, live.heard, live.regular, Or.inl live.rests⟩
  | closed took closed =>
    obtain ⟨none, -, before, after, heard, regular, rests, last, silent⟩ := closed
    refine ⟨before ++ after, heard, ?_, Or.inr ⟨took, none, before, after, rfl, rests, last, silent⟩⟩
    rwa [phases_append, silent, List.append_nil]

/-- Between its checkpoints a run is in a reported pause only if no more commands come. -/
theorem in_pause (h : s.Phased mailbox) : ∃ events, s.heard = some events ∧
    ((phases events).getLast? = some .paused → mailbox.isSome = true ∧ s.mailbox = none) := by
  cases h with
  | live live unpaused => exact ⟨_, live.heard, fun last => absurd last (live.not_in_pause unpaused)⟩
  | closed took closed =>
    obtain ⟨none, -, before, after, heard, -⟩ := closed
    exact ⟨before ++ after, heard, fun _ => ⟨took, none⟩⟩

end Signals.Phased

/-- The phases that a requested run reports are regular. Unless its mailbox is closed while it waits in a pause, no
step, iteration or arm begins and no action is handed over while a pause was reported last; and if it is closed so, no
phase is reported from there on. -/
theorem reported_phases_hold (q : Request) (u : Setup) (mailbox : Option Mailbox) :
    (validate q.workflow.steps ≠ [] ∧ ∃ refusal, q.drive u { mailbox, events := some #[] } = .error refusal) ∨
    let first : Moment :=
      .first (q.setup u) q.workflow.steps (q.opening (q.setup u) { mailbox, events := some #[] })
    ∃ trace st events, q.drive u { mailbox, events := some #[] } = .ok (trace, st) ∧ st.signals.heard = some events ∧
      Regular (phases events) ∧
      (RestsInPauses events ∨ mailbox.isSome = true ∧ st.signals.mailbox = none ∧ ClosesInPause events) ∧
      ∀ a limit more now, Hands (q.setup u) first a limit more now → ∃ events, now.signals.heard = some events ∧
        ((phases events).getLast? = some .paused → mailbox.isSome = true ∧ now.signals.mailbox = none) := by
  rcases q.drive_cases u { mailbox, events := some #[] } with refused | hdrive
  · exact Or.inl refused
  · generalize hstart : q.opening (q.setup u) { mailbox, events := some #[] } = start at hdrive
    have phased : start.signals.Phased mailbox := by
      subst hstart
      have rests : RestsInPauses [.runStarted q.runId u.now, .phaseChanged .running none] :=
        (restsInPauses_nil.concat (e := .runStarted q.runId u.now) nofun).concat (e := .phaseChanged .running none)
          nofun
      have regular : Regular [.running] := ⟨rfl, List.isChain_singleton Phase.running⟩
      exact .live ⟨rfl, regular, rests, .running, rfl, .running rfl rfl⟩ rfl id
    have keeps := Signals.phased_invariant mailbox
    let out := (q.setup u).run q.runId q.workflow.steps start
    have hrun : out.2.signals.Phased mailbox := by
      change ((q.setup u).runWithin (q.setup u).settings.maxCallDepth q.workflow.steps start).2.signals.Phased mailbox
      rw [runWithin_eq]
      exact (keeps.run (q.setup u) _).2 q.workflow.steps _ false start phased
    have hcompleted := keeps.emit _ (.runCompleted out.1.runId out.1.status out.1.summary (q.setup u).now) rfl hrun
    obtain ⟨events, heard, regular, rests⟩ := hcompleted.reported
    exact Or.inr ⟨_, _, events, hdrive, heard, regular, rests, fun a limit more now hands =>
      (hands.signals keeps phased).in_pause⟩

/-- A run that is paused from the start and then resumed reports no work in the pause. -/
theorem resumed_run_rests :
    let ask : Step := ⟨{ id := "ask" }, .action ⟨"ask", []⟩⟩
    let q : Request := { runId := "run", workflow := { id := "main", steps := [ask] } }
    let u : Setup := { executor := fun _ _ => { result := .ok .null } }
    let mailbox : Mailbox := { arrivals := [[.pause]], later := [.resume] }
    ∃ trace st events, q.drive u { mailbox, events := some #[] } = .ok (trace, st) ∧ st.signals.heard = some events ∧
      phases events = [.running, .paused, .running] ∧ RestsInPauses events := by
  intro ask q u mailbox
  have ran : (q.drive u { mailbox, events := some #[] }).toOption.map (fun out =>
      (out.2.signals.heard.map phases, out.2.signals.mailbox.isSome)) =
        some (some [.running, .paused, .running], true) := rfl
  rcases reported_phases_hold q u mailbox with ⟨mistaken, -⟩ | ⟨trace, st, events, hdrive, heard, -, rests, -⟩
  · exact absurd (by decide +kernel) mistaken
  · rw [hdrive] at ran
    obtain ⟨hphases, hmailbox⟩ := Prod.mk.inj (Option.some.inj ran)
    rw [heard] at hphases
    refine ⟨trace, st, events, hdrive, heard, Option.some.inj hphases, ?_⟩
    rcases rests with rests | ⟨-, none, -⟩
    · exact rests
    · rw [none] at hmailbox
      cases hmailbox

/-- A run that is paused from the start, by the only command that ever comes, begins its step and hands the action over
in the pause. -/
theorem closed_mailbox_runs_in_pause :
    let ask : Step := ⟨{ id := "ask" }, .action ⟨"ask", []⟩⟩
    let q : Request := { runId := "run", workflow := { id := "main", steps := [ask] } }
    let u : Setup := { executor := fun _ _ => { result := .ok .null } }
    let signals : Signals := { mailbox := some { arrivals := [[.pause]] }, events := some #[] }
    ∃ trace st events before after, q.drive u signals = .ok (trace, st) ∧ st.signals.heard = some events ∧
      events = before ++ .stepStarted "ask" "ask" .action u.now :: after ∧
      (phases before).getLast? = some .paused ∧
      st.calls.toList.map (·.stepId) = ["ask"] ∧ ¬RestsInPauses events := by
  intro ask q u signals
  let before : List Event := [.runStarted "run" u.now, .phaseChanged .running none, .phaseChanged .paused none]
  have ran : ∃ trace st after, q.drive u signals = .ok (trace, st) ∧
      st.signals.heard = some (before ++ .stepStarted "ask" "ask" .action u.now :: after) ∧
      st.calls.toList.map (·.stepId) = ["ask"] := ⟨_, _, _, rfl, rfl, rfl⟩
  obtain ⟨trace, st, after, hdrive, heard, calls⟩ := ran
  exact ⟨trace, st, _, before, after, hdrive, heard, rfl, rfl, calls, fun rests => rests before _ after rfl rfl rfl⟩

end StepTree
