import StepTree.Proofs.Statuses

/-! # What loops account for

The record of a loop has one entry for each round that was run, in the order of the rounds, and counts them by their
status. It says why the loop went no further, and that reason held at the round at which the loop ended. So a loop whose
number of rounds is known, and which nothing cuts short, runs as many of them as its limit allows. -/

namespace StepTree

open Setup

/-! ### Records of rounds -/

/-- The record is of the rounds before `index`, and counts them by their status. -/
structure LoopRecord.Counted (record : LoopRecord) (index : Nat) : Prop where
  numbered : record.iterations.map (·.head.index) = List.range index
  ended : ∀ i ∈ record.iterations, i.head.status.Ended
  completed : record.summary.completed = index
  passed : record.summary.passed = (record.iterations.map (·.head.status)).count .passed
  failed : record.summary.failed = (record.iterations.map (·.head.status)).count .failed
  skipped : record.summary.skipped = (record.iterations.map (·.head.status)).count .skipped

namespace LoopRecord.Counted
variable {record : LoopRecord} {index : Nat}

theorem begin (loopType : LoopType) (total : Option Nat) (limit : UInt32) :
    (LoopRecord.begin loopType total limit).Counted 0 :=
  ⟨rfl, List.forall_mem_nil _, rfl, rfl, rfl, rfl⟩

theorem count_add (statuses : List StepStatus) (s t : StepStatus) (n : Nat) (h : n = statuses.count t) :
    (if s = t then n + 1 else n) = (statuses ++ [s]).count t := by
  rw [List.count_append, List.count_singleton, h]
  split <;> simp_all

theorem add (h : record.Counted index) {i : Iteration} (next : i.head.index = index) (ended : i.head.status.Ended) :
    (record.add i).Counted (index + 1) where
  numbered := by
    rw [LoopRecord.add, List.map_append, h.numbered, List.range_succ, List.map_singleton, next]
  ended := by
    intro j hj
    rcases List.mem_append.mp hj with hj | hj
    · exact h.ended j hj
    · rwa [List.mem_singleton.mp hj]
  completed := congrArg (· + 1) h.completed
  passed := by
    rw [LoopRecord.add, List.map_append]
    exact count_add _ _ _ _ h.passed
  failed := by
    rw [LoopRecord.add, List.map_append]
    exact count_add _ _ _ _ h.failed
  skipped := by
    rw [LoopRecord.add, List.map_append]
    exact count_add _ _ _ _ h.skipped

/-- The way in which a loop ended changes no count. -/
theorem with_reason (h : record.Counted index) (reason : ExitReason) : (record.ended reason).Counted index :=
  ⟨h.numbered, h.ended, h.completed, h.passed, h.failed, h.skipped⟩

theorem length (h : record.Counted index) : record.iterations.length = index := by
  rw [← List.length_map (·.head.index), h.numbered, List.length_range]

/-- Every round passed, failed or was passed over. -/
theorem sum (h : record.Counted index) :
    record.summary.completed = record.summary.passed + record.summary.failed + record.summary.skipped := by
  have hended : ∀ s ∈ record.iterations.map (·.head.status), s.Ended := by
    intro s hs
    obtain ⟨i, hi, rfl⟩ := List.mem_map.mp hs
    exact h.ended i hi
  rw [h.passed, h.failed, h.skipped, ← length_eq_counts hended, List.length_map, h.length, h.completed]

end LoopRecord.Counted

/-! ### Why a loop ends -/

namespace Repetition
variable {l : Repetition} {u : Setup} {m : Moment} {depth index : Nat} {steps : List Step} {st : State}

/-- An expression of the loop has no value at the round at `index`. -/
def Fails (l : Repetition) (index : Nat) (st : State) (e : Condition.EvalError) : Prop :=
  (∃ c, l.plan = .whilst c ∧ st.holds c = .error e) ∨
    ∃ c ∈ l.config.breakCondition, (l.opened index st).holds c = .error e

/-- What keeps the round at `index` from being run, the limit of the loop left aside. -/
inductive Stops (l : Repetition) (index : Nat) (st : State) : Stop → Prop
  | cancelled (cancelled : st.cancelled = true) : Stops l index st (.exit .cancelled)
  | completed (total : Nat) (known : l.plan.total? = some total) (reached : total ≤ index) :
    Stops l index st (.exit .completed)
  | conditionFalse {c : String} (plan : l.plan = .whilst c) (unmet : st.holds c = .ok false) :
    Stops l index st (.exit .conditionFalse)
  | broken {c : String} (condition : c ∈ l.config.breakCondition) (met : (l.opened index st).holds c = .ok true) :
    Stops l index st (.exit .broken)
  | failure {e : Condition.EvalError} (fails : l.Fails index st e) : Stops l index st (.failure e)

theorem stops_of_stopBefore? {stop : Stop} (h : l.stopBefore? index st = some stop) : l.Stops index st stop := by
  unfold stopBefore? at h
  split at h
  · next hc =>
    cases h
    exact .cancelled hc
  · split at h
    · next values hplan =>
      split at h
      · next hlength =>
        cases h
        exact .completed values.length (by rw [hplan]; rfl) hlength
      · cases h
    · next count hplan =>
      split at h
      · next hcount =>
        cases h
        exact .completed count (by rw [hplan]; rfl) hcount
      · cases h
    · next c hplan =>
      split at h
      · cases h
      · next hc =>
        cases h
        exact .conditionFalse hplan hc
      · next e hc =>
        cases h
        exact .failure (Or.inl ⟨c, hplan, hc⟩)

/-- A loop that is not stopped before a round has not come to the end of its plan. -/
theorem lt_total_of_goes (h : l.stopBefore? index st = none) : ∀ total ∈ l.plan.total?, index < total := by
  intro total htotal
  unfold stopBefore? at h
  split at h
  · cases h
  · split at h
    · next values hplan =>
      rw [hplan] at htotal
      obtain rfl : values.length = total := Option.some.inj htotal
      simpa using h
    · next count hplan =>
      rw [hplan] at htotal
      obtain rfl : count = total := Option.some.inj htotal
      simpa using h
    · next c hplan =>
      rw [hplan] at htotal
      cases htotal

theorem stops_of_stop? {stop : Stop} (h : l.stop? index st = some stop) : l.Stops index st stop := by
  unfold stop? at h
  rcases Option.or_eq_some_iff.mp h with hbefore | ⟨-, hbreak⟩
  · exact stops_of_stopBefore? hbefore
  · unfold break? at hbreak
    split at hbreak
    · next hc =>
      cases hbreak
      obtain ⟨c, hmem, hmet⟩ := Option.map_eq_some_iff.mp hc
      exact .broken hmem hmet
    · next e hc =>
      cases hbreak
      obtain ⟨c, hmem, hfails⟩ := Option.map_eq_some_iff.mp hc
      exact .failure (Or.inr ⟨c, hmem, hfails⟩)
    · cases hbreak

/-- How a loop ends whose record is `record`: at a round that is not run, or after the last one that was. -/
inductive Ends (l : Repetition) (u : Setup) (m : Moment) (depth : Nat) (steps : List Step) (record : LoopRecord) :
    Stop → State → Prop
  | before {left : Nat} {st : State} {stop : Stop}
    (reaches : Reaches u m (.round depth steps l left record.summary.completed st))
    (stops : l.Stops record.summary.completed st.checkpoint stop) : Ends l u m depth steps record stop st.checkpoint
  | limit {st : State} (full : record.summary.completed = l.limit.toNat)
    (goes : l.stopBefore? record.summary.completed st.checkpoint = none) :
    Ends l u m depth steps record (.exit .maxIterations) st.checkpoint
  | cancelled {st : State} (cancelled : st.cancelled = true) : Ends l u m depth steps record (.exit .cancelled) st
  | failed {st : State} {i : Iteration} (stopOnFailure : l.config.stopOnFailure = true)
    (last : record.iterations.getLast? = some i) (failed : i.head.status = .failed) :
    Ends l u m depth steps record (.exit .error) st

theorem ends_after {i : Iteration} {stop : Stop} {record : LoopRecord} (h : l.stopAfter? i st = some stop) :
    l.Ends u m depth steps (record.add i) stop st := by
  unfold stopAfter? at h
  split at h
  · next hc =>
    cases h
    exact .cancelled hc
  · split at h
    · next hf =>
      cases h
      rw [Bool.and_eq_true, decide_eq_true_eq] at hf
      exact .failed hf.2 (List.getLast?_concat ..) hf.1
    · cases h

/-! ### Rounds -/

/-- Each iteration was made by the round of the loop that has its index, and shows the item planned for that round. -/
def Makes (l : Repetition) (u : Setup) (m : Moment) (record : LoopRecord) : Prop :=
  ∀ i ∈ record.iterations, ∃ now, Opens u m l i.head.index now ∧ i = (l.round u i.head.index now).1 ∧
    i.head.itemValue = u.redactValue now (l.plan.item i.head.index)

/-- What holds when a loop comes to the round at `index`. -/
structure Accounts (l : Repetition) (u : Setup) (m : Moment) (record : LoopRecord) (index : Nat) : Prop where
  counted : record.Counted index
  planned : ∀ total ∈ l.plan.total?, index ≤ total
  made : l.Makes u m record

@[simp] theorem round_index (l : Repetition) (u : Setup) (index : Nat) (st : State) :
    (l.round u index st).1.head.index = index := by
  rw [round_eq, iteration]
  rcases l.iterate_cases u index (u.redactValue st (l.plan.item index)) _ with ⟨-, h⟩ | ⟨e, -, h⟩ | ⟨-, h⟩ <;> rw [h]

@[simp] theorem round_itemValue (l : Repetition) (u : Setup) (index : Nat) (st : State) :
    (l.round u index st).1.head.itemValue = u.redactValue st (l.plan.item index) := by
  rw [round_eq, iteration]
  rcases l.iterate_cases u index (u.redactValue st (l.plan.item index)) _ with ⟨-, h⟩ | ⟨e, -, h⟩ | ⟨-, h⟩ <;> rw [h]

/-- A round that is run is accounted for. -/
theorem Accounts.round {record : LoopRecord} (h : l.Accounts u m record index) {left : Nat}
    (reaches : Reaches u m (.round depth steps l (left + 1) index st)) (goes : l.stop? index st.checkpoint = none) :
    l.Accounts u m (record.add (l.round u index (l.opened index st.checkpoint)).1) (index + 1) where
  counted := h.counted.add (round_index ..) (round_consistent ..).ended
  planned := lt_total_of_goes (Option.or_eq_none_iff.mp goes).1
  made := by
    intro i hi
    rcases List.mem_append.mp hi with hi | hi
    · exact h.made i hi
    · obtain rfl := List.mem_singleton.mp hi
      rw [round_index]
      exact ⟨_, .intro reaches goes, rfl, round_itemValue ..⟩

theorem rounds_account (left index : Nat) {record : LoopRecord} {st : State} (within : index + left = l.limit.toNat)
    (reaches : Reaches u m (.round depth steps l left index st)) (h : l.Accounts u m record index) :
    let out := l.rounds u left index record st
    ∃ n ≤ l.limit.toNat, l.Accounts u m out.1 n ∧ l.Ends u m depth steps out.1 out.2.1 out.2.2 := by
  induction left generalizing index record st with
  | zero =>
    rw [rounds_zero]
    refine ⟨index, by omega, h, ?_⟩
    have hcompleted := h.counted.completed
    cases hb : l.stopBefore? index st.checkpoint with
    | some stop => exact .before (hcompleted ▸ reaches) (hcompleted ▸ stops_of_stopBefore? hb)
    | none => exact .limit (hcompleted.trans within) (hcompleted ▸ hb)
  | succ left ih =>
    rw [rounds_succ]
    split
    · next stop hstop =>
      have hcompleted := h.counted.completed
      exact ⟨index, by omega, h, .before (hcompleted ▸ reaches) (hcompleted ▸ stops_of_stop? hstop)⟩
    · next goes =>
      have hround := h.round reaches goes
      dsimp only
      split
      · next stop hstop => exact ⟨index + 1, by omega, hround, ends_after hstop⟩
      · next goesOn => exact ih (index + 1) (by omega) (reaches.tail (.again goes goesOn)) hround

/-- Rounds do not change the limit of their loop. -/
theorem turns_limit (l : Repetition) (u : Setup) (st : State) : (l.turns u st).1.summary.maxIterations = l.limit :=
  rounds_keep (P := fun record _ => record.summary.maxIterations = l.limit) (fun _ _ h => h) (fun _ _ _ h => h) _ _ rfl

theorem ended_loop (u : Setup) (r : Record) (record : LoopRecord) (stop : Stop) (st : State) :
    (Repetition.ended u r record stop st).loop = some record := by
  cases stop <;> rfl

/-- The reason for which a loop ended, as its record gives it, held when it ended. -/
structure Warranted (l : Repetition) (u : Setup) (m : Moment) (depth : Nat) (steps : List Step) (record : LoopRecord)
    (out : Record × State) : Prop where
  completed (h : record.summary.exitReason = .completed) : l.plan.total? = some record.summary.completed
  maxIterations (h : record.summary.exitReason = .maxIterations) :
    record.summary.completed = l.limit.toNat ∧ ∀ total ∈ l.plan.total?, l.limit.toNat < total
  broken (h : record.summary.exitReason = .broken) : ∃ c ∈ l.config.breakCondition, ∃ left now,
    Reaches u m (.round depth steps l left record.summary.completed now) ∧
      (l.opened record.summary.completed now.checkpoint).holds c = .ok true
  conditionFalse (h : record.summary.exitReason = .conditionFalse) : ∃ c, l.plan = .whilst c ∧ ∃ left now,
    Reaches u m (.round depth steps l left record.summary.completed now) ∧ now.checkpoint.holds c = .ok false
  cancelled (h : record.summary.exitReason = .cancelled) : out.2.cancelled = true
  error (h : record.summary.exitReason = .error) :
    (out.1.head.errorKind = some .evaluation ∧ ∃ e left now,
      Reaches u m (.round depth steps l left record.summary.completed now) ∧
        l.Fails record.summary.completed now.checkpoint e) ∨
    (l.config.stopOnFailure = true ∧ ∃ i, record.iterations.getLast? = some i ∧ i.head.status = .failed)

theorem warranted_ended {record : LoopRecord} {stop : Stop} (final : State) (h : l.Accounts u m record index)
    (ends : l.Ends u m depth steps record stop st) (cancelled : final.cancelled = st.cancelled) (r : Record) :
    l.Warranted u m depth steps (record.ended stop.reason)
      (reported (Repetition.ended u r (record.ended stop.reason) stop final, final)) := by
  have hcompleted := h.counted.completed
  cases ends with
  | @before left st stop reaches stops =>
    cases stops with
    | cancelled hc => exact ⟨nofun, nofun, nofun, nofun, fun _ => cancelled.trans hc, nofun⟩
    | completed total known reached =>
      have htotal : total = record.summary.completed := by
        have hplanned := h.planned total known
        omega
      exact ⟨fun _ => htotal ▸ known, nofun, nofun, nofun, nofun, nofun⟩
    | conditionFalse plan unmet => exact ⟨nofun, nofun, nofun, fun _ => ⟨_, plan, left, _, reaches, unmet⟩, nofun, nofun⟩
    | broken condition met =>
      exact ⟨nofun, nofun, fun _ => ⟨_, condition, left, _, reaches, met⟩, nofun, nofun, nofun⟩
    | failure fails => exact ⟨nofun, nofun, nofun, nofun, nofun, fun _ => Or.inl ⟨rfl, _, left, _, reaches, fails⟩⟩
  | limit full goes =>
    exact ⟨nofun, fun _ => ⟨full, full ▸ lt_total_of_goes goes⟩, nofun, nofun, nofun, nofun⟩
  | cancelled hc => exact ⟨nofun, nofun, nofun, nofun, fun _ => cancelled.trans hc, nofun⟩
  | failed stopOnFailure last failed =>
    exact ⟨nofun, nofun, nofun, nofun, nofun, fun _ => Or.inr ⟨stopOnFailure, _, last, failed⟩⟩

/-- A loop whose number of rounds is known, and which nothing but its limit cuts short, runs all rounds within it. -/
theorem Warranted.uncut {record : LoopRecord} {out : Record × State} (h : l.Warranted u m depth steps record out)
    (unbroken : l.config.breakCondition = none) (goesOn : l.config.stopOnFailure = false)
    (goes : out.2.cancelled = false) (within : record.summary.completed ≤ l.limit.toNat) {total : Nat}
    (known : l.plan.total? = some total) :
    record.summary.completed = min total l.limit.toNat ∧
      (record.summary.exitReason = .maxIterations ↔ l.limit.toNat < total) := by
  have noWhilst : ∀ c, l.plan ≠ .whilst c := by
    intro c hplan
    rw [hplan] at known
    cases known
  cases hreason : record.summary.exitReason with
  | completed =>
    obtain rfl : total = record.summary.completed := Option.some.inj (known.symm.trans (h.completed hreason))
    exact ⟨by omega, iff_of_false nofun (by omega)⟩
  | maxIterations =>
    obtain ⟨hfull, hmore⟩ := h.maxIterations hreason
    have hlt := hmore total known
    exact ⟨by omega, iff_of_true rfl hlt⟩
  | broken =>
    obtain ⟨c, hc, -⟩ := h.broken hreason
    rw [unbroken] at hc
    cases hc
  | conditionFalse =>
    obtain ⟨c, hplan, -⟩ := h.conditionFalse hreason
    exact absurd hplan (noWhilst c)
  | cancelled => exact absurd ((h.cancelled hreason).symm.trans goes) nofun
  | error =>
    rcases h.error hreason with ⟨-, e, left, now, -, ⟨c, hplan, -⟩ | ⟨c, hc, -⟩⟩ | ⟨hstop, -⟩
    · exact absurd hplan (noWhilst c)
    · rw [unbroken] at hc
      cases hc
    · exact absurd (hstop.symm.trans goesOn) nofun

end Repetition

theorem Settings.iterationLimit_pos (s : Settings) (declared : Option UInt32) :
    1 ≤ (s.iterationLimit declared).toNat := by
  unfold iterationLimit
  generalize (declared.filter (0 < ·)).getD s.defaultMaxIterations = n
  have hmax : max 1 n = if 1 ≤ n then n else 1 := rfl
  rw [hmax]
  split
  · next h => exact UInt32.le_iff_toNat_le.mp h
  · exact Nat.le_refl 1

/-- A loop with steps whose plan was built is run. -/
theorem runStep_of_plan {u : Setup} {depth frame : Nat} {head : StepHead} {config : LoopConfig} {steps : List Step}
    {st : State} {plan : Plan} (begins : gate head st = .begin) (some_step : steps ≠ [])
    (planned : config.plan st.scope.lookup = .ok plan) :
    u.runStep (u.bodyWithin depth) frame ⟨head, .loop config steps⟩ st =
      reported ((u.repetition depth head config steps plan st).run u (u.begin ⟨head, .loop config steps⟩)
        (u.inside ⟨head, .loop config steps⟩ st)) := by
  have hempty : steps.isEmpty = false := List.isEmpty_eq_false_iff.mpr some_step
  have hplan : config.plan (u.inside ⟨head, .loop config steps⟩ st).scope.lookup = .ok plan := planned
  rw [runStep_of_begin begins, begun, runKind, loop, hempty, hplan]
  rfl

/-- A loop with steps whose plan was built accounts for its rounds. They are numbered from zero without gaps, each is
counted by its status, they stay within the limit of the loop, and each is about the item that the plan had for it when
the loop was entered. The reason for which the loop ended held when it did; a loop of a known number of rounds that has
no break condition, does not stop at failures and is not cancelled runs all of them within its limit. -/
theorem loop_accounted (u : Setup) (depth frame : Nat) {head : StepHead} {config : LoopConfig} {steps : List Step}
    {st : State} {plan : Plan} (begins : gate head st = .begin) (some_step : steps ≠ [])
    (planned : config.plan st.scope.lookup = .ok plan) :
    let m : Moment := .step depth frame ⟨head, .loop config steps⟩ st
    let out := u.runStep (u.bodyWithin depth) frame ⟨head, .loop config steps⟩ st
    let l := u.repetition depth head config steps plan st
    let cap := (u.settings.iterationLimit config.maxIterations).toNat
    ∃ record, out.1.loop = some record ∧ 1 ≤ cap ∧ record.summary.maxIterations.toNat = cap ∧
      record.summary.totalIterations = plan.total? ∧ record.Counted record.iterations.length ∧
      record.summary.completed = record.summary.passed + record.summary.failed + record.summary.skipped ∧
      record.summary.completed ≤ cap ∧ l.Makes u m record ∧ l.Warranted u m depth steps record out ∧
      (config.breakCondition = none → config.stopOnFailure = false → out.2.cancelled = false →
        ∀ total ∈ plan.total?, record.summary.completed = min total cap ∧
          (record.summary.exitReason = .maxIterations ↔ cap < total)) := by
  intro m out l cap
  have hloop : Reaches u m (.loop depth steps l (u.inside ⟨head, .loop config steps⟩ st)) :=
    .tail .refl (.loop begins some_step planned)
  obtain ⟨n, hwithin, haccounts, hends⟩ := Repetition.rounds_account l.limit.toNat 0 (Nat.zero_add _)
    (hloop.tail .rounds) ⟨.begin config.loopType plan.total? l.limit, fun _ _ => Nat.zero_le _, List.forall_mem_nil _⟩
  generalize hturns : l.turns u (u.inside ⟨head, .loop config steps⟩ st) = turns
  change l.Accounts u m (l.turns u _).1 n at haccounts
  change l.Ends u m depth steps (l.turns u _).1 (l.turns u _).2.1 (l.turns u _).2.2 at hends
  have htotal := turns_total l u (u.inside ⟨head, .loop config steps⟩ st)
  have hlimit := l.turns_limit u (u.inside ⟨head, .loop config steps⟩ st)
  rw [hturns] at haccounts hends htotal hlimit
  have hout : out = reported (Repetition.ended u (u.begin ⟨head, .loop config steps⟩)
      (turns.1.ended turns.2.1.reason) turns.2.1 (l.left turns), l.left turns) := by
    rw [← hturns]
    exact runStep_of_plan begins some_step planned
  have hcounted := haccounts.counted.with_reason turns.2.1.reason
  have hcap : (turns.1.ended turns.2.1.reason).summary.completed ≤ cap := by
    rw [hcounted.completed]
    exact hwithin
  have hwarranted := Repetition.warranted_ended (l.left turns) haccounts hends rfl
    (u.begin ⟨head, .loop config steps⟩)
  rw [← hout] at hwarranted
  refine ⟨turns.1.ended turns.2.1.reason, ?_, u.settings.iterationLimit_pos _, congrArg UInt32.toNat hlimit, htotal, ?_,
    hcounted.sum, hcap, haccounts.made, hwarranted, ?_⟩
  · rw [hout]
    exact Repetition.ended_loop ..
  · rw [hcounted.length]
    exact hcounted
  · exact fun unbroken goesOn goes total known => hwarranted.uncut unbroken goesOn goes hcap known

/-- A loop of three rounds with a limit of two passes its first round over and runs the second. -/
theorem capped_loop_accounted :
    let u : Setup := { executor := fun _ _ => { result := .ok .null } }
    let config : LoopConfig :=
      { loopType := .times, count := some (.literal 3), maxIterations := some 2, continueCondition := some "i == 0" }
    let steps : List Step := [⟨{ id := "ask" }, .action ⟨"ask", []⟩⟩]
    let st : State := { scope := .empty }
    gate { id := "loop" } st = .begin ∧ steps ≠ [] ∧ config.plan st.scope.lookup = .ok (.times 3) ∧
      ∃ record, (u.runStep (u.bodyWithin 8) 0 ⟨{ id := "loop" }, .loop config steps⟩ st).1.loop = some record ∧
        record.summary.completed = 2 ∧ record.summary.exitReason = .maxIterations ∧
        record.iterations.map (·.head.index) = [0, 1] ∧
        record.iterations.map (·.head.status) = [.skipped, .passed] := by
  intro u config steps st
  have begins : gate { id := "loop" } st = .begin := rfl
  have some_step : steps ≠ [] := List.cons_ne_nil _ _
  have planned : config.plan st.scope.lookup = .ok (.times 3) := rfl
  obtain ⟨record, isLoop, -, -, -, counted, -, -, -, -, uncut⟩ :=
    loop_accounted u 8 0 begins some_step planned
  obtain ⟨completed, capped⟩ := uncut rfl rfl (by decide +kernel) 3 rfl
  have hcompleted : record.summary.completed = 2 := completed
  have statuses : ((u.runStep (u.bodyWithin 8) 0 ⟨{ id := "loop" }, .loop config steps⟩ st).1.loop.map
      fun record => record.iterations.map (·.head.status)) = some [.skipped, .passed] := by decide +kernel
  rw [isLoop] at statuses
  refine ⟨begins, some_step, planned, record, isLoop, hcompleted, capped.mpr (by decide), ?_,
    Option.some.inj statuses⟩
  rw [counted.numbered, ← counted.completed, hcompleted]
  rfl

end StepTree
