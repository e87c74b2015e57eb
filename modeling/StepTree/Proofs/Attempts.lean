import StepTree.Proofs.Invocations

/-! # Attempts at an action

An action is handed over again as long as it fails or takes too long and attempts are left, each time as it was
resolved before the first attempt. Only the last answer counts: if it is a success in time, its result is bound to the
outputs of the step, else its error is that of the step, and nothing is bound. -/

namespace StepTree

open Setup

/-! ### Answers -/

namespace Outcome

/-- The action succeeded, and within the time limit. -/
def Succeeds (o : Outcome) (limit : Option UInt64) (value : Json) : Prop :=
  o.result = .ok value ∧ ∀ ms ∈ limit, o.elapsedMs ≤ ms.toNat

/-- The action took longer than the time limit, whatever it came to, or it failed in time. -/
inductive Fails (o : Outcome) (limit : Option UInt64) : StepError → Prop
  | late {ms : UInt64} (limited : limit = some ms) (late : ms.toNat < o.elapsedMs) : Fails o limit (.timeout ms)
  | refused {text : String} (inTime : ∀ ms ∈ limit, o.elapsedMs ≤ ms.toNat) (error : o.result = .error text) :
    Fails o limit (.action text)

variable {o : Outcome} {limit : Option UInt64} {value : Json} {e : StepError}

theorem judge_inTime (inTime : ∀ ms ∈ limit, o.elapsedMs ≤ ms.toNat) : judge limit o = o.result.mapError .action := by
  cases limit with
  | none => rfl
  | some ms => exact if_neg (Nat.not_lt.mpr (inTime ms rfl))

/-- An answer is a success or a failure, and counts as such. -/
theorem judge_cases (limit : Option UInt64) (o : Outcome) :
    (∃ value, o.Succeeds limit value ∧ judge limit o = .ok value) ∨
      ∃ e, o.Fails limit e ∧ judge limit o = .error e := by
  by_cases hlate : ∃ ms, limit = some ms ∧ ms.toNat < o.elapsedMs
  · obtain ⟨ms, rfl, hlt⟩ := hlate
    exact Or.inr ⟨_, .late rfl hlt, if_pos hlt⟩
  · have inTime : ∀ ms ∈ limit, o.elapsedMs ≤ ms.toNat :=
      fun ms hms => Nat.not_lt.mp fun hlt => hlate ⟨ms, hms, hlt⟩
    rw [judge_inTime inTime]
    cases hr : o.result with
    | ok value => exact Or.inl ⟨value, ⟨hr, inTime⟩, rfl⟩
    | error text => exact Or.inr ⟨_, .refused inTime hr, rfl⟩

theorem Fails.not_succeeds (h : o.Fails limit e) : ¬o.Succeeds limit value := by
  rintro ⟨result, inTime⟩
  cases h with
  | late limited late => exact absurd (inTime _ limited) (Nat.not_le.mpr late)
  | refused _ error => cases error.symm.trans result

end Outcome

/-! ### Attempts -/

namespace StepHead

/-- One attempt and those that the policy adds, as far as the limit of all policies goes. -/
theorem attempts_eq (h : StepHead) : h.attempts = min ((h.retry.map (·.count.toNat)).getD 0 + 1) maxAttempts := by
  unfold attempts
  cases h.retry with
  | none => rfl
  | some p => rfl

end StepHead

/-- The limit of a step goes before that of the settings; zero lifts it. -/
theorem Settings.timeLimit_eq (s : Settings) (declared : Option UInt64) :
    s.timeLimit declared = (declared.or s.actionTimeoutMs).filter (0 < ·) := by
  unfold timeLimit
  cases declared with
  | none => rfl
  | some ms => rfl

theorem State.handed_handed (st : State) (a : Action) (m n : Nat) (before after : List Command) :
    (st.handed a m before).handed a n after = st.handed a (m + n) (before ++ after) := by
  unfold handed
  rw [Signals.send_send, Array.append_assoc, Array.replicate_append_replicate]

namespace Setup

/-- The answer to an attempt at an action, when `made` attempts were made since a state. -/
def answer (u : Setup) (a : Action) (st : State) (made : Nat) : Outcome :=
  u.executor (st.calls ++ Array.replicate made a) a

variable {u : Setup} {limit : Option UInt64} {a : Action} {st : State}

theorem tryOnce_eq (u : Setup) (limit : Option UInt64) (a : Action) (st : State) :
    u.tryOnce limit a st = (judge limit (u.answer a st 0), st.handed a 1 (u.answer a st 0).sends) := by
  have hnone : st.calls ++ Array.replicate 0 a = st.calls := Array.append_empty
  have hone : st.calls ++ Array.replicate 1 a = st.calls.push a := rfl
  rw [tryOnce, answer, State.handed, hnone, hone]

theorem answer_handed (u : Setup) (a : Action) (st : State) (n made : Nat) (commands : List Command) :
    u.answer a (st.handed a n commands) made = u.answer a st (n + made) := by
  unfold answer State.handed
  rw [Array.append_assoc, Array.replicate_append_replicate]

/-- The attempts end with the first that succeeds in time, or with the last there is. -/
theorem tryAction_ends (u : Setup) (limit : Option UInt64) (a : Action) (more made : Nat) (st : State) :
    ∃ last commands, last ≤ more ∧ (∀ i < last, ∃ e, (u.answer a st i).Fails limit e) ∧
      ((∃ value, (u.answer a st last).Succeeds limit value) ∨ last = more) ∧
      u.tryAction limit a more made st =
        (made + (last + 1), judge limit (u.answer a st last), st.handed a (last + 1) commands) := by
  induction more generalizing made st with
  | zero =>
    have hnone : ∀ i < 0, ∃ e, (u.answer a st i).Fails limit e := fun i hi => absurd hi (Nat.not_lt_zero i)
    refine ⟨0, (u.answer a st 0).sends, Nat.le_refl 0, hnone, Or.inr rfl, ?_⟩
    rw [tryAction, tryOnce_eq]
  | succ more ih =>
    rw [tryAction, tryOnce_eq]
    rcases Outcome.judge_cases limit (u.answer a st 0) with ⟨value, hfirst, hjudged⟩ | ⟨e, hfirst, hjudged⟩
    · have hnone : ∀ i < 0, ∃ e, (u.answer a st i).Fails limit e := fun i hi => absurd hi (Nat.not_lt_zero i)
      refine ⟨0, (u.answer a st 0).sends, Nat.zero_le _, hnone, Or.inl ⟨value, hfirst⟩, ?_⟩
      rw [hjudged]
    · -- What comes after the first failure is counted from the state behind it, one attempt later.
      obtain ⟨last, commands, hlast, hfailed, hends, htried⟩ :=
        ih (made + 1) (st.handed a 1 (u.answer a st 0).sends)
      simp only [answer_handed, Nat.add_comm 1] at hfailed hends htried
      refine ⟨last + 1, (u.answer a st 0).sends ++ commands, by omega, fun i hi => ?_, ?_, ?_⟩
      · cases i with
        | zero => exact ⟨e, hfirst⟩
        | succ i => exact hfailed i (by omega)
      · exact hends.imp_right (congrArg (· + 1))
      · rw [hjudged]
        dsimp only
        rw [htried, State.handed_handed, Nat.add_comm 1, Nat.add_assoc made 1, Nat.add_comm 1]

/-! ### Outputs -/

/-- Every output of a step is bound once, in their order, to what its path selects. -/
theorem bindOutputs_once (u : Setup) (frame : Nat) (head : StepHead) (result : Json) (st : State) :
    (u.bindOutputs frame head result st).scope =
      head.outputs.foldl (fun s o => s.bindInFrame frame o.2
        ⟨result.select? o.1.toList, ((s.binding? o.2).map (·.isSecret)).getD false⟩) st.scope ∧
    ∃ written : List VariableChange,
      (u.bindOutputs frame head result st).changes.toList = st.changes.toList ++ written ∧
      written.map (fun c => (c.stepId, c.name)) = head.outputs.map fun o => (head.id, o.2) := by
  unfold bindOutputs
  generalize head.outputs = outputs
  induction outputs generalizing st with
  | nil => exact ⟨rfl, [], (List.append_nil _).symm, rfl⟩
  | cons o rest ih =>
    obtain ⟨hscope, written, hchanges, hnames⟩ := ih (u.bindOutput frame head.id result st o)
    refine ⟨hscope, u.change frame head.id result st o :: written, ?_, ?_⟩
    · rw [List.foldl_cons, hchanges, bindOutput_eq, Array.toList_push, List.append_assoc]
      rfl
    · rw [List.map_cons, hnames]
      rfl

end Setup

/-! ### Steps -/

/-- An action step that was taken up in a state passed, and bound its outputs once, from a result. -/
structure PassedWith (frame : Nat) (head : StepHead) (result : Json) (st : State) (out : Record × State) : Prop where
  status : out.1.head.status = .passed
  error : out.1.head.error = none
  scope : out.2.scope = head.outputs.foldl (fun s o => s.bindInFrame frame o.2
    ⟨result.select? o.1.toList, ((s.binding? o.2).map (·.isSecret)).getD false⟩) st.scope
  changes : ∃ written : List VariableChange, out.2.changes.toList = st.changes.toList ++ written ∧
    written.map (fun c => (c.stepId, c.name)) = head.outputs.map fun o => (head.id, o.2)

/-- A step that was taken up in a state failed with an error, and bound nothing. -/
structure FailedWith (u : Setup) (e : StepError) (st : State) (out : Record × State) : Prop where
  status : out.1.head.status = .failed
  errorKind : out.1.head.errorKind = some e.kind
  error : out.1.head.error = some (u.redact st e.message)
  scope : out.2.scope = st.scope
  changes : out.2.changes = st.changes

theorem conclude_passed {u : Setup} {frame : Nat} {head : StepHead} {r : Record} {result : Json} {st now : State}
    (unmarked : r.head.error = none) (scope : now.scope = st.scope) (changes : now.changes = st.changes) :
    PassedWith frame head result st (reported (u.conclude frame head r (.ok result) now)) where
  status := rfl
  error := unmarked
  scope := scope ▸ (u.bindOutputs_once frame head result now).1
  changes := changes ▸ (u.bindOutputs_once frame head result now).2

theorem conclude_failed {u : Setup} {frame : Nat} {head : StepHead} {r : Record} {e : StepError} {st now : State}
    (scope : now.scope = st.scope) (changes : now.changes = st.changes) :
    FailedWith u e st (reported (u.conclude frame head r (.error e) now)) where
  status := rfl
  errorKind := rfl
  error := by
    rw [Setup.redact, ← scope]
    rfl
  scope := scope
  changes := changes

theorem conclude_attempts {u : Setup} {frame : Nat} {head : StepHead} {r : Record} {result : Except StepError Json}
    {st : State} : (reported (u.conclude frame head r result st)).1.head.attempts = r.head.attempts := by
  cases result <;> rfl

/-- An action step that begins, and is no call, hands over one action, the same each time, until an answer is a success
in time or the attempts of its policy are made: at least one, and never more than a hundred. It passes just if a success
was reached, and then binds its outputs once, from that result; else it fails with the error of the last answer. -/
theorem attempts_end_at_success (u : Setup) (callee : Option Body) (frame : Nat) {head : StepHead} {spec : ActionSpec}
    {st : State} (begins : gate head st = .begin) (isAction : spec.actionType ≠ callActionType) :
    let limit := (head.timeoutMs.or u.settings.actionTimeoutMs).filter (0 < ·)
    let most := min ((head.retry.map (·.count.toNat)).getD 0 + 1) 100
    let a := resolved st head spec
    let out := u.runStep callee frame ⟨head, .action spec⟩ st
    ∃ last < most, most ≤ 100 ∧ out.2.calls = st.calls ++ Array.replicate (last + 1) a ∧
      out.1.head.attempts.toNat = last + 1 ∧ (∀ i < last, ∀ value, ¬(u.answer a st i).Succeeds limit value) ∧
      (out.1.head.status = .passed ↔ ∃ i ≤ last, ∃ value, (u.answer a st i).Succeeds limit value) ∧
      ((∃ value, (u.answer a st last).Succeeds limit value ∧ PassedWith frame head value st out) ∨
        (last + 1 = most ∧ ∃ e, (u.answer a st last).Fails limit e ∧ FailedWith u e st out)) := by
  intro limit most a out
  let now := u.inside ⟨head, .action spec⟩ st
  let r := u.supplied head spec (u.begin ⟨head, .action spec⟩) now
  have hlimit : u.settings.timeLimit head.timeoutMs = limit := u.settings.timeLimit_eq head.timeoutMs
  have hmost : head.attempts = most := head.attempts_eq
  obtain ⟨hone, hhundred⟩ := attempts_bounds head
  rw [maxAttempts] at hhundred
  obtain ⟨last, commands, hlast, hearlier, hends, htried⟩ := tryAction_ends u limit a (head.attempts - 1) 0 now
  -- The step concludes with the last answer, so what it comes to is decided by that answer alone.
  have hout : out = reported (u.conclude frame head (recordAttempts r (last + 1)) (judge limit (u.answer a st last))
      (now.handed a (last + 1) commands)) := by
    rw [Nat.zero_add] at htried
    have hperform : u.perform frame head a r now = u.conclude frame head (recordAttempts r (last + 1))
        (judge limit (u.answer a st last)) (now.handed a (last + 1) commands) := by
      rw [perform, hlimit, htried]
      rfl
    rw [← hperform]
    change u.runStep callee frame ⟨head, .action spec⟩ st = _
    rw [runStep_of_begin begins, begun, runKind, act_of_action isAction]
    rfl
  have hcalls : out.2.calls = st.calls ++ Array.replicate (last + 1) a := by
    rw [hout]
    exact conclude_calls ..
  have hattempts : out.1.head.attempts.toNat = last + 1 := by
    have hword : last + 1 < UInt32.size := by
      rw [UInt32.size]
      omega
    rw [hout, conclude_attempts]
    exact UInt32.toNat_ofNat_of_lt' hword
  have hnone : ∀ i < last, ∀ value, ¬(u.answer a st i).Succeeds limit value := by
    intro i hi value
    obtain ⟨e, hfails⟩ := hearlier i hi
    exact hfails.not_succeeds
  refine ⟨last, by omega, by omega, hcalls, hattempts, hnone, ?_⟩
  rcases Outcome.judge_cases limit (u.answer a st last) with ⟨value, hsucceeds, hjudged⟩ | ⟨e, hfails, hjudged⟩
  · have hpassed : PassedWith frame head value st out := by
      rw [hout, hjudged]
      exact conclude_passed rfl rfl rfl
    exact ⟨iff_of_true hpassed.status ⟨last, Nat.le_refl last, value, hsucceeds⟩, Or.inl ⟨value, hsucceeds, hpassed⟩⟩
  · have hfailed : FailedWith u e st out := by
      rw [hout, hjudged]
      exact conclude_failed rfl rfl
    have hno : ¬∃ i ≤ last, ∃ value, (u.answer a st i).Succeeds limit value := by
      rintro ⟨i, hi, value, hsucceeds⟩
      rcases Nat.lt_or_eq_of_le hi with hlt | rfl
      · exact hnone i hlt value hsucceeds
      · exact hfails.not_succeeds hsucceeds
    have hlastOne : last = head.attempts - 1 := by
      rcases hends with ⟨value, hsucceeds⟩ | hlastOne
      · exact absurd hsucceeds hfails.not_succeeds
      · exact hlastOne
    refine ⟨iff_of_false (fun hstatus => ?_) hno, Or.inr ⟨by omega, e, hfails, hfailed⟩⟩
    cases hfailed.status.symm.trans hstatus

/-- The first answer comes too late and the second is an error: the third one counts, and its result is bound. -/
theorem late_and_refused_attempts :
    let u : Setup := { executor := fun earlier _ => match earlier.size with
      | 0 => { result := .ok .null, elapsedMs := 20 }
      | 1 => { result := .error "busy" }
      | _ => { result := .ok (.obj [("pin", .str "7")]), elapsedMs := 10 } }
    let head : StepHead :=
      { id := "ask", outputs := [("pin", "code")], timeoutMs := some 10, retry := some ⟨4294967295, 0⟩ }
    let spec : ActionSpec := ⟨"ask", []⟩
    let st : State := { scope := .empty }
    let out := u.runStep none 0 ⟨head, .action spec⟩ st
    gate head st = .begin ∧ spec.actionType ≠ callActionType ∧ out.2.calls.size = 3 ∧
      out.1.head.attempts.toNat = 3 ∧ out.1.head.status = .passed ∧ out.2.scope.get? "code" = some (.str "7") := by
  intro u head spec st out
  let a := resolved st head spec
  have begins : gate head st = .begin := rfl
  have isAction : spec.actionType ≠ callActionType := by decide
  obtain ⟨last, hmost, -, calls, attempts, earlier, -, outcome⟩ := attempts_end_at_success u none 0 begins isAction
  have first : (u.answer a st 0).Fails (some 10) (.timeout 10) := .late rfl (by decide)
  have second : (u.answer a st 1).Fails (some 10) (.action "busy") := .refused (by rintro ms ⟨⟩; decide) rfl
  have third : (u.answer a st 2).Succeeds (some 10) (.obj [("pin", .str "7")]) := ⟨rfl, by rintro ms ⟨⟩; decide⟩
  have hle : last ≤ 2 := Nat.not_lt.mp fun hlt => earlier 2 hlt _ third
  rcases outcome with ⟨value, hsucceeds, hpassed⟩ | ⟨hlast, -⟩
  · have hlast : last = 2 := by
      match last, hle with
      | 0, _ => exact absurd hsucceeds first.not_succeeds
      | 1, _ => exact absurd hsucceeds second.not_succeeds
      | 2, _ => rfl
    subst hlast
    obtain rfl : Json.obj [("pin", .str "7")] = value := Except.ok.inj (third.1.symm.trans hsucceeds.1)
    refine ⟨begins, isAction, by rw [calls]; rfl, attempts, hpassed.status, ?_⟩
    rw [hpassed.scope]
    rfl
  · have hhundred : last + 1 = 100 := hlast
    omega

end StepTree
