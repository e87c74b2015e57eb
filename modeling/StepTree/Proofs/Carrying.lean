import StepTree.Proofs.Accounting
import StepTree.Proofs.Effects
import StepTree.Proofs.Seeding

/-! # What a `whilst` loop carries

Between the rounds of a `whilst` loop the bindings of an iteration are moved from its frame to that of the loop. So a
name stands for what the last iteration that bound it left in its frame, however that iteration ended, and for what it
stood for before the loop if there was none. The index and the place of an iteration are not moved. -/

namespace StepTree

open Setup

/-! ### Entries -/

namespace Ordered
variable {α : Type}

theorem get?_filter (p : String → Bool) (name : String) (entries : List (String × α)) :
    get? name (entries.filter fun e => p e.1) = if p name then get? name entries else none := by
  induction entries with
  | nil => split <;> rfl
  | cons e rest ih =>
    obtain ⟨n, v⟩ := e
    rw [List.filter_cons]
    by_cases hn : n = name
    · subst hn
      cases hp : p n
      · simpa [hp] using ih
      · simp [get?]
    · rw [get?, if_neg hn]
      split
      · rw [get?, if_neg hn, ih]
      · exact ih

end Ordered

/-! ### The frame of an iteration -/

theorem Frame.names_bound (f : Frame) : f.bound.map (·.1) = f.map (·.1) := by
  rw [bound, List.map_map]
  rfl

theorem nodup_runWithin {u : Setup} {depth : Nat} {steps : List Step} {st : State}
    (h : (st.scope.innermost.map (·.1)).Nodup) :
    ((u.runWithin depth steps st).2.scope.innermost.map (·.1)).Nodup := by
  have heffect := (u.run_effect depth).2 steps false st
  rw [runWithin_eq, ← Frame.names_bound, heffect.bound]
  rw [← Frame.names_bound] at h
  exact Ordered.nodup_names_extend h _

namespace Repetition
variable {l : Repetition} {u : Setup} {m : Moment} {depth index : Nat} {steps : List Step} {st : State}

/-- The state in which a loop that begins in `st` comes to its round at an index, if no round before ends it. -/
def arrival (l : Repetition) (u : Setup) (st : State) : Nat → State
  | 0 => { st with scope := st.scope.push }
  | k + 1 => (l.round u k (l.opened k (l.arrival u st k).checkpoint)).2

/-- The state in which the condition is looked at before the round at an index. -/
def look (l : Repetition) (u : Setup) (st : State) (k : Nat) : State := (l.arrival u st k).checkpoint

/-- The frame in which the iteration at an index leaves its bindings. -/
def bound (l : Repetition) (u : Setup) (st : State) (k : Nat) : Frame :=
  (l.iteration u k (l.opened k (l.look u st k))).2.scope.innermost

/-- The binding that the most recent of the first iterations left that bound the name. -/
def carried? (l : Repetition) (u : Setup) (st : State) (k : Nat) (name : String) : Option Binding :=
  (List.range k).reverse.findSome? fun j => Ordered.get? name (l.bound u st j)

/-- A name that an iteration can bind for the loop. -/
def Carries (l : Repetition) (name : String) : Prop := name ≠ l.config.indexVar ∧ name ≠ placeName

instance (l : Repetition) (name : String) : Decidable (l.Carries name) := inferInstanceAs (Decidable (_ ∧ _))

theorem carried?_succ (l : Repetition) (u : Setup) (st : State) (k : Nat) (name : String) :
    l.carried? u st (k + 1) name = (Ordered.get? name (l.bound u st k)).or (l.carried? u st k name) := by
  unfold carried?
  rw [List.range_succ, List.reverse_append, List.reverse_singleton, List.singleton_append, List.findSome?_cons]
  cases Ordered.get? name (l.bound u st k) <;> rfl

theorem nodup_iteration (body : l.body = u.runWithin depth steps) (whilst : l.plan.isWhilst = true) (index : Nat)
    (st : State) : ((l.iteration u index (l.opened index st)).2.scope.innermost.map (·.1)).Nodup := by
  have hempty : (([] : Frame).map (·.1)).Nodup := List.nodup_nil
  have hopened : ((l.opened index st).scope.innermost.map (·.1)).Nodup := by
    unfold opened
    rw [whilst]
    exact Ordered.nodup_names_insert (Ordered.nodup_names_insert hempty _ _) _ _
  unfold iteration
  rcases l.iterate_cases u index (u.redactValue (l.opened index st) (l.plan.item index)) _ with
    ⟨-, h⟩ | ⟨e, -, h⟩ | ⟨-, h⟩ <;> rw [h]
  · exact hopened
  · exact hopened
  · rw [body]
    exact nodup_runWithin hopened

/-- What is carried is written into the frame of the loop, which is innermost again. -/
theorem carry_eq (bound : Frame) {s : Scope} (innermost : l.frame = s.currentFrame) :
    l.carry bound s =
      ⟨Ordered.extend s.innermost (bound.filter fun e => e.1 != l.config.indexVar && e.1 != placeName), s.outer⟩ := by
  unfold carry
  dsimp only
  generalize bound.filter (fun e => e.1 != l.config.indexVar && e.1 != placeName) = carried
  induction carried generalizing s with
  | nil => rfl
  | cons e rest ih =>
    rw [List.foldl_cons, innermost, Scope.bindInFrame_currentFrame, ← innermost]
    exact ih innermost

/-- The loop finds what an iteration bound in its frame, and what it found there before if the iteration did not. -/
theorem get?_carry (bound : Frame) {s : Scope} (innermost : l.frame = s.currentFrame)
    (nodup : (bound.map (·.1)).Nodup) (name : String) :
    Ordered.get? name (l.carry bound s).innermost =
      (if l.Carries name then Ordered.get? name bound else none).or (Ordered.get? name s.innermost) := by
  have hchosen := Ordered.get?_filter (fun n => n != l.config.indexVar && n != placeName) name bound
  have hcarries : (name != l.config.indexVar && name != placeName) = true ↔ l.Carries name := by
    rw [Carries, Bool.and_eq_true, bne_iff_ne, bne_iff_ne]
  rw [carry_eq bound innermost, Ordered.get?_extend_of_nodup (nodup.sublist (List.filter_sublist.map _)), hchosen,
    if_congr hcarries rfl rfl]

/-- What holds of the scope when a loop that began in `st` comes to its round at an index. -/
structure Holds (l : Repetition) (u : Setup) (st : State) (index : Nat) (now : State) : Prop where
  outer : now.scope.outer = st.scope.stack
  carried : ∀ name, l.Carries name → Ordered.get? name now.scope.innermost = l.carried? u st index name
  own : ∀ name, ¬l.Carries name → Ordered.get? name now.scope.innermost = none

theorem Holds.checkpoint {now : State} (h : l.Holds u st index now) : l.Holds u st index now.checkpoint := by
  obtain ⟨outer, carried, own⟩ := h
  constructor <;> rw [State.checkpoint_scope] <;> assumption

theorem holds_arrival (body : l.body = u.runWithin depth steps) (whilst : l.plan.isWhilst = true)
    (frame : l.frame = st.scope.push.currentFrame) (k : Nat) : l.Holds u st k (l.arrival u st k) := by
  have hkept : ∀ st, Kept st (l.body st).2 := body ▸ u.runWithin_kept depth steps
  induction k with
  | zero => exact ⟨rfl, fun _ _ => rfl, fun _ _ => rfl⟩
  | succ k ih =>
    -- The round takes the frame of its iteration off and writes it, name by name, into that of the loop.
    have hlook : l.Holds u st k (l.look u st k) := ih.checkpoint
    have hframe : l.frame = (l.look u st k).scope.currentFrame :=
      frame.trans (Scope.currentFrame_of_outer hlook.outer.symm)
    have hnodup : ((l.bound u st k).map (·.1)).Nodup := nodup_iteration body whilst k (l.look u st k)
    have hscope : (l.arrival u st (k + 1)).scope = l.carry (l.bound u st k) (l.look u st k).scope := by
      have hpop := Scope.pop?_of_outer (iteration_outer (u := u) hkept k (l.look u st k))
      change (l.closed (l.iteration u k (l.opened k (l.look u st k))).2).scope = _
      rw [closed, hpop, whilst]
      rfl
    refine ⟨?_, fun name hname => ?_, fun name hname => ?_⟩
    · rw [hscope, carry_outer hframe, hlook.outer]
    · rw [hscope, get?_carry _ hframe hnodup, if_pos hname, hlook.carried name hname, carried?_succ]
    · rw [hscope, get?_carry _ hframe hnodup, if_neg hname, hlook.own name hname]
      rfl

/-- A name is looked up in the frame of the loop, and outside the loop if it is not there. -/
theorem Holds.binding? {now : State} (h : l.Holds u st index now) (name : String) :
    now.scope.binding? name =
      if l.Carries name then (l.carried? u st index name).or (st.scope.binding? name) else st.scope.binding? name := by
  have hlookup : now.scope.binding? name = (Ordered.get? name now.scope.innermost).or (st.scope.binding? name) := by
    unfold Scope.binding?
    rw [Scope.stack, h.outer, List.findSome?_cons]
    cases Ordered.get? name now.scope.innermost <;> rfl
  rw [hlookup]
  split
  · next hname => rw [h.carried name hname]
  · next hname => rw [h.own name hname, Option.none_or]

/-! ### Rounds -/

/-- A run of the loop comes to its round at an index: it is within the limit, and no round before it ends the loop. -/
inductive Comes (l : Repetition) (u : Setup) (st : State) : Nat → Prop
  | first : Comes l u st 0
  | again {k : Nat} (comes : Comes l u st k) (within : k < l.limit.toNat) (goes : l.stop? k (l.look u st k) = none)
    (goesOn : l.stopAfter? (l.round u k (l.opened k (l.look u st k))).1
      (l.round u k (l.opened k (l.look u st k))).2 = none) : Comes l u st (k + 1)

theorem Comes.reaches (h : l.Comes u st index) (loop : Reaches u m (.loop depth steps l st)) :
    Reaches u m (.round depth steps l (l.limit.toNat - index) index (l.arrival u st index)) := by
  induction h with
  | first => exact loop.tail .rounds
  | @again k _ within goes goesOn ih =>
    have hleft : l.limit.toNat - k = l.limit.toNat - (k + 1) + 1 := by omega
    rw [hleft] at ih
    exact ih.tail (.again goes goesOn)

/-- The record is of the first `n` rounds, each of which the loop came to and ran. -/
structure Follows (l : Repetition) (u : Setup) (st : State) (record : LoopRecord) (n : Nat) : Prop where
  iterations : record.iterations = (List.range n).map fun k => (l.round u k (l.opened k (l.look u st k))).1
  went : ∀ k < n, l.Comes u st k ∧ l.stop? k (l.look u st k) = none

theorem Follows.round {record : LoopRecord} (h : l.Follows u st record index) (comes : l.Comes u st index)
    (goes : l.stop? index (l.look u st index) = none) :
    l.Follows u st (record.add (l.round u index (l.opened index (l.look u st index))).1) (index + 1) where
  iterations := by
    rw [List.range_succ, List.map_append, ← h.iterations]
    rfl
  went := by
    intro k hk
    rcases Nat.lt_or_eq_of_le (Nat.le_of_lt_succ hk) with hlt | rfl
    · exact h.went k hlt
    · exact ⟨comes, goes⟩

theorem holds_of_stops {c : String} (plan : l.plan = .whilst c)
    (h : l.Stops index st (.exit .conditionFalse)) : st.holds c = .ok false := by
  cases h with
  | conditionFalse plan' unmet =>
    rw [plan] at plan'
    cases plan'
    exact unmet

theorem stopAfter?_ne_conditionFalse {i : Iteration} : l.stopAfter? i st ≠ some (.exit .conditionFalse) := by
  unfold stopAfter?
  split
  · nofun
  · split <;> nofun

theorem rounds_follow (left index : Nat) (within : index + left = l.limit.toNat) (comes : l.Comes u st index)
    {record : LoopRecord} (h : l.Follows u st record index) :
    let out := l.rounds u left index record (l.arrival u st index)
    ∃ n, l.Follows u st out.1 n ∧ (out.2.1 = .exit .conditionFalse →
      l.Comes u st n ∧ l.Stops n (l.look u st n) (.exit .conditionFalse)) := by
  induction left generalizing index record with
  | zero =>
    rw [rounds_zero]
    refine ⟨index, h, fun hstop => ⟨comes, ?_⟩⟩
    cases hb : l.stopBefore? index (l.arrival u st index).checkpoint with
    | none =>
      rw [hb] at hstop
      cases hstop
    | some stop =>
      rw [hb] at hstop
      obtain rfl : stop = .exit .conditionFalse := hstop
      exact stops_of_stopBefore? hb
  | succ left ih =>
    rw [rounds_succ]
    split
    · next stop hstop =>
      refine ⟨index, h, fun hfalse => ⟨comes, ?_⟩⟩
      obtain rfl : stop = .exit .conditionFalse := hfalse
      exact stops_of_stop? hstop
    · next goes =>
      have hround := h.round comes goes
      dsimp only
      split
      · next stop hstop =>
        refine ⟨index + 1, hround, fun hfalse => ?_⟩
        obtain rfl : stop = .exit .conditionFalse := hfalse
        exact absurd hstop stopAfter?_ne_conditionFalse
      · next goesOn => exact ih (index + 1) (by omega) (.again comes (by omega) goes goesOn) hround

theorem holds_of_goes {c : String} (plan : l.plan = .whilst c) (goes : l.stop? index st = none) :
    st.holds c = .ok true := by
  have hbefore := (Option.or_eq_none_iff.mp goes).1
  rw [stopBefore?, goes_of_stop? goes, plan] at hbefore
  cases hc : st.holds c with
  | error e => simp [hc] at hbefore
  | ok b =>
    cases b with
    | true => rfl
    | false => simp [hc] at hbefore

end Repetition

/-- Before every round of a `whilst` loop, a name other than those of the index and the place of an iteration stands for
what the most recent iteration that bound it left in its frame, also if that is undefined or secret, and also if the
iteration failed or was passed over after it was opened; a name that no iteration bound, and these two, stand for what
they did before the loop. That is where the condition is looked at: it was true there before each recorded iteration,
and false where it ended the loop. After the loop the scope is what it was before. -/
theorem whilst_loop_carries_bindings (u : Setup) (depth frame : Nat) {head : StepHead} {config : LoopConfig}
    {steps : List Step} {st : State} {condition : String} (begins : gate head st = .begin) (some_step : steps ≠ [])
    (planned : config.plan st.scope.lookup = .ok (.whilst condition)) :
    let m : Moment := .step depth frame ⟨head, .loop config steps⟩ st
    let out := u.runStep (u.bodyWithin depth) frame ⟨head, .loop config steps⟩ st
    let l := u.repetition depth head config steps (.whilst condition) st
    let first := u.inside ⟨head, .loop config steps⟩ st
    (∀ k name, (l.look u first k).scope.binding? name =
      if l.Carries name then (l.carried? u first k name).or (st.scope.binding? name) else st.scope.binding? name) ∧
    (∀ k, l.Comes u first k →
      Reaches u m (.round depth steps l (l.limit.toNat - k) k (l.arrival u first k))) ∧
    out.2.scope = st.scope ∧
    ∃ record n, out.1.loop = some record ∧
      record.iterations = ((List.range n).map fun k => (l.round u k (l.opened k (l.look u first k))).1) ∧
      (∀ k < n, l.Comes u first k ∧ (l.look u first k).holds condition = .ok true) ∧
      (record.summary.exitReason = .conditionFalse →
        l.Comes u first n ∧ (l.look u first n).holds condition = .ok false) := by
  intro m out l first
  have body : l.body = u.runWithin depth steps := u.repetition_body ..
  have hframe : l.frame = first.scope.push.currentFrame := rfl
  have hkept : ∀ st, Kept st (l.body st).2 := body ▸ u.runWithin_kept depth steps
  have hloop : Reaches u m (.loop depth steps l first) := .tail .refl (.loop begins some_step planned)
  have hout : out = reported (l.run u (u.begin ⟨head, .loop config steps⟩) first) :=
    runStep_of_plan begins some_step planned
  rw [Repetition.run_eq] at hout
  obtain ⟨n, hfollows, hfalse⟩ : ∃ n, l.Follows u first (l.turns u first).1 n ∧
      ((l.turns u first).2.1 = .exit .conditionFalse →
        l.Comes u first n ∧ l.Stops n (l.look u first n) (.exit .conditionFalse)) :=
    Repetition.rounds_follow l.limit.toNat 0 (Nat.zero_add _) .first ⟨rfl, fun k hk => absurd hk (Nat.not_lt_zero k)⟩
  have hscope : (l.left (l.turns u first)).scope = first.scope :=
    Repetition.left_scope (Repetition.turns_kept hkept hframe)
  generalize l.turns u first = turns at hout hfollows hfalse hscope
  refine ⟨fun k name => ?_, fun k hk => hk.reaches hloop, ?_, turns.1.ended turns.2.1.reason, n, ?_,
    hfollows.iterations, fun k hk => ?_, fun hreason => ?_⟩
  · exact (Repetition.holds_arrival body rfl hframe k).checkpoint.binding? name
  · rw [hout]
    exact hscope
  · rw [hout]
    exact Repetition.ended_loop ..
  · obtain ⟨hcomes, hgoes⟩ := hfollows.went k hk
    exact ⟨hcomes, Repetition.holds_of_goes rfl hgoes⟩
  · have hstop : turns.2.1 = .exit .conditionFalse := by
      cases hs : turns.2.1 with
      | exit reason =>
        rw [hs] at hreason
        exact congrArg Stop.exit hreason
      | failure e =>
        rw [hs] at hreason
        cases hreason
    obtain ⟨hcomes, hstops⟩ := hfalse hstop
    exact ⟨hcomes, Repetition.holds_of_stops rfl hstops⟩

/-- Each iteration binds a secret variable and fails. The condition finds what the last one bound, until that is too
large, and after the loop the variable is what it was. -/
theorem failed_iterations_carry_bindings :
    let u : Setup := { executor := fun earlier a =>
      { result := if a.stepId = "fail" then .error "no" else .ok (.ofNat earlier.size) } }
    let steps : List Step := [⟨{ id := "bump", outputs := [("", "n")] }, .action ⟨"ask", []⟩⟩,
      ⟨{ id := "fail" }, .action ⟨"ask", []⟩⟩]
    let config : LoopConfig := { loopType := .whilst, condition := some "n < 3" }
    let st : State := { scope := ⟨[("n", ⟨some (.ofNat 0), true⟩)], []⟩ }
    let l := u.repetition 8 { id := "loop" } config steps (.whilst "n < 3") st
    let first := u.inside ⟨{ id := "loop" }, .loop config steps⟩ st
    let shown (b : Option Binding) : Option (Option String × Bool) :=
      b.map fun b => (b.value.map Json.plainText, b.isSecret)
    gate { id := "loop" } st = .begin ∧ steps ≠ [] ∧ config.plan st.scope.lookup = .ok (.whilst "n < 3") ∧
      ((List.range 4).map fun k => shown ((l.look u first k).scope.binding? "n")) =
        [some (some "0", true), some (some "0", true), some (some "2", true), some (some "4", true)] ∧
      (u.runStep (u.bodyWithin 8) 0 ⟨{ id := "loop" }, .loop config steps⟩ st).2.scope = st.scope ∧
      ∃ record, (u.runStep (u.bodyWithin 8) 0 ⟨{ id := "loop" }, .loop config steps⟩ st).1.loop = some record ∧
        record.iterations.map (·.head.status) = [.failed, .failed, .failed] ∧
        record.summary.exitReason = .conditionFalse := by
  intro u steps config st l first shown
  have begins : gate { id := "loop" } st = .begin := rfl
  have some_step : steps ≠ [] := List.cons_ne_nil _ _
  have planned : config.plan st.scope.lookup = .ok (.whilst "n < 3") := rfl
  obtain ⟨bindings, -, scope, record, n, isLoop, -⟩ := whilst_loop_carries_bindings u 8 0 begins some_step planned
  have carries : l.Carries "n" := by decide
  have ended : (u.runStep (u.bodyWithin 8) 0 ⟨{ id := "loop" }, .loop config steps⟩ st).1.loop.map
      (fun record => (record.iterations.map (·.head.status), record.summary.exitReason)) =
        some ([.failed, .failed, .failed], .conditionFalse) := by decide +kernel
  rw [isLoop] at ended
  obtain ⟨statuses, reason⟩ := Prod.mk.inj (Option.some.inj ended)
  refine ⟨begins, some_step, planned, ?_, scope, record, isLoop, statuses, reason⟩
  have hcarried : ((List.range 4).map fun k => shown ((l.look u first k).scope.binding? "n")) =
      (List.range 4).map fun k => shown ((l.carried? u first k "n").or (st.scope.binding? "n")) :=
    List.map_congr_left fun k _ => congrArg shown ((bindings k "n").trans (if_pos carries))
  rw [hcarried]
  decide +kernel

end StepTree
