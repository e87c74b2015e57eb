import StepTree.Proofs.Capture

/-! # Secrets that a call returns

What the root frame of a called workflow holds at the end comes back to the caller as plain values: the marks of secrecy
stay behind with the scope of the callee. The caller masks what it records of the result with its own secrets alone, so
a secret of the callee is recorded as it is, unless a secret of the caller occurs in it. -/

namespace StepTree

open Setup

/-! ### The values of a frame -/

namespace Json
variable {α : Type} {key : String} {value : α} {entries : List (String × α)} {e : String × α}

theorem mem_insertEntry_self (key : String) (value : α) (entries : List (String × α)) :
    (key, value) ∈ insertEntry key value entries := by
  induction entries with
  | nil => exact List.mem_singleton_self _
  | cons e rest ih =>
    rw [insertEntry]
    split
    · exact List.mem_cons_self
    · split
      · exact List.mem_cons_self
      · exact List.mem_cons_of_mem _ ih

theorem mem_insertEntry_of_ne (h : e ∈ entries) (ne : e.1 ≠ key) : e ∈ insertEntry key value entries := by
  induction entries with
  | nil => cases h
  | cons e' rest ih =>
    rw [insertEntry]
    split
    · exact List.mem_cons_of_mem _ h
    · split
      · next hkey =>
        rcases List.mem_cons.mp h with rfl | h
        · exact absurd hkey.symm ne
        · exact List.mem_cons_of_mem _ h
      · rcases List.mem_cons.mp h with rfl | h
        · exact List.mem_cons_self
        · exact List.mem_cons_of_mem _ (ih h)

/-- Where no name comes twice, none of the entries is lost when they are put in order. -/
theorem mem_sortEntries (nodup : (entries.map (·.1)).Nodup) (h : e ∈ entries) : e ∈ sortEntries entries := by
  have hkeep : ∀ sorted : List (String × α), e ∈ entries ∨ e ∈ sorted ∧ e.1 ∉ entries.map (·.1) →
      e ∈ entries.foldl (fun sorted e => insertEntry e.1 e.2 sorted) sorted := by
    clear h
    induction entries with
    | nil => exact fun sorted h => (h.resolve_left List.not_mem_nil).1
    | cons e' rest ih =>
      obtain ⟨hfresh, hrest⟩ := List.nodup_cons.mp nodup
      rintro sorted (h | ⟨h, hother⟩)
      · rcases List.mem_cons.mp h with rfl | h
        · exact ih hrest _ (Or.inr ⟨mem_insertEntry_self _ _ _, hfresh⟩)
        · exact ih hrest _ (Or.inl h)
      · rw [List.map_cons, List.mem_cons, not_or] at hother
        exact ih hrest _ (Or.inr ⟨mem_insertEntry_of_ne h hother.1, hother.2⟩)
  exact hkeep [] (Or.inl h)

end Json

namespace Frame
variable {f : Frame} {name text : String} {b : Binding}

/-- The text of a variable is among the strings of the values of its frame. -/
theorem mem_strings_values (nodup : (f.map (·.1)).Nodup) (bound : (name, b) ∈ f)
    (value : b.value = some (.str text)) : text ∈ (Json.obj f.values).strings := by
  have hdefined : (name, Json.str text) ∈ f.defined := List.mem_filterMap.mpr ⟨(name, b), bound, by simp [value]⟩
  have hsorted : (name, Json.str text) ∈ f.values :=
    Json.mem_sortEntries (nodup.sublist f.defined_names_sublist) hdefined
  rw [Json.strings, Json.entryStrings_eq]
  exact List.mem_flatMap.mpr ⟨_, hsorted, List.mem_singleton_self text⟩

end Frame

/-- No name comes twice in the root frame of a call when its steps have run. -/
theorem callee_names_nodup (u : Setup) (depth : Nat) (id : String) (w : Workflow) (a : Action) (st : State) :
    ((u.runWithin depth w.steps (calleeState id w a st)).2.scope.root.map (·.1)).Nodup := by
  have hkeeps : KeptByWrites (fun f => (f.map (·.1)).Nodup) fun _ => True :=
    fun f name value _ h => Ordered.nodup_names_insert h name _
  have hbegin : ((calleeState id w a st).scope.root.map (·.1)).Nodup := by
    rw [calleeState, calleeScope_eq]
    exact Frame.nodup_seeded _ _
  rw [runWithin_eq]
  exact (run_keeps_root hkeeps u depth).2 w.steps false _ (fun _ _ _ => trivial) hbegin

/-! ### The outputs of a call -/

section
variable {u : Setup} {frame : Nat} {stepId : String} {result : Json} {st : State} {o : String × String} {text : String}

theorem changes_subset_bindOutputs (outputs : List (String × String)) :
    st.changes.toList ⊆ (outputs.foldl (u.bindOutput frame stepId result) st).changes.toList := by
  refine List.foldlRecOn (motive := fun st' : State => st.changes.toList ⊆ st'.changes.toList) outputs _
    (List.Subset.refl _) fun st' h o _ => List.Subset.trans h ?_
  rw [bindOutput_eq, Array.toList_push]
  exact List.subset_append_left _ _

/-- The write of each output is recorded. -/
theorem change_mem_bindOutputs {head : StepHead} {before after : List (String × String)}
    (outputs : head.outputs = before ++ o :: after) :
    u.change frame head.id result (before.foldl (u.bindOutput frame head.id result) st) o ∈
      (u.bindOutputs frame head result st).changes.toList := by
  rw [bindOutputs, outputs, List.foldl_append, List.foldl_cons]
  refine changes_subset_bindOutputs after ?_
  rw [bindOutput_eq, Array.toList_push]
  exact List.mem_append_right _ (List.mem_singleton_self _)

theorem overlooks_of_change (apart : Redaction.Apart u.settings.redactionMarker text)
    (discloses : (u.change frame stepId result st o).Discloses text) :
    (written frame result st o).scope.Overlooks text :=
  fun _ isSecret inside => (change_conceals u frame stepId result st o).not_discloses isSecret apart inside discloses

theorem change_discloses_new (selected : result.select? o.1.toList = some (.str text))
    (overlooks : (written frame result st o).scope.Overlooks text) :
    (u.change frame stepId result st o).Discloses text := by
  have hkept : u.redactValue (written frame result st o) (.str text) = .str text := by
    rw [redactValue, Scope.redactValue, Json.redact, Redaction.hide_of_not_infix overlooks]
  refine ⟨.str text, Or.inr ?_, text, List.mem_singleton_self text, List.infix_refl _⟩
  rw [change_newValue selected, hkept]

end

/-- A call that passed shows the text of a secret of its callee, and so does a write that one of its outputs makes, only
where no secret of the caller occurs in that text; a secret that is a string is then indeed shown by the call, and by
the write of the output that selects it. -/
theorem returned_secrets_disclose {u : Setup} {steps : List Step} {st now : State} {depth frame : Nat}
    {head : StepHead} {spec : ActionSpec}
    (reaches : Reaches u (.first u steps st) (.step depth frame ⟨head, .action spec⟩ now))
    (isCall : spec.actionType = callActionType)
    (passed : (u.runStep (u.bodyWithin depth) frame ⟨head, .action spec⟩ now).1.head.status = .passed) :
    let out := u.runStep (u.bodyWithin depth) frame ⟨head, .action spec⟩ now
    let a := resolved now head spec
    let began := u.inside ⟨head, .action spec⟩ now
    ∃ d id w, depth = d + 1 ∧ u.callee true now a = .ok (id, w) ∧
      let callee := u.runWithin d w.steps (calleeState id w a began)
      let result := Json.obj callee.2.scope.root.values
      out.1.children = callee.1 ∧
      ∀ name b text, (name, b) ∈ callee.2.scope.root → b.secretText? = some text →
        Redaction.Apart u.settings.redactionMarker text →
          (out.1.Discloses text → now.scope.Overlooks text) ∧
          (b.value = some (.str text) → now.scope.Overlooks text → out.1.Discloses text) ∧
          ∀ before o after, head.outputs = before ++ o :: after →
            let earlier := before.foldl (u.bindOutput frame head.id result) (returned began callee.2)
            let c := u.change frame head.id result earlier o
            let later := u.bindOutput frame head.id result earlier o
            c ∈ out.2.changes.toList ∧ (c.Discloses text → later.scope.Overlooks text) ∧
              (result.select? o.1.toList = some (.str text) → later.scope.Overlooks text → c.Discloses text) := by
  obtain rfl : frame = now.scope.currentFrame := reaches.framed
  generalize hout : u.runStep (u.bodyWithin depth) now.scope.currentFrame ⟨head, .action spec⟩ now = out at passed ⊢
  rcases action_cases hout with ⟨failed, -⟩ | ⟨isAction, -⟩ | ⟨-, d, id, w, rfl, enters, ran⟩
  · exact absurd passed failed
  · exact absurd isCall isAction
  · have hnodup := callee_names_nodup u d id w (resolved now head spec) (u.inside ⟨head, .action spec⟩ now)
    dsimp only at ran ⊢
    refine ⟨d, id, w, rfl, enters, ?_⟩
    generalize u.runWithin d w.steps _ = callee at ran hnodup ⊢
    have captures : out.1.head.capturedOutputs = u.captured now (.obj callee.2.scope.root.values) := by
      rw [ran]
      rfl
    have changes : out.2.changes = (u.bindOutputs now.scope.currentFrame head (.obj callee.2.scope.root.values)
        (returned (u.inside ⟨head, .action spec⟩ now) callee.2)).changes := by
      rw [ran]
      rfl
    refine ⟨by rw [ran]; rfl, fun name b text bound isSecret apart => ⟨overlooks_of_discloses captures apart, ?_, ?_⟩⟩
    · intro value overlooks
      exact discloses_of_mem captures (Frame.mem_strings_values hnodup bound value) overlooks
    · intro before o after outputs
      rw [changes]
      exact ⟨change_mem_bindOutputs outputs, overlooks_of_change apart, change_discloses_new⟩

/-- The secret of the callee has that of the caller in it, with which it is masked. -/
theorem returned_secret_stays_hidden :
    let vault : Workflow := { inputs := [("pin", { default := some (.str "open sesame"), isSecret := true })] }
    let u : Setup := { executor := fun _ _ => { result := .ok .null }, library := [("vault", vault)] }
    let s : Step := ⟨{ id := "ask", outputs := [("pin", "answer")] },
      .action ⟨"workflow", [("workflowId", .str "vault")]⟩⟩
    let st : State := { scope := ⟨[("token", ⟨some (.str "sesame"), true⟩)], []⟩ }
    let out := u.runStep (u.bodyWithin 8) 0 s st
    Reaches u (.first u [s] st) (.step 8 0 s st) ∧ out.1.head.status = .passed ∧
      ("pin", ⟨some (.str "open sesame"), true⟩) ∈ (calleeScope vault ["sesame"] []).root ∧
      ¬out.1.Discloses "open sesame" := by
  intro vault u s st out
  have hstep : Reaches u (.first u [s] st) (.step 8 0 s st) := .tail .refl (.take rfl)
  have hapart : Redaction.Apart Redaction.defaultMarker "open sesame" :=
    ⟨by decide, by simp [Redaction.defaultMarker]⟩
  have hpin : ("pin", ⟨some (.str "open sesame"), true⟩) ∈ (calleeScope vault ["sesame"] []).root :=
    List.mem_singleton_self _
  obtain ⟨d, id, w, hd, enters, -, h⟩ := returned_secrets_disclose hstep rfl rfl
  cases hd
  cases enters
  refine ⟨hstep, rfl, hpin, fun discloses => ?_⟩
  have overlooks := (h "pin" _ "open sesame" hpin rfl hapart).1 discloses
  exact overlooks "sesame" (by decide +kernel) (by decide)

/-- A caller without secrets calls a workflow with a secret default: the call and the write of its output show it. -/
theorem returned_secret_is_disclosed :
    let vault : Workflow := { inputs := [("pin", { default := some (.str "sesame"), isSecret := true })] }
    let u : Setup := { executor := fun _ _ => { result := .ok .null }, library := [("vault", vault)] }
    let s : Step := ⟨{ id := "ask", outputs := [("pin", "answer")] },
      .action ⟨"workflow", [("workflowId", .str "vault")]⟩⟩
    let out := u.runStep (u.bodyWithin 8) 0 s { scope := .empty }
    out.1.head.status = .passed ∧ (calleeScope vault [] []).secrets = ["sesame"] ∧
      Redaction.Apart Redaction.defaultMarker "sesame" ∧ out.1.Discloses "sesame" ∧
      ∃ c ∈ out.2.changes.toList, c.Discloses "sesame" := by
  refine ⟨rfl, by decide +kernel, ⟨by decide, by simp [Redaction.defaultMarker]⟩, ?_, ?_⟩
  · exact ⟨_, List.mem_singleton_self _, "sesame", List.mem_singleton_self _, List.infix_refl _⟩
  · exact ⟨_, List.mem_singleton_self _, _, Or.inr rfl, "sesame", List.mem_singleton_self _, List.infix_refl _⟩

end StepTree
