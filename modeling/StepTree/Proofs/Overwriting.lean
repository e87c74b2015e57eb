import StepTree.Proofs.Concealment

/-! # Writes to secret names

A name that is bound secret stays secret when an output is bound to it, and its new text is hidden. The record of the
write is made in the scope that the write leads to. There the old text is secret only if another binding still has it:
the one that the write puts out of sight, if it is in an outer frame. When the write replaces the secret in its own
frame, the old text is recorded as it is. -/

namespace StepTree

open Setup

/-! ### Bindings -/

namespace Scope
variable {s : Scope} {name text : String} {b : Binding}

theorem mem_secrets_of_frame {f : Frame} (frame : f ∈ s.stack) (bound : Ordered.get? name f = some b)
    (isSecret : b.isSecret = true) (value : b.value = some (.str text)) (ne_empty : text ≠ "") : text ∈ s.secrets := by
  refine mem_secrets.mpr ⟨f, frame, (name, b), Ordered.mem_of_get? bound, ?_⟩
  rw [Binding.secretText?_eq_some, value]
  exact ⟨isSecret, rfl, ne_empty⟩

theorem mem_secrets_bind (s : Scope) (name : String) (ne_empty : text ≠ "") :
    text ∈ (s.bind name ⟨some (.str text), true⟩).secrets :=
  mem_secrets_of_frame List.mem_cons_self (Ordered.get?_insert_self name _ s.innermost) rfl rfl ne_empty

/-- A secret in an outer frame stays one when its name is bound in the innermost frame. -/
theorem mem_secrets_bind_of_outer (bound : s.binding? name = some b) (outer : Ordered.get? name s.innermost = none)
    (isSecret : b.isSecret = true) (value : b.value = some (.str text)) (ne_empty : text ≠ "") (written : Binding) :
    text ∈ (s.bind name written).secrets := by
  rw [binding?, stack, List.findSome?_cons, outer] at bound
  obtain ⟨f, hf, hget⟩ := List.exists_of_findSome?_eq_some bound
  exact mem_secrets_of_frame (List.mem_cons_of_mem _ hf) hget isSecret value ne_empty

theorem redactValue_of_mem (h : text ∈ s.secrets) (marker : String) :
    s.redactValue marker (.str text) = .str marker := by
  rw [redactValue, Json.redact, Redaction.hide_of_mem h (ne_empty_of_mem_secrets h)]

end Scope

/-! ### Writes -/

section
variable {u : Setup} {m : Moment} {now : State} {frame : Nat} {head : StepHead} {result : Json}
  {outputs : List (String × String)}

/-- The outputs of a step go into the frame that is innermost when it ends. -/
theorem Concludes.framed (h : Concludes u m frame head result now) (first : m.Framed) :
    frame = now.scope.currentFrame := by
  cases h with
  | @action _ _ _ spec st attempts _ _ reaches _ _ answered =>
    obtain ⟨n, commands, -, -, -, hhanded⟩ := tryAction_spec u (u.settings.timeLimit head.timeoutMs)
      (resolved st head spec) (head.attempts - 1) 0 (u.inside ⟨head, .action spec⟩ st)
    rw [answered] at hhanded
    rw [show now = _ from hhanded]
    exact reaches.invariant (fun _ _ => Leads.framed) first
  | call reaches => exact reaches.invariant (fun _ _ => Leads.framed) first

theorem Binds.framed (h : Binds u m frame head result outputs now) (first : m.Framed) :
    frame = now.scope.currentFrame := by
  induction h with
  | first concludes => exact concludes.framed first
  | next _ ih =>
    rw [bindOutput_scope, ih, Scope.bindInFrame_currentFrame]
    rfl

/-- A secret name stays secret in the frame that is innermost. -/
theorem Binds.written_scope {steps : List Step} {st : State} {o : String × String} {rest : List (String × String)}
    {b : Binding} (h : Binds u (.first u steps st) frame head result (o :: rest) now)
    (bound : now.scope.binding? o.2 = some b) (isSecret : b.isSecret = true) :
    (written frame result now o).scope = now.scope.bind o.2 ⟨result.select? o.1.toList, true⟩ := by
  rw [written, h.framed rfl, Scope.bindInFrame_currentFrame, bound, Option.map_some, isSecret, Option.getD_some]

end

/-- The text is in a string of the old value or of the new one. -/
def VariableChange.Discloses (c : VariableChange) (text : String) : Prop :=
  ∃ value, (c.oldValue = some value ∨ c.newValue = some value) ∧ ∃ s ∈ value.strings, text.toList <:+: s.toList

theorem VariableChange.Conceals.not_discloses {marker secret text : String} {scope : Scope} {c : VariableChange}
    (h : c.Conceals marker scope) (isSecret : secret ∈ scope.secrets) (apart : Redaction.Apart marker text)
    (inside : secret.toList <:+: text.toList) : ¬c.Discloses text := by
  have hapart := apart.of_infix inside
  rintro ⟨value, hold | hnew, s, hs, hinfix⟩
  · exact h.old value hold s hs secret isSecret hapart (inside.trans hinfix)
  · exact h.new value hnew s hs secret isSecret hapart (inside.trans hinfix)

section
variable {u : Setup} {frame : Nat} {stepId : String} {result : Json} {now : State} {o : String × String} {text : String}

theorem change_newValue {value : Json} (selected : result.select? o.1.toList = some value) :
    (u.change frame stepId result now o).newValue = some (u.redactValue (written frame result now o) value) := by
  rw [change]
  dsimp only
  rw [selected, Option.map_some]

theorem change_oldValue {value : Json} (before : now.scope.get? o.2 = some value) :
    (u.change frame stepId result now o).oldValue = some (u.redactValue (written frame result now o) value) := by
  rw [change]
  dsimp only
  rw [before, Option.map_some]

/-- The old text is disclosed if and only if no secret is left that occurs in it. -/
theorem change_discloses_old_iff (before : now.scope.get? o.2 = some (.str text))
    (apart : Redaction.Apart u.settings.redactionMarker text) :
    (u.change frame stepId result now o).Discloses text ↔
      ∀ secret ∈ (written frame result now o).scope.secrets, ¬secret.toList <:+: text.toList := by
  constructor
  · intro discloses secret hsecret hinfix
    exact (change_conceals u frame stepId result now o).not_discloses hsecret apart hinfix discloses
  · intro hnone
    have hkept : u.redactValue (written frame result now o) (.str text) = .str text := by
      rw [redactValue, Scope.redactValue, Json.redact, Redaction.hide_of_not_infix hnone]
    refine ⟨.str text, Or.inl ?_, text, List.mem_singleton_self text, List.infix_refl _⟩
    rw [change_oldValue before, hkept]

end

/-- The write of an output to a name that is bound secret is recorded and reported with the marker for a new text, and
does not disclose it. It discloses the old text if and only if no secret is left that occurs in it, which is not so
when the secret was bound in an outer frame. -/
theorem secret_write_discloses_iff {u : Setup} {steps : List Step} {st now : State} {frame : Nat} {head : StepHead}
    {result : Json} {o : String × String} {rest : List (String × String)} {b : Binding}
    (binds : Binds u (.first u steps st) frame head result (o :: rest) now)
    (bound : now.scope.binding? o.2 = some b) (isSecret : b.isSecret = true) :
    let c := u.change frame head.id result now o
    let after := u.bindOutput frame head.id result now o
    let marker := u.settings.redactionMarker
    after.changes = now.changes.push c ∧ after.signals.heard = now.signals.heard.map (· ++ [c.event]) ∧
      (∀ text, result.select? o.1.toList = some (.str text) → text ≠ "" →
        c.newValue = some (.str marker) ∧ (Redaction.Apart marker text → ¬c.Discloses text)) ∧
      ∀ text, b.value = some (.str text) → text ≠ "" → Redaction.Apart marker text →
        (c.Discloses text ↔ ∀ secret ∈ after.scope.secrets, ¬secret.toList <:+: text.toList) ∧
          (Ordered.get? o.2 now.scope.innermost = none → c.oldValue = some (.str marker) ∧ ¬c.Discloses text) := by
  have hscope := binds.written_scope bound isSecret
  have hconceals := change_conceals u frame head.id result now o
  refine ⟨rfl, Signals.heard_emit _ _, fun text htext hne => ?new, fun text htext hne apart => ?old⟩
  case new =>
    have hmem : text ∈ (written frame result now o).scope.secrets := by
      rw [hscope, htext]
      exact Scope.mem_secrets_bind _ _ hne
    refine ⟨?_, fun apart => hconceals.not_discloses hmem apart (List.infix_refl _)⟩
    rw [change_newValue htext, redactValue, Scope.redactValue_of_mem hmem]
  case old =>
    have hbefore : now.scope.get? o.2 = some (.str text) := by rw [Scope.get?, bound, Option.bind_some, htext]
    refine ⟨change_discloses_old_iff hbefore apart, fun hout => ?_⟩
    have hmem : text ∈ (written frame result now o).scope.secrets := by
      rw [hscope]
      exact Scope.mem_secrets_bind_of_outer bound hout isSecret htext hne _
    refine ⟨?_, hconceals.not_discloses hmem apart (List.infix_refl _)⟩
    rw [change_oldValue hbefore, redactValue, Scope.redactValue_of_mem hmem]

/-- In a new frame a secret of the frame around it is written to: both values are recorded as the marker. -/
theorem secret_around_stays_hidden :
    let u : Setup := { executor := fun _ _ => { result := .ok (.obj [("token", .str "open")]) } }
    let head : StepHead := { id := "renew", outputs := [("token", "token")] }
    let s : Step := ⟨head, .action ⟨"renew", []⟩⟩
    let st : State := { scope := ⟨[], [[("token", ⟨some (.str "sesame"), true⟩)]]⟩ }
    let result : Json := .obj [("token", .str "open")]
    ∃ now, Binds u (.first u [s] st) 1 head result [("token", "token")] now ∧
      now.scope.binding? "token" = some ⟨some (.str "sesame"), true⟩ ∧
      (u.change 1 "renew" result now ("token", "token")).newValue = some (.str Redaction.defaultMarker) ∧
      (u.change 1 "renew" result now ("token", "token")).oldValue = some (.str Redaction.defaultMarker) := by
  intro u head s st result
  have hstep : Reaches u (.first u [s] st) (.step 8 1 s st) := .tail .refl (.take rfl)
  have hbinds : Binds u (.first u [s] st) 1 head result [("token", "token")] _ :=
    .first (.action hstep rfl (by decide) rfl)
  obtain ⟨-, -, new, old⟩ := secret_write_discloses_iff (b := ⟨some (.str "sesame"), true⟩) hbinds rfl rfl
  have hapart : Redaction.Apart Redaction.defaultMarker "sesame" := ⟨by decide, by simp [Redaction.defaultMarker]⟩
  exact ⟨_, hbinds, rfl, (new "open" rfl (by decide)).1, ((old "sesame" rfl (by decide) hapart).2 rfl).1⟩

/-- In its own frame a secret is written over: its old text stands in the trace as it was. -/
theorem secret_written_over_is_disclosed :
    let u : Setup := { executor := fun _ _ => { result := .ok (.obj [("token", .str "open")]) } }
    let s : Step := ⟨{ id := "renew", outputs := [("token", "token")] }, .action ⟨"renew", []⟩⟩
    let st : State := { scope := ⟨[("token", ⟨some (.str "sesame"), true⟩)], []⟩ }
    Redaction.Apart Redaction.defaultMarker "sesame" ∧ "sesame" ∈ st.scope.secrets ∧
      ∃ c ∈ (u.run "run" [s] st).1.variableChanges, c.Discloses "sesame" := by
  refine ⟨⟨by decide, by simp [Redaction.defaultMarker]⟩, by decide +kernel, _, List.mem_singleton_self _, ?_⟩
  exact ⟨.str "sesame", Or.inl rfl, "sesame", by decide, List.infix_refl _⟩

end StepTree
