import StepTree.Proofs.RootFrame

/-! # Results of action steps

The result of an action is recorded before its outputs are bound, so it is masked with the secrets of the scope in
which the step was taken up. A text that becomes secret only when an output gives it to a secret name comes too late for
that: it is recorded as it is, unless a secret of before occurs in it. -/

namespace StepTree

open Setup

/-! ### Strings of values -/

namespace Json
variable {secrets : Secrets} {marker text : String}

mutual

/-- Every string of a value stands in the redacted value as it was redacted. -/
theorem hide_mem_strings : ∀ {value : Json}, text ∈ value.strings →
    Redaction.hide secrets marker text ∈ (value.redact secrets marker).strings
  | str s, h => by
    rw [strings] at h
    rw [redact, strings, List.mem_singleton.mp h]
    exact List.mem_singleton_self _
  | arr items, h => by
    rw [strings] at h
    rw [redact, strings]
    exact hide_mem_itemStrings h
  | obj entries, h => by
    rw [strings] at h
    rw [redact, strings]
    exact hide_mem_entryStrings h
  | null, h => by cases h
  | bool _, h => by cases h
  | num _, h => by cases h

theorem hide_mem_itemStrings : ∀ {items : List Json}, text ∈ itemStrings items →
    Redaction.hide secrets marker text ∈ itemStrings (redactItems secrets marker items)
  | item :: items, h => by
    rw [itemStrings] at h
    rw [redactItems, itemStrings]
    rcases List.mem_append.mp h with h | h
    · exact List.mem_append_left _ (hide_mem_strings h)
    · exact List.mem_append_right _ (hide_mem_itemStrings h)

theorem hide_mem_entryStrings : ∀ {entries : List (String × Json)}, text ∈ entryStrings entries →
    Redaction.hide secrets marker text ∈ entryStrings (redactEntries secrets marker entries)
  | (key, value) :: entries, h => by
    rw [entryStrings] at h
    rw [redactEntries, entryStrings]
    rcases List.mem_append.mp h with h | h
    · exact List.mem_append_left _ (hide_mem_strings h)
    · exact List.mem_append_right _ (hide_mem_entryStrings h)

end

theorem itemStrings_eq (items : List Json) : itemStrings items = items.flatMap strings := by
  induction items with
  | nil => rfl
  | cons item items ih => rw [itemStrings, ih, List.flatMap_cons]

theorem entryStrings_eq (entries : List (String × Json)) : entryStrings entries = entries.flatMap (·.2.strings) := by
  induction entries with
  | nil => rfl
  | cons entry entries ih => rw [entryStrings, ih, List.flatMap_cons]

/-- What is found one step into a value has no other strings than the value. -/
theorem strings_subset_of_access? {a : Access} {value inner : Json} (h : value.access? a = some inner) :
    inner.strings ⊆ value.strings := by
  intro s hs
  rcases access?_cases h with ⟨items, rfl, hmem⟩ | ⟨entries, key, rfl, hmem⟩
  · rw [strings, itemStrings_eq]
    exact List.mem_flatMap.mpr ⟨inner, hmem, hs⟩
  · rw [strings, entryStrings_eq]
    exact List.mem_flatMap.mpr ⟨_, hmem, hs⟩

theorem strings_subset_of_select? {path : List Char} {value inner : Json} (h : value.select? path = some inner) :
    inner.strings ⊆ value.strings :=
  select?_keeps (P := fun v => v.strings ⊆ value.strings)
    (fun _ _ _ hstep hv => List.Subset.trans (strings_subset_of_access? hstep) hv) h (List.Subset.refl _)

theorem redactEntries_eq (secrets : Secrets) (marker : String) (entries : List (String × Json)) :
    redactEntries secrets marker entries = entries.map fun e => (e.1, e.2.redact secrets marker) := by
  induction entries with
  | nil => rfl
  | cons entry entries ih => rw [redactEntries, ih, List.map_cons]

end Json

/-- No secret of the scope occurs in the text, so it is recorded as it is. -/
def Scope.Overlooks (s : Scope) (text : String) : Prop := ∀ secret ∈ s.secrets, ¬secret.toList <:+: text.toList

/-- A text is in a string of the outputs that the record shows. -/
def Record.Discloses (r : Record) (text : String) : Prop :=
  ∃ output ∈ r.head.capturedOutputs, ∃ s ∈ output.2.strings, text.toList <:+: s.toList

/-- The captured outputs have the strings of the redacted result. -/
theorem mem_strings_captured {u : Setup} {st : State} {result : Json} {text : String} :
    (∃ output ∈ u.captured st result, text ∈ output.2.strings) ↔ text ∈ (u.redactValue st result).strings := by
  rw [redactValue, Scope.redactValue]
  cases result with
  | obj entries =>
    simp only [captured, Json.redact, Json.strings, Json.redactEntries_eq, Json.entryStrings_eq, List.mem_flatMap]
    rfl
  | null => simp [captured, Json.redact, Json.strings]
  | _ => simp [captured, redactValue, Scope.redactValue]

/-! ### Writes of outputs -/

theorem Ordered.mem_insert {α : Type} {name : String} {value : α} {entries : List (String × α)} {e : String × α}
    (h : e ∈ insert name value entries) : e = (name, value) ∨ e ∈ entries := by
  induction entries with
  | nil => exact Or.inl (List.mem_singleton.mp h)
  | cons e' rest ih =>
    obtain ⟨n, v⟩ := e'
    rw [insert] at h
    split at h
    · next hn =>
      subst hn
      exact (List.mem_cons.mp h).imp_right (List.mem_cons_of_mem _)
    · rcases List.mem_cons.mp h with rfl | h
      · exact Or.inr List.mem_cons_self
      · exact (ih h).imp_right (List.mem_cons_of_mem _)

namespace Scope
variable {s : Scope} {name text : String}

/-- The nearest binding of the name is secret. -/
def marks (s : Scope) (name : String) : Bool := ((s.binding? name).map (·.isSecret)).getD false

theorem binding?_bind_self (s : Scope) (name : String) (b : Binding) : (s.bind name b).binding? name = some b := by
  have hstack : (s.bind name b).stack = Ordered.insert name b s.innermost :: s.outer := rfl
  rw [binding?, hstack, List.findSome?_cons, Ordered.get?_insert_self]

theorem binding?_bind_of_ne {other : String} (h : other ≠ name) (s : Scope) (b : Binding) :
    (s.bind name b).binding? other = s.binding? other := by
  have hstack : (s.bind name b).stack = Ordered.insert name b s.innermost :: s.outer := rfl
  rw [binding?, hstack, List.findSome?_cons, Ordered.get?_insert_of_ne h, binding?, stack, List.findSome?_cons]

/-- The write of a value to a name that keeps its mark leaves all marks as they are. -/
theorem marks_bind (s : Scope) (name : String) (value : Option Json) :
    (s.bind name ⟨value, s.marks name⟩).marks = s.marks := by
  funext other
  by_cases h : other = name
  · subst h
    rw [marks, binding?_bind_self]
    rfl
  · rw [marks, binding?_bind_of_ne h]
    rfl

theorem mem_secrets_of_bind {b : Binding} (h : text ∈ (s.bind name b).secrets) :
    text ∈ s.secrets ∨ b.secretText? = some text := by
  obtain ⟨f, hf, entry, hentry, htext⟩ := mem_secrets.mp h
  rcases List.mem_cons.mp hf with rfl | hf
  · rcases Ordered.mem_insert hentry with rfl | hentry
    · exact Or.inr htext
    · exact Or.inl (mem_secrets.mpr ⟨_, List.mem_cons_self, entry, hentry, htext⟩)
  · exact Or.inl (mem_secrets.mpr ⟨f, List.mem_cons_of_mem _ hf, entry, hentry, htext⟩)

/-- A text that outputs make secret was written to a name that was secret before them. -/
theorem mem_secrets_of_bindSelected {result : Json} {outputs : List (String × String)}
    (h : text ∈ (s.bindSelected result outputs).secrets) :
    text ∈ s.secrets ∨ ∃ o ∈ outputs, s.marks o.2 = true ∧
      (result.select? o.1.toList).map Json.plainText = some text := by
  unfold bindSelected at h
  induction outputs generalizing s with
  | nil => exact Or.inl h
  | cons o rest ih =>
    rcases ih h with h | ⟨o', ho', marked, selected⟩
    · refine (mem_secrets_of_bind h).imp_right fun hsecret => ⟨o, List.mem_cons_self, ?_⟩
      obtain ⟨marked, selected, -⟩ := Binding.secretText?_eq_some.mp hsecret
      exact ⟨marked, selected⟩
    · have hmarks := s.marks_bind o.2 (result.select? o.1.toList)
      exact Or.inr ⟨o', List.mem_cons_of_mem _ ho', (congrFun hmarks o'.2).symm.trans marked, selected⟩

end Scope

/-! ### Steps that passed -/

section
variable {u : Setup} {now : State}

/-- What a result shows, the scope overlooks. -/
theorem overlooks_of_discloses {r : Record} {result : Json} {text : String}
    (captures : r.head.capturedOutputs = u.captured now result)
    (apart : Redaction.Apart u.settings.redactionMarker text) (discloses : r.Discloses text) :
    now.scope.Overlooks text := by
  intro secret hsecret inside
  have hapart := apart.of_infix inside
  obtain ⟨output, houtput, s, hs, hinfix⟩ := discloses
  rw [captures] at houtput
  exact captured_hides u now result output houtput s hs secret hsecret hapart (inside.trans hinfix)

theorem discloses_of_mem {r : Record} {result : Json} {text : String}
    (captures : r.head.capturedOutputs = u.captured now result) (mem : text ∈ result.strings)
    (overlooks : now.scope.Overlooks text) : r.Discloses text := by
  have hkept : Redaction.hide now.scope.secrets u.settings.redactionMarker text = text :=
    Redaction.hide_of_not_infix overlooks _
  have hshown : Redaction.hide now.scope.secrets u.settings.redactionMarker text ∈
      (u.redactValue now result).strings := Json.hide_mem_strings mem
  rw [hkept] at hshown
  obtain ⟨output, houtput, htext⟩ := mem_strings_captured.mpr hshown
  exact ⟨output, captures ▸ houtput, text, htext, List.infix_refl _⟩

end

/-- What an action step that passed shows of its result is masked with the secrets of before. So of the secrets of the
scope as its outputs leave it, it discloses none in which an older one occurs. Each secret in which none occurs is one
that an output has given to a name that was secret; if the output selects it as a string, the step discloses it. -/
theorem capture_discloses_fresh_secrets {u : Setup} {steps : List Step} {st now : State} {depth frame : Nat}
    {head : StepHead} {spec : ActionSpec}
    (reaches : Reaches u (.first u steps st) (.step depth frame ⟨head, .action spec⟩ now))
    (passed : (u.runStep (u.bodyWithin depth) frame ⟨head, .action spec⟩ now).1.head.status = .passed) :
    let out := u.runStep (u.bodyWithin depth) frame ⟨head, .action spec⟩ now
    ∃ result, out.1.head.capturedOutputs = u.captured now result ∧
      out.2.scope = now.scope.bindSelected result head.outputs ∧
      ∀ secret ∈ out.2.scope.secrets, Redaction.Apart u.settings.redactionMarker secret →
        (out.1.Discloses secret → now.scope.Overlooks secret) ∧
        (now.scope.Overlooks secret → ∃ o ∈ head.outputs, now.scope.marks o.2 = true ∧
          (result.select? o.1.toList).map Json.plainText = some secret ∧
          (result.select? o.1.toList = some (.str secret) → out.1.Discloses secret)) := by
  obtain rfl : frame = now.scope.currentFrame := reaches.framed
  obtain ⟨result, captures, hscope⟩ := (action_result rfl).resolve_left fun h => h.1 passed
  refine ⟨result, captures, hscope, fun secret hsecret apart => ⟨overlooks_of_discloses captures apart, ?_⟩⟩
  intro overlooks
  rw [hscope] at hsecret
  rcases Scope.mem_secrets_of_bindSelected hsecret with hold | ⟨o, ho, marked, selected⟩
  · exact absurd (List.infix_refl _) (overlooks secret hold)
  · refine ⟨o, ho, marked, selected, fun hstr => ?_⟩
    have hmem := Json.strings_subset_of_select? hstr (List.mem_singleton_self secret)
    exact discloses_of_mem captures hmem overlooks

/-- The secret that a step renews occurs in the new one, which is masked with it. -/
theorem lengthened_secret_stays_hidden :
    let u : Setup := { executor := fun _ _ => { result := .ok (.obj [("token", .str "open sesame")]) } }
    let head : StepHead := { id := "renew", outputs := [("token", "token")] }
    let s : Step := ⟨head, .action ⟨"renew", []⟩⟩
    let st : State := { scope := ⟨[("token", ⟨some (.str "sesame"), true⟩)], []⟩ }
    let out := u.runStep (u.bodyWithin 8) 0 s st
    Reaches u (.first u [s] st) (.step 8 0 s st) ∧ out.1.head.status = .passed ∧
      "open sesame" ∈ out.2.scope.secrets ∧ ¬out.1.Discloses "open sesame" := by
  intro u head s st out
  have hstep : Reaches u (.first u [s] st) (.step 8 0 s st) := .tail .refl (.take rfl)
  have hsecret : "open sesame" ∈ out.2.scope.secrets := by decide +kernel
  have hapart : Redaction.Apart Redaction.defaultMarker "open sesame" :=
    ⟨by decide, by simp [Redaction.defaultMarker]⟩
  obtain ⟨result, -, -, h⟩ := capture_discloses_fresh_secrets hstep rfl
  refine ⟨hstep, rfl, hsecret, fun discloses => ?_⟩
  exact (h "open sesame" hsecret hapart).1 discloses "sesame" (by decide +kernel) (by decide)

/-- A secret that was empty gets a text: the step shows it as it is. -/
theorem renewed_secret_is_captured :
    let u : Setup := { executor := fun _ _ => { result := .ok (.obj [("token", .str "sesame")]) } }
    let s : Step := ⟨{ id := "renew", outputs := [("token", "token")] }, .action ⟨"renew", []⟩⟩
    let st : State := { scope := ⟨[("token", ⟨some (.str ""), true⟩)], []⟩ }
    let out := u.runStep (u.bodyWithin 8) 0 s st
    Reaches u (.first u [s] st) (.step 8 0 s st) ∧ out.1.head.status = .passed ∧
      Redaction.Apart Redaction.defaultMarker "sesame" ∧ "sesame" ∈ out.2.scope.secrets ∧
      out.1.Discloses "sesame" := by
  refine ⟨.tail .refl (.take rfl), rfl, ⟨by decide, by simp [Redaction.defaultMarker]⟩, by decide +kernel, ?_⟩
  exact ⟨_, List.mem_singleton_self _, "sesame", List.mem_singleton_self _, List.infix_refl _⟩

end StepTree
