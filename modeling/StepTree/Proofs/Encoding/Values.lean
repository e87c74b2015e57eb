import StepTree.Proofs.Capture
import StepTree.Proofs.Encoding.Order

/-! # The values of a run are normal

A text is read as a normal value, and what a path selects from a normal value is normal, as is the value with its
secrets hidden. So as long as the bindings of a scope hold normal values, everything that is looked up in it is normal:
the operands of conditions, and the items that a loop goes over. -/

namespace StepTree

/-! ### Parts of values -/

namespace Json
variable {value inner : Json}

theorem Normal.items {items : List Json} (h : (Json.arr items).Normal) : ∀ j ∈ items, j.Normal := by
  cases h with
  | arr items_normal => exact items_normal

theorem Normal.entries {entries : List (String × Json)} (h : (Json.obj entries).Normal) :
    ∀ e ∈ entries, e.2.Normal := by
  cases h with
  | obj _ values => exact values

theorem Normal.nodup {entries : List (String × Json)} (h : (Json.obj entries).Normal) : (entries.map (·.1)).Nodup := by
  cases h with
  | obj ordered _ => exact nodup_of_ordered ordered

theorem normal_ofEntries {entries : List (String × Json)} (values : ∀ e ∈ entries, e.2.Normal) :
    (ofEntries entries).Normal :=
  .obj (sortEntries_ordered entries) fun e he => values e (sortEntries_subset entries he)

theorem normal_normalize (value : Json) : value.normalize.Normal := by
  induction value using value_induction with
  | null => exact .null
  | bool b => exact .bool b
  | num n => exact .num n
  | str s => exact .str s
  | arr items ih =>
    rw [normalize, normalizeItems_eq]
    exact .arr (List.forall_mem_map.mpr ih)
  | obj entries ih =>
    rw [normalize, normalizeEntries_eq]
    exact normal_ofEntries (List.forall_mem_map.mpr ih)

/-- A text is read as a normal value. -/
theorem normal_of_read? {s : List Char} (h : read? s = some value) : value.Normal := by
  obtain ⟨tree, -, rfl⟩ := Option.map_eq_some_iff.mp h
  exact normal_normalize tree

theorem redactItems_eq (secrets : Secrets) (marker : String) (items : List Json) :
    redactItems secrets marker items = items.map (redact secrets marker) := by
  induction items with
  | nil => rfl
  | cons item items ih => rw [redactItems, ih, List.map_cons]

/-- To hide the secrets of a value leaves its keys as they are. -/
theorem Normal.redact (h : value.Normal) (secrets : Secrets) (marker : String) :
    (value.redact secrets marker).Normal := by
  induction h with
  | null => exact .null
  | bool b => exact .bool b
  | num n =>
    rw [Json.redact]
    split
    · exact .str marker
    · exact .num n
  | str s => exact .str _
  | arr _ ih =>
    rw [Json.redact, redactItems_eq]
    exact .arr (List.forall_mem_map.mpr ih)
  | obj ordered _ ih =>
    rw [Json.redact, redactEntries_eq]
    exact .obj (List.pairwise_map.mpr ordered) (List.forall_mem_map.mpr ih)

theorem Normal.access? {a : Access} (normal : value.Normal) (h : value.access? a = some inner) : inner.Normal := by
  rcases access?_cases h with ⟨items, rfl, hmem⟩ | ⟨entries, key, rfl, hmem⟩
  · exact normal.items inner hmem
  · exact normal.entries _ hmem

/-- What a path selects from a normal value is normal. -/
theorem Normal.select? {path : List Char} (normal : value.Normal) (h : value.select? path = some inner) :
    inner.Normal := select?_keeps (fun _ _ _ hstep hv => hv.access? hstep) h normal

end Json

/-! ### Scopes -/

/-- The value of the binding is normal, if it has one. -/
def Binding.Normal (b : Binding) : Prop := ∀ value ∈ b.value, value.Normal

theorem Binding.normal_defined {value : Json} (h : value.Normal) : (Binding.defined value).Normal := by
  rintro _ ⟨⟩
  exact h

namespace Frame

/-- Every value of the frame is normal. -/
def Normal (f : Frame) : Prop := ∀ e ∈ f, e.2.Normal

variable {f : Frame} {name : String} {b : Binding}

theorem Normal.insert (h : f.Normal) (value : b.Normal) : Normal (Ordered.insert name b f) := by
  intro e he
  rcases Ordered.mem_insert he with rfl | he
  · exact value
  · exact h e he

theorem Normal.get? (h : f.Normal) (bound : Ordered.get? name f = some b) : b.Normal :=
  h _ (Ordered.mem_of_get? bound)

/-- The values of a normal frame are the entries of a normal object. -/
theorem Normal.values (h : f.Normal) : (Json.obj f.values).Normal := by
  refine Json.normal_ofEntries fun e he => ?_
  obtain ⟨entry, hentry, hvalue⟩ := List.mem_filterMap.mp he
  obtain ⟨value, hsome, rfl⟩ := Option.map_eq_some_iff.mp hvalue
  exact h entry hentry value hsome

/-- The frame that normal bindings make is normal. -/
theorem normal_seeded {bindings : List (String × Binding)} (h : ∀ e ∈ bindings, e.2.Normal) (secret : List String) :
    (seeded bindings secret).Normal := by
  have hwritten : Normal (Ordered.ofList bindings) :=
    List.foldlRecOn (motive := Frame.Normal) bindings _ (List.forall_mem_nil _) fun _ hf e he => hf.insert (h e he)
  refine List.foldlRecOn (motive := Frame.Normal) secret _ hwritten fun f hf name _ => ?_
  unfold mark
  split
  · next b hb =>
    have hb' : b.Normal := hf.get? hb
    exact hf.insert hb'
  · exact hf

end Frame

namespace Scope

/-- Every value that is bound in a frame of the scope is normal. -/
def Normal (s : Scope) : Prop := ∀ f ∈ s.stack, f.Normal

variable {s : Scope} {name : String} {b : Binding} {value : Json}

theorem Normal.push (h : s.Normal) : s.push.Normal := List.forall_mem_cons.mpr ⟨List.forall_mem_nil _, h⟩

theorem Normal.pop (h : s.Normal) : s.pop.Normal := fun f hf => h f (mem_stack_pop hf)

theorem Normal.pop? {bound : Frame} {t : Scope} (h : s.Normal) (popped : s.pop? = some (bound, t)) :
    bound.Normal ∧ t.Normal := by
  obtain ⟨f, outer⟩ := s
  cases outer with
  | nil => cases popped
  | cons f' rest =>
    cases popped
    exact List.forall_mem_cons.mp h

theorem Normal.bind (h : s.Normal) (value : b.Normal) : (s.bind name b).Normal := by
  obtain ⟨hfirst, hrest⟩ := List.forall_mem_cons.mp h
  exact List.forall_mem_cons.mpr ⟨hfirst.insert value, hrest⟩

theorem Normal.set (h : s.Normal) (normal : value.Normal) : (s.set name value).Normal :=
  h.bind (Binding.normal_defined normal)

theorem Normal.bindInFrame (h : s.Normal) (frame : Nat) (value : b.Normal) : (s.bindInFrame frame name b).Normal := by
  intro g hg
  rcases mem_stack_bindInFrame hg with hold | ⟨f, hf, rfl⟩
  · exact h g hold
  · exact (h f hf).insert value

theorem Normal.get? (h : s.Normal) (found : s.get? name = some value) : value.Normal := by
  obtain ⟨b, hb, hvalue⟩ := Option.bind_eq_some_iff.mp found
  obtain ⟨f, hf, hget⟩ := List.exists_of_findSome?_eq_some hb
  exact (h f hf).get? hget value hvalue

theorem Normal.lookup {path : List Char} (h : s.Normal) (found : s.lookup path = some value) : value.Normal := by
  unfold Scope.lookup at found
  dsimp only at found
  split at found
  · cases found
  · obtain ⟨whole, hwhole, hrest⟩ := Option.bind_eq_some_iff.mp found
    split at hrest
    · exact (h.get? hwhole).select? hrest
    · exact (h.get? hwhole).select? hrest

end Scope

/-! ### Operands and plans -/

/-- Whatever is looked up is normal. -/
def Template.Lookup.Normal (lookup : Template.Lookup) : Prop := ∀ path value, lookup path = some value → value.Normal

theorem Scope.Normal.lookups {s : Scope} (h : s.Normal) : Template.Lookup.Normal s.lookup := fun _ _ => h.lookup

namespace Condition
variable {lookup : Template.Lookup} {value : Json}

theorem normal_of_literal? {s : List Char} (h : literal? s = some value) : value.Normal := by
  unfold literal? at h
  split at h
  · cases h
    exact .bool true
  · split at h
    · cases h
      exact .bool false
    · split at h
      · cases h
        exact .null
      · split at h
        · cases h
          exact .num _
        · split at h
          · cases h
            exact .num _
          · split at h
            · exact Json.normal_of_read? h
            · cases h

theorem normal_literalOrText (s : List Char) : (literalOrText s).Normal := by
  unfold literalOrText
  cases h : literal? s with
  | none => exact .str _
  | some value => exact normal_of_literal? h

theorem normal_of_ofPath (normal : lookup.Normal) {path : List Char} (h : ofPath lookup path = .value value) :
    value.Normal := by
  unfold ofPath at h
  split at h
  · next v hv =>
    cases h
    exact normal path _ hv
  · cases h

theorem normal_of_ofTemplate {s : List Char} {read : List Char → Json} (reads : ∀ text, (read text).Normal)
    (h : ofTemplate lookup s read = .value value) : value.Normal := by
  unfold ofTemplate at h
  split at h
  · cases h
  · cases h
    exact reads _

/-- An operand that has a value has a normal one. -/
theorem normal_of_operand (normal : lookup.Normal) {text : List Char} (h : operand lookup text = .ok (.value value)) :
    value.Normal := by
  unfold operand at h
  dsimp only at h
  split at h
  · cases h
  · split at h
    · exact normal_of_ofTemplate (fun _ => .str _) (Except.ok.inj h)
    · split at h
      · exact normal_of_ofPath normal (Except.ok.inj h)
      · split at h
        · exact normal_of_ofTemplate normal_literalOrText (Except.ok.inj h)
        · split at h
          · next v hv =>
            cases h
            exact normal_of_literal? hv
          · split at h
            · cases h
            · split at h
              · exact normal_of_ofPath normal (Except.ok.inj h)
              · cases h

/-- The items that a loop goes over are normal. -/
theorem normal_of_evalArray (normal : lookup.Normal) {expression : String} {items : List Json}
    (h : evalArray lookup expression = .ok items) : ∀ j ∈ items, j.Normal := by
  unfold evalArray at h
  dsimp only at h
  split at h
  · cases h
  · cases hoperand : operand lookup (Text.trim expression.toList) with
    | error e =>
      rw [hoperand] at h
      cases h
    | ok found =>
      rw [hoperand] at h
      cases found with
      | missing path => cases h
      | value v =>
        have hv := normal_of_operand normal hoperand
        dsimp only [Operand.get, bind, Except.bind] at h
        split at h
        · cases h
          exact hv.items
        · split at h
          · next hread =>
            cases h
            exact (Json.normal_of_read? hread).items
          · cases h
        · cases h

end Condition

/-- The item of every round of the plan is normal. -/
def Plan.Normal (plan : Plan) : Prop := ∀ index, (plan.item index).Normal

theorem LoopConfig.normal_plan {lookup : Template.Lookup} (normal : lookup.Normal) {c : LoopConfig} {plan : Plan}
    (h : c.plan lookup = .ok plan) : plan.Normal := by
  intro index
  cases plan with
  | items values =>
    have hvalues : ∀ j ∈ values, j.Normal := by
      unfold LoopConfig.plan at h
      split at h
      · split at h
        · cases h
        · next source _ =>
          cases heval : Condition.evalArray lookup source with
          | error e =>
            rw [heval] at h
            cases h
          | ok items =>
            rw [heval] at h
            cases h
            exact Condition.normal_of_evalArray normal heval
      · split at h
        · cases h
        · next spec _ => cases heval : spec.eval lookup <;> rw [heval] at h <;> cases h
      · split at h <;> cases h
    rw [Plan.item]
    cases hitem : values[index]? with
    | none => exact .null
    | some value => exact hvalues value (List.mem_of_getElem? hitem)
  | times count => exact .num _
  | whilst condition => exact .null

end StepTree
