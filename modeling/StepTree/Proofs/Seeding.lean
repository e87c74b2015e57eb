import Mathlib.Data.List.Nodup
import StepTree.Run.Basic

/-! # The root frame at the beginning

The root frame of a run and that of a call are made in the same way: the sources of variables are written into an
empty frame one after the other, and then the names that the workflow declares secret are marked, if they are bound.
So the last source that has a name gives its value, and the name is secret if that source or the workflow says so. -/

namespace StepTree

/-! ### Entries written one after the other -/

namespace Ordered
variable {α : Type} {name : String} {value : α} {entries written before after : List (String × α)}

theorem extend_append (entries xs ys : List (String × α)) : extend entries (xs ++ ys) = extend (extend entries xs) ys :=
  List.foldl_append

theorem mem_names_insert {other : String} :
    other ∈ (insert name value entries).map (·.1) ↔ other ∈ entries.map (·.1) ∨ other = name := by
  rw [names_insert]
  split
  · next hname => exact ⟨Or.inl, fun h => h.elim id fun heq => heq ▸ hname⟩
  · rw [List.mem_append, List.mem_singleton]

theorem nodup_names_insert (h : (entries.map (·.1)).Nodup) (name : String) (value : α) :
    ((insert name value entries).map (·.1)).Nodup := by
  rw [names_insert]
  split
  · exact h
  · next hname => exact h.append (List.nodup_singleton name) (List.disjoint_singleton.mpr hname)

/-- The names after some writes are those before and those that were written. -/
theorem mem_names_extend :
    name ∈ (extend entries written).map (·.1) ↔ name ∈ entries.map (·.1) ∨ name ∈ written.map (·.1) := by
  induction written generalizing entries with
  | nil => simp [extend]
  | cons e rest ih =>
    have hrest := @ih (insert e.1 e.2 entries)
    rw [mem_names_insert, or_assoc] at hrest
    rw [List.map_cons, List.mem_cons]
    exact hrest

theorem nodup_names_extend (h : (entries.map (·.1)).Nodup) (written : List (String × α)) :
    ((extend entries written).map (·.1)).Nodup :=
  List.foldlRecOn (motive := fun entries : List (String × α) => (entries.map (·.1)).Nodup) written _ h
    fun _ h e _ => nodup_names_insert h e.1 e.2

theorem get?_extend_of_not_mem (h : name ∉ written.map (·.1)) (entries : List (String × α)) :
    get? name (extend entries written) = get? name entries := by
  induction written generalizing entries with
  | nil => rfl
  | cons e rest ih =>
    rw [List.map_cons, List.mem_cons, not_or] at h
    exact (ih h.2 _).trans (get?_insert_of_ne h.1 _ _)

/-- The last write of a name counts. -/
theorem get?_extend_last (last : name ∉ after.map (·.1)) (entries : List (String × α)) :
    get? name (extend entries (before ++ (name, value) :: after)) = some value := by
  rw [extend_append]
  exact (get?_extend_of_not_mem last _).trans (get?_insert_self name value _)

theorem exists_get?_of_mem (h : name ∈ entries.map (·.1)) : ∃ value, get? name entries = some value := by
  induction entries with
  | nil => cases h
  | cons e rest ih =>
    obtain ⟨n, v⟩ := e
    rw [get?]
    split
    · exact ⟨v, rfl⟩
    · next hn => exact ih ((List.mem_cons.mp h).resolve_left fun heq => hn heq.symm)

/-- Where no name comes twice, every entry is found under its name. -/
theorem get?_of_mem_of_nodup (nodup : (entries.map (·.1)).Nodup) (h : (name, value) ∈ entries) :
    get? name entries = some value := by
  induction entries with
  | nil => cases h
  | cons e rest ih =>
    obtain ⟨n, v⟩ := e
    obtain ⟨hfresh, nodup⟩ := List.nodup_cons.mp nodup
    rcases List.mem_cons.mp h with heq | hrest
    · cases heq
      exact if_pos rfl
    · have hne : n ≠ name := fun heq => hfresh (List.mem_map.mpr ⟨_, hrest, heq.symm⟩)
      rw [get?, if_neg hne]
      exact ih nodup hrest

end Ordered

/-! ### Marks of secrecy -/

namespace Frame

/-- The name is bound secret in the frame. -/
def marks (f : Frame) (name : String) : Bool := ((Ordered.get? name f).map (·.isSecret)).getD false

theorem marks_eq_true {f : Frame} {name : String} :
    f.marks name = true ↔ ∃ b, Ordered.get? name f = some b ∧ b.isSecret = true := by
  unfold marks
  cases Ordered.get? name f <;> simp

/-- The write of a value to a name that keeps its mark leaves all marks as they are. -/
theorem marks_insert (f : Frame) (name : String) (value : Option Json) :
    marks (Ordered.insert name ⟨value, f.marks name⟩ f) = f.marks := by
  funext other
  unfold marks
  by_cases h : other = name
  · subst h
    rw [Ordered.get?_insert_self]
    rfl
  · rw [Ordered.get?_insert_of_ne h]

/-- The frame with a name made secret, if it is bound there. -/
def mark (f : Frame) (name : String) : Frame :=
  match Ordered.get? name f with
  | some b => Ordered.insert name { b with isSecret := true } f
  | none => f

theorem get?_mark (f : Frame) (name other : String) :
    Ordered.get? other (f.mark name) =
      (Ordered.get? other f).map fun b => { b with isSecret := b.isSecret || name == other } := by
  unfold mark
  by_cases h : other = name
  · subst h
    cases hget : Ordered.get? other f <;> simp [hget]
  · have hne : (name == other) = false := beq_false_of_ne (Ne.symm h)
    rw [hne]
    cases Ordered.get? name f with
    | none => simp
    | some b => simp [Ordered.get?_insert_of_ne h]

theorem nodup_mark {f : Frame} (h : (f.map (·.1)).Nodup) (name : String) : ((f.mark name).map (·.1)).Nodup := by
  unfold mark
  split
  · exact Ordered.nodup_names_insert h _ _
  · exact h

/-- The frame that bindings make when they are written one after the other and some names are marked then. -/
def seeded (bindings : List (String × Binding)) (secret : List String) : Frame :=
  secret.foldl mark (Ordered.ofList bindings)

theorem get?_seeded (bindings : List (String × Binding)) (secret : List String) (name : String) :
    Ordered.get? name (seeded bindings secret) =
      (Ordered.get? name (Ordered.ofList bindings)).map fun b =>
        { b with isSecret := b.isSecret || secret.contains name } := by
  unfold seeded
  generalize Ordered.ofList bindings = f
  induction secret generalizing f with
  | nil => simp
  | cons n rest ih =>
    rw [List.foldl_cons, ih, get?_mark, Option.map_map, List.contains_cons, Bool.beq_comm]
    congr 1
    funext b
    exact congrArg (Binding.mk b.value) (Bool.or_assoc _ _ _)

theorem nodup_seeded (bindings : List (String × Binding)) (secret : List String) :
    ((seeded bindings secret).map (·.1)).Nodup := by
  have hempty : (([] : Frame).map (·.1)).Nodup := List.nodup_nil
  have hwritten : ((Ordered.ofList bindings).map (·.1)).Nodup := Ordered.nodup_names_extend hempty bindings
  exact List.foldlRecOn (motive := fun f : Frame => (f.map (·.1)).Nodup) secret _ hwritten
    fun _ h name _ => nodup_mark h name

/-- The last of the bindings of a name counts, and it is secret by itself or by the mark. -/
theorem get?_seeded_last {before after : List (String × Binding)} {secret : List String} {name : String} {b : Binding}
    (last : name ∉ after.map (·.1)) :
    Ordered.get? name (seeded (before ++ (name, b) :: after) secret) =
      some { b with isSecret := b.isSecret || secret.contains name } := by
  rw [get?_seeded, Ordered.ofList, Ordered.get?_extend_last last, Option.map_some]

/-- A name that is to be marked is secret if it is bound. -/
theorem marks_seeded_of_mem {bindings : List (String × Binding)} {secret : List String} {name : String}
    (declared : name ∈ secret) (bound : name ∈ bindings.map (·.1)) : (seeded bindings secret).marks name = true := by
  have hnames : name ∈ (Ordered.ofList bindings).map (·.1) := Ordered.mem_names_extend.mpr (Or.inr bound)
  obtain ⟨b, hb⟩ := Ordered.exists_get?_of_mem hnames
  refine marks_eq_true.mpr ⟨_, by rw [get?_seeded, hb, Option.map_some], ?_⟩
  simp [declared]

end Frame

/-! ### Root frames -/

namespace Scope

theorem setAll_eq (s : Scope) (values : List (String × Json)) :
    s.setAll values = ⟨Ordered.extend s.innermost (values.map fun e => (e.1, .defined e.2)), s.outer⟩ := by
  unfold setAll
  induction values generalizing s with
  | nil => rfl
  | cons e rest ih => exact ih (s.set e.1 e.2)

/-- Bindings written one after the other into the innermost frame. -/
theorem foldl_bind_eq {α : Type} (name : α → String) (b : α → Binding) (s : Scope) (xs : List α) :
    xs.foldl (fun s x => s.bind (name x) (b x)) s =
      ⟨Ordered.extend s.innermost (xs.map fun x => (name x, b x)), s.outer⟩ := by
  induction xs generalizing s with
  | nil => rfl
  | cons x rest ih => exact ih (s.bind (name x) (b x))

theorem markSecret_root (f : Frame) (name : String) : markSecret ⟨f, []⟩ name = ⟨f.mark name, []⟩ := by
  unfold markSecret Frame.mark
  rw [stack, markIn?]
  cases Ordered.get? name f <;> rfl

theorem foldl_markSecret_root (f : Frame) (names : List String) :
    names.foldl markSecret ⟨f, []⟩ = ⟨names.foldl Frame.mark f, []⟩ := by
  induction names generalizing f with
  | nil => rfl
  | cons name rest ih => rw [List.foldl_cons, markSecret_root, ih, List.foldl_cons]

end Scope

/-- The bindings that the sources of variables make, in the order in which they are written. -/
def Seed.bindings (seed : Seed) : List (String × Binding) :=
  seed.inputDefaults.map (fun e => (e.1, .defined e.2)) ++
    (seed.environment.map (fun v => (v.name, ⟨some v.value, v.isSecret⟩)) ++
      seed.vars.map fun e => (e.1, .defined e.2))

theorem Scope.ofSeed_eq (seed : Seed) : ofSeed seed = ⟨Ordered.ofList seed.bindings, []⟩ := by
  unfold ofSeed
  dsimp only
  rw [setAll_eq, foldl_bind_eq EnvironmentVariable.name (fun v => ⟨some v.value, v.isSecret⟩), setAll_eq,
    Ordered.ofList, Seed.bindings, Ordered.extend_append, Ordered.extend_append]
  rfl

/-- What the root frame of a requested run is made from. -/
def Request.seed (q : Request) : Seed where
  inputDefaults := q.workflow.inputDefaults
  environment := q.environment
  vars := Ordered.extend q.workflow.vars q.vars

theorem Request.scope_eq (q : Request) :
    q.scope = ⟨Frame.seeded q.seed.bindings q.workflow.secretInputs, []⟩ := by
  unfold scope
  dsimp only
  rw [Scope.ofSeed_eq, Scope.foldl_markSecret_root]
  rfl

/-- The bindings with which the root frame of a call begins; the inputs of the call come last. -/
def Workflow.bindings (w : Workflow) (secrets : Secrets) (inputs : List (String × String)) :
    List (String × Binding) :=
  w.inputDefaults.map (fun e => (e.1, .defined e.2)) ++ (w.vars.map (fun e => (e.1, .defined e.2)) ++
    inputs.map fun input =>
      (input.1, ⟨some (.str input.2), secrets.any fun secret => Text.occursIn secret.toList input.2.toList⟩))

theorem Setup.calleeScope_eq (w : Workflow) (secrets : Secrets) (inputs : List (String × String)) :
    calleeScope w secrets inputs = ⟨Frame.seeded (w.bindings secrets inputs) w.secretInputs, []⟩ := by
  rw [Frame.seeded, ← Scope.foldl_markSecret_root, Workflow.bindings, Ordered.ofList, Ordered.extend_append,
    Ordered.extend_append]
  unfold calleeScope
  dsimp only
  rw [Scope.setAll_eq, Scope.setAll_eq, Scope.foldl_bind_eq (fun input : String × String => input.1) fun input =>
    ⟨some (.str input.2), secrets.any fun secret => Text.occursIn secret.toList input.2.toList⟩]
  rfl

end StepTree
