import StepTree.Proofs.Encoding.Reading
import StepTree.Proofs.Paths

/-! # One meaning of names and paths

A name is looked up from the innermost frame outward, and the visible values are collected from the root inward, where
later frames overwrite earlier ones. Both come to the nearest binding, as long as no frame has a name twice, and that
holds of every scope that is made by operations. A path is looked up by its first name, and selects the same as in the
object of the visible values. -/

namespace StepTree

/-! ### Entries and frames -/

namespace Ordered
variable {α : Type} {name : String} {value : α} {entries : List (String × α)}

theorem get?_eq_some_iff_mem (nodup : (entries.map (·.1)).Nodup) :
    get? name entries = some value ↔ (name, value) ∈ entries := ⟨mem_of_get?, get?_of_mem_of_nodup nodup⟩

end Ordered

theorem Json.field?_ofEntries {entries : List (String × Json)} (nodup : (entries.map (·.1)).Nodup) (key : String) :
    (ofEntries entries).field? key = Ordered.get? key entries := by
  ext value
  rw [ofEntries, field?, Entries.lookup_iff_mem (nodup_of_ordered (sortEntries_ordered entries)),
    (sortEntries_perm nodup).mem_iff, Ordered.get?_eq_some_iff_mem nodup]

namespace Frame

/-- A name that is bound but undefined has no value among those that are defined. -/
theorem get?_defined {f : Frame} (nodup : (f.map (·.1)).Nodup) (name : String) :
    Ordered.get? name f.defined = (Ordered.get? name f).bind (·.value) := by
  induction f with
  | nil => rfl
  | cons e rest ih =>
    obtain ⟨n, b⟩ := e
    obtain ⟨hfresh, hrest⟩ := List.nodup_cons.mp nodup
    have hdefined : n ∉ (defined rest).map (·.1) := fun hmem => hfresh ((defined_names_sublist rest).subset hmem)
    unfold defined at ih hdefined ⊢
    rw [List.filterMap_cons]
    by_cases hn : n = name
    · subst hn
      rcases hvalue : b.value with _ | value
      · simp [Ordered.get?, hvalue, Ordered.get?_eq_none hdefined]
      · simp [Ordered.get?, hvalue]
    · rcases hvalue : b.value with _ | value <;> simp [Ordered.get?, hvalue, hn, ih hrest]

/-- What frames come to when each is written over those around it. -/
def merged (frames : List Frame) : Frame := frames.foldr (fun f outer => Ordered.extend outer f) []

theorem nodup_merged (frames : List Frame) : ((merged frames).map (·.1)).Nodup := by
  induction frames with
  | nil => exact List.nodup_nil
  | cons f outer ih => exact Ordered.nodup_names_extend ih f

/-- The innermost frame that binds a name wins. -/
theorem get?_merged {frames : List Frame} (nodup : ∀ f ∈ frames, (f.map (·.1)).Nodup) (name : String) :
    Ordered.get? name (merged frames) = frames.findSome? (Ordered.get? name) := by
  induction frames with
  | nil => rfl
  | cons f outer ih =>
    obtain ⟨hf, houter⟩ := List.forall_mem_cons.mp nodup
    have hextend : Ordered.get? name (merged (f :: outer)) =
        (Ordered.get? name f).or (Ordered.get? name (merged outer)) := Ordered.get?_extend_of_nodup hf name _
    rw [hextend, ih houter, List.findSome?_cons]
    cases Ordered.get? name f <;> rfl

end Frame

/-! ### Operations -/

namespace Scope
variable {s : Scope} {name : String}

/-- What is done to a scope. To bind a secret, and to leave a name of a frame undefined, are writes of a binding. -/
inductive Operation where
  | seed (seed : Seed)
  | push
  | pop
  | set (name : String) (value : Json)
  | bind (name : String) (b : Binding)
  | bindInFrame (frame : Nat) (name : String) (b : Binding)
  | markSecret (name : String)

/-- The scope after an operation; a seed begins anew. -/
def perform (s : Scope) : Operation → Scope
  | .seed seed => ofSeed seed
  | .push => s.push
  | .pop => s.pop
  | .set name value => s.set name value
  | .bind name b => s.bind name b
  | .bindInFrame frame name b => s.bindInFrame frame name b
  | .markSecret name => s.markSecret name

/-- The scope that operations make of an empty one. -/
def performAll (ops : List Operation) : Scope := ops.foldl perform empty

/-- No frame has a name twice. -/
def Distinct (s : Scope) : Prop := ∀ f ∈ s.stack, (f.map (·.1)).Nodup

theorem mem_markIn? {frames marked : List Frame} {g : Frame} (h : markIn? name frames = some marked) (hg : g ∈ marked) :
    g ∈ frames ∨ ∃ f ∈ frames, ∃ b, g = Ordered.insert name b f := by
  induction frames generalizing marked with
  | nil => cases h
  | cons f outer ih =>
    rw [markIn?] at h
    split at h
    · cases h
      rcases List.mem_cons.mp hg with rfl | hg
      · exact Or.inr ⟨f, List.mem_cons_self, _, rfl⟩
      · exact Or.inl (List.mem_cons_of_mem f hg)
    · obtain ⟨rest, hrest, rfl⟩ := Option.map_eq_some_iff.mp h
      rcases List.mem_cons.mp hg with rfl | hg
      · exact Or.inl List.mem_cons_self
      · rcases ih hrest hg with hold | ⟨f', hf', b, rfl⟩
        · exact Or.inl (List.mem_cons_of_mem f hold)
        · exact Or.inr ⟨f', List.mem_cons_of_mem f hf', b, rfl⟩

theorem stack_markSecret (s : Scope) (name : String) :
    (s.markSecret name).stack = (markIn? name s.stack).getD s.stack := by
  obtain ⟨f, outer⟩ := s
  have hstack : stack ⟨f, outer⟩ = f :: outer := rfl
  rw [markSecret, hstack, markIn?]
  cases Ordered.get? name f with
  | some b => rfl
  | none => cases markIn? name outer <;> rfl

/-- To make a name secret is to write its binding again in one frame. -/
theorem mem_stack_markSecret {g : Frame} (h : g ∈ (s.markSecret name).stack) :
    g ∈ s.stack ∨ ∃ f ∈ s.stack, ∃ b, g = Ordered.insert name b f := by
  rw [stack_markSecret] at h
  cases hmarked : markIn? name s.stack with
  | some marked =>
    rw [hmarked] at h
    exact mem_markIn? hmarked h
  | none =>
    rw [hmarked] at h
    exact Or.inl h

namespace Distinct

theorem push (h : s.Distinct) : s.push.Distinct := List.forall_mem_cons.mpr ⟨List.nodup_nil, h⟩

theorem pop (h : s.Distinct) : s.pop.Distinct := fun f hf => h f (mem_stack_pop hf)

theorem bind (h : s.Distinct) (name : String) (b : Binding) : (s.bind name b).Distinct := by
  obtain ⟨hfirst, houter⟩ := List.forall_mem_cons.mp h
  exact List.forall_mem_cons.mpr ⟨Ordered.nodup_names_insert hfirst name b, houter⟩

theorem bindInFrame (h : s.Distinct) (frame : Nat) (name : String) (b : Binding) :
    (s.bindInFrame frame name b).Distinct := by
  intro g hg
  rcases mem_stack_bindInFrame hg with hold | ⟨f, hf, rfl⟩
  · exact h g hold
  · exact Ordered.nodup_names_insert (h f hf) name b

theorem markSecret (h : s.Distinct) (name : String) : (s.markSecret name).Distinct := by
  intro g hg
  rcases mem_stack_markSecret hg with hold | ⟨f, hf, b, rfl⟩
  · exact h g hold
  · exact Ordered.nodup_names_insert (h f hf) name b

theorem ofSeed (seed : Seed) : (Scope.ofSeed seed).Distinct := by
  have hempty : (([] : Frame).map (·.1)).Nodup := List.nodup_nil
  rw [ofSeed_eq]
  exact List.forall_mem_singleton.mpr (Ordered.nodup_names_extend hempty seed.bindings)

theorem perform (h : s.Distinct) (op : Operation) : (s.perform op).Distinct := by
  cases op with
  | seed seed => exact ofSeed seed
  | push => exact h.push
  | pop => exact h.pop
  | set name value => exact h.bind name _
  | bind name b => exact h.bind name b
  | bindInFrame frame name b => exact h.bindInFrame frame name b
  | markSecret name => exact h.markSecret name

theorem performAll (ops : List Operation) : (Scope.performAll ops).Distinct :=
  List.foldlRecOn (motive := Distinct) ops _ (List.forall_mem_singleton.mpr List.nodup_nil) fun _ h op _ => h.perform op

end Distinct

/-! ### Visible values -/

theorem visible_eq (s : Scope) : s.visible = (Frame.merged s.stack).defined := by
  rw [visible, List.foldl_reverse, Frame.merged]

theorem nodup_visible (s : Scope) : (s.visible.map (·.1)).Nodup := by
  rw [visible_eq]
  exact (Frame.nodup_merged s.stack).sublist (Frame.merged s.stack).defined_names_sublist

theorem get?_visible (h : s.Distinct) (name : String) : Ordered.get? name s.visible = s.get? name := by
  rw [visible_eq, Frame.get?_defined (Frame.nodup_merged s.stack), Frame.get?_merged h]
  rfl

theorem binding?_of_stack {inner outer : List Frame} {f : Frame} {b : Binding} (hstack : s.stack = inner ++ f :: outer)
    (free : ∀ g ∈ inner, Ordered.get? name g = none) (bound : Ordered.get? name f = some b) :
    s.binding? name = some b := by
  rw [binding?, hstack, List.findSome?_append, List.findSome?_eq_none_iff.mpr free, Option.none_or, List.findSome?_cons,
    bound]

/-- A path is looked up by its first name, and its rest is followed from there. -/
theorem lookup_append {name rest : List Char} (h : Path.Parted name rest) (ne_nil : name ≠ []) :
    s.lookup (name ++ rest) = (s.get? (String.ofList name)).bind fun value => value.select? rest := by
  unfold lookup
  dsimp only
  rw [Text.trim_of_unblanked h.unblanked, h.takeWhile_eq, List.drop_left, if_neg (by simpa using ne_nil)]
  rcases h.ends with rfl | ⟨r, rfl⟩ | ⟨r, rfl⟩
  · rfl
  · have hr : ∀ c ∈ r, Text.isBlank c = false := (List.forall_mem_cons.mp h.rest_unblanked).2
    exact congrArg _ (funext fun value => (Json.select?_dot hr value).symm)
  · rfl

theorem lookup_of_bracket {rest : List Char} (h : Path.Parted [] ('[' :: rest)) : s.lookup ('[' :: rest) = none := by
  have hname := h.takeWhile_eq
  rw [List.nil_append] at hname
  unfold lookup
  dsimp only
  rw [Text.trim_of_unblanked h.rest_unblanked, hname]
  rfl

theorem lookup_eq_select? (h : s.Distinct) {path : List Char} (ne_nil : path ≠ [])
    (unblanked : ∀ c ∈ path, Text.isBlank c = false) (no_dot : path.head? ≠ some '.') :
    s.lookup path = (Json.ofEntries s.visible).select? path := by
  obtain ⟨name, rest, rfl, hparts⟩ := Path.Parted.exists_parts unblanked
  by_cases hname : name = []
  · subst hname
    rcases hparts.ends with rfl | ⟨r, rfl⟩ | ⟨r, rfl⟩
    · exact absurd rfl ne_nil
    · exact absurd rfl no_dot
    · rw [List.nil_append, lookup_of_bracket hparts, Json.ofEntries,
        Json.select?_bracket (List.forall_mem_cons.mp hparts.rest_unblanked).2]
  · have hfield : (Json.ofEntries s.visible).access? (.key name) = s.get? (String.ofList name) := by
      rw [← get?_visible h, ← Json.field?_ofEntries s.nodup_visible]
      rfl
    rw [lookup_append hparts hname, Json.select?_append hparts hname, hfield]

/-- However a scope was made, the visible values have each name once, and with the value that the name has; a binding
that no inner frame hides decides about both, also if it is undefined. A path without blanks that does not begin with a
dot leads to what it selects from the object of the visible values, or to nothing in both. -/
theorem lookup_reads_visible (ops : List Operation) :
    let s := performAll ops
    (s.visible.map (·.1)).Nodup ∧
    (∀ name, s.get? name = Ordered.get? name s.visible) ∧
    (∀ name inner f outer b, s.stack = inner ++ f :: outer → (∀ g ∈ inner, Ordered.get? name g = none) →
      Ordered.get? name f = some b → s.get? name = b.value ∧ Ordered.get? name s.visible = b.value) ∧
    ∀ path, path ≠ [] → (∀ c ∈ path, Text.isBlank c = false) → path.head? ≠ some '.' →
      s.lookup path = (Json.ofEntries s.visible).select? path := by
  intro s
  have hdistinct : s.Distinct := Distinct.performAll ops
  refine ⟨s.nodup_visible, fun name => (get?_visible hdistinct name).symm, ?_, ?_⟩
  · intro name inner f outer b hstack free bound
    have hget : s.get? name = b.value := by rw [get?, binding?_of_stack hstack free bound, Option.bind_some]
    exact ⟨hget, (get?_visible hdistinct name).trans hget⟩
  · intro path ne_nil unblanked no_dot
    exact lookup_eq_select? hdistinct ne_nil unblanked no_dot

/-- The frame around the innermost one leaves a name of the root undefined; a path leads into a secret of the root. -/
theorem undefined_token_is_not_visible :
    let user : Json := .obj [("tags", .arr [.str "a", .str "b"])]
    let seed : Seed := ⟨[("token", .str "sesame")], [], [("user", user)]⟩
    let s := performAll [.seed seed, .push, .push, .set "item" (.str "c"), .bindInFrame 1 "token" .undefined,
      .markSecret "user"]
    let inner : List Frame := [[("item", .defined (.str "c"))]]
    let around : Frame := [("token", .undefined)]
    let root : Frame := [("token", .defined (.str "sesame")), ("user", ⟨some user, true⟩)]
    let path := "user.tags[1]".toList
    s.stack = inner ++ around :: [root] ∧ (∀ g ∈ inner, Ordered.get? "token" g = none) ∧
      Ordered.get? "token" around = some .undefined ∧
      s.get? "token" = none ∧ Ordered.get? "token" s.visible = none ∧
      path ≠ [] ∧ (∀ c ∈ path, Text.isBlank c = false) ∧ path.head? ≠ some '.' ∧
      s.lookup path = (Json.ofEntries s.visible).select? path ∧ (s.lookup path).map Json.plainText = some "b" := by
  intro user seed s inner around root path
  obtain ⟨-, -, nearest, paths⟩ := lookup_reads_visible [.seed seed, .push, .push, .set "item" (.str "c"),
    .bindInFrame 1 "token" .undefined, .markSecret "user"]
  have hstack : s.stack = inner ++ around :: [root] := rfl
  have free : ∀ g ∈ inner, Ordered.get? "token" g = none := List.forall_mem_singleton.mpr rfl
  have bound : Ordered.get? "token" around = some .undefined := rfl
  obtain ⟨hget, hvisible⟩ := nearest "token" inner around [root] .undefined hstack free bound
  have ne_nil : path ≠ [] := by decide
  have unblanked : ∀ c ∈ path, Text.isBlank c = false := by simp [path, Text.isBlank]
  have no_dot : path.head? ≠ some '.' := by decide
  have hlookup := paths path ne_nil unblanked no_dot
  exact ⟨hstack, free, bound, hget, hvisible, ne_nil, unblanked, no_dot, hlookup, by decide +kernel⟩

/-! The empty segments of a path do not count when it selects, but a path that is looked up has to begin with a name. -/

example :
    let s := performAll [.set "pin" (.str "7")]
    (s.lookup ['.', 'p', 'i', 'n']).isNone ∧
      ((Json.ofEntries s.visible).select? ['.', 'p', 'i', 'n']).map Json.plainText = some "7" := by decide +kernel

end Scope

end StepTree
