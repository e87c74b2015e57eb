import StepTree.Document.Node
import StepTree.Workflow.Decoding

/-! # Values whose objects list their keys in some order

An object is the same whatever order its keys come in: where it is read, each key is looked up. So everything about
reading is said of values whose objects were put into any order of keys, which covers values as they are written and
values with their keys in order. -/

namespace StepTree

/-! ### Entries in order of their keys -/

namespace Json
variable {α β : Type} {key : String} {value : α} {entries : List (String × α)}

theorem insertEntry_perm (fresh : key ∉ entries.map (·.1)) :
    (insertEntry key value entries).Perm ((key, value) :: entries) := by
  induction entries with
  | nil => exact .refl _
  | cons e rest ih =>
    obtain ⟨k, v⟩ := e
    rw [List.map_cons, List.mem_cons, not_or] at fresh
    rw [insertEntry, if_neg fresh.1]
    split
    · exact .refl _
    · exact ((ih fresh.2).cons (k, v)).trans (.swap ..)

theorem insertEntry_subset (key : String) (value : α) (entries : List (String × α)) :
    insertEntry key value entries ⊆ (key, value) :: entries := by
  induction entries with
  | nil => exact List.Subset.refl _
  | cons e rest ih =>
    obtain ⟨k, v⟩ := e
    intro e he
    rw [insertEntry] at he
    split at he
    · exact he
    · split at he
      · rcases List.mem_cons.mp he with rfl | he
        · exact List.mem_cons_self
        · exact List.mem_cons_of_mem _ (List.mem_cons_of_mem _ he)
      · rcases List.mem_cons.mp he with rfl | he
        · exact List.mem_cons_of_mem _ List.mem_cons_self
        · rcases List.mem_cons.mp (ih he) with rfl | he
          · exact List.mem_cons_self
          · exact List.mem_cons_of_mem _ (List.mem_cons_of_mem _ he)

theorem insertEntry_map (f : α → β) (key : String) (value : α) (entries : List (String × α)) :
    insertEntry key (f value) (entries.map fun e => (e.1, f e.2)) =
      (insertEntry key value entries).map fun e => (e.1, f e.2) := by
  induction entries with
  | nil => rfl
  | cons e rest ih =>
    obtain ⟨k, v⟩ := e
    rw [List.map_cons, insertEntry, insertEntry]
    split
    · rfl
    · split
      · rfl
      · rw [ih]
        rfl

theorem insertEntry_ordered (ordered : entries.Pairwise fun e e' => e.1 < e'.1) :
    (insertEntry key value entries).Pairwise fun e e' => e.1 < e'.1 := by
  induction entries with
  | nil => exact List.pairwise_singleton _ _
  | cons e rest ih =>
    obtain ⟨k, v⟩ := e
    obtain ⟨hfirst, hrest⟩ := List.pairwise_cons.mp ordered
    rw [insertEntry]
    split
    · next hlt =>
      refine List.pairwise_cons.mpr ⟨fun e he => ?_, ordered⟩
      rcases List.mem_cons.mp he with rfl | he
      · exact hlt
      · exact String.lt_trans hlt (hfirst e he)
    · next hnot =>
      split
      · next hkey =>
        subst hkey
        exact List.pairwise_cons.mpr ⟨hfirst, hrest⟩
      · next hne =>
        refine List.pairwise_cons.mpr ⟨fun e he => ?_, ih hrest⟩
        rcases List.mem_cons.mp (insertEntry_subset _ _ _ he) with rfl | he
        · exact Std.lt_of_le_of_ne (String.not_lt.mp hnot) (Ne.symm hne)
        · exact hfirst e he

theorem sortEntries_subset (entries : List (String × α)) : sortEntries entries ⊆ entries := by
  have hfold : ∀ sorted : List (String × α),
      entries.foldl (fun sorted e => insertEntry e.1 e.2 sorted) sorted ⊆ sorted ++ entries := by
    induction entries with
    | nil => simp
    | cons e rest ih =>
      intro sorted x hx
      rcases List.mem_append.mp (ih _ hx) with hx | hx
      · rcases List.mem_cons.mp (insertEntry_subset _ _ _ hx) with rfl | hx
        · exact List.mem_append_right _ List.mem_cons_self
        · exact List.mem_append_left _ hx
      · exact List.mem_append_right _ (List.mem_cons_of_mem _ hx)
  simpa [sortEntries] using hfold []

theorem sortEntries_map (f : α → β) (entries : List (String × α)) :
    sortEntries (entries.map fun e => (e.1, f e.2)) = (sortEntries entries).map fun e => (e.1, f e.2) := by
  have hfold : ∀ sorted : List (String × α),
      (entries.map fun e => (e.1, f e.2)).foldl (fun sorted e => insertEntry e.1 e.2 sorted)
        (sorted.map fun e => (e.1, f e.2)) =
      (entries.foldl (fun sorted e => insertEntry e.1 e.2 sorted) sorted).map fun e => (e.1, f e.2) := by
    induction entries with
    | nil => exact fun _ => rfl
    | cons e rest ih =>
      intro sorted
      rw [List.map_cons, List.foldl_cons, List.foldl_cons, ← ih, ← insertEntry_map]
  exact hfold []

theorem sortEntries_ordered (entries : List (String × α)) :
    (sortEntries entries).Pairwise fun e e' => e.1 < e'.1 :=
  List.foldlRecOn (motive := fun sorted : List (String × α) => sorted.Pairwise fun e e' => e.1 < e'.1) entries _
    List.Pairwise.nil fun _ h _ _ => insertEntry_ordered h

theorem sortEntries_perm (nodup : (entries.map (·.1)).Nodup) : (sortEntries entries).Perm entries := by
  have hfold : ∀ sorted : List (String × α), ((sorted ++ entries).map (·.1)).Nodup →
      (entries.foldl (fun sorted e => insertEntry e.1 e.2 sorted) sorted).Perm (sorted ++ entries) := by
    clear nodup
    induction entries with
    | nil => simp
    | cons e rest ih =>
      intro sorted nodup
      have hmiddle : (sorted ++ e :: rest).Perm (e :: sorted ++ rest) := List.perm_middle
      have hnodup : ((e :: sorted ++ rest).map (·.1)).Nodup := (hmiddle.map _).nodup_iff.mp nodup
      have hfresh : e.1 ∉ sorted.map (·.1) := by
        rw [List.cons_append, List.map_cons, List.nodup_cons, List.map_append, List.mem_append, not_or] at hnodup
        exact hnodup.1.1
      have hinsert : (insertEntry e.1 e.2 sorted ++ rest).Perm (e :: sorted ++ rest) :=
        (insertEntry_perm hfresh).append_right rest
      exact (ih _ ((hinsert.map _).nodup_iff.mpr hnodup)).trans (hinsert.trans hmiddle.symm)
  exact hfold [] nodup

theorem nodup_of_ordered (ordered : entries.Pairwise fun e e' => e.1 < e'.1) : (entries.map (·.1)).Nodup := by
  rw [List.nodup_iff_pairwise_ne, List.pairwise_map]
  refine ordered.imp fun {e e'} h heq => ?_
  rw [heq] at h
  exact String.lt_irrefl _ h

/-- Entries in order are determined by which entries there are. -/
theorem eq_of_ordered {entries' : List (String × α)} (ordered : entries.Pairwise fun e e' => e.1 < e'.1)
    (ordered' : entries'.Pairwise fun e e' => e.1 < e'.1) (perm : entries.Perm entries') : entries = entries' :=
  perm.eq_of_pairwise (fun _ _ _ _ h h' => absurd h' (String.lt_asymm h)) ordered ordered'

/-! ### Normal values -/

/-- A value in which every object lists its keys in order. -/
inductive Normal : Json → Prop
  | null : Normal .null
  | bool (b : Bool) : Normal (.bool b)
  | num (n : Number) : Normal (.num n)
  | str (s : String) : Normal (.str s)
  | arr {items : List Json} (items_normal : ∀ j ∈ items, Normal j) : Normal (.arr items)
  | obj {entries : List (String × Json)} (ordered : entries.Pairwise fun e e' => e.1 < e'.1)
    (values : ∀ e ∈ entries, Normal e.2) : Normal (.obj entries)

theorem normalizeItems_eq (items : List Json) : normalizeItems items = items.map normalize := by
  induction items with
  | nil => rfl
  | cons j rest ih => rw [normalizeItems, ih, List.map_cons]

theorem normalizeEntries_eq (entries : List (String × Json)) :
    normalizeEntries entries = entries.map fun e => (e.1, e.2.normalize) := by
  induction entries with
  | nil => rfl
  | cons e rest ih => rw [normalizeEntries, ih, List.map_cons]

end Json

/-! ### Orders of keys -/

/-- A way to order the entries of objects, which looks only at their keys. -/
structure KeyOrder where
  order {α : Type} (entries : List (String × α)) : List (String × α)
  order_map {α β : Type} (f : α → β) (entries : List (String × α)) :
    order (entries.map fun e => (e.1, f e.2)) = (order entries).map fun e => (e.1, f e.2)
  /-- No entry is made up. -/
  subset {α : Type} (entries : List (String × α)) : order entries ⊆ entries
  /-- No entry is lost where no key comes twice. -/
  perm {α : Type} {entries : List (String × α)} (nodup : (entries.map (·.1)).Nodup) : (order entries).Perm entries

namespace KeyOrder

/-- The order in which the entries are written. -/
def written : KeyOrder := ⟨fun entries => entries, fun _ _ => rfl, fun _ => List.Subset.refl _, fun _ => .refl _⟩

/-- The order of the keys. -/
def sorted : KeyOrder := ⟨Json.sortEntries, Json.sortEntries_map, Json.sortEntries_subset, Json.sortEntries_perm⟩

variable {α : Type} (o : KeyOrder) {entries : List (String × α)}

@[simp] theorem order_nil : o.order ([] : List (String × α)) = [] := List.subset_nil.mp (o.subset [])

theorem nodup_order (nodup : (entries.map (·.1)).Nodup) : ((o.order entries).map (·.1)).Nodup :=
  ((o.perm nodup).map _).nodup_iff.mpr nodup

end KeyOrder

namespace Json

mutual

/-- The value with the entries of every object in an order of keys. -/
def inOrder (o : KeyOrder) : Json → Json
  | arr items => arr (itemsInOrder o items)
  | obj entries => obj (o.order (entriesInOrder o entries))
  | value => value

def itemsInOrder (o : KeyOrder) : List Json → List Json
  | [] => []
  | item :: items => item.inOrder o :: itemsInOrder o items

def entriesInOrder (o : KeyOrder) : List (String × Json) → List (String × Json)
  | [] => []
  | (key, value) :: entries => (key, value.inOrder o) :: entriesInOrder o entries

end

/-- What holds of a list or an object as soon as it holds of the values inside it holds of all values. -/
theorem value_induction {P : Json → Prop} (null : P .null) (bool : ∀ b, P (.bool b)) (num : ∀ n, P (.num n))
    (str : ∀ s, P (.str s)) (arr : ∀ items, (∀ j ∈ items, P j) → P (.arr items))
    (obj : ∀ entries, (∀ e ∈ entries, P e.2) → P (.obj entries)) (j : Json) : P j :=
  @Json.rec P (fun items => ∀ j ∈ items, P j) (fun entries => ∀ e ∈ entries, P e.2) (fun e => P e.2) null bool num str
    (fun items h => arr items h) (fun entries h => obj entries h) (List.forall_mem_nil _)
    (fun _ _ h hrest => List.forall_mem_cons.mpr ⟨h, hrest⟩) (List.forall_mem_nil _)
    (fun _ _ h hrest => List.forall_mem_cons.mpr ⟨h, hrest⟩) (fun _ _ h => h) j

theorem itemsInOrder_eq (o : KeyOrder) (items : List Json) : itemsInOrder o items = items.map (inOrder o) := by
  induction items with
  | nil => rfl
  | cons j rest ih => rw [itemsInOrder, ih, List.map_cons]

theorem entriesInOrder_eq (o : KeyOrder) (entries : List (String × Json)) :
    entriesInOrder o entries = entries.map fun e => (e.1, e.2.inOrder o) := by
  induction entries with
  | nil => rfl
  | cons e rest ih => rw [entriesInOrder, ih, List.map_cons]

/-- In the order in which it is written a value stays as it is. -/
@[simp] theorem inOrder_written (j : Json) : j.inOrder .written = j := by
  induction j using value_induction with
  | arr items ih =>
    rw [inOrder, itemsInOrder_eq]
    exact congrArg Json.arr ((List.map_congr_left ih).trans (List.map_id' items))
  | obj entries ih =>
    rw [inOrder, entriesInOrder_eq]
    have hentries : (entries.map fun e => (e.1, e.2.inOrder .written)) = entries.map fun e => e :=
      List.map_congr_left fun e he => Prod.ext rfl (ih e he)
    exact congrArg Json.obj (hentries.trans (List.map_id' entries))
  | _ => rfl

/-- In the order of the keys a value is normalized. -/
theorem inOrder_sorted (j : Json) : j.inOrder .sorted = j.normalize := by
  induction j using value_induction with
  | arr items ih =>
    rw [inOrder, normalize, itemsInOrder_eq, normalizeItems_eq, List.map_congr_left ih]
  | obj entries ih =>
    rw [inOrder, normalize, entriesInOrder_eq, normalizeEntries_eq, ofEntries]
    exact congrArg (fun entries => Json.obj (sortEntries entries))
      (List.map_congr_left fun e he => Prod.ext rfl (ih e he))
  | _ => rfl

end Json
end StepTree
