import StepTree.Proofs.Documents
import StepTree.Proofs.Encoding.Order
import StepTree.Proofs.Seeding
import StepTree.Trace.Decoding

/-! # Reading values that were written

A value is read from the tree that shows it. Whether the types in the tree were decided before, and in which order the
keys of its objects come, makes no difference to what is read, but for the order in which named values are listed. -/

namespace StepTree

/-! ### Entries by key -/

theorem Ordered.insert_of_not_mem {α : Type} {name : String} {value : α} {entries : List (String × α)}
    (fresh : name ∉ entries.map (·.1)) : insert name value entries = entries ++ [(name, value)] := by
  induction entries with
  | nil => rfl
  | cons e rest ih =>
    obtain ⟨n, v⟩ := e
    rw [List.map_cons, List.mem_cons, not_or] at fresh
    rw [insert, if_neg (Ne.symm fresh.1), ih fresh.2]
    rfl

/-- Entries of which no two have the same name are listed as they were written. -/
theorem Ordered.extend_of_nodup {α : Type} {entries written : List (String × α)}
    (nodup : ((entries ++ written).map (·.1)).Nodup) : extend entries written = entries ++ written := by
  induction written generalizing entries with
  | nil => rw [List.append_nil, extend, List.foldl_nil]
  | cons e rest ih =>
    have hfresh : e.1 ∉ entries.map (·.1) := by
      have hperm : (entries ++ e :: rest).Perm (e :: (entries ++ rest)) := List.perm_middle
      have hmiddle : ((e :: (entries ++ rest)).map (·.1)).Nodup := (hperm.map _).nodup_iff.mp nodup
      rw [List.map_cons, List.nodup_cons, List.map_append, List.mem_append, not_or] at hmiddle
      exact hmiddle.1.1
    have happend : entries ++ e :: rest = entries ++ [e] ++ rest := by rw [List.append_assoc, List.singleton_append]
    rw [happend] at nodup ⊢
    rw [← ih nodup, extend, List.foldl_cons, insert_of_not_mem hfresh]
    rfl

theorem Ordered.ofList_of_nodup {α : Type} {entries : List (String × α)} (nodup : (entries.map (·.1)).Nodup) :
    ofList entries = entries := extend_of_nodup nodup

namespace Entries
variable {α β : Type} {key : String} {entries : List (String × α)}

theorem lookup_cons (k : String) (value : α) (rest : List (String × α)) (key : String) :
    ((k, value) :: rest).lookup key = if key = k then some value else rest.lookup key := by
  by_cases h : key = k
  · rw [h, List.lookup_cons_self, if_pos rfl]
  · rw [List.lookup_cons, beq_eq_false_iff_ne.mpr h, if_neg h]

theorem lookup_eq_none (fresh : key ∉ entries.map (·.1)) : entries.lookup key = none := by
  rw [List.lookup_eq_none_iff]
  intro e he
  rw [bne_iff_ne]
  exact fun heq => fresh (List.mem_map.mpr ⟨e, he, heq.symm⟩)

theorem lookup_append_of_fresh (fresh : key ∉ entries.map (·.1)) (rest : List (String × α)) :
    (entries ++ rest).lookup key = rest.lookup key := by rw [List.lookup_append, lookup_eq_none fresh, Option.none_or]

theorem lookup_map_values (f : α → β) (entries : List (String × α)) (key : String) :
    (entries.map fun e => (e.1, f e.2)).lookup key = (entries.lookup key).map f := by
  induction entries with
  | nil => rfl
  | cons e rest ih =>
    rw [List.map_cons, List.lookup_cons, List.lookup_cons, ih]
    split <;> rfl

theorem lookup_filter_keys (p : String → Prop) [DecidablePred p] (h : p key) (entries : List (String × α)) :
    (entries.filter fun e => p e.1).lookup key = entries.lookup key := by
  induction entries with
  | nil => rfl
  | cons e rest ih =>
    obtain ⟨k, v⟩ := e
    rw [List.filter_cons]
    split
    · rw [lookup_cons, lookup_cons, ih]
    · next hp =>
      have hne : key ≠ k := by
        rintro rfl
        exact hp (by simpa using h)
      rw [lookup_cons, if_neg hne, ih]

theorem lookup_iff_mem (nodup : (entries.map (·.1)).Nodup) {value : α} :
    entries.lookup key = some value ↔ (key, value) ∈ entries := by
  induction entries with
  | nil => simp
  | cons e rest ih =>
    obtain ⟨k, v⟩ := e
    obtain ⟨hfresh, hrest⟩ := List.nodup_cons.mp nodup
    rw [List.lookup_cons]
    by_cases hk : key = k
    · subst hk
      have hother : (key, value) ∉ rest := fun hmem => hfresh (List.mem_map.mpr ⟨_, hmem, rfl⟩)
      simp [hother, eq_comm]
    · rw [beq_eq_false_iff_ne.mpr hk, ih hrest]
      simp [hk]

/-- Where no key comes twice, the order of the entries does not matter. -/
theorem lookup_order (o : KeyOrder) (nodup : (entries.map (·.1)).Nodup) (key : String) :
    (o.order entries).lookup key = entries.lookup key := by
  ext value
  rw [lookup_iff_mem (o.nodup_order nodup), lookup_iff_mem nodup, (o.perm nodup).mem_iff]

end Entries

/-! ### Trees that show a value -/

namespace Node

mutual

/-- The tree of a value with the entries of every object in an order of keys. -/
def shown (o : KeyOrder) (settled : Bool) : Json → Node
  | .null => null
  | .bool b => bool b
  | .num n => num n
  | .str s => str s
  | .arr items => list (shownItems o settled items)
  | .obj entries => table settled ((o.order (shownEntries o settled entries)).map fun e => (str e.1, e.2))

def shownItems (o : KeyOrder) (settled : Bool) : List Json → List Node
  | [] => []
  | j :: rest => shown o settled j :: shownItems o settled rest

def shownEntries (o : KeyOrder) (settled : Bool) : List (String × Json) → List (String × Node)
  | [] => []
  | (key, value) :: rest => (key, shown o settled value) :: shownEntries o settled rest

end

/-- The table of entries as they come. -/
def tableOf (o : KeyOrder) (settled : Bool) (entries : List (String × Json)) : Node :=
  table settled (entries.map fun e => (str e.1, shown o settled e.2))

variable {o : KeyOrder} {settled : Bool} {items : List Json} {entries : List (String × Json)}

theorem shown_arr (o : KeyOrder) (settled : Bool) (items : List Json) :
    shown o settled (.arr items) = list (items.map (shown o settled)) := by
  rw [shown]
  congr 1
  induction items with
  | nil => rfl
  | cons j rest ih => rw [shownItems, ih, List.map_cons]

theorem shownEntries_eq (o : KeyOrder) (settled : Bool) (entries : List (String × Json)) :
    shownEntries o settled entries = entries.map fun e => (e.1, shown o settled e.2) := by
  induction entries with
  | nil => rfl
  | cons e rest ih => rw [shownEntries, ih, List.map_cons]

theorem shown_obj (o : KeyOrder) (settled : Bool) (entries : List (String × Json)) :
    shown o settled (.obj entries) = tableOf o settled (o.order entries) := by
  rw [shown, shownEntries_eq, o.order_map, List.map_map]
  rfl

theorem ofItems_eq (items : List Json) : ofItems items = items.map ofJson := by
  induction items with
  | nil => rfl
  | cons j rest ih => rw [ofItems, ih, List.map_cons]

theorem ofEntries_eq (entries : List (String × Json)) :
    ofEntries entries = entries.map fun e => (str e.1, ofJson e.2) := by
  induction entries with
  | nil => rfl
  | cons e rest ih => rw [ofEntries, ih, List.map_cons]

/-- The tree of a value in order shows the value. -/
theorem ofJson_inOrder (o : KeyOrder) (j : Json) : ofJson (j.inOrder o) = shown o false j := by
  induction j using Json.value_induction with
  | arr items ih =>
    rw [Json.inOrder, ofJson, Json.itemsInOrder_eq, ofItems_eq, shown_arr, List.map_map]
    exact congrArg list (List.map_congr_left ih)
  | obj entries ih =>
    rw [Json.inOrder, ofJson, Json.entriesInOrder_eq, o.order_map, ofEntries_eq, shown_obj, tableOf, List.map_map]
    exact congrArg (table false) (List.map_congr_left fun e he => Prod.ext rfl (ih e (o.subset _ he)))
  | _ => rfl

/-! ### Types and levels -/

theorem typedItems?_map {f g : Json → Node} (h : ∀ j ∈ items, (f j).typed? = some (g j)) :
    typedItems? (items.map f) = some (items.map g) := by
  induction items with
  | nil => rfl
  | cons j rest ih =>
    obtain ⟨hj, hrest⟩ := List.forall_mem_cons.mp h
    rw [List.map_cons, typedItems?, hj, ih hrest]
    rfl

theorem typedEntries?_map {f g : Json → Node} (h : ∀ e ∈ entries, (f e.2).typed? = some (g e.2)) :
    typedEntries? (entries.map fun e => (str e.1, f e.2)) = some (entries.map fun e => (str e.1, g e.2)) := by
  induction entries with
  | nil => rfl
  | cons e rest ih =>
    obtain ⟨he, hrest⟩ := List.forall_mem_cons.mp h
    rw [List.map_cons, typedEntries?, he, ih hrest]
    rfl

/-- To decide the types in the tree of a value changes nothing else. -/
theorem typed?_shown (o : KeyOrder) (settled : Bool) (j : Json) :
    (shown o settled j).typed? = some (shown o true j) := by
  induction j using Json.value_induction with
  | arr items ih => rw [shown_arr, shown_arr, typed?, typedItems?_map ih, Option.map_some]
  | obj entries ih =>
    rw [shown_obj, shown_obj, tableOf, tableOf, typed?, typedEntries?_map fun e he => ih e (o.subset _ he),
      Option.map_some]
  | _ => rfl

theorem typed?_tableOf (o : KeyOrder) (settled : Bool) (entries : List (String × Json)) :
    (tableOf o settled entries).typed? = some (tableOf o true entries) := by
  rw [tableOf, typed?, typedEntries?_map fun e _ => typed?_shown o settled e.2, Option.map_some]
  rfl

theorem levelsOfItems_eq {f g : Json → Node} (h : ∀ j ∈ items, (f j).levels = (g j).levels) :
    levelsOfItems (items.map f) = levelsOfItems (items.map g) := by
  induction items with
  | nil => rfl
  | cons j rest ih =>
    obtain ⟨hj, hrest⟩ := List.forall_mem_cons.mp h
    rw [List.map_cons, List.map_cons, levelsOfItems, levelsOfItems, hj, ih hrest]

theorem levelsOfEntries_eq {f g : Json → Node} (h : ∀ e ∈ entries, (f e.2).levels = (g e.2).levels) :
    levelsOfEntries (entries.map fun e => (str e.1, f e.2)) =
      levelsOfEntries (entries.map fun e => (str e.1, g e.2)) := by
  induction entries with
  | nil => rfl
  | cons e rest ih =>
    obtain ⟨he, hrest⟩ := List.forall_mem_cons.mp h
    rw [List.map_cons, List.map_cons, levelsOfEntries, levelsOfEntries, he, ih hrest]

/-- The number of levels of the tree of a value. -/
def levelsIn (o : KeyOrder) (j : Json) : Nat := (shown o false j).levels

theorem levels_shown (o : KeyOrder) (settled : Bool) (j : Json) : (shown o settled j).levels = levelsIn o j := by
  unfold levelsIn
  induction j using Json.value_induction with
  | arr items ih => rw [shown_arr, shown_arr, levels, levels, levelsOfItems_eq ih]
  | obj entries ih =>
    rw [shown_obj, shown_obj, tableOf, tableOf, levels, levels, levelsOfEntries_eq fun e he => ih e (o.subset _ he)]
  | _ => rfl

theorem levels_le_ofItems {n : Node} {nodes : List Node} (h : n ∈ nodes) : n.levels ≤ levelsOfItems nodes := by
  induction nodes with
  | nil => cases h
  | cons first rest ih =>
    rw [levelsOfItems]
    rcases List.mem_cons.mp h with rfl | h
    · exact Nat.le_max_left ..
    · exact Nat.le_trans (ih h) (Nat.le_max_right ..)

theorem levels_le_ofEntries {e : Node × Node} {nodes : List (Node × Node)} (h : e ∈ nodes) :
    e.2.levels ≤ levelsOfEntries nodes := by
  induction nodes with
  | nil => cases h
  | cons first rest ih =>
    rw [levelsOfEntries]
    rcases List.mem_cons.mp h with rfl | h
    · exact Nat.le_max_left ..
    · exact Nat.le_trans (ih h) (Nat.le_max_right ..)

theorem levelsIn_item {j : Json} (h : j ∈ items) : levelsIn o j < levelsIn o (.arr items) := by
  unfold levelsIn
  rw [shown_arr, levels]
  exact Nat.lt_succ_of_le (levels_le_ofItems (List.mem_map_of_mem h))

theorem levelsIn_entry (nodup : (entries.map (·.1)).Nodup) (key : String) {value : Json}
    (h : (key, value) ∈ entries) : levelsIn o value < levelsIn o (.obj entries) := by
  have hlisted : (key, value) ∈ o.order entries := (o.perm nodup).mem_iff.mpr h
  unfold levelsIn
  rw [shown_obj, tableOf, levels]
  exact Nat.lt_succ_of_le (levels_le_ofEntries (e := (str key, shown o false value)) (List.mem_map_of_mem hlisted))

/-! ### Readers of values -/

/-- The reader gets the same from every tree that shows the value. -/
def Reads {α : Type} (o : KeyOrder) (decode : Node → Option α) (j : Json) (a : α) : Prop :=
  ∀ settled, decode (shown o settled j) = some a

namespace Reads
variable {α : Type} {decode : Node → Option α}

theorem string (s : String) : Reads o string? (.str s) s := fun _ => rfl

theorem bool (b : Bool) : Reads o bool? (.bool b) b := fun _ => rfl

theorem size (n : Nat) : Reads o size? (.ofNat n) n := by
  intro settled
  change size? (num (.int n)) = some n
  rw [size?, if_pos (Int.natCast_nonneg n), Int.toNat_natCast]

theorem natural {limit n : Nat} (h : n < limit) : Reads o (natural? limit) (.ofNat n) n := by
  intro settled
  change (if (0 : Int) ≤ n ∧ (n : Int) < limit then some (n : Int).toNat else none) = some n
  rw [if_pos ⟨Int.natCast_nonneg n, Int.ofNat_lt.mpr h⟩, Int.toNat_natCast]

theorem word (n : UInt64) : Reads o word? (.ofWord n) n := by
  intro settled
  have hn : natural? Literal.word64 (shown o settled (.ofNat n.toNat)) = some n.toNat := natural n.toNat_lt settled
  rw [word?, Json.ofWord, hn]
  simp

theorem halfWord (n : UInt32) : Reads o halfWord? (.ofHalfWord n) n := by
  intro settled
  have hn : natural? (Nat.pow 2 32) (shown o settled (.ofNat n.toNat)) = some n.toNat := natural n.toNat_lt settled
  rw [halfWord?, Json.ofHalfWord, hn]
  simp

theorem choice {names others : List (String × α)} {s : String} {a : α} (h : (names ++ others).lookup s = some a) :
    Reads o (choice? names others) (.str s) a := fun _ => h

theorem optional_null (decode : Node → Option α) : Reads o (optional? decode) .null none := fun _ => rfl

theorem optional {j : Json} {a : α} (h : Reads o decode j a) (notNull : j ≠ .null) :
    Reads o (optional? decode) j (some a) := by
  intro settled
  have hj := h settled
  cases j with
  | null => exact absurd rfl notNull
  | _ => exact congrArg (Option.map some) hj

/-- A list of which every item is read. -/
theorem list (encode : α → Json) (read : α → α) {values : List α}
    (h : ∀ a ∈ values, Reads o decode (encode a) (read a)) :
    Reads o (listOf? decode) (.arr (values.map encode)) (values.map read) := by
  intro settled
  rw [shown_arr, listOf?, items?]
  refine mapM_eq_some.mpr ?_
  rw [List.map_map, List.forall₂_map_left_iff, List.forall₂_map_right_iff, List.forall₂_same]
  exact fun a ha => h a ha settled

theorem entries?_tableOf (o : KeyOrder) (settled : Bool) (entries : List (String × Json)) :
    (tableOf o settled entries).entries? = some (entries.map fun e => (e.1, shown o settled e.2)) := by
  refine mapM_eq_some.mpr ?_
  rw [List.forall₂_map_left_iff, List.forall₂_map_right_iff, List.forall₂_same]
  exact fun e _ => rfl

/-- Values by name of which every one is read; they are listed in the order in which their names come. -/
theorem map (encode : α → Json) {values : List (String × α)} (nodup : (values.map (·.1)).Nodup)
    (h : ∀ e ∈ values, Reads o decode (encode e.2) e.2) :
    Reads o (mapOf? decode) (.obj (values.map fun e => (e.1, encode e.2))) (o.order values) := by
  intro settled
  have hread : (((o.order values).map fun e => (e.1, encode e.2)).map fun e => (e.1, shown o settled e.2)).mapM
      (fun e : String × Node => (decode e.2).map fun value => (e.1, value)) = some (o.order values) := by
    refine mapM_eq_some.mpr ?_
    rw [List.map_map, List.forall₂_map_left_iff, List.forall₂_same]
    intro e he
    have hdecode : decode (shown o settled (encode e.2)) = some e.2 := h e (o.subset _ he) settled
    exact congrArg (Option.map fun value => (e.1, value)) hdecode
  rw [shown_obj, o.order_map, mapOf?, entries?_tableOf]
  simp only [Option.bind_eq_bind, Option.bind_some]
  rw [hread, Option.bind_some, Ordered.ofList_of_nodup (o.nodup_order nodup)]

theorem texts {entries : List (String × String)} (nodup : (entries.map (·.1)).Nodup) :
    Reads o texts? (.ofTexts entries) (o.order entries) := Reads.map Json.str nodup fun e _ => Reads.string e.2

/-- A normal value is read as it was written. -/
theorem value {j : Json} (h : j.Normal) : Reads o value? j j := by
  intro settled
  induction h with
  | @arr items _ ih =>
    have hread : ∀ nodes values, List.Forall₂ (fun n j => Node.value? n = some j) nodes values →
        values? nodes = some values := by
      intro nodes values hall
      induction hall with
      | nil => rfl
      | cons hn _ ihrest =>
        rw [values?, hn, ihrest]
        rfl
    rw [shown_arr, value?, hread _ items, Option.map_some]
    rw [List.forall₂_map_left_iff, List.forall₂_same]
    exact ih
  | @obj entries ordered _ ih =>
    have hread : ∀ read : List (String × Json), (∀ e ∈ read, Node.value? (shown o settled e.2) = some e.2) →
        valueEntries? (read.map fun e => (str e.1, shown o settled e.2)) = some read := by
      intro read hall
      induction read with
      | nil => rfl
      | cons e rest ihrest =>
        obtain ⟨he, hrest⟩ := List.forall_mem_cons.mp hall
        rw [List.map_cons, valueEntries?, he, ihrest hrest]
        rfl
    have hnodup := Json.nodup_of_ordered ordered
    have hsorted : Json.sortEntries (o.order entries) = entries :=
      Json.eq_of_ordered (Json.sortEntries_ordered _) ordered
        ((Json.sortEntries_perm (o.nodup_order hnodup)).trans (o.perm hnodup))
    rw [shown_obj, tableOf, value?, hread _ fun e he => ih e (o.subset _ he), Option.map_some, Json.ofEntries, hsorted]
  | _ => rfl

/-- The entries of a normal object are read as they were written. -/
theorem valueMap {entries : List (String × Json)} (h : (Json.obj entries).Normal) :
    Reads o valueMap? (.obj entries) entries := by
  intro settled
  cases h with
  | obj ordered values =>
    have hnodup := Json.nodup_of_ordered ordered
    have hread : ((o.order entries).map fun e => (e.1, shown o settled e.2)).mapM
        (fun e : String × Node => e.2.value?.map fun value => (e.1, value)) = some (o.order entries) := by
      refine mapM_eq_some.mpr ?_
      rw [List.forall₂_map_left_iff, List.forall₂_same]
      intro e he
      have hvalue : value? (shown o settled e.2) = some e.2 := Reads.value (values e (o.subset _ he)) settled
      exact congrArg (Option.map fun value => (e.1, value)) hvalue
    have hsorted : Json.sortEntries (o.order entries) = entries :=
      Json.eq_of_ordered (Json.sortEntries_ordered _) ordered
        ((Json.sortEntries_perm (o.nodup_order hnodup)).trans (o.perm hnodup))
    rw [shown_obj, valueMap?, entries?_tableOf]
    simp only [Option.bind_eq_bind, Option.bind_some]
    rw [hread, Option.bind_some, hsorted]

/-- Normal values by name are read as they were written. -/
theorem values {entries : List (String × Json)} (nodup : (entries.map (·.1)).Nodup)
    (normal : ∀ e ∈ entries, e.2.Normal) : Reads o (mapOf? value?) (.obj entries) (o.order entries) := by
  have h : Reads o (mapOf? value?) (.obj (entries.map fun e => (e.1, e.2))) (o.order entries) :=
    Reads.map (fun j => j) nodup fun e he => Reads.value (normal e he)
  rwa [List.map_id'] at h

end Reads

/-- The reader, given more fuel than the tree of the value has levels, gets the same from every tree that shows the
value. -/
def ReadsWithin {α : Type} (o : KeyOrder) (decode : Nat → Node → Option α) (j : Json) (a : α) : Prop :=
  ∀ fuel, levelsIn o j ≤ fuel → Reads o (decode (fuel + 1)) j a

namespace ReadsWithin
variable {α : Type} {decode : Nat → Node → Option α} {fuel : Nat}

theorem reads {j : Json} {a : α} (h : ReadsWithin o decode j a) (enough : levelsIn o j < fuel) :
    Reads o (decode fuel) j a := by
  cases fuel with
  | zero => exact absurd enough (Nat.not_lt_zero _)
  | succ fuel => exact h fuel (Nat.le_of_lt_succ enough)

theorem list (encode : α → Json) (read : α → α) {values : List α}
    (h : ∀ a ∈ values, ReadsWithin o decode (encode a) (read a))
    (enough : levelsIn o (.arr (values.map encode)) ≤ fuel) :
    Reads o (listOf? (decode fuel)) (.arr (values.map encode)) (values.map read) :=
  .list encode read fun a ha =>
    (h a ha).reads (Nat.lt_of_lt_of_le (levelsIn_item (List.mem_map_of_mem ha)) enough)

end ReadsWithin

end Node

/-! ### Fields of structures -/

open Node

/-- The fields of a structure show, under the names that it knows, the values of the entries. -/
structure Fields.Show (o : KeyOrder) (settled : Bool) (names : List String) (entries : List (String × Json))
    (f : Fields) : Prop where
  positional : f.positional = false
  lookup : ∀ name ∈ names, f.entries.lookup name = (entries.lookup name).map (shown o settled)

namespace Fields
variable {α : Type} {o : KeyOrder} {settled : Bool} {names : List String} {entries : List (String × Json)} {f : Fields}
  {name : String} {decode : Node → Option α}

/-- Of entries of which no two have the same key the known ones are collected. -/
theorem collect?_entries (names : List String) (g : Json → Node) (nodup : (entries.map (·.1)).Nodup) :
    collect? names (entries.map fun e => (str e.1, g e.2)) =
      some ((entries.filter fun e => e.1 ∈ names).map fun e => (e.1, g e.2)) := by
  induction entries with
  | nil => rfl
  | cons e rest ih =>
    obtain ⟨hfresh, hrest⟩ := List.nodup_cons.mp nodup
    rw [List.map_cons, collect?, ih hrest, name?]
    by_cases hknown : e.1 ∈ names
    · have hnone : (rest.filter fun e => e.1 ∈ names).lookup e.1 = none := by
        rw [Entries.lookup_filter_keys (· ∈ names) hknown, Entries.lookup_eq_none hfresh]
      have hlookup := Entries.lookup_map_values g (rest.filter fun e => e.1 ∈ names) e.1
      rw [hnone] at hlookup
      simp only [hknown, if_true, Option.bind_eq_bind, Option.bind_some, hlookup]
      simp [hknown]
    · simp [hknown]

/-- The value that marks the kind of a structure is taken out of its entries. -/
theorem takeMark?_entries (key : String) (g : Json → Node) (nodup : (entries.map (·.1)).Nodup) :
    takeMark? key (entries.map fun e => (str e.1, g e.2)) =
      some ((entries.lookup key).map g, (entries.filter (·.1 ≠ key)).map fun e => (str e.1, g e.2)) := by
  induction entries with
  | nil => rfl
  | cons e rest ih =>
    obtain ⟨k, v⟩ := e
    obtain ⟨hfresh, hrest⟩ := List.nodup_cons.mp nodup
    rw [List.map_cons, takeMark?, ih hrest]
    by_cases hk : k = key
    · subst hk
      simp [Entries.lookup_eq_none hfresh]
    · simp [hk, Entries.lookup_cons, Ne.symm hk]

theorem show_of? (o : KeyOrder) (settled : Bool) (names : List String) (entries : List (String × Json))
    (nodup : (entries.map (·.1)).Nodup) :
    ∃ f, Fields.of? names (tableOf o settled entries) = some f ∧ f.Show o settled names entries := by
  refine ⟨⟨(entries.filter fun e => e.1 ∈ names).map fun e => (e.1, shown o settled e.2), false⟩, ?_, rfl, ?_⟩
  · rw [tableOf, of?, collect?_entries names _ nodup, Option.map_some]
  · intro name hname
    rw [Entries.lookup_map_values, Entries.lookup_filter_keys (· ∈ names) hname]

/-- Where no key comes twice, the fields of an object are found whatever order its keys come in. -/
theorem show_of?_obj (o : KeyOrder) (settled : Bool) (names : List String) (entries : List (String × Json))
    (nodup : (entries.map (·.1)).Nodup) :
    ∃ f, Fields.of? names (shown o settled (.obj entries)) = some f ∧ f.Show o settled names entries := by
  obtain ⟨f, hf, hshow⟩ := show_of? o settled names _ (o.nodup_order nodup)
  refine ⟨f, by rw [shown_obj, hf], hshow.positional, fun name hname => ?_⟩
  rw [hshow.lookup name hname, Entries.lookup_order o nodup]

namespace Show

/-- Some of the fields, whose values other entries hold as well. -/
theorem part {names' : List String} {entries' : List (String × Json)} (h : f.Show o settled names entries)
    (sub : names' ⊆ names) (same : ∀ name ∈ names', entries.lookup name = entries'.lookup name) :
    f.Show o settled names' entries' :=
  ⟨h.positional, fun name known => by rw [h.lookup name (sub known), same name known]⟩

variable (name)

theorem required (h : f.Show o settled names entries) (known : name ∈ names) {j : Json} {a : α}
    (present : entries.lookup name = some j) (reads : Reads o decode j a) : f.required? name decode = some a := by
  rw [required?, h.lookup name known, present]
  exact reads settled

theorem withDefault (h : f.Show o settled names entries) (known : name ∈ names) {j : Json} {a : α} (default : α)
    (present : entries.lookup name = some j) (reads : Reads o decode j a) :
    f.withDefault? name default decode = some a := by
  rw [withDefault?, h.lookup name known, present]
  exact reads settled

theorem absent (h : f.Show o settled names entries) (known : name ∈ names) (default : α) (decode : Node → Option α)
    (absent : entries.lookup name = none) : f.withDefault? name default decode = some default := by
  rw [withDefault?, h.lookup name known, absent]
  rfl

/-- A field that is left out when it is missing. -/
theorem optional_map (h : f.Show o settled names entries) (known : name ∈ names) {encode : α → Json} {read : α → α}
    {value : Option α} (present : entries.lookup name = value.map encode)
    (reads : ∀ a ∈ value, Reads o decode (encode a) (read a) ∧ encode a ≠ .null) :
    f.optional? name decode = some (value.map read) := by
  cases value with
  | none => exact h.absent name known none _ present
  | some a =>
    obtain ⟨hreads, notNull⟩ := reads a rfl
    exact h.withDefault name known none present (hreads.optional notNull)

theorem optional (h : f.Show o settled names entries) (known : name ∈ names) {encode : α → Json} {value : Option α}
    (present : entries.lookup name = value.map encode)
    (reads : ∀ a ∈ value, Reads o decode (encode a) a ∧ encode a ≠ .null) : f.optional? name decode = some value := by
  rw [h.optional_map name known present reads, Option.map_id']

/-- A field that is null when it is missing. -/
theorem optional_null (h : f.Show o settled names entries) (known : name ∈ names) {encode : α → Json}
    {value : Option α} (present : entries.lookup name = some ((value.map encode).getD .null))
    (reads : ∀ a ∈ value, Reads o decode (encode a) a ∧ encode a ≠ .null) : f.optional? name decode = some value := by
  cases value with
  | none => exact h.withDefault name known none present (.optional_null decode)
  | some a =>
    obtain ⟨hreads, notNull⟩ := reads a rfl
    exact h.withDefault name known none present (hreads.optional notNull)

/-- A field that is left out when it is false. -/
theorem flag (h : f.Show o settled names entries) (known : name ∈ names) {b : Bool}
    (present : entries.lookup name = if b = true then some (.bool true) else none) :
    f.withDefault? name false bool? = some b := by
  cases b with
  | false => exact h.absent name known false _ present
  | true => exact h.withDefault name known false present (.bool true)

/-- Texts by name that are left out when there are none. -/
theorem texts (h : f.Show o settled names entries) (known : name ∈ names) {values : List (String × String)}
    (nodup : (values.map (·.1)).Nodup)
    (present : entries.lookup name = if values.isEmpty = false then some (.ofTexts values) else none) :
    f.withDefault? name [] texts? = some (o.order values) := by
  cases values with
  | nil =>
    rw [o.order_nil]
    exact h.absent name known [] _ present
  | cons e rest => exact h.withDefault name known [] present (.texts nodup)

/-- A list that is left out when it is empty. -/
theorem listed (h : f.Show o settled names entries) (known : name ∈ names) {encode : α → Json} {read : α → α}
    {values : List α}
    (present : entries.lookup name = if values.isEmpty = false then some (.arr (values.map encode)) else none)
    (reads : values ≠ [] → Reads o (listOf? decode) (.arr (values.map encode)) (values.map read)) :
    f.withDefault? name [] (listOf? decode) = some (values.map read) := by
  cases values with
  | nil => exact h.absent name known [] _ present
  | cons a rest => exact h.withDefault name known [] present (reads (List.cons_ne_nil _ _))

theorem nullable (h : f.Show o settled names entries) (decode : Node → Option α) :
    f.nullable? name decode = f.optional? name decode := by
  rw [nullable?, h.positional]
  rfl

end Show

end Fields
end StepTree
