/-! # Entries in order of first writing

Named inputs, outputs, variables and bindings are lists of entries in the order in which their names
were first written. Writing a name again keeps its place and changes its value. -/

namespace StepTree.Ordered

variable {α : Type}

/-- Writes the value of a name. -/
def insert (name : String) (value : α) : List (String × α) → List (String × α)
  | [] => [(name, value)]
  | (n, v) :: rest => if n = name then (n, value) :: rest else (n, v) :: insert name value rest

/-- Writes entries one after the other. -/
def extend (entries written : List (String × α)) : List (String × α) :=
  written.foldl (fun entries entry => insert entry.1 entry.2 entries) entries

/-- The entries written one after the other. -/
def ofList (written : List (String × α)) : List (String × α) := extend [] written

/-- The value of a name. -/
def get? (name : String) : List (String × α) → Option α
  | [] => none
  | (n, v) :: rest => if n = name then some v else get? name rest

/-! ### Laws -/

@[simp] theorem get?_insert_self (name : String) (value : α) (entries : List (String × α)) :
    get? name (insert name value entries) = some value := by
  induction entries with
  | nil => simp [insert, get?]
  | cons e rest ih =>
    obtain ⟨n, v⟩ := e
    by_cases h : n = name <;> simp [insert, get?, h, ih]

theorem get?_insert_of_ne {name other : String} (h : other ≠ name) (value : α) (entries : List (String × α)) :
    get? other (insert name value entries) = get? other entries := by
  induction entries with
  | nil => simp [insert, get?, h.symm]
  | cons e rest ih =>
    obtain ⟨n, v⟩ := e
    by_cases hn : n = name
    · subst hn
      simp [insert, get?, h.symm]
    · simp [insert, get?, hn, ih]

/-- A name that has a value has an entry. -/
theorem mem_of_get? {name : String} {value : α} {entries : List (String × α)} (h : get? name entries = some value) :
    (name, value) ∈ entries := by
  induction entries with
  | nil => cases h
  | cons e rest ih =>
    obtain ⟨n, v⟩ := e
    rw [get?] at h
    split at h
    · next hname =>
      subst hname
      cases h
      exact List.mem_cons_self
    · exact List.mem_cons_of_mem _ (ih h)

/-- A name that is written keeps its place; a new name comes last. -/
theorem names_insert (name : String) (value : α) (entries : List (String × α)) :
    (insert name value entries).map (·.1) =
      if name ∈ entries.map (·.1) then entries.map (·.1) else entries.map (·.1) ++ [name] := by
  induction entries with
  | nil => simp [insert]
  | cons e rest ih =>
    obtain ⟨n, v⟩ := e
    by_cases hn : n = name
    · simp [insert, hn]
    · have hn' : ¬ name = n := fun h => hn h.symm
      simp only [insert, hn, ↓reduceIte, List.map_cons, ih, List.mem_cons, hn', false_or]
      split <;> simp

theorem get?_eq_none {name : String} {entries : List (String × α)} (h : name ∉ entries.map (·.1)) :
    get? name entries = none := by
  cases hget : get? name entries with
  | none => rfl
  | some value => exact absurd (List.mem_map_of_mem (mem_of_get? hget)) h

/-- Of entries that are written one after the other, each name once, the written ones win. -/
theorem get?_extend_of_nodup {written : List (String × α)} (nodup : (written.map (·.1)).Nodup) (name : String)
    (entries : List (String × α)) : get? name (extend entries written) = (get? name written).or (get? name entries) := by
  induction written generalizing entries with
  | nil => rfl
  | cons e rest ih =>
    obtain ⟨n, v⟩ := e
    rw [List.map_cons, List.nodup_cons] at nodup
    have hrest : get? name (extend entries ((n, v) :: rest)) = (get? name rest).or (get? name (insert n v entries)) :=
      ih nodup.2 _
    rw [hrest, get?]
    -- The first of the written names is not written again.
    by_cases hn : n = name
    · subst hn
      rw [get?_eq_none nodup.1, get?_insert_self, if_pos rfl]
      rfl
    · rw [get?_insert_of_ne (Ne.symm hn), if_neg hn]

end StepTree.Ordered
