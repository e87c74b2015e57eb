import StepTree.Trace.Basic

/-! # Walks of records

The walk of a record comes to the record itself and then to the records inside it, whatever the record is
of: in the order of its children, its iterations and its arm. -/

namespace StepTree

namespace Record

@[simp] theorem walkAll_nil : walkAll [] = [] := rfl

@[simp] theorem walkAll_cons (r : Record) (rest : List Record) : walkAll (r :: rest) = r.walk ++ walkAll rest := rfl

theorem walkAll_eq_flatMap (records : List Record) : walkAll records = records.flatMap walk := by
  induction records with
  | nil => rfl
  | cons r rest ih => rw [walkAll_cons, ih, List.flatMap_cons]

@[simp] theorem walkAll_append (before after : List Record) :
    walkAll (before ++ after) = walkAll before ++ walkAll after := by
  simp [walkAll_eq_flatMap]

theorem mem_walkAll {r : Record} {records : List Record} : r ∈ walkAll records ↔ ∃ c ∈ records, r ∈ c.walk := by
  rw [walkAll_eq_flatMap, List.mem_flatMap]

end Record

/-- The walk of iterations is that of all records inside them. -/
theorem Iteration.walkAll_eq (iterations : List Iteration) :
    walkAll iterations = Record.walkAll (iterations.flatMap (·.children)) := by
  induction iterations with
  | nil => rfl
  | cons i rest ih =>
    cases i
    rw [walkAll, walk, ih, List.flatMap_cons, Record.walkAll_append]

namespace Record

theorem nested_children (h : RecordHead) (children : List Record) : nested ⟨h, children, none, none⟩ = children := by
  simp [nested]

theorem nested_loop (h : RecordHead) (l : LoopRecord) :
    nested ⟨h, [], some l, none⟩ = l.iterations.flatMap (·.children) := by
  simp [nested]

theorem nested_branch (h : RecordHead) (b : BranchRecord) : nested ⟨h, [], none, some b⟩ = b.children := rfl

/-- A walk comes to a record before it comes to those inside it. -/
theorem walk_eq (r : Record) : r.walk = r :: walkAll r.nested := by
  obtain ⟨head, children, loop, branch⟩ := r
  rcases loop with _ | ⟨summary, iterations⟩ <;> rcases branch with _ | ⟨selection, arm⟩ <;>
    simp [walk, nested, LoopRecord.walkOption, LoopRecord.walk, Iteration.walkAll_eq, BranchRecord.walkOption,
      BranchRecord.walk]

theorem length_walk_of_nested {r c : Record} (h : c ∈ r.nested) : c.walk.length < r.walk.length := by
  obtain ⟨before, after, hsplit⟩ := List.append_of_mem h
  rw [walk_eq r, hsplit, walkAll_append, walkAll_cons]
  simp only [List.length_cons, List.length_append]
  omega

/-- What holds of a record as soon as it holds of the records directly inside it holds of all records. -/
theorem nested_induction {P : Record → Prop} (inside : ∀ r, (∀ c ∈ r.nested, P c) → P r) (r : Record) : P r := by
  induction hn : r.walk.length using Nat.strongRecOn generalizing r with
  | _ n ih =>
    subst hn
    exact inside r fun c hc => ih c.walk.length (length_walk_of_nested hc) c rfl

theorem mem_walk {r outer : Record} : r ∈ outer.walk ↔ r = outer ∨ ∃ c ∈ outer.nested, r ∈ c.walk := by
  rw [walk_eq, List.mem_cons, mem_walkAll]

end Record
end StepTree
