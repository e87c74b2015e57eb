import StepTree.Json.Basic
import StepTree.Number.Literal

/-! # Paths into values

A path such as `items[0].name` is a row of dotted segments, each a key followed by indices in brackets.
A key that is a number also selects from an array, so `items.0.name` is the same path. Empty segments
are skipped. -/

namespace StepTree

/-- One step of a path. -/
inductive Access where
  | key (name : List Char)
  | index (n : Nat)
  deriving DecidableEq

namespace Json

/-- A position in an array as it is written in a path. -/
def position? (s : List Char) : Option Nat := Literal.unsigned? 10 Literal.word64 s

/-- The value one step into a value. -/
def access? : Access → Json → Option Json
  | .key name, arr items => do items[← position? name]?
  | .key name, value => value.field? (String.ofList name)
  | .index n, arr items => items[n]?
  | .index _, _ => none

end Json

namespace Path

/-- The index in a bracket whose opening was removed: `3]`. -/
def index? (s : List Char) : Option Access :=
  match s.dropWhile (· != ']') with
  | [']'] => (Json.position? (Text.trim (s.takeWhile (· != ']')))).map .index
  | _ => none

/-- The steps of one segment: its key, unless it is empty, and its indices. -/
def segment? (s : List Char) : Option (List Access) :=
  match Text.split '[' s with
  | [] => some []
  | name :: brackets => do
    let indices ← brackets.mapM index?
    some (if name.isEmpty then indices else .key name :: indices)

/-- The steps of a path; none when a bracket is malformed. -/
def parse? (s : List Char) : Option (List Access) := do
  let segments ← (Text.split '.' (Text.trim s)).mapM segment?
  some segments.flatten

end Path

namespace Json

/-- The value at the end of a row of steps. -/
def follow? (value : Json) (steps : List Access) : Option Json := steps.foldlM (fun v a => v.access? a) value

/-- The value that a path selects; a blank path selects the value itself. -/
def select? (value : Json) (path : List Char) : Option Json := do value.follow? (← Path.parse? path)

/-! ### Laws -/

variable {value inner : Json}

/-- One step leads to an item of an array, or to what an object has under a key. -/
theorem access?_cases {a : Access} (h : value.access? a = some inner) :
    (∃ items, value = arr items ∧ inner ∈ items) ∨
      ∃ entries key, value = obj entries ∧ (key, inner) ∈ entries := by
  cases value with
  | arr items =>
    refine Or.inl ⟨items, rfl, ?_⟩
    cases a with
    | key name =>
      obtain ⟨i, -, hi⟩ := Option.bind_eq_some_iff.mp h
      exact List.mem_of_getElem? hi
    | index i => exact List.mem_of_getElem? h
  | obj entries =>
    cases a with
    | key name =>
      obtain ⟨before, after, hentries, -⟩ := List.lookup_eq_some_iff.mp h
      exact Or.inr ⟨entries, _, rfl, hentries ▸ List.mem_append_right _ List.mem_cons_self⟩
    | index i => cases h
  | _ => cases a <;> cases h

/-- What every step keeps, a row of steps keeps. -/
theorem follow?_keeps {P : Json → Prop} (step : ∀ a v w, v.access? a = some w → P v → P w) {steps : List Access}
    (h : value.follow? steps = some inner) (first : P value) : P inner := by
  unfold follow? at h
  induction steps generalizing value with
  | nil =>
    cases h
    exact first
  | cons a rest ih =>
    rw [List.foldlM_cons] at h
    obtain ⟨next, hnext, hrest⟩ := Option.bind_eq_some_iff.mp h
    exact ih hrest (step a value next hnext first)

/-- What every step keeps, what a path selects keeps. -/
theorem select?_keeps {P : Json → Prop} (step : ∀ a v w, v.access? a = some w → P v → P w) {path : List Char}
    (h : value.select? path = some inner) (first : P value) : P inner := by
  obtain ⟨steps, -, hsteps⟩ := Option.bind_eq_some_iff.mp h
  exact follow?_keeps step hsteps first

end Json

end StepTree
