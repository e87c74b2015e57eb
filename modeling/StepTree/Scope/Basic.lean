import StepTree.Json.Path
import StepTree.Ordered
import StepTree.Redaction

/-! # Scopes

A scope is a stack of frames over a root frame that is never removed. A name is looked up from the
innermost frame outward, and the first binding found counts, also when it is undefined: then it hides the
outer ones and the name has no value. A write goes to one frame. -/

namespace StepTree

/-- What a name stands for in a frame. -/
structure Binding where
  /-- None when the name is bound but undefined. -/
  value : Option Json
  /-- Secret values are redacted wherever they are recorded. -/
  isSecret : Bool

namespace Binding

def defined (value : Json) : Binding := ⟨some value, false⟩

def undefined : Binding := ⟨none, false⟩

/-- The text that hides this binding's value, if it is secret and has a text. -/
def secretText? (b : Binding) : Option String :=
  if b.isSecret then (b.value.map Json.plainText).filter (· ≠ "") else none

end Binding

/-- The bindings of one layer, in the order in which their names were first bound. -/
abbrev Frame := List (String × Binding)

namespace Frame

/-- The defined values, in order of first binding. -/
def defined (f : Frame) : List (String × Json) :=
  f.filterMap fun (name, b) => b.value.map fun value => (name, value)

/-- The defined values as the entries of an object. -/
def values (f : Frame) : List (String × Json) := Json.sortEntries f.defined

end Frame

/-- A variable that the surroundings of a run contribute. -/
structure EnvironmentVariable where
  name : String
  value : Json
  isSecret : Bool

/-- What the root frame of a run is made from; later sources win. -/
structure Seed where
  inputDefaults : List (String × Json)
  environment : List EnvironmentVariable
  vars : List (String × Json)

structure Scope where
  innermost : Frame
  /-- The frames around the innermost one, the root last. -/
  outer : List Frame

namespace Scope

/-- An empty root frame. -/
def empty : Scope := ⟨[], []⟩

instance : Inhabited Scope := ⟨empty⟩

/-- All frames, from the innermost to the root. -/
def stack (s : Scope) : List Frame := s.innermost :: s.outer

def depth (s : Scope) : Nat := s.outer.length + 1

/-- The index of the innermost frame; the root has index zero. -/
def currentFrame (s : Scope) : Nat := s.outer.length

def root (s : Scope) : Frame := s.outer.getLastD s.innermost

/-- Puts an empty frame on top. -/
def push (s : Scope) : Scope := ⟨[], s.innermost :: s.outer⟩

/-- Takes the innermost frame off, unless it is the root. -/
def pop? (s : Scope) : Option (Frame × Scope) :=
  match s.outer with
  | [] => none
  | f :: outer => some (s.innermost, ⟨f, outer⟩)

/-- The scope without its innermost frame; the root stays. -/
def pop (s : Scope) : Scope :=
  match s.outer with
  | [] => s
  | f :: outer => ⟨f, outer⟩

/-- The scope of a stack that is not empty. -/
def ofStack : List Frame → Scope
  | [] => empty
  | f :: outer => ⟨f, outer⟩

/-- The position in `stack` of a frame index; indices past the innermost frame mean that one. -/
def position (s : Scope) (frame : Nat) : Nat := s.currentFrame - min frame s.currentFrame

/-- Writes a binding into a frame. -/
def bindInFrame (s : Scope) (frame : Nat) (name : String) (b : Binding) : Scope :=
  ofStack (s.stack.modify (s.position frame) (Ordered.insert name b))

/-- The binding of a name in one frame. -/
def bindingInFrame? (s : Scope) (frame : Nat) (name : String) : Option Binding := do
  Ordered.get? name (← s.stack[s.position frame]?)

/-- Writes a binding into the innermost frame. -/
def bind (s : Scope) (name : String) (b : Binding) : Scope := ⟨Ordered.insert name b s.innermost, s.outer⟩

/-- Binds a value that is not secret in the innermost frame. -/
def set (s : Scope) (name : String) (value : Json) : Scope := s.bind name (.defined value)

/-- Binds values that are not secret, one after the other. -/
def setAll (s : Scope) (values : List (String × Json)) : Scope :=
  values.foldl (fun s entry => s.set entry.1 entry.2) s

/-- The nearest binding of a name. -/
def binding? (s : Scope) (name : String) : Option Binding := s.stack.findSome? (Ordered.get? name)

/-- The value of a name. -/
def get? (s : Scope) (name : String) : Option Json := (s.binding? name).bind (·.value)

/-- The frames with the nearest binding of a name made secret; none if the name is not bound. -/
def markIn? (name : String) : List Frame → Option (List Frame)
  | [] => none
  | f :: fs =>
    match Ordered.get? name f with
    | some b => some (Ordered.insert name { b with isSecret := true } f :: fs)
    | none => (markIn? name fs).map (f :: ·)

/-- Makes the nearest binding of a name secret. -/
def markSecret (s : Scope) (name : String) : Scope :=
  match markIn? name s.stack with
  | some frames => ofStack frames
  | none => s

/-- The value of a path: the name before the first `.` or `[` is looked up, and the rest of the path is
followed into its value. -/
def lookup (s : Scope) (path : List Char) : Option Json :=
  let path := Text.trim path
  let name := path.takeWhile fun c => c != '.' && c != '['
  if name.isEmpty then none
  else do
    let value ← s.get? (String.ofList name)
    match path.drop name.length with
    | '.' :: rest => value.select? rest
    | rest => value.select? rest

/-- The texts of all secret values in any frame, also of hidden bindings, ordered and without
repetition. -/
def secrets (s : Scope) : Secrets :=
  let texts := s.stack.flatMap fun f => f.filterMap fun entry => entry.2.secretText?
  (Json.sortEntries (texts.map fun text => (text, ()))).map (·.1)

/-- The values that names stand for. A name keeps the place of its outermost binding. -/
def visible (s : Scope) : List (String × Json) :=
  Frame.defined (s.stack.reverse.foldl Ordered.extend [])

/-- The root frame of a run. -/
def ofSeed (seed : Seed) : Scope :=
  let scope := empty.setAll seed.inputDefaults
  let scope := seed.environment.foldl (fun s v => s.bind v.name ⟨some v.value, v.isSecret⟩) scope
  scope.setAll seed.vars

end Scope

/-! ### Laws -/

namespace Frame

theorem defined_names_sublist (f : Frame) : (f.defined.map (·.1)).Sublist (f.map (·.1)) := by
  unfold defined
  induction f with
  | nil => exact List.Sublist.slnil
  | cons e rest ih =>
    obtain ⟨n, b⟩ := e
    rw [List.filterMap_cons]
    dsimp only
    cases b.value with
    | none => exact ih.cons n
    | some value => exact ih.cons_cons n

end Frame

namespace Scope

theorem stack_bindInFrame (s : Scope) (frame : Nat) (name : String) (b : Binding) :
    (s.bindInFrame frame name b).stack = s.stack.modify (s.position frame) (Ordered.insert name b) := by
  unfold bindInFrame
  cases hstack : s.stack.modify (s.position frame) (Ordered.insert name b) with
  | nil =>
    have hlength := congrArg List.length hstack
    rw [List.length_modify] at hlength
    cases hlength
  | cons f outer => rfl

theorem mem_stack_pop {s : Scope} {f : Frame} (h : f ∈ s.pop.stack) : f ∈ s.stack := by
  obtain ⟨g, outer⟩ := s
  cases outer with
  | nil => exact h
  | cons g' outer => exact List.mem_cons_of_mem g h

/-- A write to a frame leaves the others as they are. -/
theorem mem_stack_bindInFrame {s : Scope} {frame : Nat} {name : String} {b : Binding} {g : Frame}
    (h : g ∈ (s.bindInFrame frame name b).stack) : g ∈ s.stack ∨ ∃ f ∈ s.stack, g = Ordered.insert name b f := by
  rw [stack_bindInFrame] at h
  obtain ⟨i, hi⟩ := List.mem_iff_getElem?.mp h
  rw [List.getElem?_modify] at hi
  obtain ⟨f, hf, rfl⟩ := Option.map_eq_some_iff.mp hi
  have hmem := List.mem_of_getElem? hf
  split
  · exact Or.inr ⟨f, hmem, rfl⟩
  · exact Or.inl hmem

end Scope

end StepTree
