import StepTree.Document.Node

/-! # Structures in documents

A structure is written as a table by field names; a field that is not known is ignored and a known one may
not occur twice. Where types are already decided a structure may also be written as the list of its
fields in order, and a field of a table may be given by its position. -/

namespace StepTree

/-- The fields of one structure. -/
structure Fields where
  entries : List (String × Node)
  /-- The structure is written as a list: then only fields with a default may be absent. -/
  positional : Bool

namespace Fields

/-- The name of the known field that a key stands for: `some none` for an unknown field. -/
def name? (names : List String) : Node → Option (Option String)
  | .str s => some (if s ∈ names then some s else none)
  | .scalar s =>
    let s := String.ofList s.text
    some (if s ∈ names then some s else none)
  | .num (.int n) => if 0 ≤ n then some names[n.toNat]? else none
  | _ => none

/-- The known fields of a table, none when one occurs twice. -/
def collect? (names : List String) : List (Node × Node) → Option (List (String × Node))
  | [] => some []
  | (key, value) :: rest => do
    let name ← name? names key
    let fields ← collect? names rest
    match name with
    | none => some fields
    | some name => if (fields.lookup name).isSome then none else some ((name, value) :: fields)

/-- The fields of a structure with these field names. -/
def of? (names : List String) : Node → Option Fields
  | .table _ entries => (collect? names entries).map fun fields => ⟨fields, false⟩
  | .mapping _ entries => (collect? names entries).map fun fields => ⟨fields, false⟩
  | .list items => if items.length ≤ names.length then some ⟨names.zip items, true⟩ else none
  | .scalar s => if s.isEmpty then some ⟨[], false⟩ else none
  | _ => none

variable {α : Type}

/-- A field that must be present. -/
def required? (f : Fields) (name : String) (decode : Node → Option α) : Option α := do decode (← f.entries.lookup name)

/-- A field with a default. -/
def withDefault? (f : Fields) (name : String) (default : α) (decode : Node → Option α) : Option α :=
  match f.entries.lookup name with
  | none => some default
  | some n => decode n

/-- A field whose value may be missing. -/
def optional? (f : Fields) (name : String) (decode : Node → Option α) : Option (Option α) :=
  f.withDefault? name none (Node.optional? decode)

/-- A field whose value may be missing, but that must be present in a list. -/
def nullable? (f : Fields) (name : String) (decode : Node → Option α) : Option (Option α) :=
  if f.positional then f.required? name (Node.optional? decode) else f.optional? name decode

end Fields

namespace Node

variable {α : Type}

/-- What stands for nothing beside the name of a choice: null, or, where types are settled, an empty table. -/
def isNothing (settled : Bool) : Node → Bool
  | null => true
  | table _ entries => settled && entries.isEmpty
  | _ => false

/-- A name out of several, or another name for one of them; it may also be written as a table with this
name, or its position among the names, and nothing. -/
def choice? (names others : List (String × α)) : Node → Option α
  | str s => (names ++ others).lookup s
  | table settled [(key, value)] =>
    if isNothing settled value then
      match key with
      | str s => (names ++ others).lookup s
      | num (.int n) => if 0 ≤ n then (names[n.toNat]?).map (·.2) else none
      | _ => none
    else none
  | _ => none

/-- A name out of several that marks the kind of a structure; it may also be given by its position. -/
def mark? (names : List (String × α)) : Node → Option α
  | str s => names.lookup s
  | num (.int n) => if 0 ≤ n then (names[n.toNat]?).map (·.2) else none
  | _ => none

/-- Takes the entry under the key that marks the kind of a structure out of a table. -/
def takeMark? (key : String) : List (Node × Node) → Option (Option Node × List (Node × Node))
  | [] => some (none, [])
  | (k, value) :: rest => do
    let (mark, others) ← takeMark? key rest
    match k with
    | str s =>
      if s = key then
        if mark.isSome then none else some (some value, others)
      else some (mark, (k, value) :: others)
    | _ => some (mark, (k, value) :: others)

end Node

end StepTree
