import StepTree.Workflow.Basic

/-! # Validation

The mistakes in a step tree that a run could not recover from: blank or repeated ids, default arms that
are not last, and steps without what drives them. All of them are reported, in the order of the tree. -/

namespace StepTree

/-- A mistake in a step tree. -/
inductive Issue where
  | emptyId (name : String)
  | duplicateId (id : String)
  | multipleDefaultArms (step : String)
  | defaultArmNotLast (step : String) (index : Nat)
  | missingLoopField (step loopType field : String)
  | emptyActionType (step : String)
  | emptyOutputVariable (step path : String)
  deriving DecidableEq

def Issue.message : Issue → String
  | .emptyId name => "step id cannot be empty (step '" ++ name ++ "')"
  | .duplicateId id => "step id '" ++ id ++ "' is used more than once"
  | .multipleDefaultArms step => "branch step '" ++ step ++ "' declares more than one default branch"
  | .defaultArmNotLast step index =>
    "branch step '" ++ step ++ "' has a default branch at position " ++ toString index ++ " that is not last"
  | .missingLoopField step loopType field => loopType ++ " loop '" ++ step ++ "' requires '" ++ field ++ "'"
  | .emptyActionType step => "action step '" ++ step ++ "' has an empty actionType"
  | .emptyOutputVariable step path =>
    "step '" ++ step ++ "' binds result path '" ++ path ++ "' to an empty variable name"

namespace Validation

/-- An expression that is absent or blank. -/
def isBlank (text : Option String) : Bool := (text.map Text.allBlank).getD true

/-- The driving field that a loop lacks, with the name of the loop's type. -/
def missingField? (c : LoopConfig) : Option (String × String) :=
  match c.loopType with
  | .forEach => if isBlank c.source then some ("forEach", "source") else none
  | .whilst => if isBlank c.condition then some ("while", "condition") else none
  | .times =>
    match c.count with
    | none => some ("count", "count")
    | some (.expression text) => if Text.allBlank text then some ("count", "count") else none
    | some (.literal _) => none

/-- The mistakes in the default arms from position `index` on, `last` being the last position. -/
def armIssues (step : String) (last : Nat) : (index : Nat) → (seen : Bool) → List Arm → List Issue
  | _, _, [] => []
  | index, seen, a :: rest =>
    if a.isDefault then
      let here := if seen then [.multipleDefaultArms step]
        else if index ≠ last then [.defaultArmNotLast step index] else []
      here ++ armIssues step last (index + 1) true rest
    else armIssues step last (index + 1) seen rest

/-- The mistakes of a step that lie in its own kind. -/
def kindIssues (id : String) : StepKind → List Issue
  | .action spec => if Text.allBlank spec.actionType then [.emptyActionType id] else []
  | .group _ => []
  | .loop config _ =>
    match missingField? config with
    | some (loopType, field) => [.missingLoopField id loopType field]
    | none => []
  | .branch arms => armIssues id (arms.length - 1) 0 false arms

/-- The outputs of a step that name no variable. -/
def outputIssues (head : StepHead) : List Issue :=
  head.outputs.filterMap fun (path, name) =>
    if Text.allBlank name then some (.emptyOutputVariable head.id path) else none

/-- The mistake in an id, when the ids in `seen` are taken. -/
def idIssues (seen : List String) (head : StepHead) : List Issue :=
  if Text.allBlank head.id then [.emptyId head.name]
  else if head.id ∈ seen then [.duplicateId head.id] else []

/-- The mistakes of one step, without those inside it. -/
def stepIssues (seen : List String) (s : Step) : List Issue :=
  idIssues seen s.head ++ outputIssues s.head ++ kindIssues s.head.id s.kind

/-- The mistakes of steps visited one after the other. -/
def scan (seen : List String) : List Step → List Issue
  | [] => []
  | s :: rest => stepIssues seen s ++ scan (if Text.allBlank s.head.id then seen else s.head.id :: seen) rest

end Validation

/-- All mistakes in a step tree, each step before those inside it. -/
def validate (steps : List Step) : List Issue := Validation.scan [] (Step.forest steps)

end StepTree
