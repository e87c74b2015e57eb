import StepTree.Workflow.Basic
import StepTree.Ordered

/-! # Libraries

The workflows that a step can call, each under its identifier, in the order in which they were given. -/

namespace StepTree

abbrev Library := List (String × Workflow)

/-- Why a list of workflows is no library. -/
inductive LibraryError where
  | missingId
  | duplicateId (id : String)
  deriving DecidableEq

def LibraryError.message : LibraryError → String
  | .missingId => "workflow definition is missing the required 'workflow' identifier"
  | .duplicateId id => "duplicate workflow identifier detected: '" ++ id ++ "'"

namespace Library

/-- A library with one more workflow, under its identifier without the blanks around it. -/
def add (library : Library) (w : Workflow) : Except LibraryError Library :=
  let id := Text.trimmed w.id
  if id = "" then .error .missingId
  else if (Ordered.get? id library).isSome then .error (.duplicateId id)
  else .ok (library ++ [(id, w)])

/-- The library of workflows whose identifiers are there and differ. -/
def ofWorkflows (workflows : List Workflow) : Except LibraryError Library := workflows.foldlM add []

/-- A library with a workflow under its identifier as it is written, in place of one that is there. -/
def put (library : Library) (w : Workflow) : Library := Ordered.insert w.id w library

end Library

end StepTree
