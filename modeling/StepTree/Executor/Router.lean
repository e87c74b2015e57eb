import StepTree.Run.Action
import StepTree.Ordered

/-! # Executors for kinds of actions

A router hands an action to the executor of its type, else to a fallback if there is one. The fallback
that does nothing answers with the action itself. -/

namespace StepTree

namespace Executor

/-- Answers an action with its type, its configuration and its inputs. -/
def echo : Executor := fun _ a =>
  let inputs := a.inputs.map fun (name, text) => (name, Json.str text)
  { result := .ok (.ofEntries ([("actionType", .str a.actionType), ("config", .obj a.config)] ++ inputs)) }

end Executor

structure Router where
  /-- The executors by type of action. -/
  routes : List (String × Executor)
  /-- Takes the actions of all other types. -/
  fallback : Option Executor

namespace Router

/-- The executor that takes actions of a type. -/
def executorFor? (r : Router) (actionType : String) : Option Executor :=
  (r.routes.lookup actionType).orElse fun _ => r.fallback

/-- Hands every action to the executor that takes it; actions that none takes fail. -/
def executor (r : Router) : Executor := fun earlier a =>
  match r.executorFor? a.actionType with
  | some e => e earlier a
  | none => { result := .error ("no executor registered for action type '" ++ a.actionType ++ "'") }

end Router

end StepTree
