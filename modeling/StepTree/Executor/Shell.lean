import StepTree.Run.Action
import StepTree.Shell.Run

/-! # Shell actions

An action that runs the commands of its input `command` in the directory of its input `cwd`. What commands
leave in files is there for those that come later. -/

namespace StepTree.Executor

/-- What the commands of an action come to. -/
inductive ShellAttempt where
  | missingCommand
  /-- The directory is not there, or is a file. -/
  | noDirectory (isFile : Bool)
  | ran (c : Shell.Completion)

/-- Runs the commands of an action. -/
def attempt (files : FileTree) (vars : List (String × String)) (a : Action) : ShellAttempt :=
  match (a.inputs.lookup "command").filter fun text => !Text.allBlank text with
  | none => .missingCommand
  | some text =>
    let place := match a.inputs.lookup "cwd" with
      | some path => files.find (.inside []) path.toList
      | none => .ok (.inside [])
    match place with
    | .error f => .noDirectory (f = .notDirectory)
    | .ok place =>
      if files.isDirectory place then .ran (Shell.execute files place vars text) else .noDirectory true

/-- The files after the commands of an action. -/
def filesAfter (vars : List (String × String)) (files : FileTree) (a : Action) : FileTree :=
  match attempt files vars a with
  | .ran c => c.files
  | _ => files

/-- The answer to an action whose commands came to their end. -/
def completed (c : Shell.Completion) : Outcome :=
  let output := String.ofList (Text.trimEnd c.output)
  let errors := String.ofList (Text.trimEnd c.errors)
  let failure (status : String) : Outcome :=
    { result := .error ("command exited with status " ++ status ++ ": " ++ errors), elapsedMs := c.elapsedMs }
  match c.status with
  | some 0 =>
    { result := .ok (.obj [("exitCode", .ofNat 0), ("stderr", .str errors), ("stdout", .str output)])
      elapsedMs := c.elapsedMs }
  | some n => failure (toString n)
  | none => failure "-1"

/-- Runs commands among files, with variables. -/
def shell (files : FileTree) (vars : List (String × String)) : Executor := fun earlier a =>
  let before := earlier.toList.filter fun e => e.actionType == a.actionType
  match attempt (before.foldl (filesAfter vars) files) vars a with
  | .missingCommand => { result := .error "command action requires a 'command' input" }
  | .noDirectory isFile =>
    let cause := if isFile then "Not a directory (os error 20)" else "No such file or directory (os error 2)"
    { result := .error ("failed to spawn shell for step '" ++ a.stepId ++ "': " ++ cause) }
  | .ran c => completed c

end StepTree.Executor
