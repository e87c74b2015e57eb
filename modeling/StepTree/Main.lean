import StepTree.CommandLine.Basic
import Std.Time.DateTime.Timestamp

/-! # The program

Reads what the command line needs from the surroundings, and prints what it gives. -/

namespace StepTree.CommandLine

/-- The variables of the surroundings that are looked at. -/
def variableNames : List String :=
  Settings.Override.maxIterations.variableName :: Settings.Override.maxCallDepth.variableName ::
    Settings.Override.actionTimeout.variableName :: ["HOME", "PATH", "USER"]

/-- The files that an invocation names. -/
def Invocation.paths : Invocation → List String
  | run o => o.file :: (o.environmentFile.toList ++ o.settingsFile.toList)
  | validate path => [path]
  | _ => []

/-- Reads the files that are there. -/
def readFiles (paths : List String) : IO FileTree := do
  let files ← paths.filterMapM fun (path : String) => do
    try return some (path, (← IO.FS.readBinFile path).toList)
    catch _ => return none
  return .ofFiles files

/-- Reads the variables that are set. -/
def readVariables : IO (List (String × String)) :=
  variableNames.filterMapM fun name => do return (← IO.getEnv name).map fun value => (name, value)

def surroundings (i : Invocation) : IO Surroundings := do
  let now ← Std.Time.Timestamp.now
  let milliseconds := now.toMillisecondsSinceUnixEpoch.val.toNat
  return {
    files := ← readFiles i.paths, vars := ← readVariables
    now := .ofMilliseconds milliseconds, runId := "run-" ++ toString milliseconds }

end StepTree.CommandLine

open StepTree.CommandLine in
def main (args : List String) : IO UInt32 := do
  let invocation := Invocation.ofArguments args
  match evaluate (← surroundings invocation) invocation with
  | none =>
    IO.eprintln "error: these arguments cannot be used\n\nFor more information, try '--help'."
    return 2
  | some result =>
    IO.print result.output
    match result.failure with
    | none => return 0
    | some failure =>
      IO.eprintln ("Error: " ++ failure.message)
      return 1
