import StepTree.Bundle
import StepTree.CommandLine.Arguments
import StepTree.CommandLine.Report
import StepTree.Executor.Router
import StepTree.Executor.Shell
import StepTree.Executor.Web
import StepTree.Json.Layout
import StepTree.Run.Basic
import StepTree.Trace.Encoding

/-! # The command line

`run` runs a workflow of a file and reports it, `validate` checks all workflows of a file. Everything that
the program reads from its surroundings is given beforehand. -/

namespace StepTree.CommandLine

/-- What the program finds around it. -/
structure Surroundings where
  files : FileTree
  /-- The variables that are set. -/
  vars : List (String × String) := []
  now : Timestamp := .epoch
  runId : String := "run"

/-- Why the program gives up. -/
inductive Failure where
  | unreadableWorkflow (path : String)
  | unusableWorkflow (path : String)
  | unknownWorkflow (id : String)
  | noWorkflow
  | unreadableSettings (path : String)
  | unusableSettings (path : String)
  | override (error : Settings.OverrideError)
  | unreadableEnvironment (path : String)
  | unusableEnvironment (path : String)
  | noAssignment (raw : String)
  | namelessAssignment (raw : String)
  | library (error : LibraryError)
  | refused (refusal : Refusal)
  | runFailed
  | runCancelled
  | invalidWorkflows (count : Nat)

def Failure.message : Failure → String
  | unreadableWorkflow path => "Failed to read workflow file: " ++ path
  | unusableWorkflow path => "Failed to parse workflow file: " ++ path
  | unknownWorkflow id => "workflow '" ++ id ++ "' not found in file"
  | noWorkflow => "file declares no workflows"
  | unreadableSettings path => "Failed to read engine config: " ++ path
  | unusableSettings path => "Invalid engine config: " ++ path
  | override error => error.message
  | unreadableEnvironment path => "Failed to read environment file: " ++ path
  | unusableEnvironment path => "Invalid environment file: " ++ path
  | noAssignment raw => "expected NAME=VALUE, got '" ++ raw ++ "'"
  | namelessAssignment raw => "variable name cannot be empty in '" ++ raw ++ "'"
  | library error => error.message
  | refused refusal => refusal.message
  | runFailed => "workflow run failed"
  | runCancelled => "workflow run cancelled"
  | invalidWorkflows count => toString count ++ " workflow(s) failed validation"

/-! ### Reading -/

namespace Surroundings

/-- The bytes of a file. -/
def bytes? (s : Surroundings) (path : String) : Option (List UInt8) := s.files.read? (.inside []) path.toList

/-- The text of a file that has to be UTF-8. -/
def text? (s : Surroundings) (path : String) : Option String :=
  (s.bytes? path).bind fun bytes => String.fromUTF8? ⟨bytes.toArray⟩

/-- The workflows of a file, of which bytes that are no text are replaced. -/
def bundle (s : Surroundings) (path : String) : Except Failure Bundle :=
  match s.bytes? path with
  | none => .error (.unreadableWorkflow path)
  | some bytes =>
    match Bundle.ofText? (Text.ofBytes bytes) with
    | none => .error (.unusableWorkflow path)
    | some bundle => .ok bundle

/-- The settings of a file, or the standard ones, with the variables of the surroundings over them. -/
def settings (s : Surroundings) (path : Option String) : Except Failure Settings := do
  let settings ← match path with
    | none => pure {}
    | some path =>
      match s.text? path with
      | none => .error (.unreadableSettings path)
      | some text =>
        match Settings.ofText? text.toList with
        | none => .error (.unusableSettings path)
        | some settings => .ok settings
  (settings.overriddenBy fun name => s.vars.lookup name).mapError .override

/-- The environment variables of a file. -/
def environment (s : Surroundings) (path : Option String) : Except Failure (List EnvironmentVariable) :=
  match path with
  | none => .ok []
  | some path =>
    match s.text? path with
    | none => .error (.unreadableEnvironment path)
    | some text =>
      let decode (d : Markup.Document) := Node.listOf? EnvironmentVariable.decode?
        (d.node (.listOf (.record EnvironmentVariable.fieldNames)))
      match (Markup.Document.ofText? text.toList).bind decode with
      | none => .error (.unusableEnvironment path)
      | some environment => .ok environment

end Surroundings

/-- The workflow with an identifier, else the first one. -/
def select (bundle : Bundle) (id : Option String) : Except Failure Workflow :=
  match id with
  | some id =>
    match bundle.get? id with
    | some w => .ok w
    | none => .error (.unknownWorkflow id)
  | none =>
    match bundle.first? with
    | some w => .ok w
    | none => .error .noWorkflow

/-- The name and the value that an assignment gives it: a JSON value, or else the text as it is. -/
def assignment (raw : String) : Except Failure (String × Json) :=
  match raw.toList.dropWhile (· ≠ '=') with
  | '=' :: value =>
    let name := Text.trimmed (String.ofList (raw.toList.takeWhile (· ≠ '=')))
    let text := String.ofList value
    if name = "" then .error (.namelessAssignment raw) else .ok (name, (Json.read? value).getD (.str text))
  | _ => .error (.noAssignment raw)

/-! ### Commands -/

/-- The executor of the program: the shell, web requests, and an echo of all other actions. -/
def executor (s : Surroundings) : Executor :=
  Router.executor
    { routes := [("command", Executor.shell s.files s.vars), ("http", Executor.web)]
      fallback := some Executor.echo }

/-- What the program prints, and how it ends. -/
structure Result where
  output : String := ""
  failure : Option Failure := none
  /-- The trace, if it was printed as a value. -/
  trace : Option Trace := none

/-- Lines as they are printed. -/
def printed (lines : List String) : String := String.join (lines.map (· ++ "\n"))

/-- How a run ends that has a trace. -/
def failureOf : RunStatus → Option Failure
  | .passed => none
  | .failed => some .runFailed
  | .cancelled => some .runCancelled

/-- Runs a workflow of a file. -/
def run (s : Surroundings) (o : RunOptions) : Except Failure Result := do
  let bundle ← s.bundle o.file
  let workflow ← select bundle o.workflow
  let settings ← s.settings o.settingsFile
  let environment ← s.environment o.environmentFile
  let secrets ← o.secrets.mapM assignment
  let vars ← o.vars.mapM assignment
  let library ← bundle.library.mapError .library
  let request : Request :=
    { runId := s.runId, workflow
      environment := environment ++ secrets.map fun (name, value) => { name, value, isSecret := true }
      vars := Ordered.ofList vars }
  let setup : Setup := { executor := executor s, settings, library, now := s.now }
  let (trace, st) ← (request.drive setup { mailbox := some {}, events := some #[] }).mapError .refused
  let failure := failureOf trace.status
  if o.asJson then .ok { output := printed [String.ofList (trace.encode.linesText 0)], failure, trace := some trace }
  else .ok { output := printed (trace.reportLines ((st.signals.events.getD #[]).toList)), failure }

/-- Checks all workflows of a file. -/
def check (s : Surroundings) (path : String) : Except Failure Result := do
  let bundle ← s.bundle path
  let _ ← bundle.library.mapError .library
  let invalid := bundle.workflows.countP fun w => validate w.steps ≠ []
  .ok
    { output := printed (bundle.entries.flatMap fun (key, w) => w.checkLines key)
      failure := if invalid = 0 then none else some (.invalidWorkflows invalid) }

/-- The program; none if its arguments cannot be used. -/
def evaluate (s : Surroundings) (i : Invocation) : Option Result :=
  let settled (r : Except Failure Result) : Result :=
    match r with
    | .ok result => result
    | .error failure => { failure := some failure }
  match i with
  | .run options => some (settled (run s options))
  | .validate path => some (settled (check s path))
  | .help text => some { output := text }
  | .misuse => none

end StepTree.CommandLine
