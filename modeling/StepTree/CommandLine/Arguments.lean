import StepTree.Text.Basic

/-! # Arguments

The command line names a command, and gives its options. The options of a command are a table, from which
arguments are read and the help text is made. -/

namespace StepTree.CommandLine

/-- An option of a command. -/
structure OptionSpec where
  name : String
  letter : Option Char := none
  /-- How its value is called; an option without one is a flag. -/
  valueName : Option String := none
  required : Bool := false
  /-- It may be given more than once. -/
  repeats : Bool := false
  help : String

/-- A command of the program. -/
structure CommandSpec where
  name : String
  about : String
  options : List OptionSpec

def fileOption : OptionSpec :=
  { name := "file", letter := some 'f', valueName := some "file", required := true, help := "Path to workflow YAML/JSON" }

def runCommand : CommandSpec :=
  { name := "run"
    about := "Run a workflow"
    options :=
      [fileOption,
        { name := "workflow", letter := some 'w', valueName := some "workflow"
          help := "Workflow id within the file (defaults to the first)" },
        { name := "var", valueName := some "NAME=VALUE", repeats := true
          help := "Case variable; JSON values are decoded" },
        { name := "secret", valueName := some "NAME=VALUE", repeats := true
          help := "Secret environment variable, masked in all output" },
        { name := "env-file", valueName := some "env-file"
          help := "YAML/JSON list of environment variables (\x7bname, value, secret\x7d)" },
        { name := "config", valueName := some "config", help := "Engine configuration file" },
        { name := "json", help := "Print the full execution trace as JSON" }] }

def validateCommand : CommandSpec :=
  { name := "validate", about := "Validate a workflow document", options := [fileOption] }

/-! ### Reading options -/

/-- What arguments say. -/
inductive Arguments (α : Type) where
  | given (value : α)
  | help
  /-- The arguments cannot be used. -/
  | misuse

/-- What one argument says. -/
inductive Argument where
  | option (spec : OptionSpec) (value : Option String)
  | help
  /-- No options follow. -/
  | finish
  | misuse

/-- The option that the letters after one hyphen name; what follows the letter of an option is its value. -/
def ofLetters (options : List OptionSpec) : List Char → Argument
  | [] => .misuse
  | 'h' :: _ => .help
  | c :: rest =>
    match options.find? fun o => o.letter = some c with
    | none => .misuse
    | some spec =>
      match rest with
      | [] => .option spec none
      | '=' :: value => .option spec (some (String.ofList value))
      | value => .option spec (some (String.ofList value))

/-- The option that a text after two hyphens names; what follows an equals sign is its value. -/
def ofName (options : List OptionSpec) (s : List Char) : Argument :=
  let name := String.ofList (s.takeWhile (· ≠ '='))
  let value := match s.dropWhile (· ≠ '=') with
    | '=' :: value => some (String.ofList value)
    | _ => none
  if name = "help" then if value.isNone then .help else .misuse
  else match options.find? fun o => o.name = name with
    | none => .misuse
    | some spec => if spec.valueName.isNone && value.isSome then .misuse else .option spec value

/-- What one argument says. -/
def Argument.of (options : List OptionSpec) (arg : String) : Argument :=
  match arg.toList with
  | ['-', '-'] => .finish
  | '-' :: '-' :: s => ofName options s
  | '-' :: c :: s => ofLetters options (c :: s)
  | _ => .misuse

/-- An argument that cannot be the value of the option before it. -/
def looksLikeOption (arg : String) : Bool :=
  match arg.toList with
  | '-' :: _ :: _ => true
  | _ => false

/-- The options among arguments, with their values, in order. -/
def collect (options : List OptionSpec) : (given : List (String × String)) → List String →
    Arguments (List (String × String))
  | given, [] => .given given
  | given, arg :: rest =>
    let accepts (spec : OptionSpec) : Bool := spec.repeats || given.all fun (name, _) => name ≠ spec.name
    match Argument.of options arg with
    | .help => .help
    | .misuse => .misuse
    | .finish => if rest.isEmpty then .given given else .misuse
    | .option spec (some value) =>
      if accepts spec then collect options (given ++ [(spec.name, value)]) rest else .misuse
    | .option spec none =>
      if !accepts spec then .misuse
      else if spec.valueName.isNone then collect options (given ++ [(spec.name, "")]) rest
      else match rest with
        | [] => .misuse
        | value :: rest =>
          if looksLikeOption value then .misuse else collect options (given ++ [(spec.name, value)]) rest

/-- The options of a command; those that are required have to be there. -/
def optionsOf (c : CommandSpec) (args : List String) : Arguments (List (String × String)) :=
  match collect c.options [] args with
  | .given given =>
    if c.options.all fun o => !o.required || given.any fun (name, _) => name = o.name then .given given else .misuse
  | other => other

/-! ### Commands -/

/-- What `run` is given. -/
structure RunOptions where
  file : String
  workflow : Option String := none
  /-- Assignments of variables, as they are written. -/
  vars : List String := []
  /-- Assignments of secret variables, as they are written. -/
  secrets : List String := []
  environmentFile : Option String := none
  settingsFile : Option String := none
  asJson : Bool := false

/-- What is to be done. -/
inductive Invocation where
  | run (options : RunOptions)
  | validate (file : String)
  /-- Prints a help text. -/
  | help (text : String)
  | misuse

/-- The options of `run` among given ones. -/
def RunOptions.of (given : List (String × String)) : RunOptions :=
  let values (name : String) : List String := (given.filter fun (n, _) => n = name).map (·.2)
  { file := (given.lookup "file").getD ""
    workflow := given.lookup "workflow"
    vars := values "var"
    secrets := values "secret"
    environmentFile := given.lookup "env-file"
    settingsFile := given.lookup "config"
    asJson := (given.lookup "json").isSome }

/-! ### Help -/

/-- Lines of two columns. -/
def columns (rows : List (String × String)) : List String :=
  let width := (rows.map fun (left, _) => left.length).foldl max 0
  rows.map fun (left, right) =>
    "  " ++ left ++ String.ofList (List.replicate (width - left.length) ' ') ++ "  " ++ right

/-- How an option is written. -/
def OptionSpec.usage (o : OptionSpec) : String :=
  let letter := match o.letter with
    | some c => "-" ++ String.singleton c ++ ", "
    | none => "    "
  letter ++ "--" ++ o.name ++ ((o.valueName.map fun v => " <" ++ v ++ ">").getD "")

def helpRow : String × String := ("-h, --help", "Print help")

def CommandSpec.helpText (c : CommandSpec) : String :=
  let optional := if c.options.any fun o => !o.required then " [OPTIONS]" else ""
  let required := String.join ((c.options.filter (·.required)).map fun o =>
    " --" ++ o.name ++ ((o.valueName.map fun v => " <" ++ v ++ ">").getD ""))
  "\n".intercalate ([c.about, "", "Usage: stepflow " ++ c.name ++ optional ++ required, "", "Options:"] ++
    columns (c.options.map (fun o => (o.usage, o.help)) ++ [helpRow])) ++ "\n"

def helpAbout : String := "Print this message or the help of the given subcommand(s)"

/-- The help text of the program. -/
def programHelp : String :=
  "\n".intercalate (["Runs workflow step trees and reports an execution trace", "", "Usage: stepflow <COMMAND>", "",
    "Commands:"] ++
    columns [(runCommand.name, runCommand.about), (validateCommand.name, validateCommand.about), ("help", helpAbout)] ++
    ["", "Options:"] ++ columns [helpRow]) ++ "\n"

/-- The help text of the help. -/
def helpHelp : String :=
  "\n".intercalate ([helpAbout, "", "Usage: stepflow help [COMMAND]...", "", "Arguments:"] ++
    columns [("[COMMAND]...", "Print help for the subcommand(s)")]) ++ "\n"

/-- What the arguments of the program ask for. -/
def Invocation.ofArguments (args : List String) : Invocation :=
  match args with
  | "run" :: rest =>
    match optionsOf runCommand rest with
    | .given given => .run (.of given)
    | .help => .help runCommand.helpText
    | .misuse => .misuse
  | "validate" :: rest =>
    match optionsOf validateCommand rest with
    | .given given => .validate ((given.lookup "file").getD "")
    | .help => .help validateCommand.helpText
    | .misuse => .misuse
  | ["help"] => .help programHelp
  | ["help", "run"] => .help runCommand.helpText
  | ["help", "validate"] => .help validateCommand.helpText
  | ["help", "help"] => .help helpHelp
  | "help" :: _ => .misuse
  | arg :: _ =>
    match Argument.of [] arg with
    | .help => .help programHelp
    | _ => .misuse
  | [] => .misuse

end StepTree.CommandLine
