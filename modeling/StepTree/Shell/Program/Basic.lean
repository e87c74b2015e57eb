import StepTree.Shell.Utility.Basic

/-! # Programs

The commands that a shell finds outside itself. They take their operands and a session as utilities do, but
they mix options with operands, and name themselves in their messages. -/

namespace StepTree.Shell

abbrev Program := (operands : List (List Char)) → Session → Session

/-- The options of a program: letters without and with a value, and long names that stand for letters. -/
structure OptionTable where
  flags : List Char := []
  valued : List Char := []
  long : List (String × Char) := []

namespace Program

/-- A program reports what went wrong. -/
def refuse (s : Session) (text : String) (status : Nat) : Session := (s.report text.toList).withStatus status

/-- A program reports a wrong use of itself. -/
def misuse (s : Session) (name text : String) (status : Nat) : Session :=
  refuse s (name ++ ": " ++ text ++ "\nTry '" ++ name ++ " --help' for more information.") status

/-- What is wrong with the options of a program. -/
def optionFault : OptionFault → String
  | .unknown option => "invalid option -- '" ++ String.singleton option ++ "'"
  | .noValue option => "option requires an argument -- '" ++ String.singleton option ++ "'"

/-- The option that a long name stands for, which may be the beginning of only one name. -/
def long? (t : OptionTable) (name : List Char) : Option Char :=
  match t.long.lookup (String.ofList name) with
  | some c => some c
  | none =>
    match t.long.filter fun (n, _) => name.isPrefixOf n.toList with
    | [(_, c)] => some c
    | _ => none

/-- The options among operands. -/
def options (t : OptionTable) : List (List Char) → Except String Options
  | [] => .ok {}
  | ['-', '-'] :: rest => .ok { operands := rest }
  | ('-' :: '-' :: text) :: rest => do
    let name := text.takeWhile (· ≠ '=')
    let value := (text.drop name.length).tail?
    match long? t name with
    | none => .error ("unrecognized option '--" ++ String.ofList name ++ "'")
    | some c =>
      if !t.valued.contains c then
        let o ← options t rest
        return { o with given := (c, []) :: o.given }
      else match value with
        | some value =>
          let o ← options t rest
          return { o with given := (c, value) :: o.given }
        | none =>
          match rest with
          | value :: rest =>
            let o ← options t rest
            return { o with given := (c, value) :: o.given }
          | [] => .error ("option '--" ++ String.ofList name ++ "' requires an argument")
  | ('-' :: c :: more) :: rest => do
    let found ← (Options.cluster t.flags t.valued (c :: more)).mapError optionFault
    let complete := found.filterMap fun (c, value) => value.map fun value => (c, value)
    match found.find? fun (_, value) => value.isNone with
    | none =>
      let o ← options t rest
      return { o with given := complete ++ o.given }
    | some (c, _) =>
      match rest with
      | value :: rest =>
        let o ← options t rest
        return { o with given := complete ++ (c, value) :: o.given }
      | [] => .error (optionFault (.noValue c))
  | operand :: rest => do
    let o ← options t rest
    return { o with operands := operand :: o.operands }
termination_by operands => operands.length

/-- Goes on with the options of a program. -/
def withOptions (name : String) (t : OptionTable) (status : Nat) (operands : List (List Char)) (s : Session)
    (k : Options → Session) : Session :=
  match options t operands with
  | .ok o => k o
  | .error text => misuse s name text status

/-! ### Files -/

/-- Why there is nothing to read. -/
inductive FileFault where
  | missing
  | notDirectory
  | isDirectory
  deriving DecidableEq

def FileFault.message : FileFault → String
  | missing => "No such file or directory"
  | notDirectory => "Not a directory"
  | isDirectory => "Is a directory"

def FileFault.ofPath : PathFault → FileFault
  | .missing => missing
  | .notDirectory => notDirectory

/-- The place to which a path leads, where there need not be anything. -/
def follow (s : Session) (path : List Char) : Except FileFault Place :=
  (s.files.follow s.place (decoded path).toList).mapError .ofPath

/-- The place to which a path leads, where something is. -/
def find (s : Session) (path : List Char) : Except FileFault Place :=
  (s.files.find s.place (decoded path).toList).mapError .ofPath

/-- The content of a file; a dash alone is what comes in. -/
def content (s : Session) (path : List Char) : Session × Except FileFault (List Char) :=
  if path = ['-'] then
    let (input, s) := s.readAll
    (s, .ok input)
  else match find s path with
    | .error f => (s, .error f)
    | .ok place =>
      match s.files.file? place with
      | some content => (s, .ok (ofContent content))
      | none => (s, .error .isDirectory)

/-- The lines of a text, without what ends them; the last one need not be ended. -/
def lines (text : List Char) : List (List Char) :=
  if text.isEmpty then []
  else
    let pieces := Text.split '\n' text
    if pieces.getLast? = some [] then pieces.dropLast else pieces

/-- Lines that are all ended. -/
def unlines (lines : List (List Char)) : List Char := lines.flatMap fun line => line ++ ['\n']

/-- Goes through files, or what comes in if none is given; those that cannot be read are reported. -/
def overFiles (paths : List (List Char)) (s : Session) (complaint : List Char → FileFault → String) (status : Nat)
    (k : Session → List Char → List Char → Session) : Session :=
  (if paths.isEmpty then [['-']] else paths).foldl (fun s path =>
    match content s path with
    | (s, .ok text) => k s path text
    | (s, .error f) => refuse s (complaint path f) status) (s.withStatus 0)

/-- All lines of files, in order. -/
def allLines (paths : List (List Char)) (s : Session) (complaint : List Char → FileFault → String) (status : Nat) :
    Session × List (List Char) :=
  (if paths.isEmpty then [['-']] else paths).foldl (fun (s, all) path =>
    match content s path with
    | (s, .ok text) => (s, all ++ lines text)
    | (s, .error f) => (refuse s (complaint path f) status, all)) (s.withStatus 0, [])

end Program

end StepTree.Shell
