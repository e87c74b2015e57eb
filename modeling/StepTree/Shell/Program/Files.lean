import StepTree.Shell.Program.Basic

/-! # Programs for files

Programs that print, make, remove, move and copy files and directories. -/

namespace StepTree.Shell.Program

/-- How a path is named in messages. -/
def named (path : List Char) : String := "'" ++ String.ofList path ++ "'"

/-- The last name of a path. -/
def lastName (path : List Char) : List Char :=
  let body := (path.reverse.dropWhile (· = '/')).reverse
  if body.isEmpty then (if path.isEmpty then [] else ['/'])
  else ((Text.split '/' body).getLast?).getD []

/-- A program needs operands. -/
def withOperands (name text : String) (o : Options) (s : Session) (k : List (List Char) → Session) : Session :=
  if o.operands.isEmpty then misuse s name text 1 else k o.operands

/-- Changes the files, if that is possible. -/
def attempt (s : Session) (complaint : FileFault → String) : Except FileFault FileTree → Session
  | .ok files => { s with files }
  | .error f => refuse s (complaint f) 1

/-- The place of something new, in a directory that is there. -/
def newPlace (s : Session) (path : List Char) : Except FileFault Place := do
  let body := (path.reverse.dropWhile (· = '/')).reverse
  let place ← follow s (if body.isEmpty then path else body)
  if s.files.isDirectory place.parent || s.files.holds place then .ok place
  else .error (if (s.files.file? place.parent).isSome then .notDirectory else .missing)

/-! ### Printing -/

/-- Lines that are numbered, all of them or those with something in them. -/
def numbered (onlyFilled : Bool) : (n : Nat) → List (List Char) → List (List Char)
  | _, [] => []
  | n, line :: rest =>
    if (onlyFilled && line.isEmpty) then line :: numbered onlyFilled n rest
    else
      let digits := (toString n).toList
      (List.replicate (6 - digits.length) ' ' ++ digits ++ '\t' :: line) :: numbered onlyFilled (n + 1) rest

/-- Lines of which no two that follow each other are empty. -/
def squeezed : List (List Char) → List (List Char)
  | [] :: [] :: rest => squeezed ([] :: rest)
  | line :: rest => line :: squeezed rest
  | [] => []

/-- A text with marks for tabs, ends of lines and numbers, as options ask for them. -/
def displayed (o : Options) (text : List Char) : List Char :=
  if o.given.isEmpty then text
  else
    let all := lines text
    let all := if o.has 's' then squeezed all else all
    let all := if o.has 'T' || o.has 'A' then
        all.map fun line => line.flatMap fun c => if c = '\t' then ['^', 'I'] else [c]
      else all
    let all := if o.has 'b' then numbered true 1 all else if o.has 'n' then numbered false 1 all else all
    let last : List Char := if o.has 'E' || o.has 'A' then ['$', '\n'] else ['\n']
    let shown := all.flatMap fun line => line ++ last
    if text.getLast? = some '\n' then shown else shown.take (shown.length - last.length)

/-- Prints files, or what comes in. -/
def concatenate : Program := fun operands s =>
  let table : OptionTable :=
    { flags := ['n', 'b', 's', 'E', 'T', 'A', 'u']
      long := [("number", 'n'), ("number-nonblank", 'b'), ("squeeze-blank", 's'), ("show-ends", 'E'), ("show-tabs", 'T'),
        ("show-all", 'A')] }
  withOptions "cat" table 1 operands s fun o =>
    let paths := if o.operands.isEmpty then [['-']] else o.operands
    let read := paths.foldl (fun (s, texts) path =>
      match content s path with
      | (s, .ok text) => (if o.given.isEmpty then s.print text else s, texts ++ [text])
      | (s, .error f) => (refuse s ("cat: " ++ String.ofList path ++ ": " ++ f.message) 1, texts)) (s.withStatus 0, [])
    if o.given.isEmpty then read.1 else read.1.print (displayed o (read.2.flatMap id))

/-- Prints what comes in, and writes it into files. -/
def tee : Program := fun operands s =>
  let table : OptionTable := { flags := ['a', 'i'], long := [("append", 'a')] }
  withOptions "tee" table 1 operands s fun o =>
    let (input, s) := s.readAll
    (o.operands.foldl (fun s path =>
      let before := ((follow s path).toOption.bind s.files.file?).getD []
      let target := (newPlace s path).bind fun place =>
        if s.files.isDirectory place then .error .isDirectory
        else .ok (s.files.write place ((if o.has 'a' then before else []) ++ toContent input))
      attempt s (fun f => "tee: " ++ String.ofList path ++ ": " ++ f.message) target) (s.withStatus 0)).print input

/-! ### Making and removing -/

/-- Makes empty files where there are none. -/
def touch : Program := fun operands s =>
  let table : OptionTable :=
    { flags := ['a', 'c', 'm', 'f', 'h'], valued := ['d', 't', 'r'], long := [("no-create", 'c'), ("date", 'd')] }
  withOptions "touch" table 1 operands s fun o => withOperands "touch" "missing file operand" o s fun paths =>
    paths.foldl (fun s path =>
      attempt s (fun f => "touch: cannot touch " ++ named path ++ ": " ++ f.message) do
        match find s path with
        | .ok _ => return s.files
        | .error f =>
          if o.has 'c' then return s.files
          else if f = .notDirectory || path.getLast? = some '/' then .error f
          else return s.files.write (← newPlace s path) []) (s.withStatus 0)

/-- Removes files, and directories if an option asks for it. -/
def remove : Program := fun operands s =>
  let table : OptionTable :=
    { flags := ['f', 'i', 'r', 'R', 'v', 'd', 'I']
      long := [("force", 'f'), ("recursive", 'r'), ("verbose", 'v'), ("dir", 'd')] }
  withOptions "rm" table 1 operands s fun o =>
    if o.operands.isEmpty then if o.has 'f' then s.withStatus 0 else misuse s "rm" "missing operand" 1
    else o.operands.foldl (fun s path =>
      let refused (cause : String) : Session := refuse s ("rm: cannot remove " ++ named path ++ ": " ++ cause) 1
      let gone (place : Place) : Session := { s with files := s.files.remove place }
      let noted (s : Session) (kind : String) : Session :=
        if o.has 'v' then s.printLine ("removed " ++ kind ++ named path).toList else s
      match find s path with
      | .error f => if o.has 'f' then s else refused f.message
      | .ok place =>
        if !s.files.isDirectory place then noted (gone place) ""
        else if o.has 'r' || o.has 'R' then
          if lastName path = ['.'] || lastName path = ['.', '.'] then
            refuse s ("rm: refusing to remove '.' or '..' directory: skipping " ++ named path) 1
          else noted (gone place) "directory "
        else if o.has 'd' then
          if (s.files.listing place).isEmpty then noted (gone place) "directory " else refused "Directory not empty"
        else refused "Is a directory") (s.withStatus 0)

/-- Makes a directory, and those on the way to it if an option asks for it. -/
def makeDirectories : Program := fun operands s =>
  let table : OptionTable :=
    { flags := ['p', 'v'], valued := ['m'], long := [("parents", 'p'), ("verbose", 'v'), ("mode", 'm')] }
  withOptions "mkdir" table 1 operands s fun o => withOperands "mkdir" "missing operand" o s fun paths =>
    paths.foldl (fun s path =>
      let refused (cause : String) : Session :=
        refuse s ("mkdir: cannot create directory " ++ named path ++ ": " ++ cause) 1
      let make (s : Session) (place : Place) (path : List Char) : Session :=
        let s := { s with files := s.files.makeDirectory place }
        if o.has 'v' then s.printLine ("mkdir: created directory " ++ named path).toList else s
      if o.has 'p' then
        let start : Place × List Char := if path.head? = some '/' then (.elsewhere [], ['/']) else (s.place, [])
        let names := (Text.split '/' path).filter fun name => name ≠ [] ∧ name ≠ ['.']
        (names.foldl (fun (s, place, text) name =>
          let place := if name = ['.', '.'] then place.parent else place.child (decoded name)
          let text := text ++ name
          if s.status = 1 || s.files.isDirectory place then (s, place, text ++ ['/'])
          else if (s.files.file? place).isSome then
            let cause := if text = path then "File exists" else "Not a directory"
            (refuse s ("mkdir: cannot create directory " ++ named text ++ ": " ++ cause) 1, place, text)
          else (make s place text, place, text ++ ['/'])) (s, start)).1
      else match newPlace s path with
        | .error f => refused f.message
        | .ok place => if s.files.holds place then refused "File exists" else make s place path) (s.withStatus 0)

/-- Removes empty directories. -/
def removeDirectories : Program := fun operands s =>
  let table : OptionTable :=
    { flags := ['p', 'v'], long := [("parents", 'p'), ("verbose", 'v')] }
  withOptions "rmdir" table 1 operands s fun o => withOperands "rmdir" "missing operand" o s fun paths =>
    let removeOne (s : Session) (path : List Char) : Session :=
      let refused (cause : String) : Session := refuse s ("rmdir: failed to remove " ++ named path ++ ": " ++ cause) 1
      match find s path with
      | .error f => refused f.message
      | .ok place =>
        if !s.files.isDirectory place then refused "Not a directory"
        else if !(s.files.listing place).isEmpty then refused "Directory not empty"
        else { s with files := s.files.remove place }
    let ancestors (path : List Char) : List (List Char) :=
      let names := Text.split '/' path
      (List.range names.length).reverse.map fun n => ['/'].intercalate (names.take (n + 1))
    paths.foldl (fun s path =>
      (if o.has 'p' then ancestors path else [path]).foldl (fun s path => if s.status = 1 then s else removeOne s path) s)
      (s.withStatus 0)

/-! ### Listing -/

/-- Lists directories. -/
def list : Program := fun operands s =>
  let table : OptionTable :=
    { flags := ['a', 'A', '1', 'd', 'F', 'p', 'r', 'C', 't', 'S', 'U', 'x', 'q', 'm']
      long := [("all", 'a'), ("almost-all", 'A'), ("directory", 'd'), ("reverse", 'r'), ("classify", 'F')] }
  withOptions "ls" table 2 operands s fun o =>
    let paths := if o.operands.isEmpty then [['.']] else o.operands
    let sorted (names : List (List Char)) : List (List Char) :=
      let names := names.mergeSort fun a b => String.ofList a ≤ String.ofList b
      if o.has 'r' then names.reverse else names
    let (s, missing) := paths.foldl (fun (s, missing) path =>
      match find s path with
      | .ok _ => (s, missing)
      | .error f => (refuse s ("ls: cannot access " ++ named path ++ ": " ++ f.message) 2, path :: missing))
      (s.withStatus 0, [])
    let there := sorted (paths.filter fun path => !missing.contains path)
    let isDirectory (path : List Char) : Bool := !o.has 'd' && ((find s path).toOption.any s.files.isDirectory)
    let marked (directory : Place) (name : List Char) : List Char :=
      let place := if name = ['.'] then directory else if name = ['.', '.'] then directory.parent
        else directory.child (decoded name)
      if s.files.isDirectory place && (o.has 'F' || o.has 'p') then name ++ ['/']
      else if o.has 'F' && s.files.isProgram place then name ++ ['*'] else name
    let entries (path : List Char) : List (List Char) :=
      let place := ((find s path).toOption).getD s.place
      let names := (s.files.listing place).map encoded
      let names := if o.has 'a' then ['.'] :: ['.', '.'] :: names
        else if o.has 'A' then names else names.filter fun name => name.head? ≠ some '.'
      (sorted names).map (marked place)
    let files := there.filter fun path => !isDirectory path
    let directories := there.filter isDirectory
    let s := files.foldl (fun s path => s.printLine path) s
    (directories.foldl (fun (s, isFirst) path =>
      let s := if isFirst then s else s.printLine []
      let s := if paths.length > 1 then s.printLine (path ++ [':']) else s
      (s.print (unlines (entries path)), false)) (s, files.isEmpty)).1

/-! ### Moving and copying -/

/-- The sources and the target of a program that moves or copies. -/
def withTarget (name : String) (o : Options) (s : Session) (k : List (List Char) → List Char → Session) : Session :=
  match o.operands with
  | [] => misuse s name "missing file operand" 1
  | [only] => misuse s name ("missing destination file operand after " ++ named only) 1
  | operands =>
    let target := (operands.getLast?).getD []
    let sources := operands.dropLast
    if sources.length = 1 then k sources target
    else match find s target with
      | .error f => refuse s (name ++ ": target " ++ named target ++ ": " ++ f.message) 1
      | .ok place =>
        if s.files.isDirectory place then k sources target
        else refuse s (name ++ ": target " ++ named target ++ ": Not a directory") 1

/-- The path to which a source goes: into the target, if it is a directory. -/
def destination (s : Session) (source target : List Char) : List Char :=
  if (find s target).toOption.any s.files.isDirectory then
    (if target.getLast? = some '/' then target else target ++ ['/']) ++ lastName source
  else target

/-- Moves files and directories. -/
def move : Program := fun operands s =>
  let table : OptionTable :=
    { flags := ['f', 'n', 'v', 'i', 'u'], long := [("force", 'f'), ("no-clobber", 'n'), ("verbose", 'v')] }
  withOptions "mv" table 1 operands s fun o => withTarget "mv" o s fun sources target =>
    sources.foldl (fun s source =>
      let goal := destination s source target
      match find s source with
      | .error f => refuse s ("mv: cannot stat " ++ named source ++ ": " ++ f.message) 1
      | .ok place =>
        match newPlace s goal with
        | .error f => refuse s ("mv: cannot move " ++ named source ++ " to " ++ named goal ++ ": " ++ f.message) 1
        | .ok goalPlace =>
          if place = goalPlace then
            refuse s ("mv: " ++ named source ++ " and " ++ named goal ++ " are the same file") 1
          else if goalPlace.isBelow place then
            refuse s ("mv: cannot move " ++ named source ++ " to a subdirectory of itself, " ++ named goal) 1
          else if s.files.isDirectory place && (s.files.file? goalPlace).isSome then
            refuse s ("mv: cannot overwrite non-directory " ++ named goal ++ " with directory " ++ named source) 1
          else if s.files.isDirectory goalPlace && !s.files.isDirectory place then
            refuse s ("mv: cannot overwrite directory " ++ named goal ++ " with non-directory") 1
          else if s.files.isDirectory goalPlace && !(s.files.listing goalPlace).isEmpty then
            refuse s ("mv: cannot overwrite " ++ named goal ++ ": Directory not empty") 1
          else if o.has 'n' && s.files.holds goalPlace then s
          else
            let files := ((s.files.remove goalPlace).copy place goalPlace).remove place
            let s := { s with files }
            if o.has 'v' then s.printLine ("renamed " ++ named source ++ " -> " ++ named goal).toList else s)
      (s.withStatus 0)

/-- Copies files, and directories if an option asks for it. -/
def copy : Program := fun operands s =>
  let table : OptionTable :=
    { flags := ['r', 'R', 'a', 'p', 'f', 'v', 'n', 'i', 'u']
      long := [("recursive", 'r'), ("archive", 'a'), ("force", 'f'), ("verbose", 'v'), ("no-clobber", 'n')] }
  withOptions "cp" table 1 operands s fun o => withTarget "cp" o s fun sources target =>
    sources.foldl (fun s source =>
      let goal := destination s source target
      match find s source with
      | .error f => refuse s ("cp: cannot stat " ++ named source ++ ": " ++ f.message) 1
      | .ok place =>
        let isTree := s.files.isDirectory place
        if isTree && !(o.has 'r' || o.has 'R' || o.has 'a') then
          refuse s ("cp: -r not specified; omitting directory " ++ named source) 1
        else match newPlace s goal with
          | .error f =>
            let kind := if isTree then "directory " else "regular file "
            refuse s ("cp: cannot create " ++ kind ++ named goal ++ ": " ++ f.message) 1
          | .ok goalPlace =>
            if place = goalPlace then
              refuse s ("cp: " ++ named source ++ " and " ++ named goal ++ " are the same file") 1
            else if goalPlace.isBelow place then
              refuse s ("cp: cannot copy a directory, " ++ named source ++ ", into itself, " ++ named goal) 1
            else if isTree && (s.files.file? goalPlace).isSome then
              refuse s ("cp: cannot overwrite non-directory " ++ named goal ++ " with directory " ++ named source) 1
            else if !isTree && s.files.isDirectory goalPlace then
              refuse s ("cp: cannot overwrite directory " ++ named goal ++ " with non-directory " ++ named source) 1
            else if o.has 'n' && s.files.holds goalPlace then s
            else
              let s := { s with files := s.files.copy place goalPlace }
              if o.has 'v' then s.printLine (named source ++ " -> " ++ named goal).toList else s) (s.withStatus 0)

/-- Whether a mode lets files be run; none if it is no mode or says nothing about it. -/
def runs? (mode : List Char) : Option (Option Bool) :=
  if mode.all (fun c => '0' ≤ c && c ≤ '7') && !mode.isEmpty then
    some (some (mode.any fun c => (c.toNat - 48) % 2 = 1))
  else
    let rest := mode.dropWhile ['u', 'g', 'o', 'a'].contains
    match rest with
    | sign :: rights =>
      if ['+', '-', '='].contains sign && rights.all ['r', 'w', 'x', 'X', 's', 't'].contains then
        some (if rights.contains 'x' then some (sign ≠ '-') else if sign = '=' then some false else none)
      else none
    | [] => none

/-- Lets files be run, or not. -/
def changeMode : Program := fun operands s =>
  match operands with
  | [] => misuse s "chmod" "missing operand" 1
  | [mode] => misuse s "chmod" ("missing operand after " ++ named mode) 1
  | mode :: paths =>
    match runs? mode with
    | none => misuse s "chmod" ("invalid mode: " ++ named mode) 1
    | some runs =>
      paths.foldl (fun s path =>
        match find s path with
        | .error f => refuse s ("chmod: cannot access " ++ named path ++ ": " ++ f.message) 1
        | .ok place =>
          let others := s.files.programs.filter (· ≠ place)
          match runs with
          | none => s
          | some true => { s with files := { s.files with programs := place :: others } }
          | some false => { s with files := { s.files with programs := others } }) (s.withStatus 0)

/-! ### Paths -/

def baseName : Program := fun operands s =>
  let table : OptionTable := { flags := ['a', 'z'], valued := ['s'], long := [("multiple", 'a'), ("suffix", 's')] }
  let without (suffix name : List Char) : List Char :=
    if name = suffix then name else (Text.before? suffix name).getD name
  withOptions "basename" table 1 operands s fun o => withOperands "basename" "missing operand" o s fun paths =>
    let suffix := (o.value? 's').getD []
    if o.has 'a' || o.has 's' then
      (s.print (unlines (paths.map fun path => without suffix (lastName path)))).withStatus 0
    else match paths with
      | [path] => (s.printLine (lastName path)).withStatus 0
      | path :: suffix :: [] => (s.printLine (without suffix (lastName path))).withStatus 0
      | _ => misuse s "basename" ("extra operand " ++ named ((paths[2]?).getD [])) 1

/-- The path of the directory that holds what a path leads to. -/
def directoryName (path : List Char) : List Char :=
  let body := (path.reverse.dropWhile (· = '/')).reverse
  if body.isEmpty then (if path.isEmpty then ['.'] else ['/'])
  else if !body.contains '/' then ['.']
  else
    let rest := ((body.reverse.dropWhile (· ≠ '/')).dropWhile (· = '/')).reverse
    if rest.isEmpty then ['/'] else rest

def directoryNames : Program := fun operands s =>
  withOptions "dirname" { flags := ['z'] } 1 operands s fun o => withOperands "dirname" "missing operand" o s
    fun paths => (s.print (unlines (paths.map directoryName))).withStatus 0

end StepTree.Shell.Program
