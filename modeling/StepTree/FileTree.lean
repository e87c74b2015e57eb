import StepTree.Text.Basic

/-! # Files

The files that a command can reach. A place is a directory or a file, either inside the working folder or
elsewhere on the system; a path leads from one place to another, step by step through directories. -/

namespace StepTree

/-- A directory or a file, by the names on the way to it. -/
inductive Place where
  /-- Inside the working folder, from the folder down. -/
  | inside (names : List String)
  /-- Elsewhere, from the top of the system down. -/
  | elsewhere (names : List String)
  deriving DecidableEq

namespace Place

def names : Place → List String
  | inside names => names
  | elsewhere names => names

/-- The same kind of place with other names. -/
def withNames : Place → List String → Place
  | inside _, names => inside names
  | elsewhere _, names => elsewhere names

/-- The directory that holds a place. Working folders are made in the one for files of passing use. -/
def parent : Place → Place
  | inside [] => elsewhere ["tmp"]
  | place => place.withNames place.names.dropLast

/-- A name in a directory. -/
def child (place : Place) (name : String) : Place := place.withNames (place.names ++ [name])

/-- The place is in the directory, or in one below it. -/
def isBelow (place directory : Place) : Bool :=
  place ≠ directory && place.withNames directory.names = directory && directory.names.isPrefixOf place.names

/-- The path of a place from the top of the system; that of the working folder is not known. -/
def path : Place → String
  | elsewhere [] => "/"
  | place => String.join (place.names.map ("/" ++ ·))

end Place

/-- Why a path leads nowhere. -/
inductive PathFault where
  | missing
  /-- Something on the way is no directory. -/
  | notDirectory
  deriving DecidableEq

/-- The files that can be read, and those that were written. -/
structure FileTree where
  files : List (Place × List UInt8) := []
  /-- The directories besides the working folder and those of the system. -/
  directories : List Place := []
  /-- The files that may be run. -/
  programs : List Place := []

namespace FileTree

/-- The directories that every system has. -/
def systemDirectories : List (List String) :=
  [[], ["bin"], ["boot"], ["dev"], ["etc"], ["home"], ["lib"], ["media"], ["mnt"], ["opt"], ["proc"], ["root"],
    ["run"], ["sbin"], ["srv"], ["sys"], ["tmp"], ["usr"], ["usr", "bin"], ["usr", "include"], ["usr", "lib"],
    ["usr", "local"], ["usr", "local", "bin"], ["usr", "sbin"], ["usr", "share"], ["usr", "src"], ["var"],
    ["var", "cache"], ["var", "lib"], ["var", "log"], ["var", "tmp"]]

/-- The file that is always empty. -/
def emptyDevice : Place := .elsewhere ["dev", "null"]

/-- The content of the file at a place. -/
def file? (t : FileTree) (place : Place) : Option (List UInt8) :=
  if place = emptyDevice then some [] else t.files.lookup place

/-- There is a directory at a place. -/
def isDirectory (t : FileTree) (place : Place) : Bool :=
  t.directories.contains place ||
    match place with
    | .inside names => names.isEmpty
    | .elsewhere names => systemDirectories.contains names

/-- Something is at a place. -/
def holds (t : FileTree) (place : Place) : Bool := (t.file? place).isSome || t.isDirectory place

/-- A file that may be run. -/
def isProgram (t : FileTree) (place : Place) : Bool := t.programs.contains place && (t.file? place).isSome

/-! ### Paths -/

/-- One step of a path, which has to start at a directory. -/
def step (t : FileTree) (place : Place) (name : String) : Except PathFault Place :=
  if t.isDirectory place then
    .ok (if name = "" ∨ name = "." then place else if name = ".." then place.parent else place.child name)
  else .error (if (t.file? place).isSome then .notDirectory else .missing)

/-- The place to which a path leads, where there need not be anything. -/
def follow (t : FileTree) (start : Place) (path : List Char) : Except PathFault Place :=
  match path with
  | [] => .error .missing
  | c :: _ =>
    ((Text.split '/' path).map String.ofList).foldlM t.step (if c = '/' then Place.elsewhere [] else start)

/-- The place to which a path leads, where something is. -/
def find (t : FileTree) (start : Place) (path : List Char) : Except PathFault Place := do
  let place ← t.follow start path
  if t.holds place then .ok place else .error .missing

/-- The content of the file to which a path leads from a place. -/
def read? (t : FileTree) (start : Place) (path : List Char) : Option (List UInt8) :=
  (t.follow start path).toOption.bind t.file?

/-! ### Changes -/

/-- The files after a file was written. -/
def write (t : FileTree) (place : Place) (content : List UInt8) : FileTree :=
  if place = emptyDevice then t
  else { t with files := (place, content) :: t.files.filter fun (p, _) => p ≠ place }

/-- The files after a directory was made. -/
def makeDirectory (t : FileTree) (place : Place) : FileTree :=
  if t.isDirectory place then t else { t with directories := place :: t.directories }

/-- The files after what is at a place was removed, with everything in it. -/
def remove (t : FileTree) (place : Place) : FileTree :=
  let stays (p : Place) : Bool := p ≠ place && !p.isBelow place
  { files := t.files.filter fun (p, _) => stays p, directories := t.directories.filter stays
    programs := t.programs.filter stays }

/-- What is at a place and below it, moved or copied to another one. -/
def copy (t : FileTree) (source target : Place) : FileTree :=
  let moved (p : Place) : Option Place :=
    if p = source ∨ p.isBelow source then
      some (target.withNames (target.names ++ p.names.drop source.names.length))
    else none
  let t' := t.directories.foldl (fun u p => ((moved p).map u.makeDirectory).getD u) t
  let t' := t.files.foldl (fun u (p, content) => ((moved p).map fun q => u.write q content).getD u) t'
  { t' with programs := t.programs.filterMap moved ++ t'.programs }

/-- The names in a directory, in order. -/
def listing (t : FileTree) (place : Place) : List String :=
  let system := match place with
    | .inside _ => []
    | .elsewhere _ => systemDirectories.map Place.elsewhere
  let below := (t.files.map (·.1) ++ t.directories ++ system).filterMap fun p =>
    if p.isBelow place && p.names.length = place.names.length + 1 then p.names.getLast? else none
  below.eraseDups.mergeSort (· ≤ ·)

/-- The files with one more, and the directories on the way to it. -/
def add (t : FileTree) (path : String) (content : List UInt8) : FileTree :=
  let start := if path.toList.head? = some '/' then Place.elsewhere [] else .inside []
  let names := ((Text.split '/' path.toList).map String.ofList).filter fun name => name ≠ "" ∧ name ≠ "."
  let (t, place) := names.foldl (fun (t, place) name =>
    (t.makeDirectory place, if name = ".." then place.parent else place.child name)) (t, start)
  t.write place content

/-- A working folder that holds files with these paths. -/
def ofFiles (files : List (String × List UInt8)) : FileTree :=
  files.foldl (fun t (path, content) => t.add path content) {}

end FileTree

end StepTree
