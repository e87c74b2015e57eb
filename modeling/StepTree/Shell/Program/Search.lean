import StepTree.Shell.Pattern
import StepTree.Shell.Program.Lines

/-! # Looking for lines

The program that prints the lines of files in which an expression matches. -/

namespace StepTree.Shell.Program

def searchTable : OptionTable :=
  { flags := ['i', 'y', 'v', 'c', 'n', 'q', 's', 'o', 'l', 'L', 'h', 'H', 'x', 'w', 'F', 'E', 'G', 'r', 'R', 'a', 'b', 'z',
      '\x01']
    valued := ['e', 'f', 'm', 'A', 'B', 'C']
    long := [("ignore-case", 'i'), ("invert-match", 'v'), ("count", 'c'), ("line-number", 'n'), ("quiet", 'q'),
      ("silent", 'q'), ("no-messages", 's'), ("only-matching", 'o'), ("files-with-matches", 'l'),
      ("files-without-match", 'L'), ("no-filename", 'h'), ("with-filename", 'H'), ("line-regexp", 'x'),
      ("word-regexp", 'w'), ("fixed-strings", 'F'), ("extended-regexp", 'E'), ("recursive", 'r'), ("regexp", 'e'),
      ("file", 'f'), ("max-count", 'm'), ("after-context", 'A'), ("before-context", 'B'), ("context", 'C'),
      ("color", '\x01'), ("colour", '\x01')] }

def searchUsage : String :=
  "Usage: grep [OPTION]... PATTERNS [FILE]...\nTry 'grep --help' for more information."

/-- The files at a path, and below it if it is a directory. -/
def filesBelow (s : Session) : (fuel : Nat) → List Char → List (List Char)
  | 0, _ => []
  | fuel + 1, path =>
    match find s path with
    | .ok place =>
      if s.files.isDirectory place then
        (s.files.listing place).flatMap fun name =>
          filesBelow s fuel ((if path.getLast? = some '/' then path else path ++ ['/']) ++ encoded name)
      else [path]
    | .error _ => [path]

/-- The lines that are printed: those that are chosen and those near to them, each with its number from zero on. -/
def withContext (chosen : List Nat) (before after count : Nat) : List (Nat × Bool) :=
  (List.range count).filterMap fun n =>
    if chosen.contains n then some (n, true)
    else if chosen.any fun m => n < m + after + 1 && m < n + before + 1 then some (n, false)
    else none

/-- What is printed of the lines of one file, and whether a line was chosen. -/
def searchLines (o : Options) (search : Pattern.Search) (label : Option (List Char)) (all : List (List Char)) :
    List (List Char) × Bool :=
  let limit := (o.value? 'm').bind (Literal.digits? 10)
  let indexed := (List.range all.length).zip all
  let chosen := indexed.filter fun (_, line) => (search.first? line).isSome != o.has 'v'
  let chosen := match limit with
    | some n => chosen.take n
    | none => chosen
  let lead (mark : Char) (n : Nat) : List Char :=
    (label.map fun name => name ++ [mark]).getD [] ++ if o.has 'n' then (toString (n + 1)).toList ++ [mark] else []
  let size (c : Char) : Nat := (((o.value? c).or (o.value? 'C')).bind (Literal.digits? 10)).getD 0
  let printed :=
    if o.has 'c' then [(label.map fun name => name ++ [':']).getD [] ++ (toString chosen.length).toList]
    else if o.has 'o' then
      if o.has 'v' then []
      else chosen.flatMap fun (n, line) =>
        ((search.all line (line.length + 2) false [] line).filter fun m => !m.text.isEmpty).map fun m => lead ':' n ++ m.text
    else if size 'A' = 0 && size 'B' = 0 then chosen.map fun (n, line) => lead ':' n ++ line
    else
      let marked := withContext (chosen.map (·.1)) (size 'B') (size 'A') all.length
      (marked.foldl (fun (lines, last) (n, isChosen) =>
        let gap := if last.any fun m => m + 1 < n then [['-', '-']] else []
        (lines ++ gap ++ [lead (if isChosen then ':' else '-') n ++ (all[n]?).getD []], some n))
        (([], none) : List (List Char) × Option Nat)).1
  (printed, !chosen.isEmpty)

/-- The expression that patterns are, of which one has to match. -/
def patternOf (o : Options) (texts : List (List Char)) : Except Pattern.Fault Pattern := do
  let patterns ← texts.mapM fun text =>
    if o.has 'F' then pure (Pattern.ofLiteral text) else Pattern.ofText (o.has 'E') text
  match patterns with
  | [] => return .oneOf false []
  | first :: others => return others.foldl .either first

/-- Prints the lines of files in which an expression matches. -/
def grep (isExtended isLiteral : Bool) : Program := fun operands s =>
  match options searchTable operands with
  | .error text => refuse s ("grep: " ++ text ++ "\n" ++ searchUsage) 2
  | .ok o =>
    let own := (if isExtended then [('E', [])] else []) ++ if isLiteral then [('F', [])] else []
    let o := { o with given := own ++ o.given }
    let given := (o.given.filterMap fun (c, text) => if c = 'e' then some (Text.split '\n' text) else none).flatMap id
    let (s, fromFiles) := (o.given.filter fun (c, _) => c = 'f').foldl (fun (s, found) (_, path) =>
      match content s path with
      | (s, .ok text) => (s, found ++ lines text)
      | (s, .error f) => (refuse s (unread "grep" path f) 2, found)) (s.withStatus 0, [])
    let isGiven := o.has 'e' || o.has 'f'
    if s.status = 2 then s
    else if !isGiven && o.operands.isEmpty then refuse s searchUsage 2
    else
      let texts := if isGiven then given ++ fromFiles else Text.split '\n' ((o.operands.head?).getD [])
      let operands := if isGiven then o.operands else o.operands.drop 1
      match patternOf o texts with
      | .error f => refuse s ("grep: " ++ f.message) 2
      | .ok pattern =>
        let isBounded (before after : List Char) : Bool :=
          !before.head?.any Pattern.isWordChar && !after.head?.any Pattern.isWordChar
        let search : Pattern.Search :=
          { pattern, ignoresCase := o.has 'i' || o.has 'y'
            accepts := fun before after =>
              if o.has 'x' then before.isEmpty && after.isEmpty else !o.has 'w' || isBounded before after }
        let isDeep := o.has 'r' || o.has 'R'
        let paths := if !operands.isEmpty then operands else if isDeep then [['.']] else [['-']]
        let files := if isDeep then paths.flatMap (filesBelow s 100) else paths
        let files := if isDeep && operands.isEmpty then files.map (·.drop 2) else files
        let isNamed := (files.length > 1 || isDeep || o.has 'H') && !o.has 'h'
        let (s, found, failed) := files.foldl (fun (s, found, failed) path =>
          match content s path with
          | (s, .error f) =>
            (if o.has 's' then s else refuse s (unread "grep" path f) 0, found, true)
          | (s, .ok text) =>
            let name := if path = ['-'] then "(standard input)".toList else path
            let (printed, isFound) := searchLines o search (if isNamed then some name else none) (lines text)
            let s := if o.has 'q' then s
              else if o.has 'l' then (if isFound then s.printLine name else s)
              else if o.has 'L' then (if isFound then s else s.printLine name)
              else s.print (unlines printed)
            (s, found || isFound, failed)) (s, false, false)
        s.withStatus (if o.has 'q' && found then 0 else if failed then 2 else if found then 0 else 1)

end StepTree.Shell.Program
