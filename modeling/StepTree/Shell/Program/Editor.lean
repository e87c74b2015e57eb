import StepTree.Shell.Program.Search

/-! # Editing lines

The program that applies a list of commands to each line of its input: a command may be bound to lines by their
numbers or by expressions that match in them. -/

namespace StepTree.Shell.Program.Editor

/-- Which line is meant. -/
inductive Address where
  | line (n : Nat)
  | last
  | pattern (search : Option Pattern.Search)
  | step (first every : Nat)

/-- The end of a range of lines. -/
inductive RangeEnd where
  | address (a : Address)
  /-- So many lines more. -/
  | more (n : Nat)
  /-- The next line whose number is a multiple. -/
  | multiple (n : Nat)

/-- What takes the place of a match. -/
inductive Piece where
  | text (chars : List Char)
  | group (n : Nat)
  /-- What follows is written with capital or small letters, all of it or the first one. -/
  | letters (c : Char)

structure Substitution where
  search : Option Pattern.Search
  pieces : List Piece
  isGlobal : Bool := false
  /-- The first match that is replaced. -/
  from_ : Nat := 1
  prints : Bool := false
  path : Option (List Char) := none

inductive Action where
  | substitute (s : Substitution)
  | translate (source target : List Char)
  /-- A command of one letter. -/
  | simple (c : Char)
  /-- A command of one letter that takes a text: lines, a label or the path of a file. -/
  | withText (c : Char) (text : List Char)
  | quit (prints : Bool) (status : Nat)
  /-- Goes on after a block unless the line is chosen. -/
  | block (stop : Nat)

structure Step where
  first : Option Address := none
  last : Option RangeEnd := none
  negated : Bool := false
  action : Action

/-! ### Reading -/

/-- What is wrong with a list of commands, and the number of characters that were read. -/
structure Fault where
  position : Nat
  cause : String

structure Reader where
  rest : List Char
  position : Nat := 0

abbrev Reading := StateT Reader (Except Fault)

def failAt {α : Type} (cause : String) : Reading α := fun r => .error ⟨r.position, cause⟩

def peek : Reading (Option Char) := return (← get).rest.head?

def skip (n : Nat) : Reading Unit := modify fun r => { rest := r.rest.drop n, position := r.position + n }

/-- Reads characters as long as they fit. -/
def run (fits : Char → Bool) : Reading (List Char) := do
  let text := (← get).rest.takeWhile fits
  skip text.length
  pure text

def isBlank (c : Char) : Bool := c = ' ' || c = '\t'

/-- The number of characters of brackets and what they list at the beginning of a text. -/
def bracketLength (s : List Char) : Nat :=
  match s with
  | '[' :: rest =>
    let negated := rest.head? = some '^'
    let inner := (if negated then rest.drop 1 else rest).map fun c => (c, false)
    match GlobItem.list? (inner.length + 1) true inner with
    | some (_, after) => s.length - after.length
    | none => 0
  | _ => 0

/-- A text up to a delimiter, in which a backslash makes the delimiter stand for itself, as do the brackets of an
expression. -/
def delimited? (delimiter : Char) (isExpression : Bool) : (fuel : Nat) → List Char → Option (List Char × List Char)
  | 0, _ => none
  | _ + 1, [] => none
  | fuel + 1, '\\' :: c :: rest =>
    (delimited? delimiter isExpression fuel rest).map fun (text, after) =>
      ((if c = delimiter then [c] else ['\\', c]) ++ text, after)
  | fuel + 1, c :: rest =>
    if c = delimiter then some ([], rest)
    else
      let n := max (if isExpression then bracketLength (c :: rest) else 0) 1
      (delimited? delimiter isExpression fuel ((c :: rest).drop n)).map fun (text, after) =>
        ((c :: rest).take n ++ text, after)

/-- Reads a text up to a delimiter. -/
def delimited (delimiter : Char) (isExpression : Bool) (cause : String) : Reading (List Char) := do
  let r ← get
  match delimited? delimiter isExpression (r.rest.length + 1) r.rest with
  | some (text, after) =>
    skip (r.rest.length - after.length)
    pure text
  | none =>
    skip r.rest.length
    failAt cause

/-- The expression of a text; an empty one is the last one that was used. -/
def searchOf (extended ignoresCase : Bool) (text : List Char) : Reading (Option Pattern.Search) :=
  if text.isEmpty then pure none
  else match Pattern.ofText extended text with
    | .ok pattern => pure (some { pattern, ignoresCase })
    | .error f => failAt f.message

def numberOf (digits : List Char) : Nat := (Literal.digits? 10 digits).getD 0

/-- Reads which line is meant, if that is said. -/
def address? (extended : Bool) : Reading (Option Address) := do
  let r ← get
  match r.rest with
  | '$' :: _ => skip 1; pure (some .last)
  | c :: rest =>
    if c.isDigit then
      let n := numberOf (← run Char.isDigit)
      if (← peek) = some '~' then
        skip 1
        return some (.step n (numberOf (← run Char.isDigit)))
      else pure (some (.line n))
    else if c = '/' || c = '\\' then
      let delimiter := if c = '/' then '/' else rest.head?.getD '/'
      skip (if c = '/' then 1 else 2)
      let text ← delimited delimiter true "unterminated address regex"
      let ignoresCase := (← peek) = some 'I'
      if ignoresCase then skip 1
      return some (.pattern (← searchOf extended ignoresCase text))
    else pure none
  | [] => pure none

/-- What takes the place of a match, of which backslashes introduce groups. -/
def pieces : List Char → List Piece
  | '\\' :: c :: rest =>
    if c.isDigit then .group (c.toNat - 48) :: pieces rest
    else if c = 'n' then .text ['\n'] :: pieces rest
    else if c = 't' then .text ['\t'] :: pieces rest
    else if ['U', 'L', 'E', 'u', 'l'].contains c then .letters c :: pieces rest
    else .text [c] :: pieces rest
  | '&' :: rest => .group 0 :: pieces rest
  | c :: rest => .text [c] :: pieces rest
  | [] => []

/-- Reads what stands after a substitution. -/
def flags : (fuel : Nat) → Substitution → (ignoresCase : Bool) → Reading (Substitution × Bool)
  | 0, s, i => pure (s, i)
  | fuel + 1, s, i => do
    match ← peek with
    | some 'g' =>
      skip 1
      if s.isGlobal then failAt "multiple \x60g' options to \x60s' command"
      flags fuel { s with isGlobal := true } i
    | some 'p' => skip 1; flags fuel { s with prints := true } i
    | some 'I' => skip 1; flags fuel s true
    | some 'i' => skip 1; flags fuel s true
    | some 'm' => skip 1; flags fuel s i
    | some 'M' => skip 1; flags fuel s i
    | some 'w' =>
      skip 1
      let _ ← run isBlank
      let path ← run (· ≠ '\n')
      if path.isEmpty then failAt "missing filename in r/R/w/W commands"
      pure ({ s with path := some path }, i)
    | some c =>
      if c.isDigit then
        let n := numberOf (← run Char.isDigit)
        if n = 0 then failAt "number option to \x60s' command may not be zero"
        flags fuel { s with from_ := n } i
      else if [';', '\n', '\x7d', '#'].contains c || isBlank c then pure (s, i)
      else do
        skip 1
        failAt "unknown option to \x60s'"
    | none => pure (s, i)

/-- Reads the end of a command. -/
def finish : Reading Unit := do
  let _ ← run isBlank
  match ← peek with
  | none => pure ()
  | some ';' => skip 1
  | some '\n' => skip 1
  | some '\x7d' => pure ()
  | some '#' => pure ()
  | some _ =>
    skip 1
    failAt "extra characters after command"

/-- The lines of a text that a command takes, of which a backslash at the end of a line lets it go on. -/
def textLines : (fuel : Nat) → List Char → List Char × List Char
  | 0, s => ([], s)
  | _ + 1, [] => ([], [])
  | fuel + 1, '\\' :: c :: rest =>
    let (text, after) := textLines fuel rest
    (c :: text, after)
  | fuel + 1, c :: rest =>
    if c = '\n' then ([], rest)
    else
      let (text, after) := textLines fuel rest
      (c :: text, after)

/-- Reads the text of a command that puts lines in. -/
def insertion : Reading (List Char) := do
  let _ ← run isBlank
  if (← peek) = some '\\' then
    skip 1
    let _ ← run isBlank
    if (← peek) = some '\n' then skip 1
  let r ← get
  if r.rest.isEmpty then failAt "expected \\ after \x60a', \x60c' or \x60i'"
  let (text, after) := textLines (r.rest.length + 1) r.rest
  skip (r.rest.length - after.length)
  pure text

/-- Reads one command after its addresses; blocks are closed by the caller. -/
def action (extended : Bool) (c : Char) : Reading Action := do
  match c with
  | 's' =>
    let delimiter := (← peek).getD '/'
    skip 1
    let text ← delimited delimiter true "unterminated \x60s' command"
    let replacement ← delimited delimiter false "unterminated \x60s' command"
    let (s, ignoresCase) ← flags 20 { search := none, pieces := pieces replacement } false
    let search ← searchOf extended ignoresCase text
    finish
    pure (.substitute { s with search })
  | 'y' =>
    let delimiter := (← peek).getD '/'
    skip 1
    let source ← delimited delimiter false "unterminated \x60y' command"
    let target ← delimited delimiter false "unterminated \x60y' command"
    if source.length ≠ target.length then failAt "strings for \x60y' command are different lengths"
    finish
    pure (.translate source target)
  | 'q' | 'Q' =>
    let _ ← run isBlank
    let status := numberOf (← run Char.isDigit)
    finish
    pure (.quit (c = 'q') status)
  | 'a' | 'i' | 'c' => return .withText c (← insertion)
  | 'b' | 't' | 'T' | ':' =>
    let _ ← run isBlank
    let label ← run fun c => c ≠ '\n' && c ≠ ';' && c ≠ '\x7d'
    let label := (label.reverse.dropWhile isBlank).reverse
    if c = ':' && label.isEmpty then failAt "\":\" lacks a label"
    finish
    pure (.withText c label)
  | 'r' | 'w' =>
    let _ ← run isBlank
    let path ← run (· ≠ '\n')
    if path.isEmpty then failAt "missing filename in r/R/w/W commands"
    finish
    pure (.withText c path)
  | _ =>
    if "dDpPnNgGhHx=lzF".toList.contains c then
      finish
      pure (.simple c)
    else failAt ("unknown command: \x60" ++ String.singleton c ++ "'")

/-- Reads the commands up to the end, or to the end of a block. -/
def steps (extended : Bool) : (fuel : Nat) → (depth : Nat) → (done : List Step) → Reading (List Step)
  | 0, _, done => pure done
  | fuel + 1, depth, done => do
    let _ ← run fun c => isBlank c || c = '\n' || c = ';'
    let first ← address? extended
    let last : Option RangeEnd ←
      if first.isSome && (← peek) = some ',' then do
        skip 1
        let _ ← run isBlank
        match ← peek with
        | some '+' =>
          skip 1
          pure (some (RangeEnd.more (numberOf (← run Char.isDigit))))
        | some '~' =>
          skip 1
          pure (some (RangeEnd.multiple (numberOf (← run Char.isDigit))))
        | _ =>
          match ← address? extended with
          | some a => pure (some (RangeEnd.address a))
          | none => failAt "unexpected \x60,'"
      else pure none
    let _ ← run isBlank
    let negated := (← peek) = some '!'
    if negated then
      let _ ← run fun c => c = '!' || isBlank c
    match ← peek with
    | none =>
      if first.isSome then failAt "missing command"
      else if depth > 0 then fun _ => .error ⟨0, "unmatched \x60\x7b'"⟩
      else pure done
    | some '#' =>
      let _ ← run (· ≠ '\n')
      steps extended fuel depth done
    | some '\x7d' =>
      skip 1
      if depth = 0 then failAt "unexpected \x60\x7d'"
      finish
      pure done
    | some '\x7b' =>
      skip 1
      let inner ← steps extended fuel (depth + 1) (done ++ [{ first, last, negated, action := .block 0 }])
      -- the block is now complete: its first step knows where it ends
      let opened := { first, last, negated, action := Action.block inner.length : Step }
      steps extended fuel depth (inner.take done.length ++ opened :: inner.drop (done.length + 1))
    | some c =>
      skip 1
      let action ← action extended c
      steps extended fuel depth (done ++ [{ first, last, negated, action }])

/-- The commands of a text. -/
def ofText (extended : Bool) (text : List Char) : Except Fault (List Step) := do
  let (all, _) ← (steps extended (text.length + 2) 0 []).run { rest := text }
  pure all

/-! ### Running -/

/-- What commands read and change. -/
structure State where
  /-- The lines that are still to come. -/
  rest : List (List Char)
  line : Nat := 0
  space : List Char := []
  held : List Char := []
  /-- For each step with a range of lines, the last line if the range has begun: zero if it is not known. -/
  open_ : List (Nat × Nat) := []
  lastSearch : Option Pattern.Search := none
  replaced : Bool := false
  /-- What is printed after the line. -/
  queued : List (List Char) := []
  /-- The output, the last piece first. -/
  output : List (List Char) := []
  written : List (List Char × List Char) := []
  status : Nat := 0
  isDone : Bool := false

namespace State

def print (s : State) (line : List Char) : State := { s with output := (line ++ ['\n']) :: s.output }

/-- The search of an address or substitution, which may be the last one that was used. -/
def searched (s : State) (search : Option Pattern.Search) : State × Option Pattern.Search :=
  match search with
  | some search => ({ s with lastSearch := some search }, some search)
  | none => (s, s.lastSearch)

def fits (s : State) : Address → State × Bool
  | .line n => (s, s.line = n)
  | .last => (s, s.rest.isEmpty)
  | .pattern search =>
    let (s, search) := s.searched search
    (s, search.any fun search => (search.first? s.space).isSome)
  | .step first every => (s, if every = 0 then s.line = first else s.line ≥ first && (s.line - first) % every = 0)

/-- Whether a step concerns the line. -/
def isChosen (s : State) (index : Nat) (step : Step) : State × Bool :=
  match step.first, step.last with
  | none, _ => (s, true)
  | some a, none => s.fits a
  | some a, some stop =>
    let begun := s.open_.lookup index
    let begun := if begun.isNone && s.line = 1 then match a with
        | .line 0 => some 0
        | _ => none
      else begun
    let close (s : State) : State := { s with open_ := s.open_.filter fun (i, _) => i ≠ index }
    let keep (s : State) (last : Nat) : State := { close s with open_ := (index, last) :: (close s).open_ }
    match begun with
    | some last =>
      if last ≠ 0 then
        if s.line < last then (s, true) else (close s, s.line = last)
      else
        match stop with
        | .address b =>
          let (s, ends) := s.fits b
          (if ends then close s else keep s 0, true)
        | _ => (close s, true)
    | none =>
      let (s, begins) := s.fits a
      if !begins then (s, false)
      else match stop with
        | .address (.line n) => (if n > s.line then keep s n else s, true)
        | .address _ => (if s.rest.isEmpty then s else keep s 0, true)
        | .more n => (if n > 0 then keep s (s.line + n) else s, true)
        | .multiple n =>
          let last := if n = 0 then s.line else (s.line + n - 1) / n * n
          (if last > s.line then keep s last else s, true)

/-- Text with the letters that marks before it ask for. -/
def styled : (mode once : Option Char) → List (List Char ⊕ Char) → List Char
  | _, _, [] => []
  | mode, once, .inr c :: rest =>
    if c = 'E' then styled none none rest
    else if c = 'U' || c = 'L' then styled (some c) once rest
    else styled mode (some c) rest
  | mode, once, .inl text :: rest =>
    let change (mode : Option Char) (c : Char) : Char :=
      if mode = some 'U' || mode = some 'u' then c.toUpper else if mode = some 'L' || mode = some 'l' then c.toLower else c
    match text with
    | [] => styled mode once rest
    | c :: more =>
      (change (once.or mode) c :: more.map (change mode)) ++ styled mode none rest

/-- What takes the place of a match. -/
def replacement (pieces : List Piece) (whole : List Char) (m : Pattern.Match) : List Char :=
  styled none none (pieces.map fun
    | .text chars => .inl chars
    | .group n => .inl (Pattern.captured whole m.groups n)
    | .letters c => .inr c)

/-- The text with matches replaced, the first one of them being the one with a certain number. -/
def substituted (sub : Substitution) (search : Pattern.Search) (whole : List Char) : Option (List Char) :=
  let found := search.all whole (whole.length + 2) false [] whole
  let chosen := if sub.isGlobal then found.drop (sub.from_ - 1) else (found.drop (sub.from_ - 1)).take 1
  if chosen.isEmpty then none
  else
    let (text, at_) := chosen.foldl (fun (text, at_) m =>
      let start := m.before.length
      (text ++ (whole.drop at_).take (start - at_) ++ replacement sub.pieces whole m, start + m.text.length)) ([], 0)
    some (text ++ whole.drop at_)

/-- The text in a form that shows all characters. -/
def shown (text : List Char) : List Char :=
  text.flatMap fun c =>
    if c = '\\' then ['\\', '\\']
    else if c = '\t' then ['\\', 't']
    else if c = '\n' then ['\\', 'n']
    else if c < ' ' || '~' < c then
      let digits := Nat.toDigits 8 c.toNat
      '\\' :: List.replicate (3 - digits.length) '0' ++ digits
    else [c]

/-- What follows the first line of a text, if there is more than one. -/
def afterFirstLine? (text : List Char) : Option (List Char) :=
  if text.contains '\n' then some ((text.dropWhile (· ≠ '\n')).drop 1) else none

/-- The end of a cycle: the line is printed, and what was to follow it. -/
def close (s : State) (quiet : Bool) : State :=
  let s := if quiet then s else s.print s.space
  { s with output := s.queued.reverse ++ s.output, queued := [] }

def write (s : State) (path text : List Char) : State :=
  let before := (s.written.lookup path).getD []
  { s with written := (path, before ++ text) :: s.written.filter fun (p, _) => p ≠ path }

end State

/-- What comes after a command. -/
inductive Next where
  /-- The command with a number. -/
  | at (index : Nat)
  /-- The next line, which the line may be printed before. -/
  | cycle (prints : Bool)
  /-- The next line, with what is left of this one and nothing printed. -/
  | again

/-- The text of a file, which may not be there. -/
abbrev Source := List Char → Option (List Char)

/-- Applies one command. -/
def apply (all : List Step) (read : Source) (quiet : Bool) (index : Nat) (a : Action) (s : State) : State × Next :=
  let next := Next.at (index + 1)
  let label (name : List Char) : Next :=
    if name.isEmpty then .at all.length
    else match (all.findIdx? fun step => match step.action with
      | .withText ':' l => l = name
      | _ => false) with
      | some i => .at i
      | none => .at all.length
  match a with
  | .block _ => (s, next)
  | .quit prints status =>
    ({ s.close (quiet || !prints) with isDone := true, status }, .cycle false)
  | .translate source target =>
    let change (c : Char) : Char := if source.contains c then (target[source.idxOf c]?).getD c else c
    ({ s with space := s.space.map change }, next)
  | .substitute sub =>
    let (s, search) := s.searched sub.search
    match search.bind fun search => State.substituted sub search s.space with
    | none => (s, next)
    | some text =>
      let s := { s with space := text, replaced := true }
      let s := if sub.prints then s.print text else s
      let s := match sub.path with
        | some path => s.write path (text ++ ['\n'])
        | none => s
      (s, next)
  | .withText c text =>
    match c with
    | 'a' => ({ s with queued := s.queued ++ [text ++ ['\n']] }, next)
    | 'i' => (s.print text, next)
    | 'c' => (s.print text, .cycle false)
    | 'b' => (s, label text)
    | 't' => if s.replaced then ({ s with replaced := false }, label text) else (s, next)
    | 'T' => if s.replaced then ({ s with replaced := false }, next) else (s, label text)
    | 'r' => ({ s with queued := s.queued ++ (read text).toList }, next)
    | 'w' => (s.write text (s.space ++ ['\n']), next)
    | _ => (s, next)
  | .simple c =>
    let readNext (s : State) (k : List Char → State → State) : State × Next :=
      match s.rest with
      | [] => ({ (if quiet then s else s.print s.space) with isDone := true }, .cycle false)
      | line :: rest => (k line { s with rest, line := s.line + 1 }, next)
    match c with
    | 'd' => (s, .cycle false)
    | 'D' =>
      match State.afterFirstLine? s.space with
      | none => (s, .cycle false)
      | some rest => ({ s with space := rest }, .again)
    | 'p' => (s.print s.space, next)
    | 'P' => (s.print (s.space.takeWhile (· ≠ '\n')), next)
    | 'n' =>
      if s.rest.isEmpty then readNext s fun _ s => s
      else readNext (s.close quiet) fun line s => { s with space := line }
    | 'N' => readNext s fun line s => { s with space := s.space ++ '\n' :: line }
    | 'g' => ({ s with space := s.held }, next)
    | 'G' => ({ s with space := s.space ++ '\n' :: s.held }, next)
    | 'h' => ({ s with held := s.space }, next)
    | 'H' => ({ s with held := s.held ++ '\n' :: s.space }, next)
    | 'x' => ({ s with space := s.held, held := s.space }, next)
    | '=' => (s.print (toString s.line).toList, next)
    | 'l' => (s.print (State.shown s.space ++ ['$']), next)
    | 'z' => ({ s with space := [] }, next)
    | _ => (s, next)

/-- Applies the commands from one on to the line. -/
def applyFrom (all : List Step) (read : Source) (quiet : Bool) : (fuel index : Nat) → State → State × Next
  | 0, _, s => ({ s with isDone := true }, .cycle false)
  | fuel + 1, index, s =>
    match all[index]? with
    | none => (s, .cycle true)
    | some step =>
      let (s, chosen) := s.isChosen index step
      if chosen = step.negated then
        let next := match step.action with
          | .block stop => stop
          | _ => index + 1
        applyFrom all read quiet fuel next s
      else
        match apply all read quiet index step.action s with
        | (s, .at next) => applyFrom all read quiet fuel next s
        | result => result

/-- Applies the commands to all lines. -/
def applyAll (all : List Step) (read : Source) (quiet : Bool) : (fuel : Nat) → (keeps : Bool) → State → State
  | 0, _, s => s
  | fuel + 1, keeps, s =>
    if s.isDone then s
    else
      let started : Option State :=
        if keeps then some s
        else match s.rest with
          | [] => none
          | line :: rest => some { s with rest, line := s.line + 1, space := line, replaced := false }
      match started with
      | none => s
      | some s =>
        let (s, next) := applyFrom all read quiet 100000 0 s
        if s.isDone then { s with output := s.queued.reverse ++ s.output, queued := [] }
        else match next with
          | .again => applyAll all read quiet fuel true (s.close true)
          | .cycle prints => applyAll all read quiet fuel false (s.close (quiet || !prints))
          | .at _ => applyAll all read quiet fuel false (s.close quiet)

/-- The first label to which a command goes and that is not there. -/
def missingLabel? (all : List Step) : Option (List Char) :=
  let labels := all.filterMap fun step => match step.action with
    | .withText ':' l => some l
    | _ => none
  all.findSome? fun step => match step.action with
    | .withText c l =>
      if ['b', 't', 'T'].contains c && !l.isEmpty && !labels.contains l then some l else none
    | _ => none

end StepTree.Shell.Program.Editor

namespace StepTree.Shell.Program

def editorTable : OptionTable :=
  { flags := ['n', 'E', 'r', 's', 'u', 'z'], valued := ['e', 'f']
    long := [("quiet", 'n'), ("silent", 'n'), ("regexp-extended", 'E'), ("expression", 'e'), ("file", 'f'),
      ("separate", 's')] }

/-- Edits what comes in, or files, which may be changed in place. -/
def sed : Program := fun operands s =>
  -- the option to change files may have a text of its own directly after it
  let isPlace (operand : List Char) : Bool :=
    operand.take 2 = ['-', 'i'] || operand.take 10 = "--in-place".toList
  let inPlace := operands.any isPlace
  let operands := operands.filter fun operand => !isPlace operand
  match options editorTable operands with
  | .error text => refuse s ("sed: " ++ text) 1
  | .ok o =>
    let (s, scripts) := o.given.foldl (fun (s, found) (c, text) =>
      if c = 'e' then (s, found ++ [text])
      else if c = 'f' then
        match content s text with
        | (s, .ok text) => (s, found ++ [text])
        | (s, .error f) => (refuse s ("sed: couldn't open file " ++ String.ofList text ++ ": " ++ f.message) 1, found)
      else (s, found)) (s.withStatus 0, [])
    let isGiven := o.has 'e' || o.has 'f'
    let script := if isGiven then ['\n'].intercalate scripts else (o.operands.head?).getD []
    let paths := if isGiven then o.operands else o.operands.drop 1
    if s.status ≠ 0 then s
    else if !isGiven && o.operands.isEmpty then refuse s "Usage: sed [OPTION]... script [input-file]..." 1
    else match Editor.ofText (o.has 'E' || o.has 'r') script with
      | .error f =>
        refuse s ("sed: -e expression #1, char " ++ toString f.position ++ ": " ++ f.cause) 1
      | .ok all =>
        match Editor.missingLabel? all with
        | some label => refuse s ("sed: can't find label for jump to \x60" ++ String.ofList label ++ "'") 1
        | none =>
          let read : Editor.Source := fun path => ((content s path).2).toOption
          let edit (text : List Char) : Editor.State :=
            let all' := lines text
            Editor.applyAll all read (o.has 'n') (2 * text.length + 10) false { rest := all' }
          let output (text : List Char) (e : Editor.State) : List Char :=
            let written := e.output.reverse.flatMap id
            let isOpen := !text.isEmpty && text.getLast? ≠ some '\n' && e.rest.isEmpty
            if isOpen then (if written.getLast? = some '\n' then written.dropLast else written) else written
          let save (s : Session) (e : Editor.State) : Session :=
            e.written.foldl (fun s (path, text) =>
              match newPlace s path with
              | .ok place => { s with files := s.files.write place (toContent text) }
              | .error f => refuse s ("sed: couldn't open file " ++ String.ofList path ++ ": " ++ f.message) 4) s
          if inPlace || o.has 's' then
            paths.foldl (fun s path =>
              match content s path with
              | (s, .error f) => refuse s ("sed: can't read " ++ String.ofList path ++ ": " ++ f.message) 2
              | (s, .ok text) =>
                let e := edit text
                let s := save s e
                if inPlace then
                  match find s path with
                  | .ok place => { s with files := s.files.write place (toContent (output text e)) }
                  | .error _ => s
                else s.print (output text e)) s
          else
            let (s, text, failed) := (if paths.isEmpty then [['-']] else paths).foldl (fun (s, all, failed) path =>
              match content s path with
              | (s, .ok text) =>
                let all := if all.isEmpty || all.getLast? = some '\n' then all else all ++ ['\n']
                (s, all ++ text, failed)
              | (s, .error .isDirectory) =>
                (refuse s ("sed: couldn't edit " ++ String.ofList path ++ ": not a regular file") 2, all, true)
              | (s, .error f) =>
                (refuse s ("sed: can't read " ++ String.ofList path ++ ": " ++ f.message) 2, all, true)) (s, [], false)
            let e := edit text
            ((save s e).print (output text e)).withStatus (if failed then 2 else e.status)

end StepTree.Shell.Program
