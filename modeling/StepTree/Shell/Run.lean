import StepTree.Shell.Expansion
import StepTree.Shell.Program

/-! # Running commands

Commands run one after the other in a session. Words are expanded before a command runs. A mistake in a word or
in a line of the text ends the session; so does a failure where options ask for it, unless the command that
failed is tested. Commands in brackets, in words, in pipes and in the background have a session of their own,
which shares files and streams with the one around it. -/

namespace StepTree.Shell

/-- The greatest number of rounds of a loop; one that goes on after them never ends. -/
def roundLimit : Nat := 100000

/-- The greatest number of calls in each other. -/
def callLimit : Nat := 1000

/-- Goes on with rounds until one is the last; whether there was one. -/
def iterate {α : Type} (round : α → α × Bool) : (limit : Nat) → α → α × Bool
  | 0, a => (a, false)
  | limit + 1, a =>
    match round a with
    | (a, true) => iterate round limit a
    | (a, false) => (a, true)

namespace Session

/-- The session of commands in a session of their own. -/
def child (s : Session) : Session :=
  { s with traps := s.traps.filter fun (_, action) => action.isEmpty, pending := [], jobs := [], inner := 0 }

/-- A session after a round of a loop, and whether the loop goes on. -/
def closeRound (s : Session) : Session × Bool :=
  match s.ending with
  | none => (s, true)
  | some (.leavesLoops n) => ({ s with ending := if n ≤ 1 then none else some (.leavesLoops (n - 1)) }, false)
  | some (.nextRound n) =>
    if n ≤ 1 then ({ s with ending := none }, true) else ({ s with ending := some (.nextRound (n - 1)) }, false)
  | some _ => (s, false)

/-- A loop that does not end. -/
def goOnForEver (s : Session) : Session := { s.pause 1000000000 with ending := some (.killed 9) }

/-- The session ends because a command failed, if an option asks for that. -/
def checked (s : Session) (tested : Bool) : Session :=
  if s.has 'e' && !tested && s.status ≠ 0 && s.ending.isNone then s.exit s.status else s

/-- Commands of their own came to their end. -/
def join (s part : Session) : Session :=
  let s := s.after part
  match part.ending with
  | some (.killed signal) => { s with ending := some (.killed signal) }
  | _ => s.withStatus part.status

/-- A new session of the same kind, as another process: it knows only what is exported. -/
def newProcess (s : Session) (self : List Char) (arguments : List (List Char)) : Session :=
  { files := s.files, place := s.place, vars := s.vars.filter fun (_, v) => v.isExported, arguments
    traps := s.traps.filter fun (_, action) => action.isEmpty, channels := s.channels
    descriptors := s.descriptors, now := s.now, self, number := s.number + 100, documentCount := s.documentCount
    mask := s.mask }

/-- Another process came to its end. -/
def joinProcess (s part : Session) : Session :=
  let s := s.after part
  match part.ending with
  | some (.killed signal) => (s.withStatus (128 + signal)).tellSignal signal
  | _ => s.withStatus (part.status % 256)

end Session

/-- The utilities whose operands may be assignments. -/
def declares (names : List (List Char)) : Bool :=
  match (names.dropWhile (· = "command".toList)).head? with
  | some name => ["export", "readonly", "local", "alias"].contains (String.ofList name)
  | none => false

/-- Where a redirection leads, its words being expanded. -/
inductive Opened where
  | descriptor (n : Nat)
  | closed
  | file (path : List Char) (how : Session.Opening)
  | text (content : List Char)

/-- A descriptor that a word names. -/
def Opened.ofName? (name : List Char) : Option Opened :=
  match name with
  | ['-'] => some .closed
  | [c] => if c.isDigit then some (.descriptor (c.toNat - 48)) else none
  | _ => none

/-- Makes descriptors lead elsewhere, from left to right, up to the first mistake. -/
def redirectAll (s : Session) : List (Nat × Opened) → Session × Option String
  | [] => (s, none)
  | (d, target) :: rest =>
    match target with
    | .closed => redirectAll (s.redirect d none) rest
    | .text content =>
      let (s, index) := s.attach (.source content)
      redirectAll (s.redirect d (some index)) rest
    | .descriptor n =>
      match s.descriptors.lookup n with
      | some index => redirectAll (s.redirect d (some index)) rest
      | none => (s, some (toString n ++ ": Bad file descriptor"))
    | .file path how =>
      match s.openFile path how with
      | .ok (s, index) => redirectAll (s.redirect d (some index)) rest
      | .error text => (s, some text)

/-- A text with another one in the place of a mark, wherever the mark occurs. -/
def replaceAll (mark item : List Char) : (fuel : Nat) → List Char → List Char
  | 0, _ => []
  | _ + 1, [] => []
  | fuel + 1, c :: rest =>
    match Text.after? mark (c :: rest) with
    | some after => item ++ replaceAll mark item fuel after
    | none => c :: replaceAll mark item fuel rest

/-- The arguments that words in a text are, of which quotes and backslashes keep blanks. -/
def argumentsOf : (fuel : Nat) → List Char → List (List Char)
  | 0, _ => []
  | fuel + 1, text =>
    let isBlank (c : Char) : Bool := c = ' ' || c = '\t' || c = '\n'
    match text.dropWhile isBlank with
    | [] => []
    | rest =>
      let (word, after) := read rest
      word :: argumentsOf fuel after
where
  read : List Char → List Char × List Char
    | '\\' :: c :: rest =>
      let (word, after) := read rest
      (c :: word, after)
    | c :: rest =>
      if c = ' ' || c = '\t' || c = '\n' then ([], rest)
      else if c = '\'' || c = '"' then inQuotes c rest
      else
        let (word, after) := read rest
        (c :: word, after)
    | [] => ([], [])
  inQuotes (quote : Char) : List Char → List Char × List Char
    | c :: rest =>
      if c = quote then read rest
      else
        let (word, after) := inQuotes quote rest
        (c :: word, after)
    | [] => ([], [])

mutual

/-- Expands a part of a word. -/
def expandPart : (fuel : Nat) → Manner → Part → Session → Session × List Atom
  | 0, _, _, s => (s, [])
  | fuel + 1, m, p, s =>
    match p with
    | .text quoted chars =>
      (s, if m.inValue && !quoted && m.separates then Atom.ofValue false chars else Atom.ofText quoted chars)
    | .value quoted p how operand => expandValue fuel m quoted p how operand s
    | .output quoted script =>
      let (s, index) := s.attach (.gathered [])
      let part := match script with
        | some script => runApart fuel false script (s.redirect 1 (some index))
        | none => s.withStatus 0
      let text := (part.gathered index).filter (· ≠ '\x00')
      let text := (text.reverse.dropWhile (· = '\n')).reverse
      let s := { s.after part with inner := part.status }
      (match part.ending with
        | some (.killed signal) => { s with ending := some (.killed signal) }
        | _ => s, Atom.ofValue quoted text)
    | .arithmetic quoted expression =>
      let (s, atoms) := expandParts fuel { m with separates := false } expression s
      let expression := Atom.text atoms
      if s.ending.isSome then (s, [])
      else match Arithmetic.eval (fun name => (s.lookup? name).getD []) expression with
        | .ok (n, assigned) =>
          let s := assigned.foldl (fun s (name, n) =>
            if s.ending.isSome then s else s.assign name (toString n).toList) s
          (s, Atom.ofValue quoted (toString n).toList)
        | .error f => (s.abort (f.message expression), [])
    | .invalid => (s.abort "Bad substitution", [])

/-- Expands the parts of a word. -/
def expandParts : (fuel : Nat) → Manner → Word → Session → Session × List Atom
  | 0, _, _, s => (s, [])
  | fuel + 1, m, w, s =>
    w.foldl (fun (s, atoms) p =>
      if s.ending.isSome then (s, atoms)
      else
        let (s, more) := expandPart fuel m p s
        (s, atoms ++ more)) (s, [])

/-- Expands a parameter whose value may be adjusted. -/
def expandValue : (fuel : Nat) → Manner → (quoted : Bool) → Parameter → Adjustment → (operand : Word) →
    Session → Session × List Atom
  | 0, _, _, _, _, _, s => (s, [])
  | fuel + 1, m, quoted, p, how, operand, s =>
    let value := s.parameter? p
    let counts (ifEmpty : Bool) : Bool := value.any fun v => !(ifEmpty && v.isEmpty)
    let given (s : Session) : Session × List Atom := (s, s.valueAtoms m quoted p (value.getD []))
    let unset (s : Session) : Session × List Atom :=
      if s.has 'u' then (s.abort (p.name ++ ": parameter not set"), []) else (s, [])
    let other (s : Session) : Session × List Atom :=
      expandParts fuel { m with inValue := true } (Word.withHome s false operand) s
    let without (atStart longest : Bool) : Session × List Atom :=
      match value with
      | none => unset s
      | some value =>
        let (s, atoms) := expandParts fuel {} (Word.withHome s false operand) s
        (s, Atom.ofValue quoted (dropMatch atStart longest (Glob.ofChars (Atom.chars atoms)) value))
    match how with
    | .plain => if value.isSome then given s else unset s
    | .length => if value.isSome then (s, Atom.ofValue quoted (toString (value.getD []).length).toList)
      else if s.has 'u' then unset s else (s, Atom.ofValue quoted ['0'])
    | .fallback ifEmpty => if counts ifEmpty then given s else other s
    | .instead unlessEmpty => if counts unlessEmpty then other s else (s, Atom.ofValue quoted [])
    | .assign ifEmpty =>
      if counts ifEmpty then given s
      else
        let (s, atoms) := expandParts fuel {} (Word.withHome s false operand) s
        if s.ending.isSome then (s, [])
        else match p with
          | .named name => (s.assign name (Atom.text atoms), Atom.ofValue quoted (Atom.text atoms))
          | _ => (s.abort (p.name ++ ": bad variable name"), [])
    | .demand ifEmpty =>
      if counts ifEmpty then given s
      else if operand.isEmpty then
        (s.abort (p.name ++ ": parameter not set" ++ if ifEmpty then " or null" else ""), [])
      else
        let (s, atoms) := expandParts fuel {} (Word.withHome s false operand) s
        (if s.ending.isSome then s else s.abort (p.name ++ ": " ++ String.ofList (Atom.text atoms)), [])
    | .dropStart longest => without true longest
    | .dropEnd longest => without false longest

/-- Expands a word to fields. -/
def expandFields : (fuel : Nat) → Word → Session → Session × List (List Char)
  | 0, _, s => (s, [])
  | fuel + 1, w, s =>
    let (s, atoms) := expandParts fuel { separates := true } (Word.withHome s false w) s
    if s.ending.isSome then (s, []) else (s, Field.ofAtoms s atoms)

/-- Expands a word that stays one text. -/
def expandText : (fuel : Nat) → (isValue : Bool) → Word → Session → Session × List Char
  | 0, _, _, s => (s, [])
  | fuel + 1, isValue, w, s =>
    let (s, atoms) := expandParts fuel {} (Word.withHome s isValue w) s
    (s, Atom.text atoms)

/-- Expands the words of a command. Operands that are assignments stay one text, where they are meant so. -/
def expandWords : (fuel : Nat) → List Word → Session → Session × List (List Char)
  | 0, _, s => (s, [])
  | fuel + 1, words, s =>
    words.foldl (fun (s, fields) w =>
      if s.ending.isSome then (s, fields)
      else match if declares fields then w.assignment? else none with
        | some (name, value) =>
          let (s, text) := expandText fuel true value s
          (s, fields ++ [name.toList ++ '=' :: text])
        | none =>
          let (s, more) := expandFields fuel w s
          (s, fields ++ more)) (s, [])

/-- Expands the words of redirections. -/
def expandTargets : (fuel : Nat) → List Redirection → Session → Session × List (Nat × Opened)
  | 0, _, s => (s, [])
  | fuel + 1, rs, s =>
    rs.foldl (fun (s, found) r =>
      if s.ending.isSome then (s, found)
      else
        let file (path : Word) (how : Session.Opening) : Session × List (Nat × Opened) :=
          let (s, path) := expandText fuel false path s
          (s, found ++ [(r.descriptor, .file path how)])
        match r.target with
        | .descriptor n => (s, found ++ [(r.descriptor, .descriptor n)])
        | .closed => (s, found ++ [(r.descriptor, .closed)])
        | .descriptorOf name =>
          let (s, name) := expandText fuel false name s
          if s.ending.isSome then (s, found)
          else match Opened.ofName? name with
            | some target => (s, found ++ [(r.descriptor, target)])
            | none => (s.abort "Syntax error: Bad fd number", found)
        | .read path => file path {}
        | .readWrite path => file path { creates := true }
        | .write path true _ => file path { creates := true, appends := true }
        | .write path false force =>
          file path { creates := true, empties := true, isNew := s.has 'C' && !force }
        | .document number =>
          let (s, atoms) := expandParts fuel {} ((s.documents.lookup number).getD []) s
          (s, found ++ [(r.descriptor, .text (Atom.text atoms))])) (s, [])

/-- Applies redirections; a mistake in one of them is reported. -/
def redirected : (fuel : Nat) → List Redirection → Session → Session × Bool
  | 0, _, s => (s, true)
  | fuel + 1, rs, s =>
    let (opened, targets) := expandTargets fuel rs s
    if opened.ending.isSome then (opened, false)
    else match redirectAll opened targets with
      | (r, none) => (r, true)
      | (r, some text) => ((r.fail 2 text).withDescriptorsOf s, false)

/-- Answers the signals that arrived. -/
def answer : (fuel : Nat) → Session → Session
  | 0, s => s
  | fuel + 1, s =>
    match s.pending with
    | [] => s
    | signal :: others =>
      let s := { s with pending := others }
      if s.ending.isSome then s
      else match s.traps.lookup signal with
        | none => s
        | some action =>
          let done := runText fuel false action { s with utility := none }
          let done := { done with utility := s.utility }
          answer fuel (if done.ending.isSome then done else done.withStatus s.status)

/-- Ends a session: the commands that were to run at its end do so. -/
def finish : (fuel : Nat) → Session → Session
  | 0, s => s
  | fuel + 1, s =>
    match s.ending, s.traps.lookup 0 with
    | some (.killed _), _ => s
    | _, none => { s with ending := none, status := s.status % 256 }
    | _, some action =>
      let status := s.status
      let s := { s with ending := none, traps := s.traps.filter fun (n, _) => n ≠ 0 }
      let done := runText fuel false action s
      match done.ending with
      | some (.killed _) => done
      | some _ => { done with ending := none, status := done.status % 256 }
      | none => { done with status := status % 256 }

/-- Runs commands in a session of their own. -/
def runApart : (fuel : Nat) → (tested : Bool) → Script → Session → Session
  | 0, _, _, s => s
  | fuel + 1, tested, script, s => finish fuel (run fuel tested script s.child)

/-- Runs the commands of a text. -/
def runText : (fuel : Nat) → (tested : Bool) → (text : List Char) → Session → Session
  | 0, _, _, s => s
  | fuel + 1, tested, text, s =>
    let reader : Reader := { rest := text, aliases := s.aliases, count := s.documentCount }
    let round (state : Session × Reader × Bool) : (Session × Reader × Bool) × Bool :=
      let (s, reader, any) := state
      let reader := { reader with aliases := s.aliases, count := s.documentCount }
      match (Reading.line (reader.rest.length + 1)).run reader with
      | .error e => (({ s with line := e.line }.abort ("Syntax error: " ++ e.fault.message), reader, true), false)
      | .ok (none, reader) => ((s, reader, any), false)
      | .ok (some script, reader) =>
        let s := { s with documents := reader.documents ++ s.documents, documentCount := reader.count }
        let s := run fuel tested script s
        ((s, { reader with documents := [] }, true), s.ending.isNone)
    let ((s, _, any), _) := iterate round (text.length + 1) (s, reader, false)
    if any then s else s.withStatus 0

/-- Runs a utility. A mistake ends the session only if it is a special one. -/
def runUtility : (fuel : Nat) → (special : Bool) → (name : String) → Utility → List (List Char) → Session → Session
  | 0, _, _, _, _, s => s
  | _ + 1, special, name, u, operands, s =>
    let done := u operands { s with utility := some name, lostOutput := false }
    let done := if done.lostOutput then
        (done.complain (name ++ ": I/O error")).withStatus (if done.status % 2 = 0 then done.status + 1 else done.status)
      else done
    let done := { done with utility := s.utility, lostOutput := s.lostOutput }
    if done.ending = some .aborted && !special then { done with ending := none } else done

/-- Calls a function. -/
def callFunction : (fuel : Nat) → (tested : Bool) → (body : Script) → List (List Char) → Session → Session
  | 0, _, _, _, s => { s with ending := some (.killed 11) }
  | fuel + 1, tested, body, operands, s =>
    if s.calls ≥ callLimit then
      s.abort ("Maximum function recursion depth (" ++ toString callLimit ++ ") reached")
    else
      let called := { s with arguments := operands, loops := 0, calls := s.calls + 1, optionOffset := 0 }
      let done := run fuel tested body called
      let back : Session :=
        { done with
          arguments := s.arguments, loops := s.loops, calls := s.calls, optionOffset := s.optionOffset }
      if back.ending = some .returned then { back with ending := none } else back

/-- Runs a program, or a file of commands, as another process. -/
def runProgram : (fuel : Nat) → Program.Found → (name : List Char) → List (List Char) → Session → Session
  | 0, _, _, _, s => s
  | fuel + 1, found, name, operands, s =>
    let apart := { s with utility := none, ending := none }
    match found with
    | .script place =>
      let text := ofContent ((s.files.file? place).getD [])
      let process := s.newProcess name operands
      s.joinProcess (finish fuel (runText fuel false text process))
    | .known text =>
      match Program.table.lookup text with
      | some program =>
        let done := program operands apart
        { s.after done with status := done.status }
      | none => runRunner fuel text operands apart s

/-- Runs a program that runs other commands. -/
def runRunner : (fuel : Nat) → (name : String) → List (List Char) → (apart s : Session) → Session
  | 0, _, _, _, s => s
  | fuel + 1, name, operands, apart, s =>
    let inner (fields : List (List Char)) (apart s : Session) : Session :=
      match fields with
      | [] => s
      | command :: rest =>
        let path := ((apart.vars.lookup "PATH").or (s.vars.lookup "PATH"))
        match Program.resolve { apart with vars := Session.put apart.vars "PATH" path } command with
        | .ok found =>
          let done := runProgram fuel found command rest apart
          { s.after done with status := done.status }
        | .error f =>
          let cause := if f = .notAllowed then "Permission denied" else "No such file or directory"
          let quoted := if name = "xargs" then String.ofList command else "'" ++ String.ofList command ++ "'"
          let lead := if name = "timeout" then "timeout: failed to run command "
            else if name = "nohup" then "nohup: failed to run command " else name ++ ": "
          (s.report (lead ++ quoted ++ ": " ++ cause).toList).withStatus f.status
    match name with
    | "env" =>
      match Options.read ['i', '0'] ['u', 'C'] (if operands.head? = some ['-'] then ['-', 'i'] :: operands.drop 1
        else operands) with
      | .error f => Program.misuse s "env" (Program.optionFault f) 125
      | .ok o =>
        let base := if o.has 'i' then { apart with vars := [] } else apart
        let base := o.given.foldl (fun base (c, value) =>
          if c = 'u' then { base with vars := Session.put base.vars (String.ofList value) none } else base) base
        let assignments := o.operands.takeWhile fun operand => operand.contains '='
        let changed := assignments.foldl (fun base operand =>
          let (name, value) := Utility.parts operand
          { base with vars := Session.put base.vars (String.ofList name) (some { value, isExported := true }) }) base
        match o.operands.drop assignments.length with
        | [] =>
          let done := Program.printEnvironment [] changed
          { s.after done with status := 0 }
        | fields => inner fields changed s
    | "timeout" =>
      let rest := operands.dropWhile fun operand => operand.head? = some '-'
      match rest with
      | duration :: fields =>
        match Program.milliseconds? duration, fields with
        | some ms, _ :: _ =>
          let done := inner fields apart s
          if ms ≠ 0 && done.now.ms > s.now.ms + ms then
            { done with now := { done.now with ms := s.now.ms + ms }, status := 124 }
          else done
        | none, _ :: _ =>
          Program.misuse s "timeout" ("invalid time interval '" ++ String.ofList duration ++ "'") 125
        | _, [] => Program.misuse s "timeout" "missing operand" 125
      | [] => Program.misuse s "timeout" "missing operand" 125
    | "nohup" =>
      if operands.isEmpty then Program.misuse s "nohup" "missing operand" 125 else inner operands apart s
    | "which" =>
      let done := Program.which operands apart
      { s.after done with status := done.status }
    | "nice" =>
      match operands with
      | ['-', 'n'] :: _ :: fields => inner fields apart s
      | fields => if fields.isEmpty then (s.printLine ['0']).withStatus 0 else inner fields apart s
    | "xargs" =>
      match Options.read ['0', 'r', 't', 'x'] ['n', 'I', 'd', 'L', 'P', 's'] operands with
      | .error f => Program.misuse s "xargs" (Program.optionFault f) 1
      | .ok o =>
        let (input, read) := s.readAll
        let command := if o.operands.isEmpty then ["echo".toList] else o.operands
        let items := if o.has '0' then (Text.split '\x00' input).filter (!·.isEmpty)
          else if o.has 'd' then
            let mark := ((o.value? 'd').bind List.head?).getD '\n'
            let body := if input.getLast? = some mark then input.dropLast else input
            Text.split mark body
          else if o.has 'I' then
            ((Program.lines input).map fun line => line.dropWhile Text.isBlank).filter (!·.isEmpty)
          else if o.has 'L' then (Program.lines input).filter (!·.isEmpty)
          else argumentsOf (input.length + 1) input
        let size := (((o.value? 'n').or (o.value? 'L')).bind (Literal.digits? 10)).getD 0
        let groups : List (List (List Char)) :=
          if size = 0 then [items]
          else (List.range ((items.length + size - 1) / size)).map fun n => (items.drop (n * size)).take size
        let commands := match o.value? 'I' with
          | some mark =>
            items.map fun item => command.map fun text =>
              if mark.isEmpty then text else replaceAll mark item (text.length + 1) text
          | none =>
            if items.isEmpty then (if o.has 'r' then [] else [command]) else groups.map fun group => command ++ group
        let read := read.withStatus 0
        commands.foldl (fun s fields =>
          if s.status = 127 || s.status = 126 then s
          else
            let done := inner fields { apart with channels := s.channels, files := s.files, now := s.now } s
            if done.status = 127 || done.status = 126 then done
            else done.withStatus (if done.status = 0 then s.status else 123)) read
    | _ => runShell fuel operands s

/-- Runs a shell as another process. -/
def runShell : (fuel : Nat) → List (List Char) → Session → Session
  | 0, _, s => s
  | fuel + 1, operands, s =>
    let letters := (operands.takeWhile fun operand =>
      (operand.head? = some '-' || operand.head? = some '+') && operand.length > 1 && operand ≠ ['-', '-'])
    let rest := operands.drop letters.length
    let rest := if rest.head? = some ['-', '-'] then rest.drop 1 else rest
    let options := (letters.flatMap (·.drop 1)).filter fun c => c ≠ 'c' && c ≠ 's'
    let isText := letters.any fun operand => operand.contains 'c'
    let start (self : List Char) (arguments : List (List Char)) : Session :=
      { s.newProcess self arguments with options }
    match isText, rest with
    | true, [] => (s.report ("sh: 0: -c requires an argument".toList)).withStatus 2
    | true, text :: rest =>
      let self := (rest.head?).getD "sh".toList
      s.joinProcess (finish fuel (runText fuel false text (start self (rest.drop 1))))
    | false, [] =>
      let (text, s) := s.readAll
      let process := { start "sh".toList [] with channels := s.channels, files := s.files }
      s.joinProcess (finish fuel (runText fuel false text process))
    | false, path :: arguments =>
      match Program.find s path with
      | .ok place =>
        let text := ofContent ((s.files.file? place).getD [])
        s.joinProcess (finish fuel (runText fuel false text (start path arguments)))
      | .error _ => (s.report ("sh: 0: cannot open ".toList ++ path ++ ": No such file".toList)).withStatus 2

/-- Runs the command that fields are. -/
def invoke : (fuel : Nat) → (tested isPlain : Bool) → (special : Bool) → List (List Char) → Session → Session
  | 0, _, _, _, _, s => { s with ending := some (.killed 11) }
  | _ + 1, _, _, _, [], s => s
  | fuel + 1, tested, isPlain, special, name :: operands, s =>
    let text := String.ofList name
    match if isPlain then s.functions.lookup text else none with
    | some body => callFunction fuel tested body operands s
    | none =>
      match Utility.table.lookup text with
      | some u => runUtility fuel special text u operands s
      | none =>
        match text with
        | "eval" =>
          runUtility fuel special text (fun operands s =>
            runText fuel tested ([' '].intercalate operands) s) operands s
        | "." => runUtility fuel special text (runFile fuel) operands s
        | "exec" => runUtility fuel special text (runLast fuel) operands s
        | "type" => runUtility fuel special text Utility.type operands s
        | "hash" => runUtility fuel special text Utility.hash operands s
        | "command" =>
          match Options.read ['p', 'v', 'V'] [] operands with
          | .error f => runUtility fuel false text (fun _ s => s.abort f.message) [] s
          | .ok o =>
            if o.has 'v' || o.has 'V' then
              runUtility fuel false text (fun operands s =>
                (operands.take 1).foldl (Utility.describe (o.has 'V')) (s.withStatus 0)) o.operands s
            else if o.operands.isEmpty then s.withStatus 0
            else invoke fuel tested false special o.operands s
        | _ =>
          match Program.resolve s name with
          | .ok found =>
            let s := if name.contains '/' || s.found.contains text then s else { s with found := s.found ++ [text] }
            runProgram fuel found name operands s
          | .error f => s.fail f.status (text ++ ": " ++ f.message)

/-- Runs the commands of a file in the session. -/
def runFile : (fuel : Nat) → List (List Char) → Session → Session
  | 0, _, s => s
  | fuel + 1, operands, s =>
    match operands with
    | [] => s.withStatus 0
    | path :: _ =>
      let directories := if path.contains '/' then [[]] else
        (Text.split ':' ((s.lookup? "PATH").getD [])).map fun directory => directory ++ ['/']
      let found := directories.findSome? fun lead =>
        (Program.find s (lead ++ path)).toOption.bind s.files.file?
      match found with
      | none =>
        if path.contains '/' then s.abort ("cannot open " ++ String.ofList path ++ ": No such file")
        else s.abort (String.ofList path ++ ": not found")
      | some content =>
        let done := runText fuel false (ofContent content) s
        if done.ending = some .returned then { done with ending := none } else done

/-- Runs a command in the place of the session. -/
def runLast : (fuel : Nat) → List (List Char) → Session → Session
  | 0, _, s => s
  | fuel + 1, operands, s =>
    match operands with
    | [] => s.withStatus 0
    | name :: rest =>
      let last (s : Session) : Session := { s with ending := some .exited, traps := [] }
      match Program.resolve s name with
      | .ok found => last (runProgram fuel found name rest s)
      | .error f => { s.fail f.status (String.ofList name ++ ": " ++ f.message) with ending := some .exited }

/-- Runs a command of words. -/
def runSimple : (fuel : Nat) → (tested : Bool) → (line : Nat) → List (String × Word) → List Word → List Redirection →
    Session → Session
  | 0, _, _, _, _, _, s => { s with ending := some (.killed 11) }
  | fuel + 1, tested, line, assignments, words, rs, s =>
    let (s, fields) := expandWords fuel words { s with line, inner := 0 }
    if s.ending.isSome then s
    else
      let name := String.ofList ((fields.head?).getD [])
      let special := !fields.isEmpty && Utility.isSpecial name
      let keeps := name = "exec" && !fields.isEmpty
      let (r, isOpen) := redirected fuel rs s
      if !isOpen then
        let r := r.withDescriptorsOf s
        if special && r.ending.isNone then { r with ending := some .aborted } else r
      else
        let isPassing := !fields.isEmpty && !special
        let r := if isPassing then { r with hidden := {} :: r.hidden } else r
        let (r, traced) := assignments.foldl (fun (r, traced) (name, w) =>
          if r.ending.isSome then (r, traced)
          else
            let (r, value) := expandText fuel true w r
            if r.ending.isSome then (r, traced)
            else
              let r := if isPassing then r.hide name else r
              let r := r.assign name value
              let r := if isPassing && r.ending.isNone then r.share name else r
              (r, traced ++ [name.toList ++ '=' :: value])) (r, ([] : List (List Char)))
        if r.ending.isSome then r.withDescriptorsOf s
        else
          let r := if r.has 'x' && !(traced ++ fields).isEmpty then
              let lead := (r.lookup? "PS4").getD ['+', ' ']
              ((r.withDescriptorsOf s).report (lead ++ [' '].intercalate (traced ++ fields))).withDescriptorsOf r
            else r
          if fields.isEmpty then (r.withStatus r.inner).withDescriptorsOf s
          else
            let done := invoke fuel tested true special fields r
            let isOver := done.ending = some .exited || done.ending = some .aborted
            let done := if isOver then done else done.reveal s.hidden.length
            if keeps && done.ending.isNone then done else done.withDescriptorsOf s

/-- Runs commands joined by bars. -/
def runPiped : (fuel : Nat) → (tested : Bool) → List Script → (input : Option Nat) → Session → Session
  | 0, _, _, _, s => s
  | _ + 1, _, [], _, s => s
  | fuel + 1, tested, script :: others, input, s =>
    let descriptors := s.descriptors
    let s := match input with
      | some index => s.redirect 0 (some index)
      | none => s
    match others with
    | [] => { s.join (runApart fuel tested script s) with descriptors }
    | _ =>
      let (s, index) := s.attach (.gathered [])
      let s := { s.join (runApart fuel tested script (s.redirect 1 (some index))) with status := s.status }
      if s.ending.isSome then { s with descriptors }
      else
        let (s, next) := s.attach (.source (s.gathered index))
        runPiped fuel tested others (some next) { s with descriptors }

/-- Runs a command. -/
def run : (fuel : Nat) → (tested : Bool) → Script → Session → Session
  | 0, _, _, s => { s with ending := some (.killed 11) }
  | fuel + 1, tested, script, s =>
    let s := answer fuel s
    if s.ending.isSome || s.has 'n' then s
    else answer fuel <| match script with
      | .simple line assignments words rs =>
        (runSimple fuel tested line assignments words rs s).checked tested
      | .redirected line body rs =>
        let (r, isOpen) := redirected fuel rs { s with line }
        if isOpen then (run fuel tested body r).withDescriptorsOf s else r.checked tested
      | .subshell line body rs =>
        let (r, isOpen) := redirected fuel rs { s with line }
        if isOpen then { (s.join (runApart fuel tested body r)).checked tested with descriptors := s.descriptors }
        else { (s.after r).withStatus 2 with ending := none }.checked tested
      | .negation body =>
        let s := run fuel true body s
        if s.ending.isSome then s else s.withStatus (if s.status = 0 then 1 else 0)
      | .pipe commands => (runPiped fuel tested commands none s).checked tested
      | .both left right =>
        let s := run fuel true left s
        if s.ending.isNone && s.status = 0 then run fuel tested right s else s
      | .either left right =>
        let s := run fuel true left s
        if s.ending.isNone && s.status ≠ 0 then run fuel tested right s else s
      | .sequence left right =>
        let s := run fuel tested left s
        if s.ending.isSome then s else run fuel tested right s
      | .background body =>
        let (t, index) := s.attach (.source [])
        let part := runApart fuel false body { t.redirect 0 (some index) with now := s.now.next }
        let number := s.number + s.jobs.length + 1
        let s :=
          { s.withStatus 0 with
            files := part.files, channels := part.channels, lastJob := some number
            jobs := s.jobs ++ [{ number, status := part.status, finish := part.now }] }
        match part.ending with
        | some (.killed signal) => { s with ending := some (.killed signal) }
        | _ => s
      | .conditional test yes no =>
        let s := run fuel true test s
        if s.ending.isSome then s
        else if s.status = 0 then run fuel tested yes s
        else match no with
          | some no => run fuel tested no s
          | none => s.withStatus 0
      | .loop onSuccess test body =>
        let round (state : Session × Nat) : (Session × Nat) × Bool :=
          let (s, status) := state
          let s := run fuel true test s
          match s.ending with
          | some _ =>
            let (s, goesOn) := s.closeRound
            ((s, if s.ending.isSome then s.status else status), goesOn)
          | none =>
            if (s.status = 0) != onSuccess then ((s, status), false)
            else
              let (s, goesOn) := (run fuel tested body s).closeRound
              ((s, s.status), goesOn)
        let ((t, status), isDone) := iterate round roundLimit ({ s with loops := s.loops + 1 }, 0)
        let t := { t with loops := s.loops }
        if !isDone then t.goOnForEver else if t.ending.isSome then t else t.withStatus status
      | .each line name words body =>
        let (s, fields) := expandWords fuel words { s with line }
        if s.ending.isSome then s
        else
          let round (state : Session × List (List Char)) : (Session × List (List Char)) × Bool :=
            match state with
            | (s, []) => ((s, []), false)
            | (s, value :: rest) =>
              let s := s.assign name value
              if s.ending.isSome then ((s, rest), false)
              else
                let (s, goesOn) := (run fuel tested body s).closeRound
                ((s, rest), goesOn)
          let ((t, _), _) := iterate round (fields.length + 1) ({ s.withStatus 0 with loops := s.loops + 1 }, fields)
          { t with loops := s.loops }
      | .select line subject cases =>
        let (s, text) := expandText fuel false subject { s with line }
        selectCase fuel tested text cases s
      | .define name body =>
        { s.withStatus 0 with functions := (name, body) :: s.functions.filter fun (n, _) => n ≠ name }

/-- Runs the body of the first case of which a pattern fits. -/
def selectCase : (fuel : Nat) → (tested : Bool) → List Char → List (List Word × Option Script) → Session → Session
  | 0, _, _, _, s => s
  | _ + 1, _, _, [], s => if s.ending.isSome then s else s.withStatus 0
  | fuel + 1, tested, text, (patterns, body) :: others, s =>
    let (s, fits) := patterns.foldl (fun (s, fits) pattern =>
      if fits || s.ending.isSome then (s, fits)
      else
        let (s, atoms) := expandParts fuel {} (Word.withHome s false pattern) s
        (s, Glob.matchesAll (Glob.ofChars (Atom.chars atoms)) text)) (s, false)
    if s.ending.isSome then s
    else if !fits then selectCase fuel tested text others s
    else match body with
      | some body => run fuel tested body s
      | none => s.withStatus 0

end

/-- What a command line leaves behind. -/
structure Completion where
  output : List Char
  errors : List Char
  /-- The exit status; none if a signal ended the session. -/
  status : Option Nat
  elapsedMs : Nat
  files : FileTree

/-- Where programs are looked for, if nothing else is said. -/
def standardPath : String := "/usr/local/sbin:/usr/local/bin:/usr/sbin:/usr/bin:/sbin:/bin"

/-- The session in which a command line runs. -/
def Session.initial (files : FileTree) (place : Place) (vars : List (String × String)) : Session :=
  let exported := vars.map fun (name, value) => (name, { value := some (encoded value), isExported := true : Variable })
  let own : List (String × Variable) :=
    [("IFS", { value := some [' ', '\t', '\n'] }), ("OPTIND", { value := some ['1'] }),
      ("PS4", { value := some ['+', ' '] }), ("PWD", { value := some (encoded place.path), isExported := true }),
      ("PATH", { value := some (encoded standardPath), isExported := true })]
  let own := own.filter fun (name, _) => (vars.lookup name).isNone
  { files, place, vars := exported ++ own, channels := #[.source [], .gathered [], .gathered []]
    descriptors := [(0, 0), (1, 1), (2, 2)] }

/-- Runs a command line in a place. -/
def execute (files : FileTree) (place : Place) (vars : List (String × String)) (text : String) : Completion :=
  let fuel := 20000
  let s := finish fuel (runText fuel false (encoded text) (Session.initial files place vars))
  let text (index : Nat) : List Char := Text.ofBytes (toContent (s.gathered index))
  { output := text 1, errors := text 2
    status := match s.ending with
      | some (.killed _) => none
      | _ => some s.status
    elapsedMs := (s.jobs.map fun job => job.finish.ms).foldl max s.now.ms
    files := s.files }

end StepTree.Shell
