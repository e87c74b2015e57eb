import StepTree.Shell.Field
import StepTree.Shell.Utility.Basic

/-! # Variables, arguments and options

The utilities that change variables, the arguments and the options of a session, and those that read them from
the input or from the arguments. -/

namespace StepTree.Shell.Utility

/-! ### Lists of variables -/

/-- The variables that are listed, each with a word before it, in the order of their names. -/
def listVariables (word : String) (counts : Variable → Bool) (s : Session) : Session :=
  let lines := (s.vars.filter fun (_, v) => counts v).mergeSort fun a b => a.1 ≤ b.1
  (lines.foldl (fun s (name, v) =>
    let lead := if word.isEmpty then name.toList else word.toList ++ ' ' :: name.toList
    s.printLine (match v.value with
      | some value => lead ++ '=' :: quote value
      | none => lead)) s).withStatus 0

/-- The name and the value of an operand that is an assignment. -/
def parts (operand : List Char) : List Char × Option (List Char) :=
  let name := operand.takeWhile (· ≠ '=')
  (name, (operand.drop name.length).tail?)

/-- Goes on with a name, if it is one. -/
def withName (name : List Char) (s : Session) (k : String → Session) : Session :=
  if isName name then k (String.ofList name) else s.abort (String.ofList name ++ ": bad variable name")

/-- Marks variables, and assigns the values that stand after an equals sign. -/
def declare (word : String) (counts : Variable → Bool) (mark : Variable → Variable) : Utility := fun operands s =>
  withOptions ['p'] [] operands s fun o =>
    if o.has 'p' || o.operands.isEmpty then listVariables word counts s
    else (o.operands.foldl (fun s operand =>
      if s.ending.isSome then s
      else
        let (name, value) := parts operand
        withName name s fun name =>
          let s := ((value.map (s.assign name)).getD s)
          if s.ending.isSome then s
          else { s with vars := Session.put s.vars name (some (mark ((s.vars.lookup name).getD {}))) })
      (s.withStatus 0))

def exportNames : Utility := declare "export" (·.isExported) fun v => { v with isExported := true }

def fix : Utility := declare "readonly" (·.isFixed) fun v => { v with isFixed := true }

/-- Removes variables, or functions. -/
def unset : Utility := fun operands s => withOptions ['v', 'f'] [] operands s fun o =>
  o.operands.foldl (fun s name =>
    if s.ending.isSome then s
    else if o.has 'f' then { s with functions := s.functions.filter fun (n, _) => n ≠ String.ofList name }
    else withName name s s.unset) (s.withStatus 0)

/-- Makes variables those of the innermost running command: after it they are what they were before. -/
def localNames : Utility := fun operands s =>
  if s.hidden.isEmpty then s.abort "not in a function"
  else operands.foldl (fun s operand =>
    if s.ending.isSome then s
    else if operand = ['-'] then s.hideOptions
    else
      let (name, value) := parts operand
      withName name s fun name => ((value.map ((s.hide name).assign name)).getD (s.hide name))) (s.withStatus 0)

/-! ### Arguments and options -/

/-- Leaves out the first arguments. -/
def shift : Utility := fun operands s =>
  let leave (n : Nat) : Session :=
    if n ≤ s.arguments.length then { s.withStatus 0 with arguments := s.arguments.drop n }
    else s.abort "can't shift that many"
  match operands with
  | [] => leave 1
  | operand :: _ => withNumber operand s leave

/-- The options by name and letter. -/
def optionNames : List (String × Char) :=
  [("errexit", 'e'), ("noglob", 'f'), ("ignoreeof", 'I'), ("interactive", 'i'), ("monitor", 'm'), ("noexec", 'n'),
    ("stdin", 's'), ("xtrace", 'x'), ("verbose", 'v'), ("vi", 'V'), ("emacs", 'E'), ("noclobber", 'C'),
    ("allexport", 'a'), ("notify", 'b'), ("nounset", 'u'), ("privileged", 'p'), ("nolog", '\x01'), ("debug", '\x02')]

/-- The letters of the options that are on. -/
def optionLetters (s : Session) : List Char :=
  (optionNames.map (·.2)).reverse.filter fun c => ' ' < c && s.has c

/-- Turns an option on or off. -/
def turn (s : Session) (on : Bool) (option : Char) : Session :=
  let others := s.options.filter (· ≠ option)
  { s with options := if on then option :: others else others }

/-- Lists the options as a table, or as commands. -/
def listOptions (asTable : Bool) (s : Session) : Session :=
  if asTable then
    optionNames.foldl (fun s (name, c) =>
      let blanks := List.replicate (16 - name.length) ' '
      s.printLine (name.toList ++ blanks ++ (if s.has c then "on" else "off").toList))
      (s.printLine "Current option settings".toList)
  else optionNames.foldl (fun s (name, c) =>
    s.printLine ("set " ++ (if s.has c then "-o " else "+o ") ++ name).toList) s

/-- Turns the options in the first operands on or off; the operands after them become the arguments. -/
def setOptions (fuel : Nat) (operands : List (List Char)) (s : Session) : Session :=
  match fuel, operands with
  | 0, _ => s
  | _ + 1, [] => s
  | fuel + 1, first :: rest =>
    let turnAll (on : Bool) (letters : List Char) : Session :=
      let (s, operands) := letters.foldl (fun (s, operands) c =>
        if s.ending.isSome then (s, operands)
        else if c = 'o' then
          match operands with
          | [] => (listOptions on s, [])
          | name :: operands =>
            match optionNames.lookup (String.ofList name) with
            | some c => (turn s on c, operands)
            | none => (s.abort ("Illegal option -o " ++ String.ofList name), operands)
        else if optionNames.any fun (_, d) => d = c then (turn s on c, operands)
        else (s.abort ("Illegal option -" ++ String.singleton c), operands)) (s, rest)
      if s.ending.isSome then s else setOptions fuel operands s
    match first with
    | ['-'] =>
      let s := turn (turn s false 'x') false 'v'
      if rest.isEmpty then s else { s with arguments := rest }
    | ['-', '-'] => { s with arguments := rest }
    | '-' :: letters => turnAll true letters
    | '+' :: letters => turnAll false letters
    | _ => { s with arguments := first :: rest }

def set : Utility := fun operands s =>
  if operands.isEmpty then listVariables "" (fun v => v.value.isSome) s
  else setOptions (operands.length + 1) operands (s.withStatus 0)

/-! ### Reading -/

/-- The characters of a line, of which escaped ones are quoted; whether the line is complete, and the number of
characters that were read. -/
def readLine (isRaw : Bool) : (count : Nat) → List Char → Field × Bool × Nat
  | count, [] => ([], false, count)
  | count, '\n' :: _ => ([], true, count + 1)
  | count, '\\' :: c :: rest =>
    if isRaw then
      let (line, complete, n) := readLine isRaw (count + 1) (c :: rest)
      (('\\', false) :: line, complete, n)
    else
      let (line, complete, n) := readLine isRaw (count + 2) rest
      (if c = '\n' then line else (c, true) :: line, complete, n)
  | count, c :: rest =>
    let (line, complete, n) := readLine isRaw (count + 1) rest
    (if c = '\\' && !isRaw then line else (c, false) :: line, complete, n)

/-- What is left of a line for the last variable: blanks at its end do not count, nor does a separator after a
single field. -/
def lastField (separators : List Char) (rest : Field) : List Char :=
  let trimmed (f : Field) : Field :=
    (f.reverse.dropWhile fun (c, quoted) => !quoted && separators.contains c && Separation.isBlank c).reverse
  let separates (c : Char × Bool) : Bool := !c.2 && separators.contains c.1
  let rest := trimmed rest
  let single := trimmed rest.dropLast
  let rest := if rest.getLast?.any separates && !single.any separates then single else rest
  rest.map (·.1)

/-- Separates a line into so many texts, of which the last one is what is left. -/
def separate (separators : List Char) : (count : Nat) → Separation → Field → List (List Char)
  | count, state, [] =>
    let state := if state.current.isSome then state.close else state
    (state.complete.reverse.map fun f => f.map (·.1)).take count
  | count, state, (c, quoted) :: rest =>
    let isBlank := Separation.isBlank c
    let separates := !quoted && separators.contains c
    let isSkipped := separates && (isBlank || state.afterSeparator = some true)
    if state.complete.length + 1 ≥ count && state.current.isNone && !isSkipped then
      (state.complete.reverse.map fun f => f.map (·.1)) ++ [lastField separators ((c, quoted) :: rest)]
    else
      separate separators count (if separates then state.separator isBlank else state.push c quoted) rest

/-- Reads a line of the input into variables. -/
def read : Utility := fun operands s => withOptions ['r'] ['p'] operands s fun o =>
  if o.operands.isEmpty then s.abort "arg count"
  else
    let (line, complete, count) := readLine (o.has 'r') 0 (s.unread 0)
    let separators := (s.lookup? "IFS").getD [' ', '\t', '\n']
    let line := line.filter fun (c, _) => c ≠ '\x00'
    let fields := separate separators o.operands.length {} line
    let fields := fields ++ List.replicate (o.operands.length - fields.length) []
    let s := (s.advance 0 count).withStatus (if complete then 0 else 1)
    (o.operands.zip fields).foldl (fun s (name, value) =>
      if s.ending.isSome then s else withName name s fun name => s.assign name value) s

/-- Takes the next option from the arguments into a variable. -/
def getopts : Utility := fun operands s =>
  match operands with
  | letters :: name :: given =>
    let given := if operands.length = 2 then s.arguments else given
    let index := ((s.lookup? "OPTIND").bind natural?).getD 1
    let index := max index 1
    -- what is left of an argument of which some letters were read
    let inside := if s.optionOffset = 0 then [] else ((given[index - 2]?).getD []).drop s.optionOffset
    let begun := if !inside.isEmpty && index ≥ 2 then some (inside, index, s.optionOffset)
      else match given[index - 1]? with
        | some ('-' :: c :: rest) => if c = '-' && rest.isEmpty then none else some (c :: rest, index + 1, 1)
        | _ => none
    let isSilent := letters.head? = some ':'
    let finish (s : Session) (status index offset : Nat) (c : Char) : Session :=
      let s := s.assign "OPTIND" (toString index).toList
      let s := withName name s fun name => s.assign name [c]
      if s.ending.isSome then s else { s.withStatus status with optionOffset := offset }
    match begun with
    | none =>
      let next := if given[index - 1]? = some ['-', '-'] then index + 1 else index
      finish s 1 next 0 '?'
    | some ([], index, _) => finish s 1 index 0 '?'
    | some (c :: more, index, offset) =>
      let known := c ≠ ':' && letters.contains c
      let offset' := if more.isEmpty then 0 else offset + 1
      if !known then
        if isSilent then finish (s.assign "OPTARG" [c]) 0 index offset' '?'
        else finish ((s.report ("Illegal option -" ++ String.singleton c).toList).unset "OPTARG") 0 index offset' '?'
      else if (letters.dropWhile (· ≠ c)).drop 1 |>.head?.any (· = ':') then
        if !more.isEmpty then finish (s.assign "OPTARG" more) 0 index 0 c
        else match given[index - 1]? with
          | some value => finish (s.assign "OPTARG" value) 0 (index + 1) 0 c
          | none =>
            if isSilent then finish (s.assign "OPTARG" [c]) 0 index 0 ':'
            else
              finish ((s.report ("No arg for -" ++ String.singleton c ++ " option").toList).unset "OPTARG") 0 index 0 '?'
      else finish (s.assign "OPTARG" []) 0 index offset' c
  | _ => s.abort "Usage: getopts optstring var [arg...]"

end StepTree.Shell.Utility
