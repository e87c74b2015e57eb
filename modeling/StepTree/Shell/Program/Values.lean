import StepTree.Shell.Program.Editor

/-! # Programs for values and time

Programs that let time pass, count, and calculate with numbers and texts. -/

namespace StepTree.Shell.Program

/-! ### Time -/

/-- The milliseconds that an operand is: a decimal number of seconds, or of the unit at its end. -/
def milliseconds? (operand : List Char) : Option Nat :=
  let (digits, unit) := match operand.reverse with
    | 's' :: rest => (rest.reverse, 1000)
    | 'm' :: rest => (rest.reverse, 60000)
    | 'h' :: rest => (rest.reverse, 3600000)
    | 'd' :: rest => (rest.reverse, 86400000)
    | _ => (operand, 1000)
  (Literal.magnitude? digits).map fun (n, e) =>
    if e < 0 then n * unit / Nat.pow 10 e.natAbs else n * unit * Nat.pow 10 (min e.natAbs 30)

/-- Lets time pass. -/
def sleep : Program := fun operands s =>
  withOptions "sleep" {} 1 operands s fun o => withOperands "sleep" "missing operand" o s fun operands =>
    match operands.filter fun operand => (milliseconds? operand).isNone with
    | [] => (s.pause ((operands.filterMap milliseconds?).foldl (· + ·) 0)).withStatus 0
    | wrong =>
      let lines := wrong.map fun operand => "invalid time interval '" ++ String.ofList operand ++ "'"
      misuse s "sleep" ("\nsleep: ".intercalate lines) 1

/-! ### Sequences -/

/-- A decimal number as digits and the number of them after the point. -/
structure Places where
  value : Int
  places : Nat

namespace Places

def ofText? (text : List Char) : Option Places :=
  let (negative, body) := match text with
    | '-' :: rest => (true, rest)
    | '+' :: rest => (false, rest)
    | _ => (false, text)
  (Literal.magnitude? body).map fun (n, e) =>
    let n := if 0 < e then n * Nat.pow 10 (min e.toNat 30) else n
    { value := if negative then -(n : Int) else n, places := if e < 0 then e.natAbs else 0 }

/-- The number in units of another number of places. -/
def scaled (p : Places) (places : Nat) : Int := p.value * Nat.pow 10 (places - p.places)

/-- The digits of a number with a point. -/
def text (places : Nat) (n : Int) : List Char :=
  (if n < 0 then ['-'] else []) ++ Quotient.pointed places false (Quotient.digits (places + 1) n.natAbs)

end Places

/-- The numbers from one to another in steps. -/
def steps (first increment last : Int) : List Int :=
  if increment = 0 then []
  else
    let count := (last - first) / increment + 1
    (List.range (min count.toNat 1000000)).map fun (n : Nat) => first + increment * (n : Int)

/-- Prints numbers in steps. -/
def sequence : Program := fun operands s =>
  -- a number below zero is an operand
  let isNumber (operand : List Char) : Bool :=
    match operand with
    | '-' :: c :: _ => c.isDigit || c = '.'
    | _ => false
  let given := operands.takeWhile fun operand => operand.head? = some '-' && !isNumber operand
  let valued := given.flatMap fun option => if option = ['-', 's'] ∨ option = ['-', 'f'] then [1] else []
  let count := given.length + valued.length
  let table : OptionTable :=
    { flags := ['w'], valued := ['s', 'f'], long := [("equal-width", 'w'), ("separator", 's'), ("format", 'f')] }
  withOptions "seq" table 1 (operands.take count) s fun o =>
    let numbers := o.operands ++ operands.drop count
    let bounds := match numbers with
      | [last] => some (['1'], ['1'], last)
      | [first, last] => some (first, ['1'], last)
      | [first, increment, last] => some (first, increment, last)
      | _ => none
    match bounds, numbers.find? fun text => (Places.ofText? text).isNone with
    | _, some text =>
      misuse s "seq" ("invalid floating point argument: " ++ named text) 1
    | none, none =>
      if numbers.isEmpty then misuse s "seq" "missing operand" 1
      else misuse s "seq" ("extra operand " ++ named ((numbers[3]?).getD [])) 1
    | some (first, increment, last), none =>
      let number (text : List Char) : Places := (Places.ofText? text).getD ⟨0, 0⟩
      let places := max (number first).places (number increment).places
      let all := max places (number last).places
      if (number increment).value = 0 then
        misuse s "seq" ("invalid Zero increment value: " ++ named increment) 1
      else
        let values := steps ((number first).scaled all) ((number increment).scaled all) ((number last).scaled all)
        let texts := values.map fun n => Places.text places (n.tdiv (Nat.pow 10 (all - places)))
        let width := (texts.map List.length).foldl max 0
        let filled (text : List Char) : List Char :=
          match text with
          | '-' :: digits => '-' :: List.replicate (width - text.length) '0' ++ digits
          | _ => List.replicate (width - text.length) '0' ++ text
        let texts := if o.has 'w' then texts.map filled else texts
        let texts := match o.value? 'f' with
          | some format => texts.map fun text => (Format.write format [text]).content
          | none => texts
        if texts.isEmpty then s.withStatus 0
        else (s.printLine (((o.value? 's').getD ['\n']).intercalate texts)).withStatus 0

/-! ### Calculating -/

/-- The integer that a text is. -/
def integer? (text : List Char) : Option Int :=
  match text with
  | '-' :: digits => (Literal.digits? 10 digits).map fun n => -(n : Int)
  | _ => (Literal.digits? 10 text).map Int.ofNat

/-- What is wrong with an expression. -/
inductive ValueFault where
  | missing (after : List Char)
  | unexpected (text : List Char)
  | noInteger
  | divisionByZero
  | noClosing (after : List Char)
  | pattern (f : Pattern.Fault)

def ValueFault.message : ValueFault → String
  | missing after => "syntax error: missing argument after " ++ named after
  | unexpected text => "syntax error: unexpected argument " ++ named text
  | noInteger => "non-integer argument"
  | divisionByZero => "division by zero"
  | noClosing after => "syntax error: expecting ')' after " ++ named after
  | pattern f => f.message

/-- What is left of an expression, and what was read last. -/
structure ValueReader where
  rest : List (List Char)
  last : List Char := []

abbrev Valuing := StateT ValueReader (Except ValueFault)

/-- The next operand. -/
def nextOperand : Valuing (List Char) := do
  let r ← get
  match r.rest with
  | [] => throw (.missing r.last)
  | text :: rest =>
    set { rest, last := text : ValueReader }
    pure text

/-- A value that counts as nothing. -/
def isNothing (text : List Char) : Bool := text.isEmpty || (integer? text).any (· = 0)

def truth (b : Bool) : List Char := if b then ['1'] else ['0']

def integerText (n : Int) : List Char := (toString n).toList

/-- What an expression matches at the beginning of a text: its first group, or the length of the match. -/
def matched (text expression : List Char) : Valuing (List Char) := do
  match Pattern.ofText false expression with
  | .error f => throw (.pattern f)
  | .ok p =>
    let search : Pattern.Search := { pattern := p, accepts := fun before _ => before.isEmpty }
    let hasGroup := (Text.split '\\' expression).drop 1 |>.any fun piece => piece.head? = some '('
    match search.first? text with
    | some m => pure (if hasGroup then Pattern.captured text m.groups 1 else integerText m.text.length)
    | none => pure (if hasGroup then [] else ['0'])

/-- Applies an operator. -/
def operate (operator : List Char) (a b : List Char) : Valuing (List Char) := do
  let numbers (f : Int → Int → Valuing Int) : Valuing (List Char) := do
    match integer? a, integer? b with
    | some m, some n => return integerText (← f m n)
    | _, _ => throw .noInteger
  let compare (test : Ordering → Bool) : Valuing (List Char) :=
    match integer? a, integer? b with
    | some m, some n => pure (truth (test (Ord.compare m n)))
    | _, _ => pure (truth (test (Ord.compare (String.ofList a) (String.ofList b))))
  match String.ofList operator with
  | "|" => pure (if isNothing a then (if isNothing b then ['0'] else b) else a)
  | "&" => pure (if isNothing a || isNothing b then ['0'] else a)
  | "<" => compare (· = .lt)
  | "<=" => compare (· ≠ .gt)
  | "=" | "==" => compare (· = .eq)
  | "!=" => compare (· ≠ .eq)
  | ">=" => compare (· ≠ .lt)
  | ">" => compare (· = .gt)
  | "+" => numbers fun m n => pure (m + n)
  | "-" => numbers fun m n => pure (m - n)
  | "*" => numbers fun m n => pure (m * n)
  | "/" => numbers fun m n => if n = 0 then throw .divisionByZero else pure (m.tdiv n)
  | "%" => numbers fun m n => if n = 0 then throw .divisionByZero else pure (m.tmod n)
  | _ => matched a b

/-- How strongly an operator binds. -/
def strengthOf? (operator : List Char) : Option Nat :=
  match String.ofList operator with
  | "|" => some 1
  | "&" => some 2
  | "<" | "<=" | "=" | "==" | "!=" | ">=" | ">" => some 3
  | "+" | "-" => some 4
  | "*" | "/" | "%" => some 5
  | ":" => some 6
  | _ => none

mutual

/-- The value of an operand, of a function of operands, or of an expression in brackets. -/
def operandValue : (fuel : Nat) → Valuing (List Char)
  | 0 => pure []
  | fuel + 1 => do
    let text ← nextOperand
    match String.ofList text with
    | "+" => nextOperand
    | "(" =>
      let value ← operandValue fuel
      let value ← valueFrom fuel 1 value
      match (← get).rest with
      | [')'] :: rest =>
        modify fun r => { r with rest, last := [')'] }
        pure value
      | _ => throw (.noClosing (← get).last)
    | "length" => return integerText (← operandValue fuel).length
    | "match" =>
      let text ← operandValue fuel
      matched text (← operandValue fuel)
    | "index" =>
      let text ← operandValue fuel
      let set ← operandValue fuel
      let before := text.takeWhile fun c => !set.contains c
      return integerText (if before.length = text.length then 0 else before.length + 1)
    | "substr" =>
      let text ← operandValue fuel
      let start := (integer? (← operandValue fuel)).getD 0
      let count := (integer? (← operandValue fuel)).getD 0
      return if start ≤ 0 ∨ count ≤ 0 then [] else (text.drop (start.toNat - 1)).take count.toNat
    | _ => pure text

/-- Applies the operators that bind at least as strongly as `least` to what stands left of them. -/
def valueFrom : (fuel least : Nat) → (left : List Char) → Valuing (List Char)
  | 0, _, left => pure left
  | fuel + 1, least, left => do
    match (← get).rest with
    | [] => pure left
    | operator :: rest =>
      match (strengthOf? operator).filter (least ≤ ·) with
      | none => pure left
      | some strength =>
        modify fun r => { r with rest, last := operator }
        let first ← operandValue fuel
        let right ← valueFrom fuel (strength + 1) first
        valueFrom fuel least (← operate operator left right)

end

/-- Prints the value of an expression. -/
def expression : Program := fun operands s =>
  let operands := if operands.head? = some ['-', '-'] then operands.drop 1 else operands
  if operands.isEmpty then misuse s "expr" "missing operand" 2
  else
    let fuel := 4 * operands.length + 4
    let value : Valuing (List Char) := do
      let first ← operandValue fuel
      let value ← valueFrom fuel 1 first
      match (← get).rest with
      | [] => pure value
      | text :: _ => throw (.unexpected text)
    match value.run { rest := operands } with
    | .ok (value, _) => (s.printLine value).withStatus (if isNothing value then 1 else 0)
    | .error f => refuse s ("expr: " ++ f.message) 2

/-! ### The surroundings -/

/-- Prints variables. -/
def printEnvironment : Program := fun operands s =>
  let all := s.environment
  if operands.isEmpty then (s.print (unlines (all.map fun (name, value) => name.toList ++ '=' :: value))).withStatus 0
  else operands.foldl (fun s name =>
    match all.lookup (String.ofList name) with
    | some value => s.printLine value
    | none => s.withStatus 1) (s.withStatus 0)

/-- The absolute paths of places. -/
def realPath (name : String) : Program := fun operands s =>
  withOptions name { flags := ['f', 'e', 'm', 's', 'q', 'n'] } 1 operands s fun o =>
    withOperands name "missing operand" o s fun paths =>
      paths.foldl (fun s path =>
        match follow s path with
        | .ok place => s.printLine (encoded place.path)
        | .error f => refuse s (name ++ ": " ++ String.ofList path ++ ": " ++ f.message) 1) (s.withStatus 0)

/-- Prints a text for ever, as far as anyone can read it. -/
def repeatLine : Program := fun operands s =>
  let line := if operands.isEmpty then ['y'] else [' '].intercalate operands
  (s.print ((List.replicate 10000 (line ++ ['\n'])).flatMap id)).withStatus 0

end StepTree.Shell.Program
