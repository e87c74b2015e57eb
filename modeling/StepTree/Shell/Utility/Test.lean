import StepTree.Shell.Utility.Basic

/-! # Tests

Tests of texts, numbers and files. Operators count as operators only where operands are left for them. -/

namespace StepTree.Shell.Test

/-- How many operands an operator takes, and what it is otherwise. -/
inductive Kind where
  | unary
  | binary
  | negation
  | conjunction
  | disjunction
  | opening
  | closing
  deriving DecidableEq

def unaryOperators : List String :=
  ["-r", "-w", "-x", "-e", "-f", "-d", "-c", "-b", "-p", "-u", "-g", "-k", "-s", "-t", "-z", "-n", "-h", "-O", "-G",
    "-L", "-S"]

def binaryOperators : List String :=
  ["=", "!=", "<", ">", "-eq", "-ne", "-ge", "-gt", "-le", "-lt", "-nt", "-ot", "-ef"]

/-- The kind of an operator. -/
def kind? (text : List Char) : Option Kind :=
  let name := String.ofList text
  if unaryOperators.contains name then some .unary
  else if binaryOperators.contains name then some .binary
  else match name with
    | "!" => some .negation
    | "-a" => some .conjunction
    | "-o" => some .disjunction
    | "(" => some .opening
    | ")" => some .closing
    | _ => none

/-- The kind of the first of some operands, if it counts as an operator here. -/
def leading? (operands : List (List Char)) : Option Kind :=
  match operands with
  | [] => none
  | text :: rest =>
    match kind? text with
    | some .unary =>
      match rest with
      | [] => none
      | [_] => some .unary
      | next :: _ => if kind? next = some .binary then none else some .unary
    | some .opening => if rest.isEmpty then none else some .opening
    | other => other

/-! ### Single tests -/

abbrev Outcome := Except String

/-- The number that an operand is. -/
def number (operand : List Char) : Outcome Int :=
  let body := Text.trimStart operand
  let (negative, digits) := match body with
    | '-' :: rest => (true, rest)
    | '+' :: rest => (false, rest)
    | _ => (false, body)
  let run := digits.takeWhile Char.isDigit
  match Literal.digits? 10 run with
  | some n =>
    if (digits.drop run.length).all Text.isBlank && n < Literal.signedBound + (if negative then 1 else 0) then
      .ok (if negative then -(n : Int) else n)
    else .error ("Illegal number: " ++ String.ofList operand)
  | none => .error ("Illegal number: " ++ String.ofList operand)

/-- The outcome of a test of two operands. -/
def binary (s : Session) (operator : String) (a b : List Char) : Outcome Bool :=
  let compare (f : Int → Int → Bool) : Outcome Bool := do return f (← number a) (← number b)
  let place? (path : List Char) := (s.files.find s.place (decoded path).toList).toOption
  match operator with
  | "=" => .ok (a = b)
  | "!=" => .ok (a ≠ b)
  | "<" => .ok (String.ofList a < String.ofList b)
  | ">" => .ok (String.ofList b < String.ofList a)
  | "-eq" => compare fun m n => m = n
  | "-ne" => compare fun m n => m ≠ n
  | "-lt" => compare fun m n => m < n
  | "-le" => compare fun m n => m ≤ n
  | "-gt" => compare fun m n => m > n
  | "-ge" => compare fun m n => m ≥ n
  | "-ef" => .ok ((place? a).isSome && place? a == place? b)
  | _ => .ok false

/-- The outcome of a test of one operand. -/
def unary (s : Session) (operator : String) (a : List Char) : Outcome Bool :=
  let place := (s.files.find s.place (decoded a).toList).toOption
  let file := place.bind s.files.file?
  let isDirectory := place.any s.files.isDirectory
  let isDevice := place = some FileTree.emptyDevice
  match operator with
  | "-n" => .ok !a.isEmpty
  | "-z" => .ok a.isEmpty
  | "-f" => .ok (file.isSome && !isDevice)
  | "-s" => .ok (isDirectory || file.any fun content => !content.isEmpty)
  | "-d" => .ok isDirectory
  | "-c" => .ok isDevice
  | "-e" | "-r" | "-w" | "-O" | "-G" => .ok place.isSome
  | "-x" => .ok (isDirectory || place.any s.files.isProgram)
  | "-t" => do return (← number a) < 0
  | _ => .ok false

/-! ### Expressions -/

/-- What is said about an operand that does not fit. -/
def misfit (operand : List Char) (text : String) : String :=
  if operand.isEmpty then text else String.ofList operand ++ ": " ++ text

mutual

/-- A single test, and the operands from its last one on. -/
def primary (s : Session) : (fuel : Nat) → List (List Char) → Outcome (Bool × List (List Char))
  | 0, operands => .ok (false, operands)
  | _ + 1, [] => .ok (false, [])
  | fuel + 1, text :: rest =>
    match leading? (text :: rest) with
    | some .opening =>
      if leading? rest = some .closing then .ok (false, rest)
      else do
        let (outcome, left) ← anyOf s fuel rest
        if leading? (left.drop 1) = some .closing then .ok (outcome, left.drop 1)
        else .error "closing paren expected"
    | some .unary =>
      match rest with
      | [] => .error (misfit text "argument expected")
      | operand :: _ => do return (← unary s (String.ofList text) operand, rest)
    | _ =>
      if leading? rest = some .binary then
        match rest with
        | operator :: operand :: more => do
          return (← binary s (String.ofList operator) text operand, operand :: more)
        | operator :: [] => .error (misfit operator "argument expected")
        | [] => .ok (false, [])
      else .ok (!text.isEmpty, text :: rest)

/-- A test that may be negated. -/
def negatable (s : Session) : (fuel : Nat) → List (List Char) → Outcome (Bool × List (List Char))
  | 0, operands => .ok (false, operands)
  | fuel + 1, operands =>
    if leading? operands = some .negation then do
      let rest := operands.drop 1
      let (outcome, left) ← negatable s fuel rest
      return (!outcome, if rest.isEmpty then operands else left)
    else primary s fuel operands

/-- Tests of which all have to hold. -/
def allOf (s : Session) : (fuel : Nat) → List (List Char) → Outcome (Bool × List (List Char))
  | 0, operands => .ok (false, operands)
  | fuel + 1, operands => do
    let (first, left) ← negatable s fuel operands
    if leading? (left.drop 1) = some .conjunction then
      let (others, left) ← allOf s fuel (left.drop 2)
      return (first && others, left)
    else return (first, left)

/-- Tests of which one has to hold. -/
def anyOf (s : Session) : (fuel : Nat) → List (List Char) → Outcome (Bool × List (List Char))
  | 0, operands => .ok (false, operands)
  | fuel + 1, operands => do
    let (first, left) ← allOf s fuel operands
    if leading? (left.drop 1) = some .disjunction then
      let (others, left) ← anyOf s fuel (left.drop 2)
      return (first || others, left)
    else return (first, left)

end

/-- The outcome of an expression. Three operands with an operator between them are a test of two, whatever the
first one is; of three or four, the first one may negate the others, or brackets may stand around them. -/
def eval (s : Session) : (fuel : Nat) → List (List Char) → Outcome Bool
  | 0, _ => .ok false
  | _ + 1, [] => .ok false
  | fuel + 1, operands => do
    let complete (result : Bool × List (List Char)) : Outcome Bool :=
      match result.2 with
      | a :: _ :: _ => .error (misfit a "unexpected operator")
      | _ => .ok result.1
    let isShort := operands.length = 3 || operands.length = 4
    match operands with
    | [a, operator, b] =>
      if kind? operator = some .binary then return ← binary s (String.ofList operator) a b
    | _ => pure ()
    if isShort && operands.head? = some ['('] && operands.getLast? = some [')'] then
      complete (← anyOf s (4 * operands.length + 4) (operands.drop 1).dropLast)
    else if isShort && operands.head? = some ['!'] then return !(← eval s fuel (operands.drop 1))
    else complete (← anyOf s (4 * operands.length + 4) operands)

end StepTree.Shell.Test

namespace StepTree.Shell.Utility

/-- Tests its operands. -/
def test : Utility := fun operands s =>
  match Test.eval s 3 operands with
  | .ok outcome => s.withStatus (if outcome then 0 else 1)
  | .error text => s.abort text

/-- Tests its operands, of which the last one is a bracket. -/
def bracket : Utility := fun operands s =>
  if operands.getLast? = some [']'] then test operands.dropLast s else s.abort "missing ]"

end StepTree.Shell.Utility
