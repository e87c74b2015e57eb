import StepTree.Number.Literal
import StepTree.Shell.Syntax
import StepTree.Text.Basic

/-! # Arithmetic in words

Expressions over integers of 64 bits that wrap around, with the operators of conditions and of bits, and
assignments to variables. What does not count for the value of an expression is not evaluated: the right side
of an operator whose left side decides, and one of two choices. -/

namespace StepTree.Shell.Arithmetic

inductive Symbol where
  | number (n : Int)
  | name (s : String)
  | operator (s : String)
  deriving DecidableEq

inductive Fault where
  | divisionByZero
  | noPrimary
  | noEnd
  | noBracket
  | noColon
  /-- A variable whose value is no number. -/
  | illegalNumber (text : List Char)

def Fault.message (expression : List Char) : Fault → String
  | divisionByZero => within "division by zero"
  | noPrimary => within "expecting primary"
  | noEnd => within "expecting EOF"
  | noBracket => within "expecting ')'"
  | noColon => within "expecting ':'"
  | illegalNumber text => "Illegal number: " ++ String.ofList text
where
  /-- The message with the expression. -/
  within (cause : String) : String :=
    "arithmetic expression: " ++ cause ++ ": \"" ++ String.ofList expression ++ "\""

/-! ### Symbols -/

/-- The value of a digit in a base, if it has one. -/
def digit? (base : Nat) (c : Char) : Option Nat :=
  let d := if c.isDigit then c.toNat - 48 else if c.isAlpha then c.toLower.toNat - 87 else base
  if d < base then some d else none

/-- The number that the digits at the beginning of a text are, and what follows. -/
def digits (base n : Nat) : List Char → Nat × List Char
  | [] => (n, [])
  | c :: rest =>
    match digit? base c with
    | some d => digits base (n * base + d) rest
    | none => (n, c :: rest)

/-- The number at the beginning of a text: hexadecimal after `0x`, octal after `0`, else decimal. -/
def number? (s : List Char) : Option (Nat × List Char) :=
  let isHexadecimal (mark : Char) (rest : List Char) : Bool :=
    (mark = 'x' || mark = 'X') && rest.head?.any fun c => (digit? 16 c).isSome
  match s with
  | '0' :: mark :: rest => some (if isHexadecimal mark rest then digits 16 0 rest else digits 8 0 (mark :: rest))
  | ['0'] => some (0, [])
  | c :: rest => if c.isDigit then some (digits 10 0 (c :: rest)) else none
  | [] => none

/-- The greatest number. -/
def greatest : Nat := Literal.signedBound - 1

/-- The operators; longer ones come first. -/
def operators : List String :=
  ["<<=", ">>=", "<<", ">>", "<=", ">=", "==", "!=", "&&", "||", "+=", "-=", "*=", "/=", "%=", "&=", "|=", "^=", "+",
    "-", "*", "/", "%", "<", ">", "&", "|", "^", "!", "~", "(", ")", "?", ":", "="]

/-- The symbols of an expression, up to the first character that is none. -/
def symbols : (fuel : Nat) → List Char → List Symbol
  | 0, _ => []
  | _ + 1, [] => []
  | fuel + 1, c :: rest =>
    if Text.isBlank c then symbols fuel rest
    else if isNameStart c then
      .name (String.ofList ((c :: rest).takeWhile isNameChar)) :: symbols fuel ((c :: rest).dropWhile isNameChar)
    else match number? (c :: rest) with
      | some (n, rest) => .number (min n greatest) :: symbols fuel rest
      | none =>
        match operators.findSome? fun o => (Text.after? o.toList (c :: rest)).map fun rest => (o, rest) with
        | some (o, rest) => .operator o :: symbols fuel rest
        | none => [.operator (String.singleton c)]

/-! ### Operators -/

/-- How strongly an operator between two numbers binds, apart from those that may leave out their right side. -/
def strength? : String → Option Nat
  | "|" => some 3
  | "^" => some 4
  | "&" => some 5
  | "==" | "!=" => some 6
  | "<" | ">" | "<=" | ">=" => some 7
  | "<<" | ">>" => some 8
  | "+" | "-" => some 9
  | "*" | "/" | "%" => some 10
  | _ => none

/-- The integer of 64 bits that a number is. -/
def wrap (n : Int) : Int := n.bmod Literal.word64

def ofBool (b : Bool) : Int := if b then 1 else 0

/-- Combines the bits of two numbers. -/
def onBits (f : UInt64 → UInt64 → UInt64) (a b : Int) : Int :=
  wrap (f (UInt64.ofInt a) (UInt64.ofInt b)).toNat

/-- Applies an operator between two numbers. -/
def apply (operator : String) (a b : Int) : Except Fault Int :=
  match operator with
  | "|" => .ok (onBits (· ||| ·) a b)
  | "^" => .ok (onBits (· ^^^ ·) a b)
  | "&" => .ok (onBits (· &&& ·) a b)
  | "==" => .ok (ofBool (a = b))
  | "!=" => .ok (ofBool (a ≠ b))
  | "<" => .ok (ofBool (a < b))
  | ">" => .ok (ofBool (a > b))
  | "<=" => .ok (ofBool (a ≤ b))
  | ">=" => .ok (ofBool (a ≥ b))
  | "<<" => .ok (onBits (· <<< ·) a b)
  | ">>" => .ok (wrap (a / Nat.pow 2 (b % 64).toNat))
  | "+" => .ok (wrap (a + b))
  | "-" => .ok (wrap (a - b))
  | "*" => .ok (wrap (a * b))
  | "/" => if b = 0 then .error .divisionByZero else .ok (wrap (a.tdiv b))
  | _ => if b = 0 then .error .divisionByZero else .ok (wrap (a.tmod b))

/-- The operator that an assignment applies to the value before; none for a plain assignment. -/
def assigned? (operator : String) : Option (Option String) :=
  match operator with
  | "=" => some none
  | "<<=" => some (some "<<")
  | ">>=" => some (some ">>")
  | "+=" => some (some "+")
  | "-=" => some (some "-")
  | "*=" => some (some "*")
  | "/=" => some (some "/")
  | "%=" => some (some "%")
  | "&=" => some (some "&")
  | "|=" => some (some "|")
  | "^=" => some (some "^")
  | _ => none

/-! ### Values -/

/-- The value of the text of a variable, which is zero if it is empty. -/
def variableValue (text : List Char) : Except Fault Int :=
  let body := Text.trimStart text
  let (negative, body) := match body with
    | '-' :: rest => (true, rest)
    | '+' :: rest => (false, rest)
    | _ => (false, body)
  match number? body with
  | some (n, rest) =>
    if !rest.all Text.isBlank || n > (if negative then greatest + 1 else greatest) then .error (.illegalNumber text)
    else .ok (if negative then -(n : Int) else n)
  | none => if text.all Text.isBlank then .ok 0 else .error (.illegalNumber text)

/-- What is left of an expression, and the variables that it assigned; the latest one comes first. -/
structure State where
  rest : List Symbol
  assigned : List (String × Int) := []

abbrev Reading := StateT State (Except Fault)

/-- The operator that comes next. -/
def nextOperator? (s : State) : Option String :=
  match s.rest with
  | .operator o :: _ => some o
  | _ => none

/-- Goes on after symbols. -/
def skip (n : Nat) : Reading Unit := modify fun s => { s with rest := s.rest.drop n }

/-- The value of a variable. -/
def valueOf (lookup : String → List Char) (name : String) : Reading Int := do
  match (← get).assigned.lookup name with
  | some n => pure n
  | none => variableValue (lookup name)

mutual

/-- The value of an operand: a number, a variable, or an expression in brackets, after signs. Where values do
not count, variables are not looked up. -/
def operand (lookup : String → List Char) (counts : Bool) : (fuel : Nat) → Reading Int
  | 0 => throw .noPrimary
  | fuel + 1 => do
    match (← get).rest with
    | .number n :: _ => skip 1; pure n
    | .name s :: _ => skip 1; if counts then valueOf lookup s else pure 0
    | .operator "(" :: _ =>
      skip 1
      let n ← assignment lookup counts fuel
      unless nextOperator? (← get) = some ")" do throw .noBracket
      skip 1
      pure n
    | .operator "-" :: _ => skip 1; return wrap (-(← operand lookup counts fuel))
    | .operator "+" :: _ => skip 1; operand lookup counts fuel
    | .operator "!" :: _ => skip 1; return ofBool ((← operand lookup counts fuel) = 0)
    | .operator "~" :: _ => skip 1; return -(← operand lookup counts fuel) - 1
    | _ => throw .noPrimary

/-- Applies the operators that bind at least as strongly as `least` to what stands left of them. -/
def combined (lookup : String → List Char) (counts : Bool) : (fuel least : Nat) → (left : Int) → Reading Int
  | 0, _, _ => throw .noEnd
  | fuel + 1, least, left => do
    match nextOperator? (← get) with
    | none => pure left
    | some o =>
      match (strength? o).filter (least ≤ ·) with
      | none => pure left
      | some strength =>
        skip 1
        let right ← combined lookup counts fuel (strength + 1) (← operand lookup counts fuel)
        let n ← if counts then liftM (apply o left right) else pure right
        combined lookup counts fuel least n

/-- The value of operands of which all have to be true. -/
def conjunction (lookup : String → List Char) (counts : Bool) : (fuel : Nat) → Reading Int
  | 0 => throw .noEnd
  | fuel + 1 => do
    let left ← combined lookup counts fuel 3 (← operand lookup counts fuel)
    if nextOperator? (← get) = some "&&" then
      skip 1
      let right ← conjunction lookup (counts && left ≠ 0) fuel
      return ofBool (left ≠ 0 && right ≠ 0)
    else pure left

/-- The value of operands of which one has to be true. -/
def disjunction (lookup : String → List Char) (counts : Bool) : (fuel : Nat) → Reading Int
  | 0 => throw .noEnd
  | fuel + 1 => do
    let left ← conjunction lookup counts fuel
    if nextOperator? (← get) = some "||" then
      skip 1
      let right ← disjunction lookup (counts && left = 0) fuel
      return ofBool (left ≠ 0 || right ≠ 0)
    else pure left

/-- The value of an expression without assignments, which may choose between two others. -/
def choice (lookup : String → List Char) (counts : Bool) : (fuel : Nat) → Reading Int
  | 0 => throw .noEnd
  | fuel + 1 => do
    let test ← disjunction lookup counts fuel
    if nextOperator? (← get) = some "?" then
      skip 1
      let yes ← assignment lookup (counts && test ≠ 0) fuel
      unless nextOperator? (← get) = some ":" do throw .noColon
      skip 1
      let no ← choice lookup (counts && test = 0) fuel
      pure (if test = 0 then no else yes)
    else pure test

/-- The value of an expression, which may be assigned to a variable. -/
def assignment (lookup : String → List Char) (counts : Bool) : (fuel : Nat) → Reading Int
  | 0 => throw .noEnd
  | fuel + 1 => do
    match (← get).rest with
    | .name s :: .operator o :: _ =>
      match assigned? o with
      | none => choice lookup counts fuel
      | some how =>
        skip 2
        let right ← assignment lookup counts fuel
        if counts then
          let n ← match how with
            | none => pure right
            | some o => liftM (apply o (← valueOf lookup s) right)
          modify fun state => { state with assigned := (s, n) :: state.assigned }
          pure n
        else pure right
    | _ => choice lookup counts fuel

end

/-- The value of an expression, and the variables that it assigns. -/
def eval (lookup : String → List Char) (expression : List Char) : Except Fault (Int × List (String × Int)) := do
  let symbols := symbols (expression.length + 1) expression
  let (n, s) ← (assignment lookup true (8 * symbols.length + 8)).run { rest := symbols }
  if s.rest.isEmpty then .ok (n, s.assigned.reverse) else .error .noEnd

end StepTree.Shell.Arithmetic
