import StepTree.Text.Basic
import StepTree.Number.Binary64

/-! # Number literals

How integers and decimals are read from text. An integer is a run of ASCII digits after an optional
sign; a decimal may also have a point, with digits on at least one side of it, and an exponent. -/

namespace StepTree.Literal

/-- The value of one or more ASCII digits in a base up to sixteen. -/
def digits? (base : Nat) (s : List Char) : Option Nat :=
  if s.isEmpty then none else s.foldlM step 0
where
  /-- Appends one digit. -/
  step (n : Nat) (c : Char) : Option Nat :=
    let d :=
      if '0' ≤ c ∧ c ≤ '9' then c.toNat - 48
      else if 'a' ≤ c ∧ c ≤ 'f' then c.toNat - 87
      else if 'A' ≤ c ∧ c ≤ 'F' then c.toNat - 55
      else base
    if d < base then some (n * base + d) else none

/-- An unsigned integer below `limit`; a plus sign may stand before it. -/
def unsigned? (base limit : Nat) (s : List Char) : Option Nat :=
  let body := match s with
    | '+' :: rest => rest
    | _ => s
  (digits? base body).filter (· < limit)

/-- A signed integer in `-bound ≤ n < bound`. -/
def signed? (base bound : Nat) (s : List Char) : Option Int :=
  match s with
  | '-' :: rest => ((digits? base rest).filter (· ≤ bound)).map fun n => -(n : Int)
  | '+' :: rest => ((digits? base rest).filter (· < bound)).map Int.ofNat
  | _ => ((digits? base s).filter (· < bound)).map Int.ofNat

/-- The number of words of 64 bits. -/
def word64 : Nat := Nat.pow 2 64

/-- The least integer of 64 bits with a sign is this far below zero. -/
def signedBound : Nat := Nat.pow 2 63

/-- What is wrong with the text of an unsigned integer. -/
inductive Fault where
  | empty
  | invalidDigit
  | tooLarge
  deriving DecidableEq

def Fault.message : Fault → String
  | .empty => "cannot parse integer from empty string"
  | .invalidDigit => "invalid digit found in string"
  | .tooLarge => "number too large to fit in target type"

/-- The decimal number below `limit` that digits continue `n` to; the first fault from the left counts. -/
def continued (limit : Nat) : (n : Nat) → List Char → Except Fault Nat
  | n, [] => .ok n
  | n, c :: rest =>
    match digits? 10 [c] with
    | none => .error .invalidDigit
    | some d => if n * 10 + d < limit then continued limit (n * 10 + d) rest else .error .tooLarge

/-- The decimal number below `limit` that a text is; a plus sign may stand before it. -/
def unsigned (limit : Nat) (s : List Char) : Except Fault Nat :=
  match s with
  | [] => .error .empty
  | ['+'] => .error .invalidDigit
  | '+' :: rest => continued limit 0 rest
  | _ => continued limit 0 s

def isDigit (c : Char) : Bool := '0' ≤ c && c ≤ '9'

/-- The digits of an exponent after its mark. -/
def exponent? (s : List Char) : Option Int :=
  match s with
  | '-' :: rest => (digits? 10 rest).map fun n => -(n : Int)
  | '+' :: rest => (digits? 10 rest).map Int.ofNat
  | _ => (digits? 10 s).map Int.ofNat

/-- An unsigned decimal: digits with an optional point, then an optional exponent. Its value is
`digits * 10 ^ exponent`. -/
def magnitude? (s : List Char) : Option (Nat × Int) := do
  let whole := s.takeWhile isDigit
  let rest := s.dropWhile isDigit
  let (fraction, rest) := match rest with
    | '.' :: rest => (rest.takeWhile isDigit, rest.dropWhile isDigit)
    | _ => ([], rest)
  let digits ← digits? 10 (whole ++ fraction)
  let places : Int := fraction.length
  match rest with
  | [] => some (digits, -places)
  | c :: rest => if c = 'e' ∨ c = 'E' then (exponent? rest).map fun e => (digits, e - places) else none

/-- A finite decimal: a sign, digits with an optional point, an optional exponent. -/
def decimal? (s : List Char) : Option Binary64 := do
  let (negative, body) := match s with
    | '-' :: rest => (true, rest)
    | '+' :: rest => (false, rest)
    | _ => (false, s)
  let (digits, exponent) ← magnitude? body
  Binary64.ofDecimal negative digits exponent

end StepTree.Literal
