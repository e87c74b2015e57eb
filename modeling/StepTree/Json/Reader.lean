import StepTree.Json.Basic
import StepTree.Number.Literal

/-! # Reading JSON text

`Json.tree?` reads a text as it is written: the entries of an object stay in their order, repeated keys
included. `Json.read?` is the value of the text. Arrays and objects nest at most 127 deep. Of a number that is
no integer of 64 bits not every digit need count, and powers of ten are rounded on their own: it can be the
neighbour of the nearest number. One beyond the range of binary64 makes the text invalid. -/

namespace StepTree.Json

/-- The deepest nesting of arrays and objects that is read. -/
def maxDepth : Nat := 127

def isSpace (c : Char) : Bool := c = ' ' || c = '\n' || c = '\t' || c = '\r'

def skipSpace (s : List Char) : List Char := s.dropWhile isSpace

/-! ### Strings -/

/-- The value of four hexadecimal digits. -/
def unit? (s : List Char) : Option (Nat × List Char) :=
  match s with
  | a :: b :: c :: d :: rest => (Literal.digits? 16 [a, b, c, d]).map fun n => (n, rest)
  | _ => none

/-- The character of a `\u` escape; a character beyond 16 bits is written as two units. -/
def unicodeEscape? (s : List Char) : Option (Char × List Char) := do
  let (high, rest) ← unit? s
  if 0xD800 ≤ high ∧ high < 0xDC00 then
    match rest with
    | '\\' :: 'u' :: rest =>
      let (low, rest) ← unit? rest
      if 0xDC00 ≤ low ∧ low < 0xE000 then
        some (Char.ofNat (0x10000 + (high - 0xD800) * 0x400 + (low - 0xDC00)), rest)
      else none
    | _ => none
  else if 0xDC00 ≤ high ∧ high < 0xE000 then none
  else some (Char.ofNat high, rest)

/-- The character of the escape after a backslash. -/
def escape? (s : List Char) : Option (Char × List Char) :=
  match s with
  | [] => none
  | c :: rest =>
    if c = '"' ∨ c = '\\' ∨ c = '/' then some (c, rest)
    else if c = 'n' then some ('\n', rest)
    else if c = 't' then some ('\t', rest)
    else if c = 'r' then some ('\r', rest)
    else if c = 'b' then some (Char.ofNat 8, rest)
    else if c = 'f' then some (Char.ofNat 12, rest)
    else if c = 'u' then unicodeEscape? rest
    else none

/-- The characters up to the closing quote, and what follows it. -/
def stringBody? : (fuel : Nat) → List Char → Option (List Char × List Char)
  | 0, _ => none
  | _, [] => none
  | fuel + 1, c :: rest =>
    if c = '"' then some ([], rest)
    else if c = '\\' then do
      let (char, rest) ← escape? rest
      let (chars, rest) ← stringBody? fuel rest
      some (char :: chars, rest)
    else if c.toNat < 32 then none
    else do
      let (chars, rest) ← stringBody? fuel rest
      some (c :: chars, rest)

/-- A string after its opening quote. -/
def string? (s : List Char) : Option (String × List Char) :=
  (stringBody? s.length s).map fun (chars, rest) => (String.ofList chars, rest)

/-! ### Numbers -/

/-- One or more digits. -/
def digitRun? (s : List Char) : Option (List Char × List Char) :=
  let digits := s.takeWhile Literal.isDigit
  if digits.isEmpty then none else some (digits, s.dropWhile Literal.isDigit)

/-- The digits before the point: no zero stands in front of another digit. -/
def wholePart? (s : List Char) : Option (List Char × List Char) := do
  let (digits, rest) ← digitRun? s
  if digits.length > 1 ∧ digits.head? = some '0' then none else some (digits, rest)

/-- The digits after a point, if there is one. -/
def fractionPart? (s : List Char) : Option (Option (List Char) × List Char) :=
  match s with
  | '.' :: rest => (digitRun? rest).map fun (digits, rest) => (some digits, rest)
  | _ => some (none, s)

/-- The exponent, if there is one. -/
def exponentPart? (s : List Char) : Option (Option Int × List Char) :=
  match s with
  | c :: rest =>
    if c = 'e' ∨ c = 'E' then
      match rest with
      | '-' :: rest => (digitRun? rest).map fun (digits, rest) =>
          ((Literal.digits? 10 digits).map fun n => -(n : Int), rest)
      | '+' :: rest => (digitRun? rest).map fun (digits, rest) =>
          ((Literal.digits? 10 digits).map Int.ofNat, rest)
      | _ => (digitRun? rest).map fun (digits, rest) =>
          ((Literal.digits? 10 digits).map Int.ofNat, rest)
    else some (none, s)
  | [] => some (none, s)

/-- Appends digits to a number as long as it fits 64 bits, and gives back the digits that are left. -/
def gather : (n : Nat) → List Char → Nat × List Char
  | n, [] => (n, [])
  | n, c :: rest =>
    match (Literal.digits?.step 10 n c).filter (· < Literal.word64) with
    | some n => gather n rest
    | none => (n, c :: rest)

/-- The exponent of the greatest power of ten in the range of the format. -/
def maxPower : Nat := 308

/-- Divides by that power so many times, or until nothing is left. -/
def scaleDown : (times : Nat) → Binary64 → Option Binary64
  | 0, x => some x
  | times + 1, x =>
    if x.isZero then some x else do scaleDown times (← x.div? (← Binary64.ofInt (Nat.pow 10 maxPower)))

/-- `significand * 10 ^ exponent`. The significand is rounded first, then it is multiplied or divided by powers
of ten, which are themselves rounded: the outcome need not be the nearest number. -/
def decimal? (significand : Nat) (exponent : Int) : Option Binary64 := do
  let x ← Binary64.ofInt significand
  if 0 ≤ exponent then
    if exponent ≤ maxPower then x.mul? (← Binary64.ofInt (Nat.pow 10 exponent.toNat))
    else if x.isZero then some x
    else none
  else
    let places := exponent.natAbs
    let times := (places - 1) / maxPower
    let x ← scaleDown times x
    x.div? (← Binary64.ofInt (Nat.pow 10 (places - times * maxPower)))

-- The 23rd power of ten is not a number of the format, and neither is three times it.
example : decimal? 3 23 ≠ Binary64.ofDecimal false 3 23 := by decide +kernel

/-- The number with these parts: an integer if it has neither fraction nor exponent and fits 64 bits. Of a number
with more digits the first ones count that fit 64 bits. When digits of the whole part are left over, those of the
fraction are still appended if they fit. -/
def numberOf? (negative : Bool) (whole : List Char) (fraction : Option (List Char)) (exponent : Option Int) :
    Option Number := do
  let (n, left) := gather 0 whole
  if fraction = none ∧ exponent = none ∧ left = [] then
    if negative = false then return .int n
    if 0 < n ∧ n ≤ Literal.signedBound then return .int (-(n : Int))
  let places := fraction.getD []
  let (significand, unread) := gather n places
  let x ← decimal? significand (left.length - (places.length - unread.length : Nat) + exponent.getD 0)
  return .float { x with negative }

def number? (s : List Char) : Option (Number × List Char) := do
  let (negative, rest) := match s with
    | '-' :: rest => (true, rest)
    | _ => (false, s)
  let (whole, rest) ← wholePart? rest
  let (fraction, rest) ← fractionPart? rest
  let (exponent, rest) ← exponentPart? rest
  let n ← numberOf? negative whole fraction exponent
  return (n, rest)

/-! ### Values -/

mutual

/-- A value, and what follows it. `depth` more levels of arrays and objects may be opened. -/
def value? : (fuel depth : Nat) → List Char → Option (Json × List Char)
  | 0, _, _ => none
  | fuel + 1, depth, s =>
    match skipSpace s with
    | [] => none
    | c :: rest =>
      if c = '"' then (string? rest).map fun (text, rest) => (str text, rest)
      else if c = '[' then
        match depth with
        | 0 => none
        | depth + 1 =>
          match skipSpace rest with
          | ']' :: rest => some (arr [], rest)
          | rest => (items? fuel depth rest).map fun (items, rest) => (arr items, rest)
      else if c = '\x7b' then
        match depth with
        | 0 => none
        | depth + 1 =>
          match skipSpace rest with
          | '\x7d' :: rest => some (obj [], rest)
          | rest => (entries? fuel depth rest).map fun (entries, rest) => (obj entries, rest)
      else if c = 'n' then (Text.after? ['u', 'l', 'l'] rest).map fun rest => (null, rest)
      else if c = 't' then (Text.after? ['r', 'u', 'e'] rest).map fun rest => (bool true, rest)
      else if c = 'f' then (Text.after? ['a', 'l', 's', 'e'] rest).map fun rest => (bool false, rest)
      else (number? (c :: rest)).map fun (n, rest) => (num n, rest)

/-- The values of an array up to its closing bracket. -/
def items? : (fuel depth : Nat) → List Char → Option (List Json × List Char)
  | 0, _, _ => none
  | fuel + 1, depth, s => do
    let (item, rest) ← value? fuel depth s
    match skipSpace rest with
    | ',' :: rest =>
      let (items, rest) ← items? fuel depth rest
      some (item :: items, rest)
    | ']' :: rest => some ([item], rest)
    | _ => none

/-- The entries of an object up to its closing brace. -/
def entries? : (fuel depth : Nat) → List Char → Option (List (String × Json) × List Char)
  | 0, _, _ => none
  | fuel + 1, depth, s =>
    match skipSpace s with
    | '"' :: rest => do
      let (key, rest) ← string? rest
      match skipSpace rest with
      | ':' :: rest =>
        let (value, rest) ← value? fuel depth rest
        match skipSpace rest with
        | ',' :: rest =>
          let (entries, rest) ← entries? fuel depth rest
          some ((key, value) :: entries, rest)
        | '\x7d' :: rest => some ([(key, value)], rest)
        | _ => none
      | _ => none
    | _ => none

end

/-- The tree that a text is, its entries in the order of the text. -/
def tree? (s : List Char) : Option Json := do
  let (value, rest) ← value? (2 * s.length + 2) maxDepth s
  if skipSpace rest = [] then some value else none

/-- The value that a text is. -/
def read? (s : List Char) : Option Json := (tree? s).map normalize

/-- The value that a text is. -/
def ofString? (s : String) : Option Json := read? s.toList

end StepTree.Json
