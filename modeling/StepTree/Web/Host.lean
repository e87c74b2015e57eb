import StepTree.Web.DomainName

/-! # Hosts

The host of an address is a name, or an address of numbers: four bytes, or eight pieces of two bytes. -/

namespace StepTree.Web

/-- Why a text is no address. -/
inductive AddressFault where
  | emptyHost
  | domainName
  | socket
  | fourBytes
  | eightPieces
  | domainCharacter
  /-- There is no scheme. -/
  | relative
  deriving DecidableEq

def AddressFault.message : AddressFault → String
  | emptyHost => "empty host"
  | domainName => "invalid international domain name"
  | socket => "invalid port number"
  | fourBytes => "invalid IPv4 address"
  | eightPieces => "invalid IPv6 address"
  | domainCharacter => "invalid domain character"
  | relative => "relative URL without a base"

namespace Host

/-! ### Four bytes -/

/-- A number of any base: hexadecimal after `0x`, octal after `0`, else decimal. -/
def number? (s : List Char) : Option Nat :=
  let ofDigits (base : Nat) (digits : List Char) : Option Nat :=
    if digits.isEmpty then some 0 else Literal.digits? base digits
  match s with
  | [] => none
  | '0' :: 'x' :: rest => ofDigits 16 rest
  | '0' :: 'X' :: rest => ofDigits 16 rest
  | '0' :: c :: rest => ofDigits 8 (c :: rest)
  | _ => ofDigits 10 s

/-- The parts of a name; an empty one at the end does not count. -/
def parts (name : List Char) : List (List Char) :=
  let parts := Text.split '.' name
  if parts.getLast? = some [] then parts.dropLast else parts

/-- The name has to be an address of four bytes. -/
def endsInNumber (name : List Char) : Bool :=
  match (parts name).getLast? with
  | none => false
  | some last => (!last.isEmpty && last.all Char.isDigit) || (number? last).isSome

/-- The four bytes of an address as one number. The last part fills the bytes that the others leave. -/
def fourBytes? (name : List Char) : Option Nat := do
  let numbers ← (parts name).mapM number?
  let last ← numbers.getLast?
  let others := numbers.dropLast
  if 4 < numbers.length || others.any (255 < ·) || Nat.pow 256 (4 - others.length) ≤ last then none
  else some ((others.zipIdx.foldl (fun n (b, place) => n + b * Nat.pow 256 (3 - place)) last))

def fourBytesText (n : Nat) : List Char :=
  ['.'].intercalate ([3, 2, 1, 0].map fun place => (toString (n / Nat.pow 256 place % 256)).toList)

/-! ### Eight pieces -/

/-- The pieces of a text without a gap: hexadecimal numbers between colons, at the end perhaps four bytes. -/
def pieces? (s : List Char) : Option (List Nat) :=
  if s.isEmpty then some []
  else
    let parts := Text.split ':' s
    let piece? (p : List Char) : Option Nat :=
      if p.isEmpty ∨ 4 < p.length then none else Literal.digits? 16 p
    let byte? (p : List Char) : Option Nat :=
      if p.length > 1 ∧ p.head? = some '0' then none else (Literal.digits? 10 p).filter (· < 256)
    match parts.getLast? with
    | none => none
    | some last =>
      if last.contains '.' then do
        let front ← parts.dropLast.mapM piece?
        let [a, b, c, d] ← (Text.split '.' last).mapM byte? | none
        some (front ++ [a * 256 + b, c * 256 + d])
      else parts.mapM piece?

/-- The text before the first two colons in a row, and the text after them. -/
def gap? : List Char → Option (List Char × List Char)
  | ':' :: ':' :: rest => some ([], rest)
  | c :: rest => (gap? rest).map fun (front, back) => (c :: front, back)
  | [] => none

/-- The eight pieces of an address; zeros fill a gap of two colons. -/
def eightPieces? (s : List Char) : Option (List Nat) :=
  match gap? s with
  | none => (pieces? s).filter (·.length = 8)
  | some (front, back) => do
    if front.contains '.' then none
    else
      let front ← pieces? front
      let back ← pieces? back
      if 8 ≤ front.length + back.length then none
      else some (front ++ List.replicate (8 - front.length - back.length) 0 ++ back)

/-- The number of zeros at the beginning of each rest of the pieces. -/
def zeroRuns : List Nat → List Nat
  | [] => []
  | n :: rest =>
    let runs := zeroRuns rest
    (if n = 0 then runs.head?.getD 0 + 1 else 0) :: runs

/-- The pieces between colons; the first of the longest runs of two or more zeros is a gap. -/
def eightPiecesText (pieces : List Nat) : List Char :=
  let runs := zeroRuns pieces
  let longest := runs.foldl max 0
  let text (pieces : List Nat) : List Char := [':'].intercalate (pieces.map (Nat.toDigits 16 ·))
  if longest < 2 then text pieces
  else
    let start := runs.findIdx (· = longest)
    text (pieces.take start) ++ [':', ':'] ++ text (pieces.drop (start + longest))

/-! ### Any host -/

/-- The address of eight pieces between brackets. -/
def bracketed (s : List Char) : Except AddressFault (List Char) :=
  match Text.before? [']'] s with
  | none => .error .eightPieces
  | some inner =>
    match eightPieces? inner with
    | some pieces => .ok ('[' :: eightPiecesText pieces ++ [']'])
    | none => .error .eightPieces

/-- The host as a scheme that is known writes it. -/
def normal (s : List Char) : Except AddressFault (List Char) :=
  match s with
  | '[' :: rest => bracketed rest
  | _ =>
    match (textOf? (unescaped s)).bind DomainName.normal? with
    | none => .error .domainName
    | some [] => .error .emptyHost
    | some name =>
      if endsInNumber name then
        match fourBytes? name with
        | some n => .ok (fourBytesText n)
        | none => .error .fourBytes
      else .ok name

/-- The host of an address with any other scheme. -/
def other (s : List Char) : Except AddressFault (List Char) :=
  match s with
  | '[' :: rest => bracketed rest
  | _ =>
    if s.any fun c => c.toNat = 0 || [' ', '#', '/', ':', '<', '>', '?', '@', '[', '\\', ']', '^', '|'].contains c then
      .error .domainCharacter
    else .ok (escapeWhere [] s)

end Host

end StepTree.Web
