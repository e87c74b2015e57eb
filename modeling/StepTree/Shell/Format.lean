import StepTree.Shell.Arithmetic
import StepTree.Shell.Decimal

/-! # Formatted output

Backslashes in text stand for characters that are hard to write, and a format says how its operands are
written: as text, as one character, or as a number, in a field of some width. -/

namespace StepTree.Shell.Format

/-- The character that a letter after a backslash stands for. -/
def letter? : Char → Option Char
  | 'a' => some '\x07'
  | 'b' => some '\x08'
  | 'e' => some '\x1b'
  | 'f' => some '\x0c'
  | 'n' => some '\n'
  | 'r' => some '\r'
  | 't' => some '\t'
  | 'v' => some '\x0b'
  | '\\' => some '\\'
  | _ => none

def isOctal (c : Char) : Bool := '0' ≤ c && c ≤ '7'

/-- The byte that octal digits are. -/
def octal (s : List Char) : Char := Char.ofNat (s.foldl (fun n c => n * 8 + (c.toNat - 48)) 0 % 256)

/-- The byte that stands after a backslash, and what follows. -/
def escape? (s : List Char) : Option (Char × List Char) :=
  match s with
  | [] => none
  | c :: rest =>
    if isOctal c then
      let digits := (s.take 3).takeWhile isOctal
      some (octal digits, s.drop digits.length)
    else (letter? c).map fun b => (b, rest)

/-- The bytes of a text with backslashes, and whether it ends before its end. -/
def expand : (fuel : Nat) → List Char → List Char × Bool
  | 0, _ => ([], false)
  | _ + 1, [] => ([], false)
  | _ + 1, '\\' :: 'c' :: _ => ([], true)
  | fuel + 1, '\\' :: rest =>
    let zero := rest.head? = some '0' && (rest.drop 1).head?.any isOctal
    match escape? (if zero then rest.drop 1 else rest) with
    | some (b, rest) =>
      let (more, stopped) := expand fuel rest
      (b :: more, stopped)
    | none =>
      let (more, stopped) := expand fuel rest
      ('\\' :: more, stopped)
  | fuel + 1, c :: rest =>
    let (more, stopped) := expand fuel rest
    (c :: more, stopped)

/-- The bytes of a text with backslashes, and whether it ends before its end. -/
def expanded (s : List Char) : List Char × Bool := expand (s.length + 1) s

/-! ### Numbers that operands are -/

/-- The sign of a number after blanks, and what follows. -/
def signed (operand : List Char) : Bool × List Char :=
  match Text.trimStart operand with
  | '-' :: rest => (true, rest)
  | '+' :: rest => (false, rest)
  | body => (false, body)

/-- Why an operand is not the number that it is taken for. -/
inductive NumberFault where
  | noNumber
  | tooMuch
  | outOfRange

def NumberFault.message (operand : List Char) (f : NumberFault) : String :=
  String.ofList operand ++ match f with
    | noNumber => ": expected numeric value"
    | tooMuch => ": not completely converted"
    | outOfRange => ": Numerical result out of range"

/-- The whole number that an operand is; the number of a character if a quote stands before it. -/
def wholeNumber (isSigned : Bool) (operand : List Char) : Int × Option NumberFault :=
  match operand with
  | '"' :: c :: _ => (c.toNat, none)
  | '\'' :: c :: _ => (c.toNat, none)
  | [] | ['"'] | ['\''] => (0, none)
  | _ =>
    let (negative, body) := signed operand
    match Arithmetic.number? body with
    | none => (0, some .noNumber)
    | some (n, rest) =>
      let limit := if !isSigned then Literal.word64 - 1
        else if negative then Arithmetic.greatest + 1 else Arithmetic.greatest
      let size : Int := min n limit
      let value := if negative && (isSigned || n ≤ limit) then -size else size
      (value, if n > limit then some .outOfRange else if rest.isEmpty then none else some .tooMuch)

/-- The part of a text that is a decimal number, and what follows. -/
def decimalPart (s : List Char) : List Char × List Char :=
  let whole := s.takeWhile Char.isDigit
  let rest := s.drop whole.length
  let fraction := match rest with
    | '.' :: after => '.' :: after.takeWhile Char.isDigit
    | _ => []
  let rest := rest.drop fraction.length
  let exponent := match rest with
    | c :: sign :: d :: after =>
      if (c = 'e' || c = 'E') && (sign = '-' || sign = '+') && d.isDigit then
        c :: sign :: d :: after.takeWhile Char.isDigit
      else if (c = 'e' || c = 'E') && sign.isDigit then c :: sign :: (d :: after).takeWhile Char.isDigit
      else []
    | [c, d] => if (c = 'e' || c = 'E') && d.isDigit then [c, d] else []
    | _ => []
  (whole ++ fraction ++ exponent, rest.drop exponent.length)

/-- The number that an operand is: its sign, and its size or its name if it is not finite. -/
def decimalNumber (operand : List Char) : Bool × (List Char ⊕ Quotient) × Option NumberFault :=
  match operand with
  | '"' :: c :: _ => (false, .inr ⟨c.toNat, 1⟩, none)
  | '\'' :: c :: _ => (false, .inr ⟨c.toNat, 1⟩, none)
  | [] | ['"'] | ['\''] => (false, .inr ⟨0, 1⟩, none)
  | _ =>
    let (negative, body) := signed operand
    match String.ofList (body.map Char.toLower) with
    | "inf" | "infinity" => (negative, .inl ['i', 'n', 'f'], none)
    | "nan" => (negative, .inl ['n', 'a', 'n'], none)
    | _ =>
      let (part, rest) := decimalPart body
      match Literal.decimal? part with
      | none => (false, .inr ⟨0, 1⟩, some .noNumber)
      | some x => (negative, .inr (.ofBinary64 x), if rest.isEmpty then none else some .tooMuch)

/-! ### Directives -/

/-- How an operand is written. -/
structure Directive where
  flags : List Char := []
  width : Nat := 0
  precision : Option Nat := none
  conversion : Char

namespace Directive

def has (d : Directive) (flag : Char) : Bool := d.flags.contains flag

/-- Fills a field up to its width. -/
def pad (d : Directive) (content : List Char) : List Char :=
  let blanks := List.replicate (d.width - content.length) ' '
  if d.has '-' then content ++ blanks else blanks ++ content

/-- Text in its field. -/
def text (d : Directive) (content : List Char) : List Char := d.pad (content.take (d.precision.getD content.length))

/-- The digits of a number as a conversion writes them. -/
def digits (d : Directive) (n : Nat) : List Char :=
  match d.conversion with
  | 'x' => Nat.toDigits 16 n
  | 'X' => (Nat.toDigits 16 n).map Char.toUpper
  | 'o' => Nat.toDigits 8 n
  | _ => Nat.toDigits 10 n

/-- The sign of a number. -/
def sign (d : Directive) (negative : Bool) : List Char :=
  if negative then ['-'] else if d.has '+' then ['+'] else if d.has ' ' then [' '] else []

/-- What stands before the digits of a whole number. -/
def lead (d : Directive) (n : Int) : List Char :=
  match d.conversion with
  | 'x' => if d.has '#' && n ≠ 0 then ['0', 'x'] else []
  | 'X' => if d.has '#' && n ≠ 0 then ['0', 'X'] else []
  | 'o' => []
  | 'u' => []
  | _ => d.sign (n < 0)

/-- Digits with zeros before them up to the width, if zeros are to fill the field. -/
def filled (d : Directive) (lead digits : List Char) : List Char :=
  let zeros := if d.has '0' && !d.has '-' then d.width - lead.length - digits.length else 0
  d.pad (lead ++ List.replicate zeros '0' ++ digits)

/-- Takes signs into account. -/
def isSigned (d : Directive) : Bool := d.conversion = 'd' || d.conversion = 'i'

/-- A whole number in its field. -/
def whole (d : Directive) (n : Int) : List Char :=
  let digits := d.digits (if d.isSigned then n.natAbs else (n % Literal.word64).toNat)
  let digits := if d.conversion = 'o' && d.has '#' && digits.head? ≠ some '0' then '0' :: digits else digits
  match d.precision with
  | some 0 => if n = 0 then d.pad (d.lead n) else d.pad (d.lead n ++ digits)
  | some p => d.pad (d.lead n ++ List.replicate (p - digits.length) '0' ++ digits)
  | none => d.filled (d.lead n) digits

/-- A number that need not be whole in its field. -/
def decimal (d : Directive) (negative : Bool) (value : List Char ⊕ Quotient) : List Char :=
  let isUpper := d.conversion.isUpper
  match value with
  | .inl name => d.pad (d.sign negative ++ if isUpper then name.map Char.toUpper else name)
  | .inr q =>
    let places := d.precision.getD 6
    let mark := if isUpper then 'E' else 'e'
    let digits := match d.conversion.toLower with
      | 'f' => q.fixed places (d.has '#')
      | 'e' => q.scientific places (d.has '#') mark
      | _ => q.general places (d.has '#') mark
    d.filled (d.sign negative) digits

end Directive

/-- A directive after its percent sign, its text, what follows it, and the operands that are left; there may be
no conversion. -/
def directive (s : List Char) (operands : List (List Char)) :
    Option Directive × List Char × List Char × List (List Char) :=
  let flags := s.takeWhile ['-', '+', ' ', '#', '0'].contains
  let size (s : List Char) (operands : List (List Char)) : Int × List Char × List (List Char) :=
    match s with
    | '*' :: rest => ((wholeNumber true (operands.head?.getD [])).1, rest, operands.drop 1)
    | _ =>
      let digits := s.takeWhile Char.isDigit
      (digits.foldl (fun n c => n * 10 + (c.toNat - 48)) 0, s.drop digits.length, operands)
  let (width, rest, operands) := size (s.drop flags.length) operands
  let (precision, rest, operands) := match rest with
    | '.' :: rest =>
      let (p, rest, operands) := size rest operands
      (if p < 0 then none else some p.toNat, rest, operands)
    | _ => (none, rest, operands)
  let flags := if width < 0 then '-' :: flags else flags
  (rest.head?.map fun conversion => { flags, width := width.natAbs, precision, conversion },
    s.take (s.length - rest.length + 1), rest.drop 1, operands)

/-- What writing with a format gave. -/
structure Written where
  /-- The pieces that were written, the last one first. -/
  pieces : List (List Char) := []
  complaints : List String := []
  /-- Nothing follows. -/
  stopped : Bool := false
  /-- The operands that are left. -/
  operands : List (List Char) := []
  /-- The format is wrong here. -/
  fault : Option String := none

namespace Written

def content (w : Written) : List Char := w.pieces.reverse.flatMap id

def add (w : Written) (piece : List Char) : Written := { w with pieces := piece :: w.pieces }

/-- Adds a number, which an operand may fail to be. -/
def addNumber (w : Written) (operand : List Char) (piece : List Char) (f : Option NumberFault) : Written :=
  { w.add piece with complaints := w.complaints ++ (f.map (·.message operand)).toList }

/-- Writes the next operand. -/
def addOperand (w : Written) (d : Directive) (text : List Char) : Written :=
  let operand := w.operands.head?.getD []
  let rest := { w with operands := w.operands.drop 1 }
  let c := d.conversion
  if c = 's' then rest.add (d.text operand)
  else if c = 'c' then rest.add (d.pad [operand.head?.getD '\x00'])
  else if c = 'b' then
    let (content, stopped) := expanded operand
    { rest.add (d.text content) with stopped }
  else if ['d', 'i', 'u', 'o', 'x', 'X'].contains c then
    let (n, fault) := wholeNumber d.isSigned operand
    rest.addNumber operand (d.whole n) fault
  else if ['e', 'E', 'f', 'F', 'g', 'G'].contains c then
    let (negative, value, fault) := decimalNumber operand
    rest.addNumber operand (d.decimal negative value) fault
  else { w with fault := some ("%" ++ String.ofList text ++ ": invalid directive") }

end Written

/-- Writes with a format once. -/
def once : (fuel : Nat) → (format : List Char) → Written → Written
  | 0, _, w => w
  | _ + 1, [], w => w
  | fuel + 1, '\\' :: rest, w =>
    match escape? rest with
    | some (b, rest) => once fuel rest (w.add [b])
    | none => once fuel rest (w.add ['\\'])
  | fuel + 1, '%' :: '%' :: rest, w => once fuel rest (w.add ['%'])
  | fuel + 1, '%' :: rest, w =>
    match directive rest w.operands with
    | (none, _) => { w with fault := some "missing format character" }
    | (some d, text, rest, operands) =>
      let w := { w with operands }.addOperand d text
      if w.stopped || w.fault.isSome then w else once fuel rest w
  | fuel + 1, c :: rest, w => once fuel rest (w.add [c])

/-- Writes with a format as often as there are operands for it. -/
def repeatedly (format : List Char) : (fuel : Nat) → Written → Written
  | 0, w => w
  | fuel + 1, w =>
    let next := once (format.length + 1) format w
    if next.stopped || next.fault.isSome || next.operands.isEmpty || next.operands.length = w.operands.length then next
    else repeatedly format fuel next

/-- Writes operands with a format. -/
def write (format : List Char) (operands : List (List Char)) : Written :=
  repeatedly format (operands.length + 1) { operands }

end StepTree.Shell.Format
