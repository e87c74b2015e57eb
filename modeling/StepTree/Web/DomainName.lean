import StepTree.Web.Encoding

/-! # Domain names

The name of a host is made of labels between dots. It is brought into one form: capital letters become
small, wide letters become narrow, marks that are not seen go away, and a label with letters outside of
ASCII is written with the letters, digits and hyphens of its code form after `xn--`. -/

namespace StepTree.Web.DomainName

/-- The code points from the first to the last of any of these ranges. -/
def within (ranges : List (Nat × Nat)) (c : Char) : Bool :=
  ranges.any fun (first, last) => first ≤ c.toNat && c.toNat ≤ last

/-- Marks that do not count. -/
def isUnseen : Char → Bool :=
  within [(0xAD, 0xAD), (0x34F, 0x34F), (0x180B, 0x180D), (0x180F, 0x180F), (0x200B, 0x200B), (0x2060, 0x2060),
    (0x2064, 0x2064), (0xFE00, 0xFE0F), (0xFEFF, 0xFEFF), (0xE0100, 0xE01EF)]

/-- Blanks other than the one of ASCII. -/
def isWideBlank : Char → Bool :=
  within [(0xA0, 0xA0), (0x2000, 0x200A), (0x202F, 0x202F), (0x205F, 0x205F), (0x3000, 0x3000)]

/-- What no name may hold: signs that control, those for private use, and those that are no characters. -/
def isRefused (c : Char) : Bool :=
  within [(0x80, 0x9F), (0x61C, 0x61C), (0x180E, 0x180E), (0x200C, 0x200F), (0x2028, 0x202E), (0x2061, 0x2063),
    (0x2065, 0x206F), (0x2FF0, 0x2FFF), (0xE000, 0xF8FF), (0xFDD0, 0xFDEF), (0xFFF0, 0xFFFF), (0xE0000, 0xE00FF),
    (0xE01F0, 0x10FFFF)] c || c.toNat % 0x10000 ≥ 0xFFFE

/-- Marks that belong to the character before them. -/
def isCombining : Char → Bool :=
  within [(0x300, 0x36F), (0x483, 0x489), (0x591, 0x5BD), (0x64B, 0x65F), (0x1AB0, 0x1AFF), (0x1DC0, 0x1DFF),
    (0x20D0, 0x20FF), (0x302A, 0x302F), (0x3099, 0x309A), (0xFE20, 0xFE2F)]

/-- Ranges in which capital letters stand at every other place, before their small letters; `even` tells where. -/
def paired (even : Bool) : List (Nat × Nat) :=
  if even then
    [(0x100, 0x12F), (0x132, 0x137), (0x14A, 0x177), (0x1DE, 0x1EF), (0x1F8, 0x21F), (0x222, 0x233), (0x246, 0x24F),
      (0x370, 0x373), (0x3D8, 0x3EF), (0x460, 0x481), (0x48A, 0x4BF), (0x4D0, 0x52F), (0x1E00, 0x1E95),
      (0x1EA0, 0x1EFF)]
  else [(0x139, 0x148), (0x179, 0x17E), (0x1CD, 0x1DC), (0x4C1, 0x4CE)]

/-- The small letter of a capital letter. -/
def small (c : Char) : Char :=
  let n := c.toNat
  let shifted (ranges : List (Nat × Nat)) (amount : Nat) : Option Char :=
    if within ranges c then some (Char.ofNat (n + amount)) else none
  if n < 128 then c.toLower
  else if n = 0x178 then Char.ofNat 0xFF
  else if n = 0x17F then 's'
  else if n = 0xB5 then Char.ofNat 0x3BC
  else if n = 0x386 then Char.ofNat 0x3AC
  else if n = 0x38C then Char.ofNat 0x3CC
  else if n = 0x4C0 then Char.ofNat 0x4CF
  else
    let moved :=
      (shifted [(0xC0, 0xD6), (0xD8, 0xDE), (0x391, 0x3A1), (0x3A3, 0x3AB), (0x410, 0x42F)] 32).orElse fun _ =>
      (shifted [(0x400, 0x40F)] 80).orElse fun _ =>
      (shifted [(0x531, 0x556)] 48).orElse fun _ =>
      (shifted [(0x388, 0x38A)] 37).orElse fun _ =>
      (shifted [(0x38E, 0x38F)] 63).orElse fun _ =>
      (shifted [(0x24B6, 0x24CF)] 26)
    match moved with
    | some d => d
    | none =>
      if (n % 2 = 0 && within (paired true) c) || (n % 2 = 1 && within (paired false) c) then Char.ofNat (n + 1) else c

/-- What stands for a character in the one form of a name. -/
def folded (c : Char) : List Char :=
  let n := c.toNat
  if isUnseen c then []
  else if isWideBlank c then [' ']
  else if n = 0x3002 ∨ n = 0xFF61 ∨ n = 0x2024 then ['.']
  else if 0xFF01 ≤ n ∧ n ≤ 0xFF5E then [small (Char.ofNat (n - 0xFEE0))]
  else if n = 0xAA then ['a']
  else if n = 0xBA then ['o']
  else if n = 0xB9 then ['1']
  else if n = 0xB2 then ['2']
  else if n = 0xB3 then ['3']
  else if n = 0x1E9E then ['s', 's']
  else [small c]

/-- The characters of ASCII that no name may hold. -/
def isForbidden (c : Char) : Bool :=
  c.toNat ≤ 32 || c.toNat = 127 ||
    ['#', '%', '/', ':', '<', '>', '?', '@', '[', '\\', ']', '^', '|'].contains c

/-! ### Labels in code form -/

/-- How the code form weighs the distances between the characters that it adds. -/
def adapt (delta count : Nat) (first : Bool) : Nat :=
  let delta := if first then delta / 700 else delta / 2
  let rec shrink : (fuel k delta : Nat) → Nat
    | 0, k, delta => k + 36 * delta / (delta + 38)
    | fuel + 1, k, delta => if 455 < delta then shrink fuel (k + 36) (delta / 35) else k + 36 * delta / (delta + 38)
  shrink 32 0 (delta + delta / count)

/-- The digit limit at a place of a number. -/
def threshold (bias k : Nat) : Nat := if k ≤ bias then 1 else if bias + 26 ≤ k then 26 else k - bias

def digit (n : Nat) : Char := if n < 26 then Char.ofNat (97 + n) else Char.ofNat (22 + n)

/-- A distance in digits, the lowest first. -/
def distance (bias : Nat) : (fuel k q : Nat) → List Char
  | 0, _, _ => []
  | fuel + 1, k, q =>
    let t := threshold bias k
    if q < t then [digit q] else digit (t + (q - t) % (36 - t)) :: distance bias fuel (k + 36) ((q - t) / (36 - t))

/-- A label in code form while it is written. -/
structure Coding where
  output : List Char := []
  bias : Nat := 72
  delta : Nat := 0
  /-- The number of characters that were written. -/
  handled : Nat

/-- Writes all places of one character. -/
def codePlaces (basic n : Nat) (label : List Char) (s : Coding) : Coding :=
  label.foldl (fun s c =>
    if c.toNat < n then { s with delta := s.delta + 1 }
    else if c.toNat = n then
      { output := s.output ++ distance s.bias 32 36 s.delta
        bias := adapt s.delta (s.handled + 1) (s.handled = basic), delta := 0, handled := s.handled + 1 }
    else s) s

/-- The label in code form. -/
def code (label : List Char) : List Char :=
  let basic := label.filter (·.toNat < 128)
  let points := ((label.filter (128 ≤ ·.toNat)).map Char.toNat).mergeSort (· ≤ ·) |>.eraseDups
  let (s, _) := points.foldl (fun (s, n) point =>
    let s := { s with delta := s.delta + (point - n) * (s.handled + 1) }
    let s := codePlaces basic.length point label s
    ({ s with delta := s.delta + 1 }, point + 1)) (({ handled := basic.length } : Coding), 128)
  basic ++ (if basic.isEmpty then [] else ['-']) ++ s.output

/-- The value of a digit. -/
def digitValue? (c : Char) : Option Nat :=
  if 'a' ≤ c ∧ c ≤ 'z' then some (c.toNat - 97) else if c.isDigit then some (c.toNat - 22) else none

/-- The distance at the beginning of digits, and the digits after it. -/
def readDistance? (bias : Nat) : (k weight : Nat) → List Char → Option (Nat × List Char)
  | _, _, [] => none
  | k, weight, c :: rest => do
    let d ← digitValue? c
    let t := threshold bias k
    if d < t then some (d * weight, rest)
    else
      let (more, rest) ← readDistance? bias (k + 36) (weight * (36 - t)) rest
      some (d * weight + more, rest)

/-- Puts the characters of a code form into a label. -/
def decodeFrom? : (fuel n i bias : Nat) → (label digits : List Char) → Option (List Char)
  | 0, _, _, _, _, _ => none
  | _ + 1, _, _, _, label, [] => some label
  | fuel + 1, n, i, bias, label, digits => do
    let (delta, rest) ← readDistance? bias 36 1 digits
    let size := label.length + 1
    let place := i + delta
    let n := n + place / size
    if n.isValidChar then
      let label := label.take (place % size) ++ Char.ofNat n :: label.drop (place % size)
      decodeFrom? fuel n (place % size + 1) (adapt delta size (i = 0)) label rest
    else none

/-- The label whose code form this is. -/
def decode? (s : List Char) : Option (List Char) :=
  let after := (s.reverse.takeWhile (· ≠ '-')).reverse
  let basic := (s.take (s.length - after.length)).dropLast
  if s.contains '-' then decodeFrom? (s.length + 1) 128 0 72 basic after else decodeFrom? (s.length + 1) 128 0 72 [] s

/-! ### Names -/

/-- A label can stand in a name. -/
def isLabel (label : List Char) : Bool :=
  !(label.head?.any isCombining) && label.all fun c => !isRefused c && folded c == [c]

/-- The label in its one form. -/
def label? (label : List Char) : Option (List Char) :=
  match Text.after? ['x', 'n', '-', '-'] label with
  | some coded =>
    match decode? coded with
    | some plain =>
      if plain.all (·.toNat < 128) || !isLabel plain || code plain != coded then none else some label
    | none => none
  | none =>
    if label.all (·.toNat < 128) then some label
    else if isLabel label then some (['x', 'n', '-', '-'] ++ code label)
    else none

/-- The name in its one form; none if it cannot be a name. -/
def normal? (name : List Char) : Option (List Char) := do
  let labels ← (Text.split '.' (name.flatMap folded)).mapM label?
  let name := ['.'].intercalate labels
  if name.any isForbidden then none else some name

end StepTree.Web.DomainName
