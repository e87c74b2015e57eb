/-! # Text from bytes

Bytes that are to be UTF-8 are read as text; each longest run of bytes that begins a character but does not
complete it is replaced by one replacement character. -/

namespace StepTree.Text

/-- Stands for bytes that are no text. -/
def replacement : Char := Char.ofNat 0xFFFD

/-- A byte that continues a character. -/
def continues (b : UInt8) : Bool := 0x80 ≤ b && b < 0xC0

/-- The bits that a continuing byte adds to those of the bytes before it. -/
def extend (n : Nat) (b : UInt8) : Nat := n * 64 + (b.toNat - 0x80)

/-- The second byte can follow the first byte of a character of three or four bytes: otherwise the character
would have a shorter form, be half of a pair, or lie beyond the last one. -/
def canFollow (first second : UInt8) : Bool :=
  if first = 0xE0 then 0xA0 ≤ second && second < 0xC0
  else if first = 0xED then 0x80 ≤ second && second < 0xA0
  else if first = 0xF0 then 0x90 ≤ second && second < 0xC0
  else if first = 0xF4 then 0x80 ≤ second && second < 0x90
  else continues second

/-- The text that bytes are. -/
def ofBytes : List UInt8 → List Char
  | [] => []
  | [a] => [if a < 0x80 then Char.ofNat a.toNat else replacement]
  | a :: b :: rest =>
    if a < 0x80 then Char.ofNat a.toNat :: ofBytes (b :: rest)
    else if 0xC2 ≤ a ∧ a < 0xE0 ∧ continues b then Char.ofNat (extend (a.toNat - 0xC0) b) :: ofBytes rest
    else if 0xE0 ≤ a ∧ a < 0xF5 ∧ canFollow a b then
      match rest with
      | [] => [replacement]
      | c :: rest =>
        if !continues c then replacement :: ofBytes (c :: rest)
        else if a < 0xF0 then Char.ofNat (extend (extend (a.toNat - 0xE0) b) c) :: ofBytes rest
        else match rest with
          | [] => [replacement]
          | d :: rest =>
            if continues d then Char.ofNat (extend (extend (extend (a.toNat - 0xF0) b) c) d) :: ofBytes rest
            else replacement :: ofBytes (d :: rest)
    else replacement :: ofBytes (b :: rest)

end StepTree.Text
