import StepTree.Number.Literal
import StepTree.Text.Bytes

/-! # Percent signs

In an address a byte can be written as a percent sign and two hexadecimal digits. -/

namespace StepTree.Web

/-- The value of a hexadecimal digit. -/
def hexDigit? (c : Char) : Option Nat := Literal.digits? 16 [c]

/-- A byte with a percent sign. -/
def escapedByte (b : UInt8) : List Char :=
  let digit (n : Nat) : Char := if n < 10 then Char.ofNat (48 + n) else Char.ofNat (55 + n)
  ['%', digit (b.toNat / 16), digit (b.toNat % 16)]

/-- A character as its bytes with percent signs. -/
def escaped (c : Char) : List Char := (String.utf8EncodeChar c).flatMap escapedByte

/-- The text with percent signs for the characters outside of ASCII, those that control, and some others. -/
def escapeWhere (others : List Char) (s : List Char) : List Char :=
  s.flatMap fun c => if c.toNat < 32 || 126 < c.toNat || others.contains c then escaped c else [c]

/-- The bytes of a text in which bytes may be written with percent signs. -/
def unescaped : List Char → List UInt8
  | '%' :: a :: b :: rest =>
    match hexDigit? a, hexDigit? b with
    | some m, some n => UInt8.ofNat (m * 16 + n) :: unescaped rest
    | _, _ => 37 :: unescaped (a :: b :: rest)
  | c :: rest => String.utf8EncodeChar c ++ unescaped rest
  | [] => []

/-- The text that bytes are, if they are UTF-8. -/
def textOf? (bytes : List UInt8) : Option (List Char) :=
  let text := Text.ofBytes bytes
  if text.flatMap String.utf8EncodeChar == bytes then some text else none

end StepTree.Web
