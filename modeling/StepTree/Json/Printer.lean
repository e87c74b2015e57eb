import StepTree.Json.Basic
import StepTree.Number.Shortest

/-! # JSON text

The compact text of a value: no blanks, object entries in order, and in strings only the characters
that must be escaped are. -/

namespace StepTree.Json

/-- Numbers with a point have the fewest digits that identify them, positionally from `0.00001` up to
`10 ^ 16`, otherwise with a signed exponent. -/
def floatLayout : Binary64.Layout := ⟨-5, 16, 'e', true⟩

def hexDigit (n : Nat) : Char := Char.ofNat (if n < 10 then 48 + n else 87 + n)

/-- A character as it stands in a quoted string. -/
def escapeChar (c : Char) : List Char :=
  if c = '"' then ['\\', '"']
  else if c = '\\' then ['\\', '\\']
  else if c = '\n' then ['\\', 'n']
  else if c = '\r' then ['\\', 'r']
  else if c = '\t' then ['\\', 't']
  else if c.toNat = 8 then ['\\', 'b']
  else if c.toNat = 12 then ['\\', 'f']
  else if c.toNat < 32 then ['\\', 'u', '0', '0', hexDigit (c.toNat / 16), hexDigit (c.toNat % 16)]
  else [c]

def quote (s : String) : List Char := '"' :: (s.toList.flatMap escapeChar ++ ['"'])

def numberText : Number → List Char
  | .int n => (toString n).toList
  | .float x => floatLayout.write x

mutual

/-- The compact text of a value. -/
def text : Json → List Char
  | null => ['n', 'u', 'l', 'l']
  | bool true => ['t', 'r', 'u', 'e']
  | bool false => ['f', 'a', 'l', 's', 'e']
  | num n => numberText n
  | str s => quote s
  | arr items => '[' :: (itemsText items ++ [']'])
  | obj entries => '\x7b' :: (entriesText entries ++ ['\x7d'])

def itemsText : List Json → List Char
  | [] => []
  | [item] => item.text
  | item :: items => item.text ++ ',' :: itemsText items

def entriesText : List (String × Json) → List Char
  | [] => []
  | [(key, value)] => quote key ++ ':' :: value.text
  | (key, value) :: entries => quote key ++ ':' :: (value.text ++ ',' :: entriesText entries)

end

/-- The text that stands for a value inside other text: a string without its quotes, nothing for null,
and the compact text of any other value. -/
def plainText : Json → String
  | str s => s
  | null => ""
  | value => String.ofList value.text

end StepTree.Json
