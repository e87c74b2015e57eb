import StepTree.Text.Basic

/-! # Places in a markup text

A markup text is read from left to right; where a token stands on its line decides what it belongs to, so
the place is carried along with what remains. -/

namespace StepTree.Markup

structure Cursor where
  rest : List Char
  /-- The number of bytes before the place. -/
  index : Nat := 0
  line : Nat := 0
  column : Nat := 0

def isSpaceOrTab (c : Char) : Bool := c = ' ' || c = '\t'

/-- The characters that end a line. -/
def isBreak (c : Char) : Bool :=
  c = '\n' || c = '\r' || c.toNat = 0x85 || c.toNat = 0x2028 || c.toNat = 0x2029

/-- The line break at the start of a text, and the number of its characters. All breaks count as a line
feed, except for the two separators of lines and of paragraphs, which stay. -/
def lineBreak? : List Char → Option (Char × Nat)
  | '\r' :: '\n' :: _ => some ('\n', 2)
  | c :: _ =>
    if c = '\n' ∨ c = '\r' ∨ c.toNat = 0x85 then some ('\n', 1)
    else if c.toNat = 0x2028 ∨ c.toNat = 0x2029 then some (c, 1)
    else none
  | [] => none

/-- A text that begins with a space, a tab or a line break, or is at its end. -/
def startsGap : List Char → Bool
  | [] => true
  | c :: _ => isSpaceOrTab c || isBreak c

/-- The characters of names of anchors and directives. -/
def isWordChar (c : Char) : Bool := c.isAlphanum || c = '_' || c = '-'

/-- The characters that a markup text may hold. -/
def isAllowed (c : Char) : Bool :=
  let n := c.toNat
  n = 9 || n = 10 || n = 13 || (0x20 ≤ n && n ≤ 0x7E) || n = 0x85 || (0xA0 ≤ n && n ≤ 0xFFFD) || 0x10000 ≤ n

def isByteOrderMark (c : Char) : Bool := c.toNat = 0xFEFF

namespace Cursor

/-- The next character is `c`. -/
def at? (c : Cursor) (char : Char) : Bool := c.rest.head? == some char

/-- The index after `count` characters. -/
def indexAfter (c : Cursor) (count : Nat) : Nat :=
  (c.rest.take count).foldl (fun n char => n + char.utf8Size) c.index

/-- Moves over characters of one line. -/
def skip (c : Cursor) (count : Nat) : Cursor :=
  { c with rest := c.rest.drop count, index := c.indexAfter count, column := c.column + count }

/-- Moves over a line break of `count` characters. -/
def skipBreak (c : Cursor) (count : Nat) : Cursor :=
  { rest := c.rest.drop count, index := c.indexAfter count, line := c.line + 1, column := 0 }

/-- Moves over the characters with a property. -/
def skipWhile (c : Cursor) (p : Char → Bool) : Cursor := c.skip (c.rest.takeWhile p).length

/-- Three characters stand alone at the start of a line. -/
def atMark (c : Cursor) (mark : Char) : Bool :=
  c.column = 0 && c.rest.take 3 == [mark, mark, mark] && startsGap (c.rest.drop 3)

/-- The beginning or the end of a document. -/
def atDocumentMark (c : Cursor) : Bool := c.atMark '-' || c.atMark '.'

/-- Moves over blanks and a comment up to the end of the line, if nothing else is there, and over its
end. -/
def finishLine? (c : Cursor) : Option Cursor :=
  let c := c.skipWhile isSpaceOrTab
  let c := if c.at? '#' then c.skipWhile (!isBreak ·) else c
  match lineBreak? c.rest with
  | some (_, count) => some (c.skipBreak count)
  | none => if c.rest.isEmpty then some c else none

end Cursor

end StepTree.Markup
