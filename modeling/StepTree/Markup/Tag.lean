import StepTree.Markup.Cursor
import StepTree.Number.Literal

/-! # Tags, anchors and directives

A tag says what type a node has. It is written in full between angle brackets, or as a suffix after a
handle, for which a directive or a standard rule gives the beginning of the full tag. Tags are made of
bytes, each held as one character: those that are written with percent signs need not be text. A zero byte
ends a tag. -/

namespace StepTree.Markup

/-- A tag as it is written. -/
structure Tag where
  handle : List Char
  suffix : List Char
  deriving DecidableEq

/-- The characters of tags besides those of words; the last three only stand in full tags. -/
def isTagChar (full : Bool) (c : Char) : Bool :=
  isWordChar c || [';', '/', '?', ':', '@', '&', '=', '+', '$', '.', '!', '~', '*', '\'', '(', ')'].contains c ||
    (full && (c = ',' || c = '[' || c = ']'))

/-- The byte that a percent sign and two digits stand for. -/
def percentByte? (s : List Char) : Option (Nat × List Char) :=
  match s with
  | '%' :: a :: b :: rest => (Literal.digits? 16 [a, b]).map fun n => (n, rest)
  | _ => none

/-- Bytes that continue a character, `count` of them. -/
def continued? : (count : Nat) → List Char → Option (List Char)
  | 0, _ => some []
  | count + 1, s => do
    let (b, s) ← percentByte? s
    if 0x80 ≤ b ∧ b < 0xC0 then (continued? count s).map (Char.ofNat b :: ·) else none

/-- The bytes of a character that are written with percent signs, as many as the first one says. -/
def percentChar? (s : List Char) : Option (List Char) := do
  let (b, rest) ← percentByte? s
  let count ←
    if b < 0x80 then some 0
    else if 0xC0 ≤ b ∧ b < 0xE0 then some 1
    else if 0xE0 ≤ b ∧ b < 0xF0 then some 2
    else if 0xF0 ≤ b ∧ b < 0xF8 then some 3
    else none
  (continued? count rest).map (Char.ofNat b :: ·)

/-- The part of a tag before a zero byte. -/
def untilZero (s : List Char) : List Char := s.takeWhile (·.toNat ≠ 0)

/-- Reads the characters of a tag. -/
def tagText? (full : Bool) : (fuel : Nat) → Cursor → Option (List Char × Cursor)
  | 0, _ => none
  | fuel + 1, c =>
    match c.rest with
    | [] => some ([], c)
    | char :: _ =>
      if char = '%' then do
        let bytes ← percentChar? c.rest
        let (text, c) ← tagText? full fuel (c.skip (3 * bytes.length))
        some (bytes ++ text, c)
      else if isTagChar full char then
        (tagText? full fuel (c.skip 1)).map fun (text, c) => (char :: text, c)
      else some ([], c)

/-- Reads the handle of a tag: an exclamation mark, or a word between two of them. Of a word without the
second mark nothing follows in a directive; elsewhere it is the beginning of a suffix. -/
def tagHandle? (c : Cursor) : Option (List Char × Cursor) :=
  if c.at? '!' then
    let word := (c.rest.drop 1).takeWhile isWordChar
    let c := c.skip (word.length + 1)
    if c.at? '!' then some ('!' :: (word ++ ['!']), c.skip 1) else some ('!' :: word, c)
  else none

/-- A handle that stands for the beginning of a tag. -/
def isNamedHandle (handle : List Char) : Bool := 1 < handle.length && handle.getLast? = some '!'

/-- Reads a tag from its exclamation mark on. -/
def tag? (flow : Bool) (c : Cursor) : Option (Tag × Cursor) := do
  let (tag, c) ←
    if c.rest.take 2 == ['!', '<'] then do
      let (suffix, c) ← tagText? true c.rest.length.succ (c.skip 2)
      if suffix.isEmpty || !c.at? '>' then none else some (⟨[], suffix⟩, c.skip 1)
    else do
      let (handle, c) ← tagHandle? c
      let (text, c) ← tagText? false c.rest.length.succ c
      if isNamedHandle handle then if text.isEmpty then none else some (⟨handle, text⟩, c)
      else
        let suffix := handle.drop 1 ++ text
        some (if suffix.isEmpty then ⟨[], ['!']⟩ else ⟨['!'], suffix⟩, c)
  if startsGap c.rest || (flow && c.at? ',') then some (tag, c) else none

/-- Reads the name of an anchor or of a reference to one, after its mark. -/
def anchorName? (c : Cursor) : Option (List Char × Cursor) :=
  let name := c.rest.takeWhile isWordChar
  let c := c.skip name.length
  let ends := startsGap c.rest || ['?', ':', ',', ']', '\x7d', '%', '@', '\x60'].any fun char => c.at? char
  if name.isEmpty || !ends then none else some (name, c)

/-- A line that says how a document is to be read. -/
inductive Directive where
  | version (major minor : Nat)
  | tag (handle meaning : List Char)
  deriving DecidableEq

/-- Reads a number of at most nine digits. -/
def versionPart? (c : Cursor) : Option (Nat × Cursor) :=
  let digits := c.rest.takeWhile Literal.isDigit
  if 9 < digits.length then none
  else (Literal.digits? 10 digits).map fun n => (n, c.skip digits.length)

/-- Reads a directive from its percent sign on, up to the end of its line. -/
def directive? (c : Cursor) : Option (Directive × Cursor) := do
  let c := c.skip 1
  let name := c.rest.takeWhile isWordChar
  let c := c.skip name.length
  if !startsGap c.rest then none
  else
    let c := c.skipWhile isSpaceOrTab
    let (d, c) ←
      if name = ['Y', 'A', 'M', 'L'] then do
        let (major, c) ← versionPart? c
        if c.at? '.' then
          let (minor, c) ← versionPart? (c.skip 1)
          some (Directive.version major minor, c)
        else none
      else if name = ['T', 'A', 'G'] then do
        let (handle, c) ← tagHandle? c
        if (handle = ['!'] || isNamedHandle handle) && (c.rest.head?.map isSpaceOrTab).getD false then
          let (meaning, c) ← tagText? true c.rest.length.succ (c.skipWhile isSpaceOrTab)
          if meaning.isEmpty || !startsGap c.rest then none else some (Directive.tag handle meaning, c)
        else none
      else none
    some (d, ← c.finishLine?)

end StepTree.Markup
