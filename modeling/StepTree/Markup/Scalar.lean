import StepTree.Markup.Cursor
import StepTree.Number.Literal

/-! # Scalars

A scalar is plain, quoted, or a block of lines. In plain and quoted scalars a single line break is folded
into a space, and of several one is dropped; a literal block keeps its lines, a folded block folds them. -/

namespace StepTree.Markup

/-- The blanks and line breaks between two parts of a plain or quoted scalar. -/
structure Gap where
  /-- The blanks of a gap within one line. -/
  blanks : List Char := []
  breaks : List Char := []
  /-- The gap reaches over the end of a line. -/
  broken : Bool := false
  /-- The first line break was escaped and does not count. -/
  joined : Bool := false

namespace Gap

/-- What stands for the gap in the scalar. -/
def text (g : Gap) : List Char :=
  if !g.broken then g.blanks
  else if g.joined then g.breaks
  else match g.breaks with
    | ['\n'] => [' ']
    | '\n' :: rest => rest
    | breaks => breaks

/-- Reads on over blanks and line breaks; no tab may stand before `column` at the start of a line. -/
def read? (column : Nat) : (fuel : Nat) → Gap → Cursor → Option (Gap × Cursor)
  | 0, _, _ => none
  | fuel + 1, g, c =>
    match c.rest with
    | [] => some (g, c)
    | char :: _ =>
      if isSpaceOrTab char then
        if g.broken && c.column < column && char = '\t' then none
        else read? column fuel (if g.broken then g else { g with blanks := g.blanks ++ [char] }) (c.skip 1)
      else match lineBreak? c.rest with
        | some (char, count) =>
          read? column fuel { g with breaks := g.breaks ++ [char], broken := true } (c.skipBreak count)
        | none => some (g, c)

end Gap

/-! ### Plain scalars -/

/-- The characters that structure a list or table written in brackets. -/
def isFlowMark (c : Char) : Bool := c = ',' || c = '[' || c = ']' || c = '\x7b' || c = '\x7d'

/-- The part of a plain scalar up to a blank or a character that ends it. -/
def plainWord? (flow : Bool) : List Char → Option (List Char)
  | [] => some []
  | c :: rest =>
    if isSpaceOrTab c || isBreak c then some []
    else if c = ':' then
      if flow && (rest.head?.map fun n => isFlowMark n || n = '?').getD false then none
      else if startsGap rest then some []
      else (plainWord? flow rest).map (c :: ·)
    else if flow && isFlowMark c then some []
    else (plainWord? flow rest).map (c :: ·)

/-- Reads on a plain scalar of which `done` and a gap were read. Its later lines begin at `column` or after,
unless it stands in brackets. Whether it ended with a line break comes with the result. -/
def plainFrom? (flow : Bool) (column : Nat) :
    (fuel : Nat) → (done : List Char) → Gap → Cursor → Option (List Char × Bool × Cursor)
  | 0, _, _, _ => none
  | fuel + 1, done, g, c =>
    if c.atDocumentMark || c.at? '#' then some (done, g.broken, c)
    else do
      let word ← plainWord? flow c.rest
      let c := c.skip word.length
      let (done, g) := if word.isEmpty then (done, g) else (done ++ g.text ++ word, {})
      if c.rest.isEmpty || !startsGap c.rest then some (done, g.broken, c)
      else do
        let (g, c) ← Gap.read? column c.rest.length.succ g c
        if !flow && c.column < column then some (done, g.broken, c) else plainFrom? flow column fuel done g c

/-- Reads a plain scalar. -/
def plain? (flow : Bool) (column : Nat) (c : Cursor) : Option (List Char × Bool × Cursor) :=
  plainFrom? flow column c.rest.length.succ [] {} c

/-! ### Quoted scalars -/

/-- The characters that stand for others after a backslash. -/
def escapes : List (Char × Nat) :=
  [('0', 0), ('a', 7), ('b', 8), ('t', 9), ('\t', 9), ('n', 10), ('v', 11), ('f', 12), ('r', 13), ('e', 27), (' ', 32),
    ('"', 34), ('/', 47), ('\\', 92), ('N', 0x85), ('_', 0xA0), ('L', 0x2028), ('P', 0x2029)]

/-- The character of an escape after its backslash, and the length of the escape. -/
def escaped? (s : List Char) : Option (Char × Nat) :=
  match s with
  | [] => none
  | c :: rest =>
    match escapes.lookup c with
    | some n => some (Char.ofNat n, 1)
    | none => do
      let size ← if c = 'x' then some 2 else if c = 'u' then some 4 else if c = 'U' then some 8 else none
      let digits := rest.take size
      let n ← if digits.length = size then Literal.digits? 16 digits else none
      if n.isValidChar then some (Char.ofNat n, size + 1) else none

/-- Reads the part of a quoted scalar up to a gap or its closing quote. Whether it ended with an escaped
line break comes with the result. -/
def quotedWord? (single : Bool) : (fuel : Nat) → Cursor → Option (List Char × Bool × Cursor)
  | 0, _ => none
  | fuel + 1, c =>
    match c.rest with
    | [] => some ([], false, c)
    | char :: rest =>
      if isSpaceOrTab char || isBreak char then some ([], false, c)
      else if single then
        if char = '\'' then
          if rest.head? = some '\'' then
            (quotedWord? single fuel (c.skip 2)).map fun (word, joined, c) => ('\'' :: word, joined, c)
          else some ([], false, c)
        else (quotedWord? single fuel (c.skip 1)).map fun (word, joined, c) => (char :: word, joined, c)
      else if char = '"' then some ([], false, c)
      else if char = '\\' then
        match lineBreak? rest with
        | some (_, count) => some ([], true, (c.skip 1).skipBreak count)
        | none => do
          let (char, size) ← escaped? rest
          let (word, joined, c) ← quotedWord? single fuel (c.skip (size + 1))
          some (char :: word, joined, c)
      else (quotedWord? single fuel (c.skip 1)).map fun (word, joined, c) => (char :: word, joined, c)

/-- Reads on a quoted scalar of which `done` was read, up to and over its closing quote. -/
def quotedFrom? (single : Bool) : (fuel : Nat) → (done : List Char) → Cursor → Option (List Char × Cursor)
  | 0, _, _ => none
  | fuel + 1, done, c =>
    if c.atDocumentMark || c.rest.isEmpty then none
    else do
      let (word, joined, c) ← quotedWord? single c.rest.length.succ c
      if c.at? (if single then '\'' else '"') then some (done ++ word, c.skip 1)
      else do
        let (g, c) ← Gap.read? 0 c.rest.length.succ { joined, broken := joined } c
        quotedFrom? single fuel (done ++ word ++ g.text) c

/-- Reads a quoted scalar from its opening quote on. -/
def quoted? (single : Bool) (c : Cursor) : Option (List Char × Cursor) :=
  quotedFrom? single c.rest.length.succ [] (c.skip 1)

/-! ### Blocks -/

/-- What becomes of the line breaks at the end of a block. -/
inductive Chomping where
  | strip
  | clip
  | keep
  deriving DecidableEq

/-- The chomping that a sign asks for. -/
def chomping? (s : List Char) : Option Chomping :=
  match s with
  | '+' :: _ => some .keep
  | '-' :: _ => some .strip
  | _ => none

/-- The indentation that a digit asks for; zero is none. -/
def indentation? (s : List Char) : Option Nat := do
  let c ← s.head?
  if Literal.isDigit c then some (c.toNat - 48) else none

/-- The chomping and the indentation that the head of a block asks for, in either order. -/
def blockHead? (c : Cursor) : Option (Chomping × Option Nat × Cursor) := do
  let (chomping, indentation, c) := match chomping? c.rest with
    | some chomping =>
      match indentation? (c.rest.drop 1) with
      | some n => (chomping, some n, c.skip 2)
      | none => (chomping, none, c.skip 1)
    | none =>
      match indentation? c.rest with
      | some n =>
        match chomping? (c.rest.drop 1) with
        | some chomping => (chomping, some n, c.skip 2)
        | none => (.clip, some n, c.skip 1)
      | none => (.clip, none, c)
  if indentation = some 0 then none else some (chomping, indentation, ← c.finishLine?)

/-- Reads over the indentation and the empty lines before a line of a block. As long as its indentation is
not known, zero stands for it, and the widest line of blanks is kept. -/
def blockBreaks? (indent : Nat) :
    (fuel widest : Nat) → (breaks : List Char) → Cursor → Option (List Char × Nat × Cursor)
  | 0, _, _, _ => none
  | fuel + 1, widest, breaks, c =>
    let spaces := (c.rest.takeWhile (· = ' ')).length
    let c := c.skip (if indent = 0 then spaces else min spaces (indent - c.column))
    let widest := max widest c.column
    if (indent = 0 || c.column < indent) && c.at? '\t' then none
    else match lineBreak? c.rest with
      | some (char, count) => blockBreaks? indent fuel widest (breaks ++ [char]) (c.skipBreak count)
      | none => some (breaks, widest, c)

/-- A block of which a part was read. -/
structure Block where
  text : List Char := []
  /-- The line break after the last line. -/
  leading : List Char := []
  /-- The line breaks of the empty lines after it. -/
  trailing : List Char := []
  /-- The last line began with a blank. -/
  indented : Bool := false

/-- What stands between the lines read and the next one. -/
def Block.joint (b : Block) (literal indentedNext : Bool) : List Char :=
  if !literal && b.leading == ['\n'] && !b.indented && !indentedNext then
    if b.trailing.isEmpty then [' '] else b.trailing
  else b.leading ++ b.trailing

/-- Reads the lines of a block that stand at `indent`. -/
def blockLines? (literal : Bool) (indent : Nat) : (fuel : Nat) → Block → Cursor → Option (Block × Cursor)
  | 0, _, _ => none
  | fuel + 1, b, c =>
    if c.column ≠ indent || c.rest.isEmpty then some (b, c)
    else do
      let indented := (c.rest.head?.map isSpaceOrTab).getD false
      let line := c.rest.takeWhile (!isBreak ·)
      let text := b.text ++ b.joint literal indented ++ line
      let c := c.skip line.length
      let (leading, c) := match lineBreak? c.rest with
        | some (char, count) => ([char], c.skipBreak count)
        | none => ([], c)
      let (trailing, _, c) ← blockBreaks? indent c.rest.length.succ 0 [] c
      blockLines? literal indent fuel { text, leading, trailing, indented } c

/-- Reads a block from its mark on. `column` is the least column at which its lines can stand. -/
def block? (literal : Bool) (column : Nat) (c : Cursor) : Option (List Char × Cursor) := do
  let (chomping, indentation, c) ← blockHead? (c.skip 1)
  let asked := (indentation.map (· + (column - 1))).getD 0
  let (trailing, widest, c) ← blockBreaks? asked c.rest.length.succ 0 [] c
  let indent := if asked = 0 then max (max widest column) 1 else asked
  let (b, c) ← blockLines? literal indent c.rest.length.succ { trailing } c
  let tail := match chomping with
    | .strip => []
    | .clip => b.leading
    | .keep => b.leading ++ b.trailing
  some (b.text ++ tail, c)

end StepTree.Markup
