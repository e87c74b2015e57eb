import StepTree.Markup.Scalar
import StepTree.Markup.Tag

/-! # Tokens

A markup text is a row of tokens. Indentation and the keys of tables without a mark of their own are made
explicit: a list or a table that is told by its indentation begins and ends with a token, and each key has
one before it. Such a key is noticed only at the colon after it, so what may turn out to be one is
remembered with its place, and tokens are put in front of it later. -/

namespace StepTree.Markup

/-- How a scalar is written. -/
inductive ScalarForm where
  | plain
  | literal
  | folded
  | singleQuoted
  | doubleQuoted
  deriving DecidableEq

inductive Token where
  | directive (d : Directive)
  | documentStart
  | documentEnd
  | blockListStart
  | blockTableStart
  | blockEnd
  | listStart
  | listEnd
  | tableStart
  | tableEnd
  | item
  | comma
  | key
  | value
  | anchor (name : List Char)
  | reference (name : List Char)
  | tag (t : Tag)
  | scalar (text : List Char) (form : ScalarForm)
  deriving DecidableEq

/-- A token that may turn out to begin a key. -/
structure KeyCandidate where
  /-- It stands where only a key can stand. -/
  required : Bool
  /-- Its place in the row of tokens. -/
  position : Nat
  index : Nat
  line : Nat
  column : Nat

/-- A text of which a part was read. -/
structure Reading where
  cursor : Cursor
  /-- The tokens so far, each after the ones that were put in front of it. -/
  tokens : Array (List Token) := #[]
  /-- What may be a key in the innermost brackets, or outside of brackets. -/
  candidate : Option KeyCandidate := none
  /-- What may be a key in the brackets around them, or outside of brackets. -/
  outerCandidates : List (Option KeyCandidate) := []
  /-- A key may begin here. -/
  keyAllowed : Bool := true
  /-- The column of the innermost list or table told by its indentation, if there is one. -/
  indent : Int := -1
  outerIndents : List Int := []

namespace Reading

/-- Inside brackets. -/
def inFlow (r : Reading) : Bool := !r.outerCandidates.isEmpty

def push (r : Reading) (t : Token) : Reading := { r with tokens := r.tokens.push [t] }

/-- Adds a token that is written with `count` characters. -/
def take (r : Reading) (t : Token) (count : Nat) : Reading :=
  { r.push t with cursor := r.cursor.skip count }

/-- The candidate cannot be a key any more, at the place that was reached; none if it had to be one. A key
lies on one line and has at most 1024 bytes. -/
def expire? (c : Cursor) (candidate : Option KeyCandidate) : Option (Option KeyCandidate) :=
  match candidate with
  | none => some none
  | some k =>
    if k.line < c.line || k.index + 1024 < c.index then if k.required then none else some none
    else some (some k)

/-- Forgets the candidate; none if it had to be a key. -/
def dropCandidate? (r : Reading) : Option Reading :=
  match r.candidate with
  | some k => if k.required then none else some { r with candidate := none }
  | none => some r

/-- Remembers what comes next as a candidate, if a key may begin here. -/
def saveCandidate? (r : Reading) : Option Reading :=
  if r.keyAllowed then do
    let r ← r.dropCandidate?
    let c := r.cursor
    some
      { r with
        candidate := some
          { required := !r.inFlow && r.indent = c.column, position := r.tokens.size, index := c.index
            line := c.line, column := c.column } }
  else some r

/-- Opens a list or table at a column, unless one stands there already. -/
def indentTo (r : Reading) (column : Nat) : Option Reading :=
  if r.inFlow || (column : Int) ≤ r.indent then none
  else some { r with indent := column, outerIndents := r.indent :: r.outerIndents }

/-- Ends the lists and tables that stand to the right of a column. -/
def closeAbove (column : Int) : (indent : Int) → (outer : List Int) → Array (List Token) →
    Int × List Int × Array (List Token)
  | indent, [], tokens => (indent, [], tokens)
  | indent, next :: outer, tokens =>
    if column < indent then closeAbove column next outer (tokens.push [.blockEnd])
    else (indent, next :: outer, tokens)

def outdentTo (r : Reading) (column : Int) : Reading :=
  if r.inFlow then r
  else
    let (indent, outerIndents, tokens) := closeAbove column r.indent r.outerIndents r.tokens
    { r with indent, outerIndents, tokens }

/-- Opens a list or table at the next token's column with a token of its own. -/
def open? (r : Reading) (t : Token) : Option Reading :=
  if r.inFlow then some r
  else if !r.keyAllowed then none
  else match r.indentTo r.cursor.column with
    | some opened => some (opened.push t)
    | none => some r

/-! ### Gaps between tokens -/

/-- Moves over blanks, comments and line breaks. Outside of brackets a line break allows a key, and tabs
do not count as blanks where a key may begin. A byte order mark may begin a line, where it takes up the
first column. -/
def skipGap (flow : Bool) : (fuel : Nat) → (keyAllowed : Bool) → Cursor → Bool × Cursor
  | 0, keyAllowed, c => (keyAllowed, c)
  | fuel + 1, keyAllowed, c =>
    let c := if c.column = 0 && (c.rest.head?.map isByteOrderMark).getD false then c.skip 1 else c
    let c := c.skipWhile fun char => char = ' ' || ((flow || !keyAllowed) && char = '\t')
    let c := if c.at? '#' then c.skipWhile (!isBreak ·) else c
    match lineBreak? c.rest with
    | some (_, count) => skipGap flow fuel (keyAllowed || !flow) (c.skipBreak count)
    | none => (keyAllowed, c)

/-- Moves to the next token. -/
def approach? (r : Reading) : Option Reading := do
  let (keyAllowed, cursor) := skipGap r.inFlow r.cursor.rest.length.succ r.keyAllowed r.cursor
  let candidate ← expire? cursor r.candidate
  let outerCandidates ← r.outerCandidates.mapM (expire? cursor)
  some ({ r with cursor, keyAllowed, candidate, outerCandidates }.outdentTo cursor.column)

/-! ### Tokens one by one -/

/-- A mark between documents, of three characters. -/
def documentMark? (r : Reading) (t : Token) : Option Reading := do
  let r ← (r.outdentTo (-1)).dropCandidate?
  some { r.take t 3 with keyAllowed := false }

def directiveLine? (r : Reading) : Option Reading := do
  let r ← (r.outdentTo (-1)).dropCandidate?
  let (d, cursor) ← directive? r.cursor
  some { r.push (.directive d) with cursor, keyAllowed := false }

def openBracket? (r : Reading) (t : Token) : Option Reading := do
  let r ← r.saveCandidate?
  some
    { r.take t 1 with candidate := none, outerCandidates := r.candidate :: r.outerCandidates, keyAllowed := true }

def closeBracket? (r : Reading) (t : Token) : Option Reading := do
  let r ← r.dropCandidate?
  let r := { r.take t 1 with keyAllowed := false }
  match r.outerCandidates with
  | [] => some r
  | candidate :: outerCandidates => some { r with candidate, outerCandidates }

def comma? (r : Reading) : Option Reading := do
  let r ← r.dropCandidate?
  some { r.take .comma 1 with keyAllowed := true }

def item? (r : Reading) : Option Reading := do
  let r ← (← r.open? .blockListStart).dropCandidate?
  some { r.take .item 1 with keyAllowed := true }

def key? (r : Reading) : Option Reading := do
  let r ← (← r.open? .blockTableStart).dropCandidate?
  some { r.take .key 1 with keyAllowed := !r.inFlow }

/-- A colon. What was remembered as a candidate is a key now. -/
def value? (r : Reading) : Option Reading :=
  match r.candidate with
  | some k =>
    let (front, r) := match r.indentTo k.column with
      | some opened => ([Token.blockTableStart, .key], opened)
      | none => ([.key], r)
    let tokens := r.tokens.modify k.position (front ++ ·)
    some { { r with tokens }.take .value 1 with candidate := none, keyAllowed := false }
  | none => do
    let r ← r.open? .blockTableStart
    some { r.take .value 1 with keyAllowed := !r.inFlow }

/-- A token that may begin a key, and after which none begins. -/
def keyPart? (r : Reading) (read : Cursor → Option (Token × Cursor)) : Option Reading := do
  let r ← r.saveCandidate?
  let (t, cursor) ← read r.cursor
  some { r.push t with cursor, keyAllowed := false }

def blockScalar? (r : Reading) (literal : Bool) : Option Reading := do
  let r ← r.dropCandidate?
  let (text, cursor) ← block? literal (r.indent + 1).toNat r.cursor
  some { r.push (.scalar text (if literal then .literal else .folded)) with cursor, keyAllowed := true }

def plainScalar? (r : Reading) : Option Reading := do
  let r ← r.saveCandidate?
  let (text, broken, cursor) ← plain? r.inFlow (r.indent + 1).toNat r.cursor
  some { r.push (.scalar text .plain) with cursor, keyAllowed := broken }

/-- The characters with a meaning of their own at the start of a token. -/
def isIndicator (c : Char) : Bool :=
  isFlowMark c || ['-', '?', ':', '#', '&', '*', '!', '|', '>', '\'', '"', '%', '@', '\x60'].contains c

/-- Reads one token, which begins with `char`. -/
def token? (r : Reading) (char : Char) (next : List Char) : Option Reading :=
  let c := r.cursor
  let alone := startsGap next
  if c.column = 0 && char = '%' then r.directiveLine?
  else if c.atMark '-' then r.documentMark? .documentStart
  else if c.atMark '.' then r.documentMark? .documentEnd
  else if char = '[' then r.openBracket? .listStart
  else if char = '\x7b' then r.openBracket? .tableStart
  else if char = ']' then r.closeBracket? .listEnd
  else if char = '\x7d' then r.closeBracket? .tableEnd
  else if char = ',' then r.comma?
  else if char = '-' && alone then r.item?
  else if char = '?' && (r.inFlow || alone) then r.key?
  else if char = ':' && (r.inFlow || alone) then r.value?
  else if char = '*' then
    r.keyPart? fun c => (anchorName? (c.skip 1)).map fun (name, c) => (.reference name, c)
  else if char = '&' then
    r.keyPart? fun c => (anchorName? (c.skip 1)).map fun (name, c) => (.anchor name, c)
  else if char = '!' then r.keyPart? fun c => (tag? r.inFlow c).map fun (t, c) => (.tag t, c)
  else if char = '|' && !r.inFlow then r.blockScalar? true
  else if char = '>' && !r.inFlow then r.blockScalar? false
  else if char = '\'' then
    r.keyPart? fun c => (quoted? true c).map fun (text, c) => (.scalar text .singleQuoted, c)
  else if char = '"' then
    r.keyPart? fun c => (quoted? false c).map fun (text, c) => (.scalar text .doubleQuoted, c)
  else if !isIndicator char && !startsGap (char :: next) then r.plainScalar?
  else if char = '-' && !((next.head?.map isSpaceOrTab).getD false) then r.plainScalar?
  else if !r.inFlow && (char = '?' || char = ':') then r.plainScalar?
  else none

/-- Reads tokens up to the end of the text. -/
def finish? : (fuel : Nat) → Reading → Option (Array (List Token))
  | 0, _ => none
  | fuel + 1, r => do
    let r ← r.approach?
    match r.cursor.rest with
    | [] => return (← (r.outdentTo (-1)).dropCandidate?).tokens
    | char :: next => finish? fuel (← r.token? char next)

end Reading

/-- The tokens of a text; none if it is no markup text. -/
def tokens? (s : List Char) : Option (List Token) :=
  if s.all isAllowed then
    (Reading.finish? s.length.succ { cursor := { rest := s } }).map (·.toList.flatten)
  else none

end StepTree.Markup
