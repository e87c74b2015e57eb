import StepTree.Shell.Glob
import StepTree.Number.Literal

/-! # Regular expressions

A regular expression matches parts of a text: of the matches that begin first, the longest one counts. In the
basic form, brackets for groups and bounds need a backslash; in the extended form they do not. -/

namespace StepTree.Shell

/-- A regular expression. -/
inductive Pattern where
  | empty
  | char (c : Char)
  | any
  | oneOf (negated : Bool) (items : List GlobItem)
  | lineStart
  | lineEnd
  | wordStart
  | wordEnd
  | wordEdge (isEdge : Bool)
  | group (number : Nat) (p : Pattern)
  /-- What a group matched. -/
  | again (number : Nat)
  | seq (p q : Pattern)
  | either (p q : Pattern)
  | repeated (p : Pattern) (least : Nat) (most : Option Nat)

namespace Pattern

/-! ### Reading -/

/-- What is left of the text of an expression, and the number of groups so far. -/
structure Reader where
  rest : List Char
  groups : Nat := 0

/-- What is wrong with an expression. -/
inductive Fault where
  | bracket
  | group
  | bounds
  | backslash
  | reference

def Fault.message : Fault → String
  | bracket => "Unmatched [, [^, [:, [., or [="
  | group => "Unmatched ( or \\("
  | bounds => "Invalid content of \\\x7b\\\x7d"
  | backslash => "Trailing backslash"
  | reference => "Invalid back reference"

abbrev Reading := StateT Reader (Except Fault)

def skip (n : Nat) : Reading Unit := modify fun r => { r with rest := r.rest.drop n }

def isWordChar (c : Char) : Bool := c.isAlphanum || c = '_'

/-- A class of characters that a letter after a backslash stands for. -/
def letter? (c : Char) : Option Pattern :=
  let word : List GlobItem := [.kind "alnum".toList, .range '_' '_']
  match c with
  | 'w' => some (.oneOf false word)
  | 'W' => some (.oneOf true word)
  | 's' => some (.oneOf false [.kind "space".toList])
  | 'S' => some (.oneOf true [.kind "space".toList])
  | '<' => some .wordStart
  | '>' => some .wordEnd
  | 'b' => some (.wordEdge true)
  | 'B' => some (.wordEdge false)
  | 'n' => some (.char '\n')
  | 't' => some (.char '\t')
  | _ => none

/-- What brackets list, after the opening one. -/
def listed : Reading Pattern := do
  let rest := (← get).rest
  let negated := rest.head? = some '^'
  let inner := (if negated then rest.drop 1 else rest).map fun c => (c, false)
  match GlobItem.list? (inner.length + 1) true inner with
  | some (items, after) =>
    modify fun r => { r with rest := after.map (·.1) }
    pure (.oneOf negated items)
  | none => throw .bracket

/-- The bounds of a repetition, after the opening brace. -/
def bounds (extended : Bool) : Reading (Nat × Option Nat) := do
  let rest := (← get).rest
  let close : List Char := if extended then ['\x7d'] else ['\\', '\x7d']
  let first := rest.takeWhile Char.isDigit
  let rest := rest.drop first.length
  let least := (Literal.digits? 10 first).getD 0
  let (most, rest) := match rest with
    | ',' :: rest =>
      let second := rest.takeWhile Char.isDigit
      (Literal.digits? 10 second, rest.drop second.length)
    | _ => (some least, rest)
  match Text.after? close rest with
  | some rest =>
    modify fun r => { r with rest }
    pure (least, most)
  | none => throw .bounds

/-- Marks of repetition after an expression. -/
def repetitions (extended : Bool) : (fuel : Nat) → Pattern → Reading Pattern
  | 0, p => pure p
  | fuel + 1, p => do
    match (← get).rest, extended with
    | '*' :: _, _ => skip 1; repetitions extended fuel (.repeated p 0 none)
    | '+' :: _, true => skip 1; repetitions extended fuel (.repeated p 1 none)
    | '?' :: _, true => skip 1; repetitions extended fuel (.repeated p 0 (some 1))
    | '\\' :: '+' :: _, false => skip 2; repetitions extended fuel (.repeated p 1 none)
    | '\\' :: '?' :: _, false => skip 2; repetitions extended fuel (.repeated p 0 (some 1))
    | '\x7b' :: c :: _, true =>
      if c.isDigit || c = ',' then
        skip 1
        let (least, most) ← bounds extended
        repetitions extended fuel (.repeated p least most)
      else pure p
    | '\\' :: '\x7b' :: _, false =>
      skip 2
      let (least, most) ← bounds extended
      repetitions extended fuel (.repeated p least most)
    | _, _ => pure p

mutual

/-- Reads alternatives. -/
def alternatives (extended : Bool) : (fuel : Nat) → Reading Pattern
  | 0 => pure .empty
  | fuel + 1 => do
    let p ← sequence extended fuel true
    match (← get).rest, extended with
    | '|' :: _, true => skip 1; return .either p (← alternatives extended fuel)
    | '\\' :: '|' :: _, false => skip 2; return .either p (← alternatives extended fuel)
    | _, _ => pure p

/-- Reads expressions one after the other. -/
def sequence (extended : Bool) : (fuel : Nat) → (isFirst : Bool) → Reading Pattern
  | 0, _ => pure .empty
  | fuel + 1, isFirst => do
    let next (p : Pattern) : Reading Pattern := do
      let p ← repetitions extended fuel p
      return .seq p (← sequence extended fuel false)
    match (← get).rest, extended with
    | [], _ => pure .empty
    | '|' :: _, true => pure .empty
    | ')' :: _, true =>
      if (← get).groups = 0 then
        skip 1
        next (.char ')')
      else pure .empty
    | '\\' :: '|' :: _, false => pure .empty
    | '\\' :: ')' :: _, false => pure .empty
    | '(' :: _, true => skip 1; next (← inGroup extended fuel)
    | '\\' :: '(' :: _, false => skip 2; next (← inGroup extended fuel)
    | '^' :: rest, _ =>
      skip 1
      if extended || isFirst then
        if !extended && rest.head? = some '*' then
          skip 1
          return .seq .lineStart (← next (.char '*'))
        else return .seq .lineStart (← sequence extended fuel false)
      else next (.char '^')
    | '$' :: rest, _ =>
      skip 1
      let atEnd := extended || rest.isEmpty || rest.take 2 = ['\\', ')'] || rest.take 2 = ['\\', '|']
      if atEnd then return .seq .lineEnd (← sequence extended fuel false) else next (.char '$')
    | '.' :: _, _ => skip 1; next .any
    | '[' :: _, _ => skip 1; next (← listed)
    | '*' :: _, _ =>
      skip 1
      if isFirst && !extended then next (.char '*') else sequence extended fuel isFirst
    | '\\' :: c :: _, _ =>
      skip 2
      if c.isDigit && c ≠ '0' then
        if (← get).groups < c.toNat - 48 then throw .reference
        next (.again (c.toNat - 48))
      else next ((letter? c).getD (.char c))
    | ['\\'], _ => throw .backslash
    | c :: _, _ => skip 1; next (.char c)

/-- Reads the rest of a group. -/
def inGroup (extended : Bool) : (fuel : Nat) → Reading Pattern
  | 0 => pure .empty
  | fuel + 1 => do
    modify fun r => { r with groups := r.groups + 1 }
    let number := (← get).groups
    let p ← alternatives extended fuel
    match Text.after? (if extended then [')'] else ['\\', ')']) (← get).rest with
    | some rest =>
      modify fun r => { r with rest }
      pure (.group number p)
    | none => throw .group

end

/-- The expression that a text is. -/
def ofText (extended : Bool) (text : List Char) : Except Fault Pattern := do
  let (p, r) ← (alternatives extended (4 * text.length + 8)).run { rest := text }
  if r.rest.isEmpty then .ok p else .error .group

/-- The expression that matches a text only. -/
def ofLiteral (text : List Char) : Pattern := text.foldr (fun c p => .seq (.char c) p) .empty

/-! ### Matching -/

/-- Where a match stands: what was passed, the last character first, what is left, and what the groups matched,
each from one number of characters that were left to another. -/
structure Position where
  before : List Char
  rest : List Char
  groups : List (Nat × Nat × Nat) := []

/-- The text that a group matched. -/
def captured (whole : List Char) (groups : List (Nat × Nat × Nat)) (number : Nat) : List Char :=
  match groups.lookup number with
  | some (start, stop) => (whole.drop (whole.length - start)).take (start - stop)
  | none => []

/-- Equality of characters, in which case may not count. -/
def same (ignoresCase : Bool) (a b : Char) : Bool := a = b || (ignoresCase && a.toLower = b.toLower)

/-- All ways in which an expression matches from a position on; longer repetitions come first. -/
def ends (ignoresCase : Bool) (whole : List Char) : (fuel : Nat) → Pattern → Position → List Position
  | 0, _, _ => []
  | fuel + 1, p, at_ =>
    let wordBefore := at_.before.head?.any isWordChar
    let wordAfter := at_.rest.head?.any isWordChar
    let test (b : Bool) : List Position := if b then [at_] else []
    let one (fits : Char → Bool) : List Position :=
      match at_.rest with
      | c :: rest => if fits c then [{ at_ with before := c :: at_.before, rest }] else []
      | [] => []
    match p with
    | .empty => [at_]
    | .char c => one (same ignoresCase c)
    | .any => one fun _ => true
    | .oneOf negated items => one fun c =>
      let holds (c : Char) : Bool := items.any (·.holds c)
      (holds c || (ignoresCase && (holds c.toLower || holds c.toUpper))) != negated
    | .lineStart => test at_.before.isEmpty
    | .lineEnd => test at_.rest.isEmpty
    | .wordStart => test (!wordBefore && wordAfter)
    | .wordEnd => test (wordBefore && !wordAfter)
    | .wordEdge isEdge => test ((wordBefore != wordAfter) = isEdge)
    | .group number p =>
      (ends ignoresCase whole fuel p at_).map fun e =>
        { e with groups := (number, at_.rest.length, e.rest.length) :: e.groups }
    | .again number =>
      let text := captured whole at_.groups number
      let found := at_.rest.take text.length
      if found.length = text.length && (found.zip text).all fun (a, b) => same ignoresCase a b then
        [{ at_ with before := found.reverse ++ at_.before, rest := at_.rest.drop text.length }]
      else []
    | .seq p q => (ends ignoresCase whole fuel p at_).flatMap (ends ignoresCase whole fuel q)
    | .either p q => ends ignoresCase whole fuel p at_ ++ ends ignoresCase whole fuel q at_
    | .repeated p least most =>
      let more :=
        if most = some 0 then []
        else (ends ignoresCase whole fuel p at_).flatMap fun e =>
          if e.rest.length = at_.rest.length then (if least = 0 then [] else [e])
          else ends ignoresCase whole fuel (.repeated p (least - 1) (most.map (· - 1))) e
      if least = 0 then more ++ [at_] else more

/-- The longest match at a position. -/
def longest (found : List Position) : Option Position :=
  found.foldl (fun best e =>
    match best with
    | some b => if e.rest.length < b.rest.length then some e else best
    | none => some e) none

/-- A match: the text before it, the text itself, what follows it, and what its groups matched. -/
structure Match where
  before : List Char
  text : List Char
  after : List Char
  groups : List (Nat × Nat × Nat)

/-- How an expression is looked for. -/
structure Search where
  pattern : Pattern
  ignoresCase : Bool := false
  /-- A match may lie between these texts; the one before is given from its end on. -/
  accepts : (before after : List Char) → Bool := fun _ _ => true

/-- The first match in what is left of a text after `before`, which is given from its end on. -/
def Search.next (s : Search) (whole : List Char) : (before rest : List Char) → Option Match
  | before, rest =>
    let found := (ends s.ignoresCase whole (4 * whole.length + 1000) s.pattern { before, rest }).filter fun e =>
      s.accepts before e.rest
    match longest found with
    | some e =>
      some
        { before := before.reverse, text := rest.take (rest.length - e.rest.length), after := e.rest
          groups := (0, rest.length, e.rest.length) :: e.groups }
    | none =>
      match rest with
      | [] => none
      | c :: more => s.next whole (c :: before) more
termination_by _ rest => rest.length

/-- The first match in a text. -/
def Search.first? (s : Search) (text : List Char) : Option Match := s.next text [] text

/-- The matches in a text, each beginning where the one before ended or later; an empty one does not touch the one
before. -/
def Search.all (s : Search) (whole : List Char) : (fuel : Nat) → (afterMatch : Bool) → (before rest : List Char) →
    List Match
  | 0, _, _, _ => []
  | fuel + 1, afterMatch, before, rest =>
    match s.next whole before rest with
    | none => []
    | some m =>
      if m.text.isEmpty then
        let others := match m.after with
          | c :: more => s.all whole fuel false (c :: m.before.reverse) more
          | [] => []
        if afterMatch && m.after.length = rest.length then others else m :: others
      else m :: s.all whole fuel true (m.text.reverse ++ m.before.reverse) m.after

end Pattern

end StepTree.Shell
