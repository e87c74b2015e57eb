import StepTree.Text.Basic

/-! # Scanning expressions

Operators count only at the top level of an expression: outside quotes and outside parentheses. A
quote of one kind inside quotes of the other kind is a plain character. -/

namespace StepTree.Condition

/-- What surrounds a place in an expression. -/
structure Nesting where
  /-- The quote that is open. -/
  quote : Option Char
  /-- The number of parentheses that are open. -/
  depth : Nat
  deriving DecidableEq

namespace Nesting

def top : Nesting := ⟨none, 0⟩

/-- Outside quotes and parentheses. -/
def isTop (n : Nesting) : Bool := n.quote.isNone && n.depth == 0

/-- What surrounds the place after a character. -/
def next (n : Nesting) (c : Char) : Nesting :=
  match n.quote with
  | some q => if c = q then { n with quote := none } else n
  | none =>
    if c = '\'' ∨ c = '"' then { n with quote := some c }
    else if c = '(' then { n with depth := n.depth + 1 }
    else if c = ')' then { n with depth := n.depth - 1 }
    else n

end Nesting

/-- Puts a character in front of the first piece. -/
def extendFirst (c : Char) : List (List Char) → List (List Char)
  | [] => [[c]]
  | piece :: pieces => (c :: piece) :: pieces

/-- The pieces between the occurrences of an operator at the top level, after the first `skip`
characters. -/
def splitFrom (operator : List Char) (n : Nesting) : (skip : Nat) → List Char → List (List Char)
  | _, [] => [[]]
  | skip + 1, _ :: rest => splitFrom operator n skip rest
  | 0, c :: rest =>
    if n.isTop && operator.isPrefixOf (c :: rest) then
      [] :: splitFrom operator n (operator.length - 1) rest
    else extendFirst c (splitFrom operator (n.next c) 0 rest)

/-- The last piece is left out when it is empty. -/
def dropEmptyEnd (pieces : List (List Char)) : List (List Char) :=
  if pieces.getLast? = some [] then pieces.dropLast else pieces

/-- The operands of an operator at the top level, if there are at least two. Nothing after the last
operator counts as no operand. -/
def splitTop? (operator s : List Char) : Option (List (List Char)) :=
  let pieces := dropEmptyEnd (splitFrom operator .top 0 s)
  if 1 < pieces.length then some pieces else none

/-- The two sides of the first occurrence of an operator at the top level. -/
def findTop? (operator : List Char) (n : Nesting) : List Char → Option (List Char × List Char)
  | [] => none
  | c :: rest =>
    if n.isTop && operator.isPrefixOf (c :: rest) then some ([], (c :: rest).drop operator.length)
    else (findTop? operator (n.next c) rest).map fun (left, right) => (c :: left, right)

/-- The number of negations in front of an expression, and the expression after them. The `!` of `!=` is
none. -/
def negations : List Char → Nat × List Char
  | [] => (0, [])
  | c :: rest =>
    if Text.isBlank c then negations rest
    else if c = '!' ∧ rest.head? ≠ some '=' then
      let (count, inner) := negations rest
      (count + 1, inner)
    else (0, c :: rest)

/-- No parenthesis closes more than was opened, and all are closed at the end. -/
def isBalanced (n : Nesting) : List Char → Bool
  | [] => n.depth == 0
  | c :: rest =>
    if c = ')' ∧ n.quote.isNone ∧ n.depth = 0 then false else isBalanced (n.next c) rest

/-- What a pair of parentheses around the whole expression encloses. -/
def parenthesized? (s : List Char) : Option (List Char) := do
  let inner ← Text.before? [')'] (← Text.after? ['('] s)
  if isBalanced .top inner then some inner else none

/-- The argument of `exists(path)` or `exists path`. -/
def existsArgument? (s : List Char) : Option (List Char) := do
  let rest ← Text.after? ['e', 'x', 'i', 's', 't', 's'] s
  match Text.trimStart rest with
  | '(' :: call => (Text.before? [')'] (Text.trimEnd call)).map Text.trim
  | _ => if (rest.head?.map Text.isBlank).getD false then some (Text.trim rest) else none

/-- What a pair of quotes around the whole text encloses, when the quote does not occur inside. -/
def quoted? (s : List Char) : Option (List Char) :=
  match s with
  | [] => none
  | q :: rest =>
    if q = '\'' ∨ q = '"' then do
      let inner ← Text.before? [q] rest
      if q ∈ inner then none else some inner
    else none

def isLetter (c : Char) : Bool := ('a' ≤ c && c ≤ 'z') || ('A' ≤ c && c ≤ 'Z')

def isDigit (c : Char) : Bool := '0' ≤ c && c ≤ '9'

/-- A bare path: a letter or underscore, then letters, digits, and `_ - . [ ]`. -/
def isPath : List Char → Bool
  | [] => false
  | c :: rest =>
    (isLetter c || c == '_') &&
      rest.all fun c => isLetter c || isDigit c || c == '_' || c == '-' || c == '.' || c == '[' || c == ']'

end StepTree.Condition
