import StepTree.Condition.Eval
import StepTree.Proofs.Condition.Node

/-! # Expressions as trees

The conditions that the grammar describes, how they are written, and what they mean. A tree can be written with
more parentheses than it needs. -/

namespace StepTree.Condition

open Template (Lookup)

/-! ### Trees -/

/-- The words that stand for themselves: the constants, the condition that always holds, and the test of a path. -/
def reserved : List (List Char) :=
  [['t', 'r', 'u', 'e'], ['f', 'a', 'l', 's', 'e'], ['n', 'u', 'l', 'l'], always, ['e', 'x', 'i', 's', 't', 's']]

/-- A path that is not a reserved word. -/
structure Variable where
  path : List Char
  isPath : Condition.isPath path = true
  free : path ∉ reserved

/-- A text in quotes without braces, and without the quotes it stands in. -/
structure Quoted where
  quote : Char
  text : List Char
  isQuote : quote = '\'' ∨ quote = '"'
  unquoted : quote ∉ text
  unbraced : ∀ c ∈ text, Template.isBrace c = false

/-- What can stand on one side of a comparison. -/
inductive Term where
  | bare (v : Variable)
  | placeholder (v : Variable)
  | integer (n : Int)
  | constant (b : Bool)
  | null
  | quoted (q : Quoted)

/-- The signs of comparisons, two of which are written in two ways. -/
inductive Sign where
  | equal
  | strictlyEqual
  | notEqual
  | strictlyNotEqual
  | less
  | lessOrEqual
  | greater
  | greaterOrEqual
  | contains
  deriving DecidableEq

inductive Expression where
  | or (a b : Expression)
  | and (a b : Expression)
  | not (a : Expression)
  | compare (sign : Sign) (left right : Term)
  | defined (v : Variable)
  | term (t : Term)

/-! ### Meaning -/

/-- The value of an integer: itself if it takes 64 bits, otherwise the nearest float, if there is one. -/
def integerValue (n : Int) : Except EvalError Json :=
  if -Literal.signedBound ≤ n ∧ n < Literal.signedBound then .ok (.num (.int n))
  else match Binary64.ofDecimal (n < 0) n.natAbs 0 with
    | some x => .ok (.num (.float x))
    | none => .error (invalid (toString n).toList .malformedLiteral)

/-- What a term stands for. -/
def Term.operand (lookup : Lookup) : Term → Except EvalError Operand
  | .bare v => .ok (ofPath lookup v.path)
  | .placeholder v => .ok (ofPath lookup v.path)
  | .integer n => (integerValue n).map .value
  | .constant b => .ok (.value (.bool b))
  | .null => .ok (.value .null)
  | .quoted q => .ok (.value (.str (String.ofList q.text)))

def Sign.comparison : Sign → Comparison
  | .equal => .equal
  | .strictlyEqual => .equal
  | .notEqual => .notEqual
  | .strictlyNotEqual => .notEqual
  | .less => .less
  | .lessOrEqual => .lessOrEqual
  | .greater => .greater
  | .greaterOrEqual => .greaterOrEqual
  | .contains => .contains

/-- The truth of a comparison of two operands. What is missing can be compared with null alone, which it equals. -/
def comparisonTruth : Comparison → Operand → Operand → Except EvalError Bool
  | comparison, .value v, .value w => compareValues comparison v w
  | .equal, .missing _, .value .null => .ok true
  | .equal, .value .null, .missing _ => .ok true
  | .notEqual, .missing _, .value .null => .ok false
  | .notEqual, .value .null, .missing _ => .ok false
  | _, .missing path, _ => .error (missingVariable path)
  | _, .value _, .missing path => .error (missingVariable path)

/-- The truth of an expression. A connective looks at its right side only if the left side does not decide. -/
def Expression.truth (lookup : Lookup) : Expression → Except EvalError Bool
  | .or a b => do if ← a.truth lookup then .ok true else b.truth lookup
  | .and a b => do if ← a.truth lookup then b.truth lookup else .ok false
  | .not a => (a.truth lookup).map (!·)
  | .compare sign left right => do
    let a ← left.operand lookup
    let b ← right.operand lookup
    comparisonTruth sign.comparison a b
  | .defined v => .ok (lookup v.path).isSome
  | .term t => do
    match ← t.operand lookup with
    | .value v => .ok (isTruthy v)
    | .missing path => .error (missingVariable path)

/-! ### Writing -/

def Term.written : Term → List Char
  | .bare v => v.path
  | .placeholder v => Template.written (' ' :: (v.path ++ [' ']))
  | .integer n => (toString n).toList
  | .constant true => ['t', 'r', 'u', 'e']
  | .constant false => ['f', 'a', 'l', 's', 'e']
  | .null => ['n', 'u', 'l', 'l']
  | .quoted q => q.quote :: q.text ++ [q.quote]

def Sign.written : Sign → List Char
  | .equal => ['=', '=']
  | .strictlyEqual => ['=', '=', '=']
  | .notEqual => ['!', '=']
  | .strictlyNotEqual => ['!', '=', '=']
  | .less => ['<']
  | .lessOrEqual => ['<', '=']
  | .greater => ['>']
  | .greaterOrEqual => ['>', '=']
  | .contains => ['c', 'o', 'n', 't', 'a', 'i', 'n', 's']

/-- Two texts with an operator between them. -/
def spaced (left op right : List Char) : List Char := left ++ ' ' :: (op ++ ' ' :: right)

def enclosed (s : List Char) : List Char := '(' :: s ++ [')']

/-- How tightly the parts of an expression hold together. -/
inductive Level where
  | or
  | and
  | not
  | atom
  deriving DecidableEq

/-- The text is one of those in which an expression can be written where at least a level is asked for. -/
inductive Written : Level → Expression → List Char → Prop
  | or {a b : Expression} {s t : List Char} (left : Written .or a s) (right : Written .or b t) :
    Written .or (.or a b) (spaced s bars t)
  | and {a b : Expression} {s t : List Char} (left : Written .and a s) (right : Written .and b t) :
    Written .and (.and a b) (spaced s amps t)
  | not {a : Expression} {s : List Char} (inner : Written .not a s) : Written .not (.not a) ('!' :: s)
  | compare (sign : Sign) (left right : Term) :
    Written .atom (.compare sign left right) (spaced left.written sign.written right.written)
  | defined (v : Variable) : Written .atom (.defined v) (['e', 'x', 'i', 's', 't', 's'] ++ enclosed v.path)
  | term (t : Term) : Written .atom (.term t) t.written
  | enclosed {e : Expression} {s : List Char} (inner : Written .or e s) : Written .atom e (enclosed s)
  | ofAnd {e : Expression} {s : List Char} (h : Written .and e s) : Written .or e s
  | ofNot {e : Expression} {s : List Char} (h : Written .not e s) : Written .and e s
  | ofAtom {e : Expression} {s : List Char} (h : Written .atom e s) : Written .not e s

namespace Expression

/-- The text with parentheses only where the level of an expression is below the one that is asked for. -/
def brief : Expression → Level → List Char
  | .or a b, .or => spaced (a.brief .or) bars (b.brief .or)
  | .or a b, _ => enclosed (spaced (a.brief .or) bars (b.brief .or))
  | .and a b, .or => spaced (a.brief .and) amps (b.brief .and)
  | .and a b, .and => spaced (a.brief .and) amps (b.brief .and)
  | .and a b, _ => enclosed (spaced (a.brief .and) amps (b.brief .and))
  | .not a, .atom => enclosed ('!' :: a.brief .not)
  | .not a, _ => '!' :: a.brief .not
  | .compare sign left right, _ => spaced left.written sign.written right.written
  | .defined v, _ => ['e', 'x', 'i', 's', 't', 's'] ++ enclosed v.path
  | .term t, _ => t.written

/-- The text with parentheses around every part that is an expression. -/
def full : Expression → List Char
  | .or a b => spaced (enclosed a.full) bars (enclosed b.full)
  | .and a b => spaced (enclosed a.full) amps (enclosed b.full)
  | .not a => '!' :: enclosed a.full
  | .compare sign left right => spaced left.written sign.written right.written
  | .defined v => ['e', 'x', 'i', 's', 't', 's'] ++ enclosed v.path
  | .term t => t.written

end Expression

namespace Written
variable {e : Expression} {s : List Char}

theorem loosen (h : Written .atom e s) (level : Level) : Written level e s := by
  cases level with
  | or => exact .ofAnd (.ofNot (.ofAtom h))
  | and => exact .ofNot (.ofAtom h)
  | not => exact .ofAtom h
  | atom => exact h

theorem brief (e : Expression) (level : Level) : Written level e (e.brief level) := by
  induction e generalizing level with
  | or a b iha ihb =>
    have h : Written .or (.or a b) _ := .or (iha .or) (ihb .or)
    cases level with
    | or => exact h
    | and | not | atom => exact (Written.enclosed h).loosen _
  | and a b iha ihb =>
    have h : Written .and (.and a b) _ := .and (iha .and) (ihb .and)
    cases level with
    | or => exact .ofAnd h
    | and => exact h
    | not | atom => exact (Written.enclosed (.ofAnd h)).loosen _
  | not a ih =>
    have h : Written .not (.not a) _ := .not (ih .not)
    cases level with
    | or => exact .ofAnd (.ofNot h)
    | and => exact .ofNot h
    | not => exact h
    | atom => exact .enclosed (.ofAnd (.ofNot h))
  | compare sign left right => exact (Written.compare sign left right).loosen level
  | defined v => exact (Written.defined v).loosen level
  | term t => exact (Written.term t).loosen level

theorem full (e : Expression) : Written .or e e.full := by
  induction e with
  | or a b iha ihb => exact .or ((Written.enclosed iha).loosen .or) ((Written.enclosed ihb).loosen .or)
  | and a b iha ihb => exact .ofAnd (.and ((Written.enclosed iha).loosen .and) ((Written.enclosed ihb).loosen .and))
  | not a ih => exact .ofAnd (.ofNot (.not ((Written.enclosed ih).loosen .not)))
  | compare sign left right => exact (Written.compare sign left right).loosen .or
  | defined v => exact (Written.defined v).loosen .or
  | term t => exact (Written.term t).loosen .or

end Written

end StepTree.Condition
