import StepTree.Json.Printer
import StepTree.Number.Literal

/-! # Comparing values

Values are compared loosely: a text that reads as a number counts as that number, and scalars with the
same text are equal. Only numbers, texts that read as numbers, and pairs of texts are ordered. -/

namespace StepTree

namespace Condition

/-- A comparison of two operands. -/
inductive Comparison where
  | equal
  | notEqual
  | greater
  | greaterOrEqual
  | less
  | lessOrEqual
  | contains
  deriving DecidableEq

/-- The name of a comparison in messages. -/
def Comparison.symbol : Comparison → String
  | .equal => "=="
  | .notEqual => "!="
  | .greater => ">"
  | .greaterOrEqual => ">="
  | .less => "<"
  | .lessOrEqual => "<="
  | .contains => "contains"

/-- What a literal or a field of an expression lacks. -/
inductive Fault where
  | missingOperand
  | danglingNegation
  | missingSide
  | malformedLiteral
  | unsupportedOperand
  deriving DecidableEq

def Fault.message : Fault → String
  | .missingOperand => "missing operand"
  | .danglingNegation => "expression cannot end with a negation"
  | .missingSide => "comparison requires both operands"
  | .malformedLiteral => "malformed literal"
  | .unsupportedOperand => "unsupported operand"

/-- Why an expression has no value. -/
inductive EvalError where
  | empty
  | missingVariable (path : String)
  | typeMismatch (comparison : Comparison) (left right : String)
  | notAnArray (expression found : String)
  | invalidCount (expression found : String)
  | missingExpression (field : String)
  | invalid (expression : String) (fault : Fault)
  deriving DecidableEq

def EvalError.message : EvalError → String
  | .empty => "expression is empty"
  | .missingVariable path => "variable '" ++ path ++ "' is not defined"
  | .typeMismatch comparison left right =>
    "cannot apply '" ++ comparison.symbol ++ "' to " ++ left ++ " and " ++ right
  | .notAnArray expression found => "expected an array from '" ++ expression ++ "' but found " ++ found
  | .invalidCount expression found =>
    "expected a non-negative integer count from '" ++ expression ++ "' but found " ++ found
  | .missingExpression field => "loop requires '" ++ field ++ "'"
  | .invalid expression fault => "invalid expression '" ++ expression ++ "': " ++ fault.message

/-- The greatest number of bytes of a value that a message shows. -/
def shownBytes : Nat := 60

/-- A value as messages show it: its kind and the beginning of its text. -/
def describe (value : Json) : String :=
  match value with
  | .null => "null"
  | value =>
    let text := value.text
    let shown := if shownBytes < Text.byteLength text then Text.takeBytes shownBytes text ++ ['…'] else text
    value.kindName ++ " " ++ String.ofList shown

/-- The number that a value counts as. -/
def asNumber? : Json → Option Binary64
  | .num n => n.toBinary64?
  | .str s => Literal.decimal? (Text.trim s.toList)
  | _ => none

def isComposite : Json → Bool
  | .arr _ => true
  | .obj _ => true
  | _ => false

def isNull : Json → Bool
  | .null => true
  | _ => false

/-- Equality of values, numbers and scalar texts taken loosely. Null equals only itself. -/
def looseEquals (a b : Json) : Bool :=
  if a.same b then true
  else if isNull a || isNull b then false
  else match asNumber? a, asNumber? b with
    | some x, some y => x.sameValue y
    | _, _ => if isComposite a || isComposite b then false else a.plainText == b.plainText

/-- The order of two values, if they have one. -/
def order? (a b : Json) : Option Ordering :=
  match asNumber? a, asNumber? b with
  | some x, some y => some (if x.lt y then .lt else if x.sameValue y then .eq else .gt)
  | _, _ =>
    match a, b with
    | .str s, .str t => some (if s < t then .lt else if s = t then .eq else .gt)
    | _, _ => none

def mismatch (comparison : Comparison) (a b : Json) : EvalError :=
  .typeMismatch comparison (describe a) (describe b)

/-- A text contains the text of a value, an array a value equal to it, an object its text as a key. -/
def contains? (haystack needle : Json) : Option Bool :=
  match haystack with
  | .str s => some (Text.occursIn needle.plainText.toList s.toList)
  | .arr items => some (items.any (looseEquals · needle))
  | .obj entries => some (entries.any fun entry => entry.1 == needle.plainText)
  | _ => none

/-- The truth of a comparison of two values. -/
def compareValues (comparison : Comparison) (a b : Json) : Except EvalError Bool :=
  match comparison with
  | .equal => .ok (looseEquals a b)
  | .notEqual => .ok (!looseEquals a b)
  | .contains =>
    match contains? a b with
    | some found => .ok found
    | none => .error (mismatch .contains a b)
  | relational =>
    match order? a b with
    | none => .error (mismatch relational a b)
    | some o => .ok <|
      match relational with
      | .greater => o == .gt
      | .greaterOrEqual => o != .lt
      | .less => o == .lt
      | _ => o != .gt

/-- The truth of a value on its own: numbers other than zero, collections that are not empty, and texts
other than a blank one, `false` and `0`. -/
def isTruthy : Json → Bool
  | .null => false
  | .bool b => b
  | .num (.int n) => n != 0
  | .num (.float x) => !x.isZero
  | .str s =>
    let text := Text.trim s.toList
    !(text.isEmpty || Text.lowerAscii text == ['f', 'a', 'l', 's', 'e'] || text == ['0'])
  | .arr items => !items.isEmpty
  | .obj entries => !entries.isEmpty

end Condition

end StepTree
