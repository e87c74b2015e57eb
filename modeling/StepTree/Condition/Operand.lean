import StepTree.Condition.Comparison
import StepTree.Condition.Scan
import StepTree.Json.Reader
import StepTree.Template

/-! # Operands

An operand is a quoted text, a placeholder, text with placeholders, a literal, or a bare path. A path
without a value makes the operand missing, which some comparisons accept. -/

namespace StepTree.Condition

open Template (Lookup)

/-- What an operand stands for; a missing one by the path that has no value. -/
inductive Operand where
  | value (v : Json)
  | missing (path : List Char)

/-- The value that a literal stands for: a constant, a number, or JSON text. -/
def literal? (s : List Char) : Option Json :=
  if s = ['t', 'r', 'u', 'e'] then some (.bool true)
  else if s = ['f', 'a', 'l', 's', 'e'] then some (.bool false)
  else if s = ['n', 'u', 'l', 'l'] then some .null
  else match Literal.signed? 10 Literal.signedBound s with
    | some n => some (.num (.int n))
    | none =>
      match Literal.decimal? s with
      | some x => some (.num (.float x))
      | none => if s.head? = some '[' ∨ s.head? = some '\x7b' then Json.read? s else none

/-- The text begins like a number, an array or an object. -/
def beginsLikeLiteral (s : List Char) : Bool :=
  match s with
  | [] => false
  | c :: _ => c == '-' || isDigit c || c == '[' || c == '\x7b'

/-- The operand that a path stands for. -/
def ofPath (lookup : Lookup) (path : List Char) : Operand :=
  match lookup path with
  | some v => .value v
  | none => .missing path

/-- The operand that a text with placeholders stands for. -/
def ofTemplate (lookup : Lookup) (s : List Char) (read : List Char → Json) : Operand :=
  match Template.unresolved lookup s with
  | path :: _ => .missing path
  | [] => .value (read (Template.expand lookup s))

def textValue (s : List Char) : Json := .str (String.ofList s)

/-- The literal that a text is, otherwise the text. -/
def literalOrText (s : List Char) : Json := (literal? s).getD (textValue s)

def invalid (s : List Char) (fault : Fault) : EvalError := .invalid (String.ofList s) fault

/-- What an operand stands for. -/
def operand (lookup : Lookup) (text : List Char) : Except EvalError Operand :=
  let s := Text.trim text
  if s.isEmpty then .error (invalid s .missingOperand)
  else match quoted? s with
  | some inner => .ok (ofTemplate lookup inner textValue)
  | none =>
    match Template.single? s with
    | some path => .ok (ofPath lookup path)
    | none =>
      if Text.occursIn ['\x7b', '\x7b'] s then .ok (ofTemplate lookup s literalOrText)
      else match literal? s with
        | some v => .ok (.value v)
        | none =>
          if beginsLikeLiteral s then .error (invalid s .malformedLiteral)
          else if isPath s then .ok (ofPath lookup s)
          else .error (invalid s .unsupportedOperand)

def missingVariable (path : List Char) : EvalError := .missingVariable (String.ofList path)

/-- The value of an operand that must not be missing. -/
def Operand.get : Operand → Except EvalError Json
  | .value v => .ok v
  | .missing path => .error (missingVariable path)

/-- The truth of a comparison. A missing operand differs from everything but null. -/
def compareOperands (comparison : Comparison) : Operand → Operand → Except EvalError Bool
  | .value a, .value b => compareValues comparison a b
  | .missing path, .value b => nullTest comparison path b
  | .value a, .missing path => nullTest comparison path a
  | .missing path, .missing _ => .error (missingVariable path)
where
  /-- Compares a missing operand with a value. -/
  nullTest (comparison : Comparison) (path : List Char) (v : Json) : Except EvalError Bool :=
    match comparison, v with
    | .equal, .null => .ok true
    | .notEqual, .null => .ok false
    | _, _ => .error (missingVariable path)

end StepTree.Condition
