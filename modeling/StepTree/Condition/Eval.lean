import StepTree.Condition.Operand

/-! # Evaluating expressions

A condition is built from `||`, `&&`, `!`, parentheses, `exists`, comparisons and operands; `||` binds
loosest, then `&&`, then `!`, then the comparisons. A loop source is an operand that is an array, a
count an operand that is a natural number. -/

namespace StepTree.Condition

open Template (Lookup)

/-- The comparisons by their operators, in the order in which they are looked for. -/
def operators : List (List Char × Comparison) :=
  [(['=', '=', '='], .equal), (['!', '=', '='], .notEqual), (['=', '='], .equal), (['!', '='], .notEqual),
    (['>', '='], .greaterOrEqual), (['<', '='], .lessOrEqual), (['>'], .greater), (['<'], .less),
    ([' ', 'c', 'o', 'n', 't', 'a', 'i', 'n', 's', ' '], .contains)]

/-- The first comparison that occurs at the top level, with its two sides. -/
def findComparison? (s : List Char) : Option (Comparison × List Char × List Char) :=
  operators.findSome? fun (operator, comparison) =>
    (findTop? operator .top s).map fun (left, right) => (comparison, Text.trim left, Text.trim right)

/-- The truth of an expression without `||`, `&&`, `!` and outer parentheses. -/
def evalAtom (lookup : Lookup) (s : List Char) : Except EvalError Bool :=
  match existsArgument? s with
  | some argument =>
    let path := Text.trim ((Template.single? argument).getD argument)
    .ok (!path.isEmpty && (lookup path).isSome)
  | none =>
    match findComparison? s with
    | some (comparison, left, right) =>
      if left.isEmpty || right.isEmpty then .error (invalid s .missingSide)
      else do
        let a ← operand lookup left
        let b ← operand lookup right
        compareOperands comparison a b
    | none => do
      let v ← (← operand lookup s).get
      .ok (isTruthy v)

/-- The truth of an expression with fewer than `fuel` characters. -/
def evalNode (lookup : Lookup) : (fuel : Nat) → List Char → Except EvalError Bool
  | 0, s => .error (invalid s .missingOperand)
  | fuel + 1, text =>
    let s := Text.trim text
    if s.isEmpty then .error (invalid s .missingOperand)
    else match splitTop? ['|', '|'] s with
    | some parts => parts.anyM (evalNode lookup fuel)
    | none =>
      match splitTop? ['&', '&'] s with
      | some parts => parts.allM (evalNode lookup fuel)
      | none =>
        let (count, inner) := negations s
        if 0 < count then
          if (Text.trim inner).isEmpty then .error (invalid s .danglingNegation)
          else do
            let b ← evalNode lookup fuel inner
            .ok (if count % 2 = 1 then !b else b)
        else match parenthesized? inner with
          | some grouped => evalNode lookup fuel grouped
          | none => evalAtom lookup inner

/-- The condition that always holds. -/
def always : List Char := ['d', 'e', 'f', 'a', 'u', 'l', 't']

/-- The expression without the blanks around it, and without the braces around it unless they enclose
a bare path. -/
def bare (s : List Char) : List Char :=
  let s := Text.trim s
  match Template.single? s with
  | some inner => if isPath inner then s else Text.trim inner
  | none => s

/-- The truth of a condition. -/
def evalBool (lookup : Lookup) (expression : String) : Except EvalError Bool :=
  let s := bare expression.toList
  if s.isEmpty then .error .empty
  else if s = always then .ok true
  else evalNode lookup (s.length + 1) s

/-- The items of a loop source; a text that is a JSON array counts as the array. -/
def evalArray (lookup : Lookup) (expression : String) : Except EvalError (List Json) :=
  let s := Text.trim expression.toList
  if s.isEmpty then .error .empty
  else do
    let v ← (← operand lookup s).get
    let refuse := .error (.notAnArray (String.ofList s) (describe v))
    match v with
    | .arr items => .ok items
    | .str text =>
      match Json.ofString? text with
      | some (.arr items) => .ok items
      | _ => refuse
    | _ => refuse

/-- The number of iterations that a value asks for. Floats beyond 64 bits count as the greatest number
of 64 bits. -/
def count? : Json → Option Nat
  | .num (.int n) => if 0 ≤ n then some n.toNat else none
  | .num (.float x) => x.toNat?.map (min · (Literal.word64 - 1))
  | .str s => Literal.unsigned? 10 Literal.word64 (Text.trim s.toList)
  | _ => none

/-- The number of iterations that an expression asks for. -/
def evalCount (lookup : Lookup) (expression : String) : Except EvalError Nat :=
  let s := Text.trim expression.toList
  if s.isEmpty then .error .empty
  else do
    let v ← (← operand lookup s).get
    match count? v with
    | some n => .ok n
    | none => .error (.invalidCount (String.ofList s) (describe v))

end StepTree.Condition
