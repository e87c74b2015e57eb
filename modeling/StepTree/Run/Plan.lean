import StepTree.Condition.Eval
import StepTree.Workflow.Basic

/-! # Loop plans

What drives a loop is decided before its first iteration: the items of an array, a number of times, or a
condition that is looked at again before every iteration. -/

namespace StepTree

open Template (Lookup)
open Condition (EvalError)

/-- Where the iterations of a loop come from. -/
inductive Plan where
  | items (values : List Json)
  | times (count : Nat)
  | whilst (condition : String)

namespace Plan

/-- The number of iterations, if it is known before the first one. -/
def total? : Plan → Option Nat
  | .items values => some values.length
  | .times count => some count
  | .whilst _ => none

/-- The value that an iteration is about. -/
def item (plan : Plan) (index : Nat) : Json :=
  match plan with
  | .items values => values[index]?.getD .null
  | .times _ => .ofNat index
  | .whilst _ => .null

/-- The plan is a condition. -/
def isWhilst : Plan → Bool
  | .whilst _ => true
  | _ => false

end Plan

/-- The number of iterations that is asked for. -/
def CountSpec.eval (lookup : Lookup) : CountSpec → Except EvalError Nat
  | .literal n => .ok n.toNat
  | .expression text => Condition.evalCount lookup text

/-- The plan of a loop, unless the field that drives it is missing or has no value. -/
def LoopConfig.plan (lookup : Lookup) (c : LoopConfig) : Except EvalError Plan :=
  match c.loopType with
  | .forEach =>
    match c.source with
    | none => .error (.missingExpression "source")
    | some source => (Condition.evalArray lookup source).map .items
  | .times =>
    match c.count with
    | none => .error (.missingExpression "count")
    | some spec => (spec.eval lookup).map .times
  | .whilst =>
    match c.condition with
    | none => .error (.missingExpression "condition")
    | some condition => .ok (.whilst condition)

end StepTree
