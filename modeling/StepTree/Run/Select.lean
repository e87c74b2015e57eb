import StepTree.Run.State

/-! # Selecting an arm

The arms of a branch are looked at in order, and the first one whose condition holds is taken. An arm
whose condition has no value is passed over; only when no arm is taken does that make the branch fail. -/

namespace StepTree

namespace Arm

/-- The name shown for the arm at `index`. -/
def shown (a : Arm) (index : Nat) : String := a.label.getD ("branch_" ++ toString index)

/-- Looks at the condition of the arm at `index`. -/
def evaluate (u : Setup) (st : State) (index : Nat) (a : Arm) : ArmEvaluation :=
  let label := a.shown index
  let about (result : Bool) (error : Option String) : ArmEvaluation :=
    { index, label, condition := a.condition, result, error }
  if a.isDefault then about true none
  else match st.holds a.condition with
    | .ok result => about result none
    | .error e => about false (some (u.redact st (label ++ ": " ++ e.message)))

/-- Looks at the conditions of arms, the first one at `index`, up to the first that holds. -/
def evaluateAll (u : Setup) (st : State) : (index : Nat) → List Arm → List ArmEvaluation
  | _, [] => []
  | index, a :: rest =>
    let e := a.evaluate u st index
    if e.result then [e] else e :: evaluateAll u st (index + 1) rest

end Arm

namespace Setup

/-- The record of a branch of which no arm was taken. -/
def noneTaken (evaluated : List ArmEvaluation) (r : Record) : Record :=
  match evaluated.filterMap (·.error) with
  | [] => r.skip .noBranchMatched
  | errors => r.fail .evaluation ("no branch matched; " ++ "; ".intercalate errors)

/-- Carries out a branch step; `body` runs the steps of the arm at an index. -/
def branch (u : Setup) (stepId : String) (arms : List Arm) (body : Nat → State → List Record × State) (r : Record)
    (st : State) : Record × State :=
  if arms.isEmpty then (r.withStatus .passed, st)
  else
    let evaluated := Arm.evaluateAll u st 0 arms
    match evaluated.find? (·.result) with
    | none => (noneTaken evaluated r, st)
    | some e =>
      let (children, st) := body e.index (st.emit (.branchSelected stepId e.index e.label))
      let isDefault := (arms[e.index]?.map Arm.isDefault).getD false
      let selection : Selection := ⟨e.index, e.label, isDefault, evaluated⟩
      ({ r with branch := some ⟨selection, children⟩ }.withStatus (sequenceStatus children), st)

end Setup

end StepTree
