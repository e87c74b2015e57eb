import StepTree.Workflow.Basic
import StepTree.Scope.Basic

/-! # Workflows as values

The value of a step lists its fields in a fixed order; fields at their default that may be left out are
left out. The fields of its kind stand beside those of its head, and `kind` names the kind. -/

namespace StepTree

namespace Json

/-- A text that may be missing. -/
def ofText? (s : Option String) : Json := (s.map str).getD null

def ofWord (n : UInt64) : Json := ofNat n.toNat

def ofHalfWord (n : UInt32) : Json := ofNat n.toNat

/-- A field that is left out when it is missing. -/
def fieldOf {α : Type} (name : String) (encode : α → Json) : Option α → List (String × Json)
  | none => []
  | some a => [(name, encode a)]

/-- A field that is left out when it is false. -/
def flagOf (name : String) (b : Bool) : List (String × Json) := if b then [(name, bool true)] else []

/-- Texts by name. -/
def ofTexts (entries : List (String × String)) : Json := obj (entries.map fun (name, text) => (name, str text))

/-- Texts by name, left out when there are none. -/
def textsOf (name : String) (entries : List (String × String)) : List (String × Json) :=
  if entries.isEmpty then [] else [(name, ofTexts entries)]

end Json

open Json in
def RetryPolicy.encode (r : RetryPolicy) : Json :=
  .obj [("count", ofHalfWord r.count), ("delayMs", ofWord r.delayMs)]

def LoopType.encode : LoopType → Json
  | .forEach => .str "forEach"
  | .whilst => .str "while"
  | .times => .str "count"

def CountSpec.encode : CountSpec → Json
  | .literal n => .ofWord n
  | .expression text => .str text

open Json in
def LoopConfig.encode (c : LoopConfig) : Json :=
  .obj ([("type", c.loopType.encode)] ++ fieldOf "source" str c.source ++ fieldOf "condition" str c.condition ++
    fieldOf "count" CountSpec.encode c.count ++ [("itemVar", str c.itemVar), ("indexVar", str c.indexVar)] ++
    fieldOf "maxIterations" ofHalfWord c.maxIterations ++ fieldOf "breakCondition" str c.breakCondition ++
    fieldOf "continueCondition" str c.continueCondition ++ flagOf "stopOnFailure" c.stopOnFailure)

def StepTag.encode : StepTag → Json
  | .action => .str "action"
  | .group => .str "group"
  | .loop => .str "loop"
  | .branch => .str "branch"

open Json in
/-- The fields of a step that do not depend on its kind. -/
def StepHead.fields (h : StepHead) : List (String × Json) :=
  [("id", str h.id), ("name", str h.name)] ++ fieldOf "condition" str h.condition ++ flagOf "disabled" h.disabled ++
    flagOf "continueOnFail" h.continueOnFail ++ fieldOf "timeoutMs" ofWord h.timeoutMs ++
    fieldOf "retry" RetryPolicy.encode h.retry ++ textsOf "inputs" h.inputs ++ textsOf "outputs" h.outputs

mutual

def Step.encode : Step → Json
  | ⟨head, kind⟩ => .obj (head.fields ++ ("kind", kind.tag.encode) :: kind.fields)

/-- The fields of a step that belong to its kind. -/
def StepKind.fields : StepKind → List (String × Json)
  | .action spec => [("actionType", .str spec.actionType), ("config", .obj spec.config)]
  | .group children => [("children", .arr (Step.encodeAll children))]
  | .loop config children => [("loop", config.encode), ("children", .arr (Step.encodeAll children))]
  | .branch arms => [("branches", .arr (Arm.encodeAll arms))]

def Step.encodeAll : List Step → List Json
  | [] => []
  | s :: rest => s.encode :: Step.encodeAll rest

def Arm.encodeAll : List Arm → List Json
  | [] => []
  | a :: rest => a.encode :: Arm.encodeAll rest

def Arm.encode : Arm → Json
  | ⟨condition, label, children⟩ =>
    .obj (("condition", .str condition) :: (Json.fieldOf "label" Json.str label ++
      [("children", .arr (Step.encodeAll children))]))

end

open Json in
def EnvironmentVariable.encode (v : EnvironmentVariable) : Json :=
  .obj [("name", str v.name), ("value", v.value), ("secret", bool v.isSecret)]

open Json in
def WorkflowInput.encode (i : WorkflowInput) : Json :=
  .obj [("description", ofText? i.description), ("default", i.default.getD null), ("secret", bool i.isSecret)]

open Json in
def Workflow.encode (w : Workflow) : Json :=
  .obj [("workflow", str w.id), ("name", ofText? w.name), ("description", ofText? w.description),
    ("inputs", obj (w.inputs.map fun (name, input) => (name, input.encode))), ("variables", obj w.vars),
    ("steps", arr (Step.encodeAll w.steps))]

end StepTree
