import StepTree.Document.Fields
import StepTree.Workflow.Basic
import StepTree.Scope.Basic

/-! # Workflows from documents

The head of a step is read as it stands in the document. The fields of its kind are only known once `kind`
is read, so the types of everything in them are decided first. -/

namespace StepTree

namespace Node

def word? (n : Node) : Option UInt64 := (n.natural? Literal.word64).map UInt64.ofNat

def halfWord? (n : Node) : Option UInt32 := (n.natural? (Nat.pow 2 32)).map UInt32.ofNat

def texts? : Node → Option (List (String × String)) := mapOf? string?

end Node

open Node

def RetryPolicy.fieldNames : List String := ["count", "delayMs"]

def RetryPolicy.decode? (n : Node) : Option RetryPolicy := do
  let f ← Fields.of? fieldNames n
  some { count := ← f.withDefault? "count" 0 halfWord?, delayMs := ← f.withDefault? "delayMs" 0 word? }

def LoopType.names : List (String × LoopType) :=
  [("forEach", .forEach), ("while", .whilst), ("count", .times)]

/-- Other spellings that are accepted. -/
def LoopType.otherNames : List (String × LoopType) := [("foreach", .forEach), ("for_each", .forEach)]

def LoopType.decode? : Node → Option LoopType := choice? LoopType.names LoopType.otherNames

/-- A number, or a text. -/
def CountSpec.decode? (n : Node) : Option CountSpec := do
  let n ← n.typed?
  match n.word? with
  | some w => some (.literal w)
  | none => n.string?.map .expression

def LoopConfig.decode? (n : Node) : Option LoopConfig := do
  let f ← Fields.of? ["type", "source", "condition", "count", "itemVar", "indexVar", "maxIterations",
    "breakCondition", "continueCondition", "stopOnFailure"] n
  some
    { loopType := ← f.required? "type" LoopType.decode?
      source := ← f.optional? "source" string?
      condition := ← f.optional? "condition" string?
      count := ← f.optional? "count" CountSpec.decode?
      itemVar := ← f.withDefault? "itemVar" "item" string?
      indexVar := ← f.withDefault? "indexVar" "i" string?
      maxIterations := ← f.optional? "maxIterations" halfWord?
      breakCondition := ← f.optional? "breakCondition" string?
      continueCondition := ← f.optional? "continueCondition" string?
      stopOnFailure := ← f.withDefault? "stopOnFailure" false bool? }

def StepTag.names : List (String × StepTag) :=
  [("action", .action), ("group", .group), ("loop", .loop), ("branch", .branch)]

def StepHead.names : List String :=
  ["id", "name", "condition", "disabled", "continueOnFail", "timeoutMs", "retry", "inputs", "outputs"]

def StepHead.decode? (f : Fields) : Option StepHead := do
  some
    { id := ← f.required? "id" string?
      name := ← f.withDefault? "name" "" string?
      condition := ← f.optional? "condition" string?
      disabled := ← f.withDefault? "disabled" false bool?
      continueOnFail := ← f.withDefault? "continueOnFail" false bool?
      timeoutMs := ← f.optional? "timeoutMs" word?
      retry := ← f.optional? "retry" RetryPolicy.decode?
      inputs := ← f.withDefault? "inputs" [] texts?
      outputs := ← f.withDefault? "outputs" [] texts? }

/-- The entry belongs to the head of a step. -/
def StepHead.owns (entry : Node × Node) : Bool :=
  match entry.1 with
  | .str s => s ∈ names
  | .scalar s => String.ofList s.text ∈ names
  | _ => false

/-- An entry of the kind of a step, its types decided. -/
def StepKind.entry? (entry : Node × Node) : Option (Node × Node) := do
  let key ← match entry.1 with
    | .scalar s => some (Scalar.textNode s.text)
    | .sequence .. => none
    | .mapping .. => none
    | .list _ => none
    | .table .. => none
    | .unreadable => none
    | key => some key
  let value ← entry.2.typed?
  some (key, value)

/-- The head of a step, and the table of its kind with the kind's name taken out. -/
def Step.parts? (n : Node) : Option (StepHead × StepTag × Node) := do
  let entries ← match n with
    | .table _ entries => some entries
    | .mapping _ entries => some entries
    | _ => none
  let fields ← Fields.collect? StepHead.names (entries.filter StepHead.owns)
  let kindEntries ← (entries.filter (!StepHead.owns ·)).mapM StepKind.entry?
  let (mark, rest) ← takeMark? "kind" kindEntries
  let head ← StepHead.decode? ⟨fields, false⟩
  let tag ← mark? StepTag.names (← mark)
  some (head, tag, .table true rest)

def ActionSpec.decode? (n : Node) : Option ActionSpec := do
  let f ← Fields.of? ["actionType", "config"] n
  some { actionType := ← f.required? "actionType" string?, config := ← f.withDefault? "config" [] valueMap? }

mutual

/-- A step in which steps nest less than `fuel` deep. -/
def Step.decodeWithin? : (fuel : Nat) → Node → Option Step
  | 0, _ => none
  | fuel + 1, n => do
    let (head, tag, rest) ← Step.parts? n
    let children (f : Fields) : Option (List Step) :=
      f.withDefault? "children" [] (listOf? (Step.decodeWithin? fuel))
    let kind ← match tag with
      | .action => (ActionSpec.decode? rest).map StepKind.action
      | .group => do
        let f ← Fields.of? ["children"] rest
        some (.group (← children f))
      | .loop => do
        let f ← Fields.of? ["loop", "children"] rest
        some (.loop (← f.required? "loop" LoopConfig.decode?) (← children f))
      | .branch => do
        let f ← Fields.of? ["branches"] rest
        some (.branch (← f.withDefault? "branches" [] (listOf? (Arm.decodeWithin? fuel))))
    some ⟨head, kind⟩

/-- An arm in which steps nest less than `fuel` deep. -/
def Arm.decodeWithin? : (fuel : Nat) → Node → Option Arm
  | 0, _ => none
  | fuel + 1, n => do
    let f ← Fields.of? ["condition", "label", "children"] n
    some
      { condition := ← f.withDefault? "condition" "" string?
        label := ← f.optional? "label" string?
        children := ← f.withDefault? "children" [] (listOf? (Step.decodeWithin? fuel)) }

end

namespace Node

mutual

/-- The number of levels of lists and tables. -/
def levels : Node → Nat
  | list items => levelsOfItems items + 1
  | table _ entries => levelsOfEntries entries + 1
  | sequence _ items => levelsOfItems items + 1
  | mapping _ entries => levelsOfEntries entries + 1
  | _ => 1

def levelsOfItems : List Node → Nat
  | [] => 0
  | n :: rest => max n.levels (levelsOfItems rest)

def levelsOfEntries : List (Node × Node) → Nat
  | [] => 0
  | (_, value) :: rest => max value.levels (levelsOfEntries rest)

end

end Node

def Step.decode? (n : Node) : Option Step := Step.decodeWithin? (n.levels + 1) n

def WorkflowInput.fieldNames : List String := ["description", "default", "secret"]

def WorkflowInput.decode? (n : Node) : Option WorkflowInput := do
  let f ← Fields.of? fieldNames n
  some
    { description := ← f.optional? "description" string?
      default := ← f.optional? "default" value?
      isSecret := ← f.withDefault? "secret" false bool? }

def Workflow.fieldNames : List String := ["workflow", "name", "description", "inputs", "variables", "steps"]

def Workflow.decode? (n : Node) : Option Workflow := do
  let f ← Fields.of? Workflow.fieldNames n
  some
    { id := ← f.withDefault? "workflow" "" string?
      name := ← f.optional? "name" string?
      description := ← f.optional? "description" string?
      inputs := ← f.withDefault? "inputs" [] (mapOf? WorkflowInput.decode?)
      vars := ← f.withDefault? "variables" [] (mapOf? value?)
      steps := ← f.withDefault? "steps" [] (listOf? Step.decode?) }

def EnvironmentVariable.fieldNames : List String := ["name", "value", "secret"]

def EnvironmentVariable.decode? (n : Node) : Option EnvironmentVariable := do
  let f ← Fields.of? fieldNames n
  some
    { name := ← f.required? "name" string?
      value := ← f.required? "value" value?
      isSecret := ← f.withDefault? "secret" false bool? }

end StepTree
