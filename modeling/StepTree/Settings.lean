import StepTree.Markup.Expansion
import StepTree.Workflow.Decoding
import StepTree.Workflow.Encoding
import StepTree.Redaction

/-! # Settings

The limits of a run: how often a loop may repeat, how deep workflows may call each other, how long one
attempt of an action may take, and the text that stands for a secret. They have defaults, a file may set
them, and variables of the surroundings go over the file. -/

namespace StepTree

structure Settings where
  /-- The limit of loops that declare none. -/
  defaultMaxIterations : UInt32 := 100
  /-- The number of calls of workflows that may be open at one time. -/
  maxCallDepth : Nat := 8
  /-- The time limit of actions that declare none. -/
  actionTimeoutMs : Option UInt64 := none
  redactionMarker : String := Redaction.defaultMarker

namespace Settings

/-- The limit of a loop: the declared one if it is positive, else the default; never less than one. -/
def iterationLimit (s : Settings) (declared : Option UInt32) : UInt32 :=
  max 1 ((declared.filter (0 < ·)).getD s.defaultMaxIterations)

/-- The time limit of an attempt; zero means that there is none. -/
def timeLimit (s : Settings) (declared : Option UInt64) : Option UInt64 :=
  (declared.orElse fun _ => s.actionTimeoutMs).filter (0 < ·)

/-! ### As values -/

open Json in
def encode (s : Settings) : Json :=
  .obj [("defaultMaxIterations", ofHalfWord s.defaultMaxIterations), ("maxCallDepth", ofNat s.maxCallDepth),
    ("actionTimeoutMs", (s.actionTimeoutMs.map ofWord).getD null), ("redactionMarker", str s.redactionMarker)]

def fieldNames : List String := ["defaultMaxIterations", "maxCallDepth", "actionTimeoutMs", "redactionMarker"]

open Node in
def decode? (n : Node) : Option Settings := do
  let f ← Fields.of? fieldNames n
  let standard : Settings := {}
  some
    { defaultMaxIterations := ← f.withDefault? "defaultMaxIterations" standard.defaultMaxIterations halfWord?
      maxCallDepth := ← f.withDefault? "maxCallDepth" standard.maxCallDepth (natural? Literal.word64)
      actionTimeoutMs := ← f.optional? "actionTimeoutMs" word?
      redactionMarker := ← f.withDefault? "redactionMarker" standard.redactionMarker string? }

/-- The settings that a document holds; a blank one leaves the defaults. -/
def ofText? (s : List Char) : Option Settings :=
  if s.all Text.isBlank then some {} else do decode? ((← Markup.Document.ofText? s).node (.record fieldNames))

/-! ### From the surroundings -/

/-- A setting that a variable of the surroundings may override. -/
inductive Override where
  | maxIterations
  | maxCallDepth
  | actionTimeout
  deriving DecidableEq

namespace Override

/-- The name of the variable. -/
def variableName : Override → String
  | .maxIterations => "STEPFLOW_MAX_ITERATIONS"
  | .maxCallDepth => "STEPFLOW_MAX_CALL_DEPTH"
  | .actionTimeout => "STEPFLOW_ACTION_TIMEOUT_MS"

/-- What the variable has to be. -/
def expected : Override → String
  | .actionTimeout => "milliseconds"
  | _ => "a positive integer"

end Override

/-- A variable of the surroundings that cannot be used. -/
structure OverrideError where
  override : Override
  raw : String
  fault : Literal.Fault
  deriving DecidableEq

namespace OverrideError

def message (e : OverrideError) : String :=
  e.override.variableName ++ " must be " ++ e.override.expected ++ ", got '" ++ e.raw ++ "'"

/-- The message with its cause. -/
def fullMessage (e : OverrideError) : String := e.message ++ ": " ++ e.fault.message

end OverrideError

/-- The number below `limit` that a variable of the surroundings holds, if it is set. -/
def override? (lookup : String → Option String) (o : Override) (limit : Nat) :
    Except OverrideError (Option Nat) :=
  match lookup o.variableName with
  | none => .ok none
  | some raw =>
    match Literal.unsigned limit (Text.trim raw.toList) with
    | .ok n => .ok (some n)
    | .error fault => .error ⟨o, raw, fault⟩

/-- The settings with the variables of the surroundings over them. -/
def overriddenBy (s : Settings) (lookup : String → Option String) : Except OverrideError Settings := do
  let iterations ← override? lookup .maxIterations (Nat.pow 2 32)
  let depth ← override? lookup .maxCallDepth Literal.word64
  let timeout ← override? lookup .actionTimeout Literal.word64
  .ok
    { s with
      defaultMaxIterations := (iterations.map UInt32.ofNat).getD s.defaultMaxIterations
      maxCallDepth := depth.getD s.maxCallDepth
      actionTimeoutMs := (timeout.map UInt64.ofNat).orElse fun _ => s.actionTimeoutMs }

end Settings

end StepTree
