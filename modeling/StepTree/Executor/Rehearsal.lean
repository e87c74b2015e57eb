import StepTree.Executor.Router
import StepTree.Json.Reader
import StepTree.Trace.Decoding

/-! # Rehearsals

An executor that acts out what its actions prescribe, so that a workflow can be tried without its
surroundings: it gives back inputs and fixed results, fails, takes time, counts, adds, and sends commands
to its own run. -/

namespace StepTree

/-- A rehearsal. -/
structure Rehearsal where
  /-- Whether actions of a type are acted out here. -/
  takes : String → Bool := fun _ => true
  /-- Commands sent by actions reach the run, until an action gives that up. -/
  holdsChannel : Bool := true

namespace Rehearsal

/-- The text of an input, empty if it is not given. -/
def input (a : Action) (name : String) : String := (a.inputs.lookup name).getD ""

def succeed (value : Json) : Outcome := { result := .ok value }

def fail (text : String) : Outcome := { result := .error text }

/-- The inputs as an object. -/
def inputs (a : Action) : Json := .ofEntries (a.inputs.map fun (name, text) => (name, .str text))

/-- The strings of an array. -/
def texts : Option Json → List String
  | some (.arr items) => items.filterMap fun
    | .str s => some s
    | _ => none
  | _ => []

/-- How often a step was acted out before. -/
def timesBefore (r : Rehearsal) (earlier : Array Action) (stepId : String) : Nat :=
  earlier.toList.countP fun a => r.takes a.actionType && a.stepId == stepId

/-- One entry of a prescribed sequence: it takes its time, and fails or gives its result. -/
def play (entry : Json) : Outcome :=
  let elapsedMs := match entry.field? "sleep" with
    | some (.num (.int n)) => n.toNat
    | _ => 0
  match entry.field? "err" with
  | some (.str text) => { result := .error text, elapsedMs }
  | _ => { result := .ok ((entry.field? "ok").getD .null), elapsedMs }

/-- The entry of a prescribed sequence for the execution at `index`; the last entry repeats. -/
def playSequence (sequence : Option Json) (index : Nat) : Outcome :=
  match sequence with
  | some (.arr entries) =>
    match entries[min index (entries.length - 1)]? with
    | some entry => play entry
    | none => succeed .null
  | _ => succeed .null

/-- The sum of two 64 bit integers. -/
def add (a b : String) : Outcome :=
  let read (s : String) : Option Int := Literal.signed? 10 Literal.signedBound (Text.trim s.toList)
  match read a, read b with
  | some x, some y =>
    if -(Literal.signedBound : Int) ≤ x + y ∧ x + y < Literal.signedBound then
      succeed (.obj [("sum", .num (.int (x + y)))])
    else fail "overflow"
  | _, _ => fail ("not a number: " ++ a ++ " + " ++ b)

/-- The value that a text is. -/
def decode (text : String) : Outcome :=
  match Json.ofString? text with
  | some value => succeed value
  | none => fail "invalid json"

/-- The first text that is no command. -/
def unknownCommand? (names : List String) : Option String :=
  names.find? fun name => (Command.decode? (.str name)).isNone

/-- The commands that an action sends. -/
def commands (a : Action) : List String := texts (a.config.lookup "send")

/-- An action that sends its commands and then gives up the channel. -/
def releases (a : Action) : Bool :=
  let release := match a.config.lookup "release" with
    | some (.bool b) => b
    | _ => false
  a.actionType == "control" && release && (unknownCommand? (commands a)).isNone

/-- Sends the commands of an action. -/
def control (r : Rehearsal) (earlier : Array Action) (a : Action) : Outcome :=
  let names := commands a
  match unknownCommand? names with
  | some name => fail ("unknown variant `" ++ name ++ "`, expected one of `pause`, `resume`, `cancel`")
  | none =>
    let released := earlier.any fun a => r.takes a.actionType && releases a
    { result := .ok (.obj [("sent", .ofNat names.length)])
      sends := if r.holdsChannel && !released then names.filterMap fun name => Command.decode? (.str name) else [] }

/-- Acts out an action. -/
def executor (r : Rehearsal) : Executor := fun earlier a =>
  match a.actionType with
  | "echo" => succeed (inputs a)
  | "const" => succeed ((a.config.lookup "result").getD .null)
  | "fail" => fail (input a "message")
  | "failif" =>
    if input a "fail" = "yes" then fail ("step " ++ a.stepId ++ " failed: " ++ input a "detail")
    else succeed (inputs a)
  | "chain" => fail (": ".intercalate (texts (a.config.lookup "chain")))
  | "seq" => playSequence (a.config.lookup "seq") (r.timesBefore earlier a.stepId)
  | "add" => add (input a "a") (input a "b")
  | "decode" => decode (input a "json")
  | "control" => r.control earlier a
  | "count" => succeed (.obj [("nth", .ofNat (r.timesBefore earlier a.stepId + 1))])
  | _ => Executor.echo earlier a

/-- A router that sends actions of some types to a rehearsal, others to the echo or nowhere. -/
def routed (types : List String) (echoOthers holdsChannel : Bool) : Router :=
  let r : Rehearsal := { takes := types.contains, holdsChannel }
  { routes := types.map fun t => (t, r.executor), fallback := if echoOthers then some Executor.echo else none }

end Rehearsal

end StepTree
