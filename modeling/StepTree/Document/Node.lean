import StepTree.Json.Basic
import StepTree.Number.Literal
import StepTree.Ordered

/-! # Document trees

A document is read into a tree before it is taken as a workflow, a trace or a plain value. The leaves of
a JSON text have their types from the start; a scalar of a markup document stays a text until its place
says what is expected there, or until nothing is expected and its text decides (`Node.typed?`). -/

namespace StepTree

/-- What a tag says about a scalar. -/
inductive ScalarTag where
  | absent
  | null
  | bool
  | int
  | float
  /-- A tag of the document's own, which no plain value has. -/
  | localTag
  /-- A tag of the document's own that is no text, and says nothing. -/
  | garbled
  | other
  deriving DecidableEq

/-- How a scalar is written. -/
inductive ScalarStyle where
  | plain
  | literal
  | quoted
  deriving DecidableEq

/-- A scalar of a markup document. -/
structure Scalar where
  text : List Char
  style : ScalarStyle
  tag : ScalarTag
  deriving DecidableEq

inductive Node where
  | null
  | bool (b : Bool)
  | num (n : Number)
  /-- A number that is not finite. -/
  | notFinite
  | str (s : String)
  | list (items : List Node)
  /-- A table; `settled` if the types in it were decided before it was known what they have to be. -/
  | table (settled : Bool) (entries : List (Node × Node))
  | scalar (s : Scalar)
  | sequence (tagged : Bool) (items : List Node)
  | mapping (tagged : Bool) (entries : List (Node × Node))
  /-- A part that cannot be read as anything. -/
  | unreadable

instance : Inhabited Node := ⟨.null⟩

namespace Scalar

def isNullWord (s : List Char) : Bool :=
  s == ['n', 'u', 'l', 'l'] || s == ['N', 'u', 'l', 'l'] || s == ['N', 'U', 'L', 'L'] || s == ['~']

def boolWord? (s : List Char) : Option Bool :=
  if s = ['t', 'r', 'u', 'e'] ∨ s = ['T', 'r', 'u', 'e'] ∨ s = ['T', 'R', 'U', 'E'] then some true
  else if s = ['f', 'a', 'l', 's', 'e'] ∨ s = ['F', 'a', 'l', 's', 'e'] ∨ s = ['F', 'A', 'L', 'S', 'E'] then some false
  else none

/-- The base that a mark at the start of an integer stands for, and the digits after the mark. -/
def based? : List Char → Option (Nat × List Char)
  | '0' :: 'x' :: rest => some (16, rest)
  | '0' :: 'o' :: rest => some (8, rest)
  | '0' :: 'b' :: rest => some (2, rest)
  | _ => none

/-- Digits that are no number because a zero stands in front of them. -/
def hasLeadingZero (s : List Char) : Bool :=
  let body := match s with
    | '-' :: rest => rest
    | '+' :: rest => rest
    | _ => s
  match body with
  | '0' :: c :: rest => (c :: rest).all Literal.isDigit
  | _ => false

/-- An integer from zero on, in base ten or with the mark of another base. -/
def natural? (s : List Char) : Option Nat :=
  let body := match s with
    | '+' :: rest => rest
    | _ => s
  match (based? body).bind fun (base, digits) => Literal.digits? base digits with
  | some n => some n
  | none => if hasLeadingZero s then none else Literal.digits? 10 body

/-- An integer below zero, or the zero that is written with a minus sign. -/
def negative? : List Char → Option Nat
  | '-' :: body =>
    match (based? body).bind fun (base, digits) => Literal.digits? base digits with
    | some n => some n
    | none => if hasLeadingZero body then none else Literal.digits? 10 body
  | _ => none

/-- What a number word stands for: an integer that fits 64 bits, an integer that does not, a number
with a point, or one that is not finite. -/
inductive Numeral where
  | number (n : Number)
  | tooLarge
  | notFinite

/-- The greatest number of bits of an integer that is an integer at all. -/
def integerLimit : Nat := Nat.pow 2 128

def integer? (s : List Char) : Option Numeral :=
  match natural? s with
  | some n =>
    if n < Literal.word64 then some (.number (.int n)) else if n < integerLimit then some .tooLarge else none
  | none =>
    match negative? s with
    | some n =>
      if n ≤ Literal.signedBound then some (.number (.int (-(n : Int))))
      else if n ≤ Nat.pow 2 127 then some .tooLarge else none
    | none => none

def isInfinity (s : List Char) : Bool :=
  s == ['.', 'i', 'n', 'f'] || s == ['.', 'I', 'n', 'f'] || s == ['.', 'I', 'N', 'F']

/-- A number with a point, an exponent, or the word for one that is not finite. -/
def float? (s : List Char) : Option Numeral :=
  let unsigned := match s with
    | '+' :: rest => rest
    | '-' :: rest => rest
    | _ => s
  if isInfinity unsigned then some .notFinite
  else if s = ['.', 'n', 'a', 'n'] ∨ s = ['.', 'N', 'a', 'N'] ∨ s = ['.', 'N', 'A', 'N'] then some .notFinite
  else (Literal.decimal? s).map fun x => .number (.float x)

/-- The node of a number word. -/
def Numeral.node? : Numeral → Option Node
  | .number n => some (.num n)
  | .tooLarge => none
  | .notFinite => some .notFinite

def textNode (s : List Char) : Node := .str (String.ofList s)

/-- What a plain scalar without a tag stands for. -/
def plainNode? (s : List Char) : Option Node :=
  if s.isEmpty || isNullWord s then some .null
  else match boolWord? s with
  | some b => some (.bool b)
  | none =>
    match integer? s with
    | some n => n.node?
    | none =>
      if hasLeadingZero s then some (textNode s)
      else match float? s with
        | some n => n.node?
        | none => some (textNode s)

/-- What a scalar stands for where nothing is expected; none when it cannot stand there. -/
def node? (s : Scalar) : Option Node :=
  match s.tag with
  | .localTag => none
  | .null => if isNullWord s.text then some .null else none
  | .bool => (boolWord? s.text).map .bool
  | .int => (integer? s.text).bind Numeral.node?
  | .float => (float? s.text).bind Numeral.node?
  | .other => some (textNode s.text)
  | .absent | .garbled => if s.style = .plain then plainNode? s.text else some (textNode s.text)

/-- The scalar may be read as a value of a type, which `tag` names. -/
def mayBe (s : Scalar) (tag : ScalarTag) : Bool := s.style == .plain || (s.style == .literal && s.tag == tag)

/-- A scalar where a value may be missing: `some true` when it is, none when it cannot stand there. -/
def isMissing? (s : Scalar) : Option Bool :=
  if s.style ≠ .plain then some false
  else match s.tag with
    | .absent => some (s.text.isEmpty || isNullWord s.text)
    | .null => if isNullWord s.text then some true else none
    | _ => some false

def isEmpty (s : Scalar) : Bool := s.style == .plain && s.text.isEmpty

end Scalar

namespace Node

mutual

/-- The tree with the type of every scalar decided by its text. -/
def typed? : Node → Option Node
  | scalar s => s.node?
  | sequence tagged items => if tagged then none else (typedItems? items).map list
  | mapping tagged entries => if tagged then none else (typedEntries? entries).map (table true)
  | list items => (typedItems? items).map list
  | table _ entries => (typedEntries? entries).map (table true)
  | unreadable => none
  | n => some n

def typedItems? : List Node → Option (List Node)
  | [] => some []
  | n :: rest => do
    let n ← n.typed?
    let rest ← typedItems? rest
    some (n :: rest)

def typedEntries? : List (Node × Node) → Option (List (Node × Node))
  | [] => some []
  | (key, value) :: rest => do
    let key ← key.typed?
    let value ← value.typed?
    let rest ← typedEntries? rest
    some ((key, value) :: rest)

end

mutual

/-- The tree of a JSON text. -/
def ofJson : Json → Node
  | .null => null
  | .bool b => bool b
  | .num n => num n
  | .str s => str s
  | .arr items => list (ofItems items)
  | .obj entries => table false (ofEntries entries)

def ofItems : List Json → List Node
  | [] => []
  | j :: rest => ofJson j :: ofItems rest

def ofEntries : List (String × Json) → List (Node × Node)
  | [] => []
  | (key, value) :: rest => (str key, ofJson value) :: ofEntries rest

end

/-- The text of a node where a text is expected. -/
def string? : Node → Option String
  | str s => some s
  | scalar s => some (String.ofList s.text)
  | _ => none

def bool? : Node → Option Bool
  | bool b => some b
  | scalar s => if s.mayBe .bool then Scalar.boolWord? s.text else none
  | _ => none

/-- A natural number below `limit`. -/
def natural? (limit : Nat) : Node → Option Nat
  | num (.int n) => if 0 ≤ n ∧ n < limit then some n.toNat else none
  | scalar s => if s.mayBe .int then (Scalar.natural? s.text).filter (· < limit) else none
  | _ => none

mutual

/-- The plain value of a node; a number that is not finite counts as null. -/
def value? : Node → Option Json
  | null => some .null
  | notFinite => some .null
  | bool b => some (.bool b)
  | num n => some (.num n)
  | str s => some (.str s)
  | list items => (values? items).map .arr
  | table _ entries => (valueEntries? entries).map .ofEntries
  | scalar s =>
    match s.node? with
    | some null => some .null
    | some notFinite => some .null
    | some (bool b) => some (.bool b)
    | some (num n) => some (.num n)
    | some (str s) => some (.str s)
    | _ => none
  | sequence tagged items => if tagged then none else (values? items).map .arr
  | mapping tagged entries => if tagged then none else (valueEntries? entries).map .ofEntries
  | unreadable => none

def values? : List Node → Option (List Json)
  | [] => some []
  | n :: rest => do
    let value ← n.value?
    let rest ← values? rest
    some (value :: rest)

def valueEntries? : List (Node × Node) → Option (List (String × Json))
  | [] => some []
  | (key, value) :: rest => do
    let key ← key.string?
    let value ← value.value?
    let rest ← valueEntries? rest
    some ((key, value) :: rest)

end

/-- The items of a list. -/
def items? : Node → Option (List Node)
  | list items => some items
  | sequence _ items => some items
  | scalar s => if s.isEmpty then some [] else none
  | _ => none

/-- The values of a list of values of one type. -/
def listOf? {α : Type} (decode : Node → Option α) (n : Node) : Option (List α) := do (← n.items?).mapM decode

/-- The named entries of a table. -/
def entries? : Node → Option (List (String × Node))
  | table _ entries => entries.mapM fun (key, value) => key.string?.map fun key => (key, value)
  | mapping _ entries => entries.mapM fun (key, value) => key.string?.map fun key => (key, value)
  | scalar s => if s.isEmpty then some [] else none
  | _ => none

/-- The named values of a table in the order in which the names first occur. -/
def mapOf? {α : Type} (decode : Node → Option α) (n : Node) : Option (List (String × α)) := do
  let entries ← (← n.entries?).mapM fun (key, value) => (decode value).map fun value => (key, value)
  some (Ordered.ofList entries)

/-- The plain values of a table, ordered by name. -/
def valueMap? (n : Node) : Option (List (String × Json)) := do
  let entries ← (← n.entries?).mapM fun (key, value) => value.value?.map fun value => (key, value)
  some (Json.sortEntries entries)

/-- A value that may be missing. -/
def optional? {α : Type} (decode : Node → Option α) : Node → Option (Option α)
  | null => some none
  | scalar s => do if ← s.isMissing? then some none else (decode (scalar s)).map some
  | n => (decode n).map some

end Node

end StepTree
