import StepTree.Number.Binary64

/-! # JSON values

A number is an integer or a binary64 number, and the two kinds stay apart: `1` and `1.0` are different
values. The entries of an object are listed by increasing key; `Json.ofEntries` puts them in that order,
and of two entries with one key the later one wins. -/

namespace StepTree

inductive Number where
  | int (n : Int)
  | float (x : Binary64)
  deriving DecidableEq

inductive Json where
  | null
  | bool (b : Bool)
  | num (n : Number)
  | str (s : String)
  | arr (items : List Json)
  | obj (entries : List (String × Json))

namespace Number

/-- The binary64 number nearest to this one. -/
def toBinary64? : Number → Option Binary64
  | .int n => Binary64.ofInt n
  | .float x => some x

/-- Equality of values of one kind; the two float zeros are equal. -/
def same : Number → Number → Bool
  | .int m, .int n => m = n
  | .float x, .float y => x.sameValue y
  | _, _ => false

end Number

namespace Json

instance : Inhabited Json := ⟨null⟩

/-- The integer `n` as a value. -/
def ofNat (n : Nat) : Json := num (.int n)

/-- Puts an entry into a list ordered by key, in place of an entry with the same key. -/
def insertEntry {α : Type} (key : String) (value : α) : List (String × α) → List (String × α)
  | [] => [(key, value)]
  | (k, v) :: rest =>
    if key < k then (key, value) :: (k, v) :: rest
    else if key = k then (key, value) :: rest
    else (k, v) :: insertEntry key value rest

/-- The entries ordered by key; of two entries with one key the later one wins. -/
def sortEntries {α : Type} (entries : List (String × α)) : List (String × α) :=
  entries.foldl (fun sorted entry => insertEntry entry.1 entry.2 sorted) []

/-- The object with these entries. -/
def ofEntries (entries : List (String × Json)) : Json := obj (sortEntries entries)

/-- The entry of an object under a key. -/
def field? (key : String) : Json → Option Json
  | obj entries => entries.lookup key
  | _ => none

/-- The kind of a value, as it is named in messages. -/
def kindName : Json → String
  | null => "null"
  | bool _ => "boolean"
  | num _ => "number"
  | str _ => "string"
  | arr _ => "array"
  | obj _ => "object"

mutual

/-- Equality of values; the two float zeros are equal. -/
def same : Json → Json → Bool
  | null, null => true
  | bool a, bool b => a == b
  | num a, num b => a.same b
  | str a, str b => a == b
  | arr a, arr b => sameItems a b
  | obj a, obj b => sameEntries a b
  | _, _ => false

def sameItems : List Json → List Json → Bool
  | [], [] => true
  | a :: as, b :: bs => a.same b && sameItems as bs
  | _, _ => false

def sameEntries : List (String × Json) → List (String × Json) → Bool
  | [], [] => true
  | (k, a) :: as, (l, b) :: bs => k == l && a.same b && sameEntries as bs
  | _, _ => false

end

mutual

/-- The same value with the entries of every object in order. -/
def normalize : Json → Json
  | arr items => arr (normalizeItems items)
  | obj entries => ofEntries (normalizeEntries entries)
  | value => value

def normalizeItems : List Json → List Json
  | [] => []
  | item :: items => item.normalize :: normalizeItems items

def normalizeEntries : List (String × Json) → List (String × Json)
  | [] => []
  | (key, value) :: entries => (key, value.normalize) :: normalizeEntries entries

end

end Json

end StepTree
