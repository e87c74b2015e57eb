import StepTree.Json.Printer

/-! # Redaction

Text is redacted by putting a marker in place of each secret that occurs in it, from left to right; where
several secrets begin at one place the longest is taken. In a value every string is redacted, and a
number whose text is a secret becomes the marker. -/

namespace StepTree

/-- A set of secret texts. The empty text hides nothing. -/
abbrev Secrets := List String

namespace Redaction

/-- The length of the longest secret at the start of a text, zero if there is none. -/
def matchLength (secrets : Secrets) (s : List Char) : Nat :=
  ((secrets.map String.toList).filter (·.isPrefixOf s)).foldl (fun longest secret => max longest secret.length) 0

/-- The redacted text after its first `skip` characters. -/
def hideFrom (secrets : Secrets) (marker : List Char) : (skip : Nat) → List Char → List Char
  | _, [] => []
  | skip + 1, _ :: s => hideFrom secrets marker skip s
  | 0, c :: s =>
    match matchLength secrets (c :: s) with
    | 0 => c :: hideFrom secrets marker 0 s
    | length + 1 => marker ++ hideFrom secrets marker length s

/-- The text with the marker in place of each secret. -/
def hide (secrets : Secrets) (marker text : String) : String :=
  String.ofList (hideFrom secrets marker.toList 0 text.toList)

/-- The marker that is used when no other is set. -/
def defaultMarker : String := "******"

end Redaction

namespace Json

mutual

/-- The value with the marker in place of each secret in its strings, and of each number whose text is
a secret. -/
def redact (secrets : Secrets) (marker : String) : Json → Json
  | str s => str (Redaction.hide secrets marker s)
  | num n => if secrets.contains (String.ofList (numberText n)) then str marker else num n
  | arr items => arr (redactItems secrets marker items)
  | obj entries => obj (redactEntries secrets marker entries)
  | null => null
  | bool b => bool b

def redactItems (secrets : Secrets) (marker : String) : List Json → List Json
  | [] => []
  | item :: items => redact secrets marker item :: redactItems secrets marker items

def redactEntries (secrets : Secrets) (marker : String) : List (String × Json) → List (String × Json)
  | [] => []
  | (key, value) :: entries => (key, redact secrets marker value) :: redactEntries secrets marker entries

end

end Json

end StepTree
