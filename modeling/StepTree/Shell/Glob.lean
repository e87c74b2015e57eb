/-! # Patterns

A pattern matches whole texts: a question mark stands for one character, an asterisk for any number of
them, and brackets for one of those that they list, by themselves, as a range or as a class. -/

namespace StepTree.Shell

/-- What brackets list. -/
inductive GlobItem where
  | range (first last : Char)
  | kind (name : List Char)
  deriving DecidableEq

inductive Glob where
  | char (c : Char)
  | any
  | many
  /-- One of the characters that are listed, or none of them. -/
  | oneOf (negated : Bool) (items : List GlobItem)
  deriving DecidableEq

namespace GlobItem

def isPunctuation (c : Char) : Bool := '!' ≤ c && c ≤ '~' && !c.isAlphanum

def isControl (c : Char) : Bool := c < ' ' || c = '\x7f'

/-- The class with a name. -/
def kind? (name : String) : Option (Char → Bool) :=
  match name with
  | "alnum" => some Char.isAlphanum
  | "alpha" => some Char.isAlpha
  | "blank" => some fun c => c = ' ' || c = '\t'
  | "cntrl" => some isControl
  | "digit" => some Char.isDigit
  | "graph" => some fun c => '!' ≤ c && c ≤ '~'
  | "lower" => some Char.isLower
  | "print" => some fun c => ' ' ≤ c && c ≤ '~'
  | "punct" => some isPunctuation
  | "space" => some fun c => c = ' ' || ('\t' ≤ c && c ≤ '\r')
  | "upper" => some Char.isUpper
  | "xdigit" => some fun c => c.isDigit || ('a' ≤ c && c ≤ 'f') || ('A' ≤ c && c ≤ 'F')
  | _ => none

def holds : GlobItem → Char → Bool
  | range first last, c => first ≤ c && c ≤ last
  | kind name, c => ((kind? (String.ofList name)).map (· c)).getD false

/-- A class at the beginning of a text, and what follows. -/
def ofKind? (s : List (Char × Bool)) : Option (GlobItem × List (Char × Bool)) :=
  match s with
  | ('[', false) :: (':', false) :: rest =>
    let name := (rest.map (·.1)).takeWhile Char.isAlpha
    match rest.drop name.length with
    | (':', _) :: (']', _) :: rest => if (kind? (String.ofList name)).isSome then some (kind name, rest) else none
    | _ => none
  | _ => none

/-- What is listed up to the closing bracket, and what follows it; a closing bracket that comes first does not
close. Characters that are quoted stand for themselves. -/
def list? : (fuel : Nat) → (first : Bool) → List (Char × Bool) → Option (List GlobItem × List (Char × Bool))
  | 0, _, _ => none
  | _ + 1, _, [] => none
  | fuel + 1, first, c :: rest =>
    if c = (']', false) && !first then some ([], rest)
    else match ofKind? (c :: rest) with
      | some (item, rest) => (list? fuel false rest).map fun (items, after) => (item :: items, after)
      | none =>
        match rest with
        | ('-', false) :: d :: after =>
          if d = (']', false) then (list? fuel false rest).map fun (items, after) => (range c.1 c.1 :: items, after)
          else (list? fuel false after).map fun (items, after) => (range c.1 d.1 :: items, after)
        | _ => (list? fuel false rest).map fun (items, after) => (range c.1 c.1 :: items, after)

end GlobItem

namespace Glob

/-- Characters of which a backslash that is not quoted makes the next one quoted. -/
def unescape : List (Char × Bool) → List (Char × Bool)
  | ('\\', false) :: (c, _) :: rest => (c, true) :: unescape rest
  | c :: rest => c :: unescape rest
  | [] => []

/-- The pattern that characters are, of which the quoted ones stand for themselves. -/
def ofUnescaped : (fuel : Nat) → List (Char × Bool) → List Glob
  | 0, _ => []
  | _ + 1, [] => []
  | fuel + 1, (c, quoted) :: rest =>
    if quoted then char c :: ofUnescaped fuel rest
    else if c = '*' then many :: ofUnescaped fuel rest
    else if c = '?' then any :: ofUnescaped fuel rest
    else if c = '[' then
      let negated := rest.head? = some ('!', false) || rest.head? = some ('^', false)
      match GlobItem.list? (rest.length + 1) true (if negated then rest.drop 1 else rest) with
      | some (items, rest) => oneOf negated items :: ofUnescaped fuel rest
      | none => char '[' :: ofUnescaped fuel rest
    else char c :: ofUnescaped fuel rest

/-- The pattern that characters are, of which the quoted ones stand for themselves. -/
def ofChars (s : List (Char × Bool)) : List Glob := ofUnescaped (s.length + 1) (unescape s)

/-- A pattern that is nothing but text. -/
def isText (p : List Glob) : Bool := p.all fun
  | char _ => true
  | _ => false

/-- The text of a pattern that is nothing but text. -/
def text (p : List Glob) : List Char := p.filterMap fun
  | char c => some c
  | _ => none

/-- One character fits. -/
def fits : Glob → Char → Bool
  | char d, c => c = d
  | any, _ => true
  | many, _ => true
  | oneOf negated items, c => items.any (·.holds c) != negated

/-- The pattern matches the text. -/
def matchesAll : List Glob → List Char → Bool
  | [], s => s.isEmpty
  | many :: p, [] => matchesAll p []
  | many :: p, c :: s => matchesAll p (c :: s) || matchesAll (many :: p) s
  | _ :: _, [] => false
  | g :: p, c :: s => g.fits c && matchesAll p s
termination_by p s => p.length + s.length

/-- The lengths of the beginnings of a text that a pattern matches, the shortest one first. -/
def startLengths (p : List Glob) (s : List Char) : List Nat :=
  (List.range (s.length + 1)).filter fun n => matchesAll p (s.take n)

/-- The lengths of the ends of a text that a pattern matches, the shortest one first. -/
def endLengths (p : List Glob) (s : List Char) : List Nat :=
  (List.range (s.length + 1)).filter fun n => matchesAll p (s.drop (s.length - n))

end Glob

end StepTree.Shell
