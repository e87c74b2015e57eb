/-! # Commands

What a command line says. A word is a sequence of parts: text, which may be quoted, and what a dollar sign
or backquotes introduce; a command is a list of words with assignments and redirections, or is built from
other commands. Texts are lists of bytes, each held as one character. -/

namespace StepTree.Shell

/-- What a name after a dollar sign stands for. -/
inductive Parameter where
  | named (name : String)
  /-- An argument, counted from one. -/
  | argument (n : Nat)
  /-- All arguments, in quotes each for itself. -/
  | each
  /-- All arguments, in quotes as one text. -/
  | all
  /-- The number of arguments. -/
  | count
  /-- The status of the last command. -/
  | status
  /-- The options that are on. -/
  | options
  /-- The number of the process. -/
  | process
  /-- The number of the last process in the background. -/
  | background
  /-- The name of the shell. -/
  | self
  deriving DecidableEq

/-- The name of a parameter. -/
def Parameter.name : Parameter → String
  | named name => name
  | argument n => toString n
  | each => "@"
  | all => "*"
  | count => "#"
  | status => "?"
  | options => "-"
  | process => "$"
  | background => "!"
  | self => "0"

/-- What is done with the value of a parameter, apart from taking it as it is. -/
inductive Adjustment where
  | plain
  | length
  /-- Another text if the parameter is unset or, in the second form, empty. -/
  | fallback (ifEmpty : Bool)
  /-- Another text, which the parameter then keeps. -/
  | assign (ifEmpty : Bool)
  /-- Another text if the parameter is set and, in the second form, not empty. -/
  | instead (unlessEmpty : Bool)
  /-- A mistake if the parameter is unset or, in the second form, empty. -/
  | demand (ifEmpty : Bool)
  /-- The value without a part at its beginning. -/
  | dropStart (longest : Bool)
  /-- The value without a part at its end. -/
  | dropEnd (longest : Bool)
  deriving DecidableEq

mutual

/-- A part of a word. -/
inductive Part where
  /-- Text; in quotes it makes a word even if it is empty. -/
  | text (quoted : Bool) (chars : List Char)
  | value (quoted : Bool) (p : Parameter) (how : Adjustment) (operand : List Part)
  /-- The output of commands. -/
  | output (quoted : Bool) (commands : Option Script)
  | arithmetic (quoted : Bool) (expression : List Part)
  /-- Braces around something that is no parameter. -/
  | invalid

/-- Where a redirection leads. -/
inductive Target where
  /-- To where another descriptor leads. -/
  | descriptor (n : Nat)
  /-- To where the descriptor leads that a word names. -/
  | descriptorOf (name : List Part)
  | closed
  | write (path : List Part) (append force : Bool)
  | read (path : List Part)
  | readWrite (path : List Part)
  /-- To a text in the command line itself, which is known by its number. -/
  | document (number : Nat)

/-- What a descriptor is made to lead to. -/
inductive Redirection where
  | mk (descriptor : Nat) (target : Target)

/-- A command. -/
inductive Script where
  | simple (line : Nat) (assignments : List (String × List Part)) (words : List (List Part))
      (redirections : List Redirection)
  | redirected (line : Nat) (body : Script) (redirections : List Redirection)
  | subshell (line : Nat) (body : Script) (redirections : List Redirection)
  | negation (body : Script)
  | pipe (commands : List Script)
  /-- The second one follows if the first one succeeds. -/
  | both (left right : Script)
  /-- The second one follows if the first one fails. -/
  | either (left right : Script)
  | sequence (left right : Script)
  | background (body : Script)
  | conditional (test yes : Script) (no : Option Script)
  /-- Repeats the body as long as the test has a certain outcome. -/
  | loop (onSuccess : Bool) (test body : Script)
  | each (line : Nat) (name : String) (words : List (List Part)) (body : Script)
  /-- Takes the first of several bodies of which a pattern fits. -/
  | select (line : Nat) (subject : List Part) (cases : List (List (List Part) × Option Script))
  | define (name : String) (body : Script)

end

abbrev Word := List Part

namespace Redirection

def descriptor : Redirection → Nat
  | mk descriptor _ => descriptor

def target : Redirection → Target
  | mk _ target => target

end Redirection

instance : Inhabited Script := ⟨.simple 0 [] [] []⟩

/-! ### Names -/

def isNameStart (c : Char) : Bool := c.isAlpha || c == '_'

def isNameChar (c : Char) : Bool := c.isAlphanum || c == '_'

/-- A name: letters, digits and underscores, not beginning with a digit. -/
def isName (s : List Char) : Bool :=
  match s with
  | [] => false
  | c :: rest => isNameStart c && rest.all isNameChar

namespace Word

/-- A word with one more part before it; text next to text of the same kind is joined. -/
def cons (p : Part) (w : Word) : Word :=
  match p, w with
  | .text q a, .text r b :: rest => if q = r then .text q (a ++ b) :: rest else p :: w
  | _, _ => p :: w

/-- The text of a word that is nothing but text without quotes. -/
def bare? : Word → Option String
  | [.text false chars] => some (String.ofList chars)
  | _ => none

/-- The text of a word, without what other parts stand for. -/
def literal (w : Word) : List Char :=
  w.flatMap fun
    | .text _ chars => chars
    | _ => []

/-- Something in a word is quoted. -/
def isQuoted (w : Word) : Bool :=
  w.any fun
    | .text quoted _ => quoted
    | .value quoted .. => quoted
    | .output quoted _ => quoted
    | .arithmetic quoted _ => quoted
    | .invalid => false

/-- The assignment that a word is. -/
def assignment? (w : Word) : Option (String × Word) :=
  match w with
  | .text false chars :: rest =>
    let name := chars.takeWhile (· ≠ '=')
    match chars.dropWhile (· ≠ '=') with
    | '=' :: value =>
      if isName name then some (String.ofList name, if value.isEmpty then rest else .text false value :: rest)
      else none
    | _ => none
  | _ => none

end Word

end StepTree.Shell
