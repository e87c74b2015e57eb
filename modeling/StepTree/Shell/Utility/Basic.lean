import StepTree.Shell.Format
import StepTree.Shell.Session

/-! # Utilities

The commands that a shell has itself. Each takes its operands and the session, and gives the session after it,
with its status. This file holds how utilities read their options and numbers, and those that only print. -/

namespace StepTree.Shell

abbrev Utility := (operands : List (List Char)) → Session → Session

/-- What is wrong with the options of a command. -/
inductive OptionFault where
  | unknown (option : Char)
  | noValue (option : Char)

def OptionFault.message : OptionFault → String
  | unknown option => "Illegal option -" ++ String.singleton option
  | noValue option => "No arg for -" ++ String.singleton option ++ " option"

/-- Options with their values, and the operands after them. -/
structure Options where
  given : List (Char × List Char) := []
  operands : List (List Char) := []

namespace Options

def has (o : Options) (option : Char) : Bool := o.given.any fun (c, _) => c = option

def value? (o : Options) (option : Char) : Option (List Char) :=
  (o.given.reverse.find? fun (c, _) => c = option).map (·.2)

/-- The options in one operand, of which some take what follows as their value; none says that the value of the
last one is to come. -/
def cluster (flags valued : List Char) : List Char → Except OptionFault (List (Char × Option (List Char)))
  | [] => .ok []
  | c :: rest =>
    if valued.contains c then .ok [(c, if rest.isEmpty then none else some rest)]
    else if flags.contains c then do return (c, some []) :: (← cluster flags valued rest)
    else .error (.unknown c)

/-- The options before the first operand. -/
def read (flags valued : List Char) : List (List Char) → Except OptionFault Options
  | [] => .ok {}
  | ['-', '-'] :: rest => .ok { operands := rest }
  | ('-' :: c :: more) :: rest => do
    let found ← cluster flags valued (c :: more)
    let complete := found.filterMap fun (c, value) => value.map fun value => (c, value)
    match found.find? fun (_, value) => value.isNone with
    | none =>
      let o ← read flags valued rest
      return { o with given := complete ++ o.given }
    | some (c, _) =>
      match rest with
      | value :: rest =>
        let o ← read flags valued rest
        return { o with given := complete ++ (c, value) :: o.given }
      | [] => .error (.noValue c)
  | operands => .ok { operands }
termination_by operands => operands.length

end Options

namespace Utility

/-- The number that an operand is, from zero on. -/
def natural? (operand : List Char) : Option Nat :=
  let body := Text.trimStart operand
  let body := match body with
    | '+' :: rest => rest
    | _ => body
  let digits := body.takeWhile Char.isDigit
  if digits.isEmpty || !(body.drop digits.length).all Text.isBlank then none
  else (Literal.digits? 10 digits).filter (· < Nat.pow 2 31)

/-- Goes on with the number that an operand is. -/
def withNumber (operand : List Char) (s : Session) (k : Nat → Session) : Session :=
  match natural? operand with
  | some n => k n
  | none => s.abort ("Illegal number: " ++ String.ofList operand)

/-- Goes on with the options of a utility. -/
def withOptions (flags valued : List Char) (operands : List (List Char)) (s : Session) (k : Options → Session) :
    Session :=
  match Options.read flags valued operands with
  | .ok o => k o
  | .error f => s.abort f.message

/-- A text in quotes, so that it stands for itself; a quote in it stands in quotes of the other kind. -/
def quote (text : List Char) : List Char :=
  if text.isEmpty then ['\'', '\''] else runs (text.length + 1) text
where
  runs : Nat → List Char → List Char
    | 0, _ => []
    | _ + 1, [] => []
    | fuel + 1, text =>
      let plain := text.takeWhile (· ≠ '\'')
      let rest := text.drop plain.length
      let quotes := rest.takeWhile (· = '\'')
      '\'' :: plain ++ ['\''] ++ (if quotes.isEmpty then [] else '"' :: quotes ++ ['"']) ++
        runs fuel (rest.drop quotes.length)

/-- The place of a name in lists that are not in alphabetical order. -/
def bucket (count : Nat) (name : String) : Nat :=
  let codes := name.toList.map Char.toNat
  codes.foldl (· + ·) ((codes.head?.getD 0) * 16) % count

def succeed : Utility := fun _ s => s.withStatus 0

/-- Prints its operands in one line; a first operand `-n` leaves out the end of the line. -/
def echo : Utility := fun operands s =>
  let (operands, isBare) := match operands with
    | ['-', 'n'] :: rest => (rest, true)
    | _ => (operands, false)
  let (content, stopped) := Format.expanded ([' '].intercalate operands)
  (s.print (if isBare || stopped then content else content ++ ['\n'])).withStatus 0

/-- Prints its operands with a format. -/
def printf : Utility := fun operands s => withOptions [] [] operands s fun o =>
  match o.operands with
  | [] => s.abort "usage: printf format [arg ...]"
  | format :: operands =>
    let w := Format.write format operands
    let s := (w.complaints.foldl (fun s text => s.complain text) s).print w.content
    match w.fault with
    | some text => s.abort text
    | none => s.withStatus (if w.complaints.isEmpty then 0 else 1)

end Utility

end StepTree.Shell
