import StepTree.Number.Literal

/-! # Points in time

A point in time is a date of the proleptic Gregorian calendar with a time of day in UTC. It is written as
`2024-01-31T12:00:00.500Z`, with no, three, six or nine digits of a second's fraction. Reading also
accepts a blank in place of `T`, blanks around the parts, and an offset in place of `Z`. -/

namespace StepTree

structure Timestamp where
  year : Int
  month : Nat
  day : Nat
  hour : Nat
  minute : Nat
  /-- Sixty in a leap second. -/
  second : Nat
  nanosecond : Nat
  deriving DecidableEq

namespace Timestamp

/-- The beginning of 1970. -/
def epoch : Timestamp := ⟨1970, 1, 1, 0, 0, 0, 0⟩

/-! ### Writing -/

/-- The last `width` decimal digits. -/
def digits (width n : Nat) : List Char :=
  (List.range width).reverse.map fun place => Char.ofNat (48 + n / Nat.pow 10 place % 10)

def yearText (year : Int) : List Char :=
  if 0 ≤ year ∧ year < 10000 then digits 4 year.toNat
  else
    let text := Nat.toDigits 10 year.natAbs
    (if year < 0 then '-' else '+') :: (List.replicate (4 - text.length) '0' ++ text)

def fractionText (nanosecond : Nat) : List Char :=
  if nanosecond = 0 then []
  else if nanosecond % 1000000 = 0 then '.' :: digits 3 (nanosecond / 1000000)
  else if nanosecond % 1000 = 0 then '.' :: digits 6 (nanosecond / 1000)
  else '.' :: digits 9 nanosecond

def text (t : Timestamp) : String :=
  String.ofList (yearText t.year ++ '-' :: digits 2 t.month ++ '-' :: digits 2 t.day ++ 'T' :: digits 2 t.hour ++
    ':' :: digits 2 t.minute ++ ':' :: digits 2 t.second ++ fractionText t.nanosecond ++ ['Z'])

/-! ### The calendar -/

def isLeapYear (year : Int) : Bool := year % 4 = 0 && (year % 100 != 0 || year % 400 = 0)

def daysInMonth (year : Int) (month : Nat) : Nat :=
  if month = 2 then (if isLeapYear year then 29 else 28)
  else if month = 4 ∨ month = 6 ∨ month = 9 ∨ month = 11 then 30
  else 31

/-- The date one day later. -/
def nextDay (t : Timestamp) : Timestamp :=
  if t.day < daysInMonth t.year t.month then { t with day := t.day + 1 }
  else if t.month < 12 then { t with month := t.month + 1, day := 1 }
  else { t with year := t.year + 1, month := 1, day := 1 }

/-- The date one day earlier. -/
def previousDay (t : Timestamp) : Timestamp :=
  if 1 < t.day then { t with day := t.day - 1 }
  else if 1 < t.month then { t with month := t.month - 1, day := daysInMonth t.year (t.month - 1) }
  else { t with year := t.year - 1, month := 12, day := 31 }

/-- The point in time whose clock, ahead of UTC by less than a day, shows `t`. -/
def behind (t : Timestamp) (minutes : Int) : Timestamp :=
  let shown : Int := t.hour * 60 + t.minute
  let utc := shown - minutes
  let day := if utc < 0 then t.previousDay else if utc < 1440 then t else t.nextDay
  let within := (utc % 1440).toNat
  { day with hour := within / 60, minute := within % 60 }

/-- The point in time so many milliseconds after the beginning of 1970. -/
def ofMilliseconds (n : Nat) : Timestamp :=
  { Nat.repeat nextDay (n / 86400000) epoch with
    hour := n / 3600000 % 24, minute := n / 60000 % 60, second := n / 1000 % 60, nanosecond := n % 1000 * 1000000 }

/-- A date and time that exist. -/
def isValid (t : Timestamp) : Bool :=
  -262143 ≤ t.year && t.year ≤ 262142 && 1 ≤ t.month && t.month ≤ 12 && 1 ≤ t.day &&
    t.day ≤ daysInMonth t.year t.month && t.hour < 24 && t.minute < 60 && t.second ≤ 60

/-! ### Reading -/

/-- One to `width` digits. -/
def digits? (width : Nat) (s : List Char) : Option (Nat × List Char) :=
  let digits := (s.take width).takeWhile Literal.isDigit
  (Literal.digits? 10 digits).map fun n => (n, s.drop digits.length)

/-- One to `width` digits after blanks. -/
def number? (width : Nat) (s : List Char) : Option (Nat × List Char) := digits? width (Text.trimStart s)

/-- A year after blanks: four digits at most, or any number of them directly after a sign. -/
def year? (s : List Char) : Option (Int × List Char) :=
  match Text.trimStart s with
  | '-' :: rest => (digits? rest.length rest).map fun (n, rest) => (-(n : Int), rest)
  | '+' :: rest => (digits? rest.length rest).map fun (n, rest) => ((n : Int), rest)
  | s => (digits? 4 s).map fun (n, rest) => ((n : Int), rest)

/-- A character after blanks. -/
def expect? (c : Char) (s : List Char) : Option (List Char) := Text.after? [c] (Text.trimStart s)

/-- The fraction of a second, digits beyond the ninth left out. -/
def fraction? (s : List Char) : Option (Nat × List Char) :=
  match s with
  | '.' :: rest => do
    let digits := rest.takeWhile Literal.isDigit
    let n ← Literal.digits? 10 (digits.take 9)
    some (n * Nat.pow 10 (9 - digits.length), rest.dropWhile Literal.isDigit)
  | _ => some (0, s)

/-- Two digits. -/
def pair? (s : List Char) : Option (Nat × List Char) :=
  match s with
  | a :: b :: rest => (Literal.digits? 10 [a, b]).map fun n => (n, rest)
  | _ => none

/-- The minutes by which a clock is ahead of UTC. -/
def offset? (s : List Char) : Option (Int × List Char) :=
  match s with
  | [] => none
  | c :: rest =>
    if c = 'z' ∨ c = 'Z' then some (0, rest)
    else if Text.lowerAscii (s.take 3) = ['u', 't', 'c'] then some (0, s.drop 3)
    else if c = '+' ∨ c = '-' ∨ c = '−' then do
      let (hours, rest) ← pair? rest
      let (minutes, rest) ← pair? (rest.dropWhile fun c => c == ':' || Text.isBlank c)
      if 24 ≤ hours ∨ 60 ≤ minutes then none
      else
        let size : Int := hours * 60 + minutes
        some (if c = '+' then size else -size, rest)
    else none

/-- The point in time that a text is. -/
def ofText? (s : List Char) : Option Timestamp := do
  let (year, s) ← year? s
  let (month, s) ← number? 2 (← expect? '-' s)
  let (day, s) ← number? 2 (← expect? '-' s)
  let s ← match s with
    | c :: rest => if c = 't' ∨ c = 'T' ∨ c = ' ' then some rest else none
    | [] => none
  let (hour, s) ← number? 2 s
  let (minute, s) ← number? 2 (← expect? ':' s)
  let (second, s) ← number? 2 (← expect? ':' s)
  let (nanosecond, s) ← fraction? s
  let (minutes, s) ← offset? (Text.trimStart s)
  let t : Timestamp := ⟨year, month, day, hour, minute, second, nanosecond⟩
  let utc := t.behind minutes
  if (Text.trimStart s).isEmpty ∧ t.isValid ∧ utc.isValid then some utc else none

end Timestamp

end StepTree
