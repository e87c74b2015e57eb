import StepTree.Number.Binary64

/-! # The fewest digits that identify a number

A positive number is written with the fewest decimal digits that read back to it. The decimals that
read back form an interval around the number, its ends included when the significand is even. The
number is first written out exactly; then the grids of one, two, … digits are tried, and of the two
neighbours of the number on a grid the nearer one inside the interval is taken, on a tie the even one. -/

namespace StepTree.Binary64

/-- `digits * 10 ^ exponent`. -/
structure Decimal where
  digits : Nat
  exponent : Int
  deriving DecidableEq

/-- A number and the ends of its interval as multiples of one power of ten. -/
structure Interval where
  low : Nat
  value : Nat
  high : Nat
  /-- The ends belong to the interval. -/
  closed : Bool
  exponent : Int

/-- The decimals nearer to the number than to its neighbours, written out exactly. A power of two has
its lower neighbour at half the distance. -/
def interval (x : Binary64) : Interval :=
  let m := x.significand
  let narrow := m = Nat.pow 2 52 ∧ -1074 < x.exponent
  let q := x.exponent - 2
  let scale := Nat.pow 2 q.toNat * Nat.pow 5 (-q).toNat
  { low := (if narrow then 4 * m - 1 else 4 * m - 2) * scale
    value := 4 * m * scale
    high := (4 * m + 2) * scale
    closed := m % 2 = 0
    exponent := min q 0 }

def Interval.contains (i : Interval) (d : Nat) : Bool :=
  if i.closed then i.low ≤ d && d ≤ i.high else i.low < d && d < i.high

/-- The best decimal on the grid of step `step`, if one lies in the interval. -/
def Interval.onGrid? (i : Interval) (step : Nat) : Option Nat :=
  let below := i.value / step
  let above := below + 1
  let nearer :=
    if 2 * i.value < (below + above) * step then below
    else if (below + above) * step < 2 * i.value then above
    else if below % 2 = 0 then below else above
  let other := if nearer = below then above else below
  if i.contains (nearer * step) then some nearer
  else if i.contains (other * step) then some other
  else none

/-- Tries the grids with steps `10 ^ (places - 1)`, …, `10`, `1`. -/
def Interval.search (i : Interval) : (places : Nat) → Decimal
  | 0 => ⟨i.value, i.exponent⟩
  | places + 1 =>
    match i.onGrid? (Nat.pow 10 places) with
    | some d => ⟨d, i.exponent + places⟩
    | none => i.search places

/-- The same decimal with up to `places` final zeros moved into the exponent. -/
def Decimal.strip : (places : Nat) → Decimal → Decimal
  | 0, d => d
  | places + 1, d =>
    if d.digits % 10 = 0 then strip places ⟨d.digits / 10, d.exponent + 1⟩ else d

/-- The fewest digits that identify a number other than zero. -/
def shortest (x : Binary64) : Decimal :=
  let i := x.interval
  let places := (Nat.toDigits 10 i.value).length
  (i.search places).strip places

/-- How a number is laid out: positionally when the exponent of its leading digit lies in
`plainFrom ≤ e < plainBelow`, otherwise with a marked and signed exponent. -/
structure Layout where
  plainFrom : Int
  plainBelow : Int
  mark : Char
  /-- An exponent that is not negative has a plus sign. -/
  plus : Bool

/-- The decimal laid out; a number that is an integer ends in `.0` when it is written positionally. -/
def Layout.arrange (f : Layout) (d : Decimal) : List Char :=
  let digits := Nat.toDigits 10 d.digits
  let size : Int := digits.length
  let lead := d.exponent + size - 1
  if f.plainFrom ≤ lead ∧ lead < f.plainBelow then
    if 0 ≤ d.exponent then digits ++ List.replicate d.exponent.toNat '0' ++ ['.', '0']
    else if 0 ≤ lead then
      digits.take (lead + 1).toNat ++ '.' :: digits.drop (lead + 1).toNat
    else '0' :: '.' :: (List.replicate (-lead - 1).toNat '0' ++ digits)
  else
    let sign := if lead < 0 then ['-'] else if f.plus then ['+'] else []
    let fraction := if digits.length = 1 then [] else '.' :: digits.drop 1
    digits.take 1 ++ fraction ++ f.mark :: (sign ++ Nat.toDigits 10 lead.natAbs)

def Layout.write (f : Layout) (x : Binary64) : List Char :=
  let sign := if x.negative then ['-'] else []
  sign ++ if x.isZero then ['0', '.', '0'] else f.arrange x.shortest

end StepTree.Binary64
