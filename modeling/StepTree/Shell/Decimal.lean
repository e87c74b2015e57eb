import StepTree.Number.Literal

/-! # Decimal forms

A number that is not whole is written with a certain number of places, with a power of ten, or in the shorter
of these two ways. Values are exact quotients; a tie goes to the even neighbour. -/

namespace StepTree.Shell

/-- A nonnegative quotient. -/
structure Quotient where
  num : Nat
  den : Nat

namespace Quotient

/-- The size of a binary number. -/
def ofBinary64 (x : Binary64) : Quotient :=
  if 0 ≤ x.exponent then ⟨x.significand * Nat.pow 2 x.exponent.toNat, 1⟩
  else ⟨x.significand, Nat.pow 2 x.exponent.natAbs⟩

/-- The digits of a natural number, at least `least` of them. -/
def digits (least n : Nat) : List Char :=
  let digits := Nat.toDigits 10 n
  List.replicate (least - digits.length) '0' ++ digits

/-- A point before the last digits, of which there may be none. -/
def pointed (places : Nat) (keepPoint : Bool) (digits : List Char) : List Char :=
  let whole := digits.take (digits.length - places)
  let rest := digits.drop (digits.length - places)
  if rest.isEmpty && !keepPoint then whole else whole ++ '.' :: rest

/-- The number with `places` digits after the point. -/
def fixed (q : Quotient) (places : Nat) (keepPoint : Bool) : List Char :=
  pointed places keepPoint (digits (places + 1) (Binary64.roundDiv (q.num * Nat.pow 10 places) q.den))

/-- The number times a power of ten, rounded. -/
def scaled (q : Quotient) (power : Int) : Nat :=
  if 0 ≤ power then Binary64.roundDiv (q.num * Nat.pow 10 power.toNat) q.den
  else Binary64.roundDiv q.num (q.den * Nat.pow 10 power.natAbs)

/-- The exponent of the power of ten before the first of `places + 1` digits, and these digits. -/
def leading (q : Quotient) (places : Nat) : Int × Nat :=
  if q.num = 0 then (0, 0)
  else
    -- the number of digits differs from the estimate by at most one
    let estimate : Int := (Nat.toDigits 10 q.num).length - (Nat.toDigits 10 q.den).length
    let exponent := if q.scaled (places - estimate) < Nat.pow 10 places then estimate - 1 else estimate
    let n := q.scaled (places - exponent)
    if Nat.pow 10 (places + 1) ≤ n then (exponent + 1, q.scaled (places - exponent - 1)) else (exponent, n)

/-- An exponent after its mark. -/
def exponentText (mark : Char) (exponent : Int) : List Char :=
  mark :: (if exponent < 0 then '-' else '+') :: digits 2 exponent.natAbs

/-- The number as digits and a power of ten. -/
def scientific (q : Quotient) (places : Nat) (keepPoint : Bool) (mark : Char) : List Char :=
  let (exponent, n) := q.leading places
  pointed places keepPoint (digits (places + 1) n) ++ exponentText mark exponent

/-- The digits without zeros after the point that say nothing. -/
def stripped (s : List Char) : List Char :=
  if s.contains '.' then
    let s := (s.reverse.dropWhile (· = '0')).reverse
    if s.getLast? = some '.' then s.dropLast else s
  else s

/-- The number with so many digits in the way that suits its size. -/
def general (q : Quotient) (places : Nat) (keepZeros : Bool) (mark : Char) : List Char :=
  let places := max places 1
  let exponent := (q.leading (places - 1)).1
  if -4 ≤ exponent && exponent < places then
    let text := q.fixed (places - 1 - exponent).toNat keepZeros
    if keepZeros then text else stripped text
  else
    let text := q.scientific (places - 1) keepZeros mark
    let digits := text.takeWhile (· ≠ mark)
    if keepZeros then text else stripped digits ++ text.drop digits.length

end Quotient

end StepTree.Shell
