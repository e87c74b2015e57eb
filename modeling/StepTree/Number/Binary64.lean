/-! # Finite binary64 numbers

A finite binary64 number is a sign and a significand scaled by a power of two. Two numbers are compared
through their value in units of the least positive number. A quotient of naturals is rounded to the nearest
number, a tie going to the even significand, and so are products and quotients of numbers. -/

namespace StepTree

/-- `significand * 2 ^ exponent`, negated when `negative`. Zero keeps its sign. -/
structure Binary64 where
  negative : Bool
  significand : Nat
  exponent : Int
  /-- Each value has one form: the significand has 53 bits, or the exponent is the least one. -/
  canonical : significand < Nat.pow 2 53 ∧ -1074 ≤ exponent ∧ exponent ≤ 971 ∧
    (Nat.pow 2 52 ≤ significand ∨ exponent = -1074)
  deriving DecidableEq

namespace Binary64

def zero (negative : Bool) : Binary64 := ⟨negative, 0, -1074, by decide⟩

instance : Inhabited Binary64 := ⟨zero false⟩

/-- The value in units of `2 ^ -1074`, the least positive number. -/
def units (x : Binary64) : Int :=
  let size := x.significand * Nat.pow 2 (x.exponent + 1074).toNat
  if x.negative then -(size : Int) else size

/-- The number of units in one. -/
def one : Int := Nat.pow 2 1074

def lt (x y : Binary64) : Bool := x.units < y.units

/-- Equality of values: the two zeros are equal. -/
def sameValue (x y : Binary64) : Bool := x.units = y.units

def isZero (x : Binary64) : Bool := x.significand = 0

/-- The natural number that this number is, if it is one. -/
def toNat? (x : Binary64) : Option Nat :=
  if 0 ≤ x.units ∧ x.units % one = 0 then some (x.units / one).toNat else none

/-- `significand * 2 ^ exponent` if it is a number of this format. -/
def ofParts? (negative : Bool) (significand : Nat) (exponent : Int) : Option Binary64 :=
  if h : significand < Nat.pow 2 53 ∧ -1074 ≤ exponent ∧ exponent ≤ 971 ∧
      (Nat.pow 2 52 ≤ significand ∨ exponent = -1074) then
    some ⟨negative, significand, exponent, h⟩
  else none

/-- `num / den` to the nearest natural, a tie to the even one. -/
def roundDiv (num den : Nat) : Nat :=
  let q := num / den
  let r := num % den
  if 2 * r < den then q
  else if den < 2 * r then q + 1
  else if q % 2 = 0 then q else q + 1

/-- The binary exponent at which the quotient has 53 bits before the point, or the least one. -/
def scaleOf (num den : Nat) : Int :=
  let guess : Int := (num.log2 : Int) - den.log2 - 53
  let quotient := num * Nat.pow 2 (-guess).toNat / (den * Nat.pow 2 guess.toNat)
  max (-1074) (if quotient < Nat.pow 2 53 then guess else guess + 1)

/-- The number nearest to `num / den`, if it is in range. -/
def ofRatio (negative : Bool) (num den : Nat) : Option Binary64 :=
  if num = 0 then some (zero negative)
  else
    let e := scaleOf num den
    let significand := roundDiv (num * Nat.pow 2 (-e).toNat) (den * Nat.pow 2 e.toNat)
    if significand = Nat.pow 2 53 then ofParts? negative (Nat.pow 2 52) (e + 1)
    else ofParts? negative significand e

/-- The number nearest to an integer, if it is in range. -/
def ofInt (n : Int) : Option Binary64 := ofRatio (n < 0) n.natAbs 1

/-- The number nearest to `digits * 10 ^ exponent`, if it is in range. Exponents far outside the range
are settled without computing the power. -/
def ofDecimal (negative : Bool) (digits : Nat) (exponent : Int) : Option Binary64 :=
  if digits = 0 then some (zero negative)
  else
    let top := exponent + (Nat.toDigits 10 digits).length
    if 400 < top then none
    else if top < -400 then some (zero negative)
    else ofRatio negative (digits * Nat.pow 10 exponent.toNat) (Nat.pow 10 (-exponent).toNat)

/-- The number nearest to `num / den * 2 ^ exponent`, if it is in range. -/
def ofScaled (negative : Bool) (num den : Nat) (exponent : Int) : Option Binary64 :=
  ofRatio negative (num * Nat.pow 2 exponent.toNat) (den * Nat.pow 2 (-exponent).toNat)

/-- The number nearest to the product, if it is in range. -/
def mul? (x y : Binary64) : Option Binary64 :=
  ofScaled (x.negative != y.negative) (x.significand * y.significand) 1 (x.exponent + y.exponent)

/-- The number nearest to the quotient, if there is one and it is in range. -/
def div? (x y : Binary64) : Option Binary64 :=
  if y.isZero then none
  else ofScaled (x.negative != y.negative) x.significand y.significand (x.exponent - y.exponent)

end Binary64

end StepTree
