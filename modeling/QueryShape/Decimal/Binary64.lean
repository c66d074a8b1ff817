import QueryShape.Decimal.Basic

/-!
# Binary floating-point numbers of sixty-four bits

A number is its word: a sign bit, eleven exponent bits and fifty-two fraction bits. No runtime
floating-point operation is involved: a decimal numeral is rounded to the nearest word in exact
integer arithmetic, ties to the even word, and a magnitude beyond the largest finite one becomes
infinite.
-/

set_option autoImplicit false

namespace QueryShape

structure Binary64 where
  bits : UInt64
  deriving DecidableEq, Repr

namespace Binary64

def infinityWord : Nat := 2047 * Nat.pow 2 52

/-- The nearest integer to a quotient, a half going to the even neighbour. -/
def divideRounded (num den : Nat) : Nat :=
  let quotient := num / den
  let twice := 2 * (num % den)
  if twice < den ∨ (twice = den ∧ quotient % 2 = 0) then quotient else quotient + 1

def scaled (num den : Nat) (power : Int) : Nat × Nat :=
  if 0 ≤ power then (num, den * Nat.pow 2 power.toNat) else (num * Nat.pow 2 (-power).toNat, den)

/-- The word of the number nearest to a positive quotient. The unit of the last place is the power
of two that leaves fifty-three bits, but never below the one of the subnormal numbers. -/
def nearestWord (num den : Nat) : Nat :=
  let guess : Int := (Nat.log2 num : Int) - Nat.log2 den - 52
  let (n, d) := scaled num den guess
  let unit := max (if n / d < Nat.pow 2 52 then guess - 1 else guess) (-1074)
  let (n, d) := scaled num den unit
  min ((unit + 1074).toNat * Nat.pow 2 52 + divideRounded n d) infinityWord

def digitCount (n : Nat) : Nat :=
  (Nat.toDigits 10 n).length

/-- The word of the magnitude nearest to a decimal. Magnitudes far outside the range are decided by
their number of digits alone. -/
def magnitudeWord (coefficient : Nat) (exponent : Int) : Nat :=
  if coefficient = 0 then 0
  else
    let magnitude := exponent + digitCount coefficient
    if magnitude < -400 then 0
    else if 400 < magnitude then infinityWord
    else if 0 ≤ exponent then nearestWord (coefficient * Nat.pow 10 exponent.toNat) 1
    else nearestWord coefficient (Nat.pow 10 (-exponent).toNat)

def ofDecimal (decimal : Decimal) : Binary64 :=
  let word := magnitudeWord decimal.coefficient decimal.exponent
  ⟨UInt64.ofNat (if decimal.negative then Nat.pow 2 63 + word else word)⟩

def isNegative (x : Binary64) : Bool :=
  decide (Nat.pow 2 63 ≤ x.bits.toNat)

def magnitude (x : Binary64) : Nat :=
  x.bits.toNat % Nat.pow 2 63

def hexText (x : Binary64) : String :=
  let digits := Nat.toDigits 16 x.bits.toNat
  String.ofList (List.replicate (16 - digits.length) '0' ++ digits)

end Binary64

end QueryShape
