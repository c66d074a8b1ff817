/-!
# Decimal numerals

A numeral is an optional minus sign, digits, an optional fraction and an optional exponent. It is
read as a coefficient and a power of ten; a numeral without fraction and exponent also as an
integer.
-/

set_option autoImplicit false

namespace QueryShape

/-- The number `coefficient * 10 ^ exponent`, negated if `negative` holds. -/
structure Decimal where
  negative : Bool
  coefficient : Nat
  exponent : Int
  deriving DecidableEq, Repr

namespace Decimal

/-- The number that a row of digits denotes, after the digits already read. -/
def readDigits (start : Nat) (digits : List Char) : Nat :=
  digits.foldl (fun value digit => 10 * value + (digit.toNat - '0'.toNat)) start

def readUnsigned (negative : Bool) (numeral : List Char) : Decimal :=
  let whole := numeral.takeWhile Char.isDigit
  let afterWhole := numeral.dropWhile Char.isDigit
  let (fraction, afterFraction) : List Char × List Char :=
    match afterWhole with
    | '.' :: rest => (rest.takeWhile Char.isDigit, rest.dropWhile Char.isDigit)
    | rest => ([], rest)
  let power : Int :=
    match afterFraction with
    | _ :: '-' :: digits => -(readDigits 0 digits : Int)
    | _ :: '+' :: digits => readDigits 0 digits
    | _ :: digits => readDigits 0 digits
    | [] => 0
  { negative
    coefficient := readDigits (readDigits 0 whole) fraction
    exponent := power - fraction.length }

def read (numeral : List Char) : Decimal :=
  match numeral with
  | '-' :: rest => readUnsigned true rest
  | rest => readUnsigned false rest

def readInt (numeral : List Char) : Int :=
  match numeral with
  | '-' :: rest => -(readDigits 0 rest : Int)
  | rest => readDigits 0 rest

end Decimal

end QueryShape
