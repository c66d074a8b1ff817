import QueryShape.Decimal.Binary64

/-!
# Shortest decimals

The text of a floating-point number has the fewest digits that read back as the same number, and
among those the decimal nearest to it. For one digit, two digits and so on, the two neighbours of
the number on the grid of decimals with that many digits are read back; the first grid with a hit
wins.
-/

set_option autoImplicit false

namespace QueryShape.Binary64

def significandAndPower (word : Nat) : Nat × Int :=
  let exponentBits : Nat := word / Nat.pow 2 52
  if exponentBits = 0 then (word, -1074)
  else (word % Nat.pow 2 52 + Nat.pow 2 52, (exponentBits : Int) - 1075)

def quotient (word : Nat) : Nat × Nat :=
  let (significand, power) := significandAndPower word
  if 0 ≤ power then (significand * Nat.pow 2 power.toNat, 1)
  else (significand, Nat.pow 2 (-power).toNat)

/-- The place value of the leading decimal digit: the largest `e` with `10 ^ e ≤ num / den`,
searched downwards from a start that is too large. -/
def leadingExponent (num den : Nat) : Nat → Int → Int
  | 0, e => e
  | steps + 1, e =>
    let reached := if 0 ≤ e then decide (den * Nat.pow 10 e.toNat ≤ num)
      else decide (den ≤ num * Nat.pow 10 (-e).toNat)
    if reached then e else leadingExponent num den steps (e - 1)

/-- The quotient divided by `10 ^ place`, as a quotient. -/
def atPlace (num den : Nat) (place : Int) : Nat × Nat :=
  if 0 ≤ place then (num, den * Nat.pow 10 place.toNat) else (num * Nat.pow 10 (-place).toNat, den)

/-- The decimal of the given digit count that reads back as the word and is nearest to it, as the
digits and the place of the last one. -/
def decimalOfLength? (word digits : Nat) : Option (Nat × Int) :=
  let (num, den) := quotient word
  let place := leadingExponent num den 700 330 - (digits - 1 : Nat)
  let (n, d) := atPlace num den place
  let below := n / d
  let above := below + 1
  let readsBack (c : Nat) : Bool := magnitudeWord c place == word
  let belowIsNearer := decide (2 * (n % d) < d ∨ (2 * (n % d) = d ∧ below % 2 = 0))
  match readsBack below, readsBack above with
  | true, true => some (if belowIsNearer then below else above, place)
  | true, false => some (below, place)
  | false, true => some (above, place)
  | false, false => none

def shortest (word : Nat) : Nat × Int :=
  ((List.range 17).findSome? fun n => decimalOfLength? word (n + 1)).getD (0, 0)

def trimZeros : List Char → List Char :=
  fun digits => (digits.reverse.dropWhile (· == '0')).reverse

def positional (digits : List Char) (exponent : Int) : List Char :=
  if exponent < 0 then
    '0' :: '.' :: List.replicate (-exponent - 1).toNat '0' ++ digits
  else
    let wholeLength := exponent.toNat + 1
    let whole := digits.take wholeLength
    let fraction := digits.drop wholeLength
    whole ++ List.replicate (wholeLength - whole.length) '0' ++ '.' ::
      (if fraction.isEmpty then ['0'] else fraction)

def scientific (digits : List Char) (exponent : Int) : List Char :=
  let sign := if exponent < 0 then '-' else '+'
  let power := Nat.toDigits 10 exponent.natAbs
  let mantissa := match digits with
    | [] => ['0']
    | [digit] => [digit]
    | digit :: fraction => digit :: '.' :: fraction
  mantissa ++ 'e' :: sign :: (if power.length < 2 then '0' :: power else power)

/-- The text of a number: positional from a ten-thousandth up to below `10 ^ 16`, else scientific.
-/
def text (x : Binary64) : String :=
  let word := x.magnitude
  if infinityWord < word then "nan"
  else
    let unsigned : List Char :=
      if word = infinityWord then "inf".toList
      else if word = 0 then "0.0".toList
      else
        let (coefficient, place) := shortest word
        let allDigits := Nat.toDigits 10 coefficient
        let exponent := place + (allDigits.length - 1 : Nat)
        let digits := trimZeros allDigits
        if -4 ≤ exponent ∧ exponent < 16 then positional digits exponent
        else scientific digits exponent
    String.ofList (if x.isNegative then '-' :: unsigned else unsigned)

end QueryShape.Binary64
