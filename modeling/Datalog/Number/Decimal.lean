import Datalog.Number.Binary64

/-!
# Decimal text of binary numbers

Reading: `Binary64.ofDecimal` gives the number nearest to a decimal numeral, with ties to
the even significand and infinity beyond the largest finite number.

Writing: a unit of `2 ^ -1074` is exactly `5 ^ 1074` units of `10 ^ -1074`, so every finite
number is a whole number of the latter, its exact decimal. Among the numerals that read back
as the same number `shortestDecimal` chooses one with the fewest significant digits and, of
the two neighbours with that many, the nearer; of two equally near the larger. The text is
always positional, with at least one digit on both sides of the point.
-/

namespace Datalog.Binary64

/-- How many decimal places the exact decimal of a finite number can need. -/
@[irreducible] def decimalPlaces : Nat :=
  1074

/-- The number nearest to `digits * 10 ^ exponent`. Exponents that put the numeral beyond
infinity's threshold or below half a unit are answered without computing the power: `digits
< 10 ^ (digits.log2 + 1)`, and `10 ^ 310` and `10 ^ -330` lie outside the range. -/
def ofDecimal (negative : Bool) (digits : Nat) (exponent : Int) : Binary64 :=
  ofMagnitude negative <|
    if digits = 0 then 0
    else if 310 ≤ exponent then infinityMagnitude
    else if exponent + digits.log2 < -400 then 0
    else match exponent with
      | .ofNat power => nearest (digits * 10 ^ power * 2 ^ 1074) 1
      | .negSucc power => nearest (digits * 2 ^ 1074) (10 ^ (power + 1))

/-- A finite magnitude in units of `10 ^ -1074`, without rounding. -/
def exactDecimal (magnitude : Nat) : Nat :=
  unitsOfMagnitude magnitude * 5 ^ decimalPlaces

/-- The magnitude nearest to a whole number of units of `10 ^ -1074`. -/
def nearestToDecimal (decimal : Nat) : Nat :=
  nearest decimal (5 ^ decimalPlaces)

/-- The nearer of the neighbours of a number that qualify, if one does; the larger one when both
are equally near. -/
def nearerNeighbour? (qualifies : Nat → Bool) (number below above : Nat) : Option Nat :=
  match qualifies below, qualifies above with
  | true, true => some (if number - below < above - number then below else above)
  | true, false => some below
  | false, true => some above
  | false, false => none

/-- The nearer of the two multiples of `step` around the exact decimal that read back as the
magnitude, if one does. -/
def shortestOnGrid? (magnitude step : Nat) : Option Nat :=
  let exact := exactDecimal magnitude
  let below := exact / step * step
  nearerNeighbour? (nearestToDecimal · == magnitude) exact below (below + step)

/-- A decimal with the fewest significant digits that reads back as the magnitude. Seventeen
digits always suffice; the exact decimal stands behind the search. -/
def shortestDecimal (magnitude : Nat) : Nat :=
  let digitCount := (Nat.toDigits 10 (exactDecimal magnitude)).length
  let onGrid? := (List.range 17).findSome? fun index =>
    shortestOnGrid? magnitude (10 ^ (digitCount - (index + 1)))
  onGrid?.getD (exactDecimal magnitude)

/-- The digits of a decimal after its point, without trailing zeros but never none. -/
def fractionDigits (decimal : Nat) : List Char :=
  let padded := (Nat.toDigits 10 (10 ^ decimalPlaces + decimal % 10 ^ decimalPlaces)).tail
  match (padded.reverse.dropWhile (· == '0')).reverse with
  | [] => ['0']
  | digits => digits

/-- A decimal in positional notation. -/
def positionalDigits (decimal : Nat) : List Char :=
  Nat.toDigits 10 (decimal / 10 ^ decimalPlaces) ++ '.' :: fractionDigits decimal

/-- The text of a number. The sign of a zero is written, the sign of a NaN is not. -/
def text (number : Binary64) : String :=
  if number.isNaN then "NaN"
  else
    let unsigned :=
      if number.isInfinite then "inf".toList
      else positionalDigits (shortestDecimal number.magnitude)
    String.ofList (if number.isNegative then '-' :: unsigned else unsigned)

end Datalog.Binary64
