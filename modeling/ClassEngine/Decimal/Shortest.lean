import ClassEngine.FloatingPoint.Format

/-!
# Shortest decimal digits of a binary number

A positive binary number is `mantissa * 2 ^ exponent`.  Reading a decimal rounds
to the nearest binary number of the same format, a tie going to the even
mantissa, so the decimals that read back as a given number form an interval
around it; its ends belong to it exactly when the mantissa is even.  `shortest`
returns the fewest digits whose decimal lies in that interval, and of two such
decimals the nearer one, an exact tie going to the even last digit.
-/

namespace ClassEngine.Decimal

open FloatingPoint

structure Digits where
  digits : List Nat
  point : Int
  deriving DecidableEq, Repr

/-- A scale `num / den` that turns quarters of a mantissa unit into the real value. -/
private def quarterScale (exponent : Int) : Nat × Nat :=
  if 2 ≤ exponent then (Nat.pow 2 (exponent - 2).toNat, 1) else (1, Nat.pow 2 (2 - exponent).toNat)

private def leadingPoint (num den : Nat) : Int :=
  if den ≤ num then (Nat.toDigits 10 (num / den)).length
  else
    let missing := (Nat.toDigits 10 (den / num)).length
    if den ≤ num * Nat.pow 10 (missing - 1) then 2 - (missing : Int) else 1 - (missing : Int)

private def decimalDigits (n : Nat) : List Nat :=
  (Nat.toDigits 10 n).map fun c => c.toNat - '0'.toNat

private def dropTrailingZeros (digits : List Nat) : List Nat :=
  (digits.reverse.dropWhile (· = 0)).reverse

/-- Tries one more digit per step; `grid` numbers of the current length are
multiples of `10 ^ (point - count)`. -/
private def search (low value high den : Nat) (inclusive : Bool) (point : Int) :
    Nat → Nat → Digits
  | 0, count => ⟨decimalDigits (value / den), count⟩
  | fuel + 1, count =>
    let place : Int := point - count
    let up := Nat.pow 10 place.toNat
    let down := Nat.pow 10 (-place).toNat
    let below := value * down / (den * up)
    let above := below + 1
    let inside (a b : Nat) : Bool := a < b || (inclusive && a = b)
    let lowOk := inside (low * down) (below * (den * up))
    let highOk := inside (above * (den * up)) (high * down)
    let result (n : Nat) : Digits :=
      let digits := decimalDigits n
      ⟨dropTrailingZeros digits, point + digits.length - count⟩
    let gapBelow := value * down - below * (den * up)
    let gapAbove := above * (den * up) - value * down
    if gapBelow = 0 then result below
    else match lowOk, highOk with
      | true, true =>
        if gapBelow < gapAbove || (gapBelow = gapAbove && below % 2 = 0) then result below
        else result above
      | true, false => result below
      | false, true => result above
      | false, false => search low value high den inclusive point fuel (count + 1)

def shortest (b : Binary) : Digits :=
  let (num, den) := quarterScale b.exponent
  let value := 4 * b.mantissa * num
  let low := (4 * b.mantissa - if b.narrowBelow then 1 else 2) * num
  let high := (4 * b.mantissa + 2) * num
  search low value high den (b.mantissa % 2 = 0) (leadingPoint value den) 17 1

end ClassEngine.Decimal
