import ClassEngine.Text.Numeral

/-!
# Scalars in project files

The spellings of numbers and of moments in time.  A value that is neither an
integer nor a text keeps only its spelling, since no setting is of such a kind.
-/

namespace ClassEngine.Toml

open Text

abbrev Key := List String

inductive Literal where
  | text (s : String)
  | integer (n : Int)
  | float (spelling : String)
  | boolean (b : Bool)
  | moment (spelling : String)
  | array (items : List Literal)
  | table (pairs : List (Key × Literal))

/-! ## Numbers -/

private def withoutUnderscores (digits : List Char) : List Char :=
  digits.filter (· ≠ '_')

def decimal? (digits : List Char) : Option Nat :=
  if underscoresFit false digits && (digits.length = 1 || digits.head? ≠ some '0') then
    some (numberIn 10 (withoutUnderscores digits))
  else none

def integer? (negative : Bool) (digits : List Char) : Option Int := do
  let n ← decimal? digits
  let value : Int := if negative then -n else n
  if fitsInteger value then some value else none

def integerIn? (base : Nat) (digits : List Char) : Option Int := do
  let first ← digits.head?
  let value : Int := numberIn base (withoutUnderscores digits)
  if digitValue first < base && underscoresFit false digits && fitsInteger value then some value
  else none

/-- Whether a decimal number `digits · 10 ^ exponent` lies beyond all numbers of double
precision: from half a unit above the largest one on. -/
def tooLarge (digits : Nat) (exponent : Int) : Bool :=
  let bound := Nat.pow 2 1024 - Nat.pow 2 970
  if digits = 0 then false
  else if exponent < 0 then bound * Nat.pow 10 (min exponent.natAbs (Nat.log2 digits + 1)) ≤ digits
  else if 400 < exponent then true
  else bound ≤ digits * Nat.pow 10 exponent.toNat

private def exponent? (spelling : List Char) : Option Int :=
  let (negative, digits) := match spelling with
    | '-' :: rest => (true, rest)
    | '+' :: rest => (false, rest)
    | rest => (false, rest)
  if digits.all (fun c => c.isDigit || c = '_') && underscoresFit false digits then
    let n : Int := numberIn 10 (withoutUnderscores digits)
    some (if negative then -n else n)
  else none

/-- The digits before the point, after it, and the exponent, of a number written with a
point or an exponent; each group of digits that is announced must be there. -/
def isFloat (spelling : List Char) : Bool :=
  let (mantissa, afterE) := spelling.span fun c => c ≠ 'e' && c ≠ 'E'
  let (whole, afterPoint) := mantissa.span (· ≠ '.')
  let (fraction, pointFits) := match afterPoint with
    | [] => ([], true)
    | _ :: fraction =>
      (fraction, fraction.all (fun c => c.isDigit || c = '_') && underscoresFit false fraction)
  let exponent := match afterE with
    | [] => some 0
    | _ :: digits => exponent? digits
  match decimal? whole, exponent with
  | some _, some e =>
    let fraction := withoutUnderscores fraction
    let digits := numberIn 10 (withoutUnderscores whole ++ fraction)
    pointFits && !tooLarge digits (e - fraction.length)
  | _, _ => false

/-! ## Moments -/

private def twoDigits? : List Char → Option (Nat × List Char)
  | a :: b :: rest => if a.isDigit && b.isDigit then some (numberIn 10 [a, b], rest) else none
  | _ => none

private def after? (c : Char) : List Char → Option (List Char)
  | d :: rest => if d = c then some rest else none
  | [] => none

def daysIn (year month : Nat) : Nat :=
  if month = 2 then
    if year % 4 = 0 && (year % 100 ≠ 0 || year % 400 = 0) then 29 else 28
  else if month = 4 || month = 6 || month = 9 || month = 11 then 30
  else 31

def afterDate? (s : List Char) : Option (List Char) := do
  let (century, s) ← twoDigits? s
  let (year, s) ← twoDigits? s
  let (month, s) ← twoDigits? (← after? '-' s)
  let (day, s) ← twoDigits? (← after? '-' s)
  if 1 ≤ month && month ≤ 12 && 1 ≤ day && day ≤ daysIn (100 * century + year) month then some s
  else none

/-- What follows a time of day; seconds and their fraction may be left out. -/
def afterTime? (s : List Char) : Option (List Char) := do
  let (hour, s) ← twoDigits? s
  let (minute, s) ← twoDigits? (← after? ':' s)
  if 24 ≤ hour || 60 ≤ minute then none
  else match s with
    | ':' :: rest => do
      let (second, s) ← twoDigits? rest
      if 60 ≤ second then none
      else match s with
        | '.' :: c :: rest => if c.isDigit then some (rest.dropWhile Char.isDigit) else some s
        | _ => some s
    | _ => some s

def isOffset : List Char → Bool
  | ['Z'] => true
  | sign :: rest =>
    (sign = '+' || sign = '-') &&
      match twoDigits? rest with
      | some (hour, ':' :: rest) =>
        match twoDigits? rest with
        | some (minute, []) => hour ≤ 24 && minute ≤ 60
        | _ => false
      | _ => false
  | [] => false

/-- A date, a time of day, or both with an optional offset; the letters between them may
be small, and a blank may stand for the `T`. -/
def isMoment (spelling : List Char) : Bool :=
  let s := spelling.map fun c => if c = 'z' then 'Z' else if c = 't' || c = ' ' then 'T' else c
  match afterDate? s with
  | some [] => true
  | some ('T' :: time) =>
    match afterTime? time with
    | some rest => rest.isEmpty || isOffset rest
    | none => false
  | some _ => false
  | none => afterTime? s = some []

end ClassEngine.Toml
