/-!
# Numerals

Digits up to sixteen, and underscores between them.
-/

namespace ClassEngine.Text

/-- Sixteen for a character that is no digit. -/
def digitValue (c : Char) : Nat :=
  if c.isDigit then c.toNat - 48
  else if 'a' ≤ c && c ≤ 'f' then c.toNat - 87
  else if 'A' ≤ c && c ≤ 'F' then c.toNat - 55
  else 16

def isHexDigit (c : Char) : Bool := digitValue c < 16

def numberIn (base : Nat) (digits : List Char) : Nat :=
  digits.foldl (fun n c => base * n + digitValue c) 0

/-- Underscores stand between digits, and a digit comes last. -/
def underscoresFit : (afterDigit : Bool) → List Char → Bool
  | afterDigit, [] => afterDigit
  | afterDigit, c :: rest => (c ≠ '_' || afterDigit) && underscoresFit (isHexDigit c) rest

def fitsInteger (n : Int) : Bool := -0x8000000000000000 ≤ n && n < 0x8000000000000000

/-! ## Numerals with a base -/

inductive NumeralError where
  | malformed
  | outOfRange
  deriving DecidableEq, Repr

/-- Reads digits; a number beyond 64 bits is refused as soon as it gets there. -/
def readDigits (base : Nat) : (value : Nat) → List Char → Except NumeralError Nat
  | value, [] => .ok value
  | value, c :: rest =>
    if c = '_' then readDigits base value rest
    else if base ≤ digitValue c then .error .malformed
    else if 0x10000000000000000 ≤ base * value + digitValue c then .error .outOfRange
    else readDigits base (base * value + digitValue c) rest

/-- The base that a numeral announces, and its digits.  A leading zero announces base
eight, unless a letter after it and a further character announce another. -/
def announcedBase : List Char → Nat × List Char
  | '0' :: mark :: c :: rest =>
    if mark = 'b' ∨ mark = 'B' then (2, c :: rest)
    else if mark = 'o' ∨ mark = 'O' then (8, c :: rest)
    else if mark = 'x' ∨ mark = 'X' then (16, c :: rest)
    else (8, mark :: c :: rest)
  | '0' :: rest => (8, rest)
  | digits => (10, digits)

def readInteger (text : String) : Except NumeralError Int := do
  let (negative, digits) := match text.toList with
    | '-' :: rest => (true, rest)
    | '+' :: rest => (false, rest)
    | rest => (false, rest)
  if digits.isEmpty then throw .malformed
  let (base, tail) := announcedBase digits
  let n ← readDigits base 0 tail
  if tail.contains '_' && !underscoresFit (base ≠ 10) tail then throw .malformed
  let value : Int := if negative then -n else n
  if fitsInteger value then return value else throw .outOfRange

end ClassEngine.Text
