/-!
# Binary floating-point words

A word of a binary format holds a sign, a biased exponent and a mantissa.
`Format.decode` gives the magnitude it stands for and `Format.encode` writes an
exactly representable magnitude back.
-/

namespace ClassEngine.FloatingPoint

/-- A binary floating-point format: stored mantissa bits and exponent bits. -/
structure Format where
  mantissaBits : Nat
  exponentBits : Nat
  deriving DecidableEq, Repr

def Format.single : Format := ⟨23, 8⟩

def Format.double : Format := ⟨52, 11⟩

def Format.bias (f : Format) : Int := (Nat.pow 2 (f.exponentBits - 1) : Nat) - 1

/-- A positive number `mantissa * 2 ^ exponent`, with the fact whether the next
smaller number is only half as far away as the next larger one. -/
structure Binary where
  mantissa : Nat
  exponent : Int
  narrowBelow : Bool
  deriving DecidableEq, Repr

inductive Decoded where
  | nan
  | infinite
  | zero
  | finite (value : Binary)
  deriving DecidableEq, Repr

/-- The magnitude stored in the low bits of a word; the sign bit is dropped. -/
def Format.decode (f : Format) (word : Nat) : Decoded :=
  let fraction := word % Nat.pow 2 f.mantissaBits
  let raised := word / Nat.pow 2 f.mantissaBits % Nat.pow 2 f.exponentBits
  let unit : Int := 1 - f.bias - f.mantissaBits
  if raised = Nat.pow 2 f.exponentBits - 1 then
    if fraction = 0 then .infinite else .nan
  else if raised = 0 then
    if fraction = 0 then .zero else .finite ⟨fraction, unit, false⟩
  else
    .finite ⟨Nat.pow 2 f.mantissaBits + fraction, unit + raised - 1,
      fraction = 0 && 1 < raised⟩

def Format.negative (f : Format) (word : Nat) : Bool :=
  word / Nat.pow 2 (f.mantissaBits + f.exponentBits) % 2 = 1

def Format.signBit (f : Format) : Nat := Nat.pow 2 (f.mantissaBits + f.exponentBits)

/-- The word of `mantissa * 2 ^ exponent`, which must be representable: a
mantissa too wide or too narrow for the format is shifted by whole powers of two. -/
def Format.encode (f : Format) (negative : Bool) (mantissa : Nat) (exponent : Int) : Nat :=
  let sign := if negative then f.signBit else 0
  if mantissa = 0 then sign
  else
    let least : Int := 1 - f.bias - f.mantissaBits
    let top : Int := Nat.log2 mantissa + exponent
    let unit := max least (top - f.mantissaBits)
    let scaled := mantissa * Nat.pow 2 (exponent - unit).toNat / Nat.pow 2 (unit - exponent).toNat
    let hidden := Nat.pow 2 f.mantissaBits
    if scaled < hidden then sign + scaled
    else sign + (unit - least + 1).toNat * hidden + (scaled - hidden)

end ClassEngine.FloatingPoint
