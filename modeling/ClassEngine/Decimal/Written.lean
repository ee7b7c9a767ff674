import ClassEngine.Decimal.Shortest

/-!
# Written form of floating-point numbers

Numbers are written with the fewest digits that read back.  Those from one
ten-thousandth up to a million are positional, all others have an exponent of at
least two digits.
-/

namespace ClassEngine.Decimal

open FloatingPoint

/-- The decimal exponents that are still written positionally. -/
structure Style where
  least : Int
  beyond : Int
  exponentWidth : Nat
  deriving DecidableEq, Repr

def Style.general : Style := ⟨-4, 6, 2⟩

private def digitText (digits : List Nat) : String :=
  String.ofList (digits.map fun d => Char.ofNat ('0'.toNat + d))

private def zeros (n : Nat) : String :=
  String.ofList (List.replicate n '0')

def Digits.positional (d : Digits) : String :=
  if d.point ≤ 0 then "0." ++ zeros (-d.point).toNat ++ digitText d.digits
  else
    let whole := d.point.toNat
    let padded := digitText (d.digits.take whole) ++ zeros (whole - d.digits.length)
    match d.digits.drop whole with
    | [] => padded
    | rest => padded ++ "." ++ digitText rest

def Digits.scientific (d : Digits) (width : Nat) : String :=
  let exponent := d.point - 1
  let sign := if exponent < 0 then "-" else "+"
  let magnitude := toString exponent.natAbs
  let mantissa := match d.digits with
    | [] => "0"
    | [first] => digitText [first]
    | first :: rest => digitText [first] ++ "." ++ digitText rest
  mantissa ++ "e" ++ sign ++ zeros (width - magnitude.length) ++ magnitude

def Digits.render (d : Digits) (n : Style) : String :=
  if n.least ≤ d.point - 1 && d.point - 1 < n.beyond then d.positional
  else d.scientific n.exponentWidth

def render (f : Format) (word : Nat) : String :=
  let sign := if f.negative word then "-" else ""
  match f.decode word with
  | .nan => "NaN"
  | .infinite => if f.negative word then "-Inf" else "+Inf"
  | .zero => sign ++ "0"
  | .finite value => sign ++ (shortest value).render .general

def renderSingle (bits : UInt32) : String := render .single bits.toNat

def renderDouble (bits : UInt64) : String := render .double bits.toNat

end ClassEngine.Decimal
