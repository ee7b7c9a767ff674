import ClassEngine.FloatingPoint.Format

/-!
# Arithmetic on floating-point words

Numbers are kept as words.  An operation whose result is not a number passes on
the first operand that is not a number, made quiet, and has a fixed word
otherwise.  The remainder has the sign of the dividend and is exact.
-/

namespace ClassEngine.FloatingPoint

def isNaN32 (w : UInt32) : Bool := w &&& 0x7fffffff > 0x7f800000

def isNaN64 (w : UInt64) : Bool := w &&& 0x7fffffffffffffff > 0x7ff0000000000000

def quiet32 (w : UInt32) : UInt32 := w ||| 0x00400000

def quiet64 (w : UInt64) : UInt64 := w ||| 0x0008000000000000

def lift32 (op : Float32 → Float32 → Float32) (a b : UInt32) : UInt32 :=
  if isNaN32 a then quiet32 a
  else if isNaN32 b then quiet32 b
  else
    let result := op (Float32.ofBits a) (Float32.ofBits b)
    if result.isNaN then 0xffc00000 else result.toBits

def lift64 (op : Float → Float → Float) (a b : UInt64) : UInt64 :=
  if isNaN64 a then quiet64 a
  else if isNaN64 b then quiet64 b
  else
    let result := op (Float.ofBits a) (Float.ofBits b)
    if result.isNaN then 0xfff8000000000000 else result.toBits

/-- The remainder of the division rounded toward zero, or `none` where it is not a number. -/
def Format.remainder? (f : Format) (a b : Nat) : Option Nat :=
  match f.decode a, f.decode b with
  | .nan, _ | _, .nan | .infinite, _ | _, .zero => none
  | .zero, _ | _, .infinite => some a
  | .finite x, .finite y =>
    let unit := min x.exponent y.exponent
    let m := x.mantissa * Nat.pow 2 (x.exponent - unit).toNat
    let n := y.mantissa * Nat.pow 2 (y.exponent - unit).toNat
    some (f.encode (f.negative a) (m % n) unit)

def remainder32 (a b : UInt32) : UInt32 :=
  ((Format.single.remainder? a.toNat b.toNat).map UInt32.ofNat).getD 0x7fc00000

def remainder64 (a b : UInt64) : UInt64 :=
  ((Format.double.remainder? a.toNat b.toNat).map UInt64.ofNat).getD 0x7ff8000000000001

def negate32 (w : UInt32) : UInt32 := w ^^^ 0x80000000

def negate64 (w : UInt64) : UInt64 := w ^^^ 0x8000000000000000

def widen (w : UInt32) : UInt64 :=
  if isNaN32 w then
    let sign : UInt64 := (w &&& 0x80000000).toUInt64 <<< 32
    let payload : UInt64 := (w &&& 0x003fffff).toUInt64 <<< 29
    sign ||| payload ||| 0x7ff8000000000000
  else (Float32.ofBits w).toFloat.toBits

def narrow (w : UInt64) : UInt32 :=
  if isNaN64 w then
    let sign : UInt32 := (w >>> 32).toUInt32 &&& 0x80000000
    let payload : UInt32 := (w >>> 29).toUInt32 &&& 0x003fffff
    sign ||| payload ||| 0x7fc00000
  else (Float.ofBits w).toFloat32.toBits

/-- Rounds toward zero; what is too large becomes the nearest int, and NaN zero. -/
def toInt32 (w : UInt64) : Int32 := (Float.ofBits w).toInt32

def toInt64 (w : UInt64) : Int64 := (Float.ofBits w).toInt64

def ofInt32Single (v : Int32) : UInt32 := v.toFloat32.toBits

def ofInt32Double (v : Int32) : UInt64 := v.toFloat.toBits

def ofInt64Single (v : Int64) : UInt32 := v.toFloat32.toBits

def ofInt64Double (v : Int64) : UInt64 := v.toFloat.toBits

def compare (a b : UInt64) (unordered : Int32) : Int32 :=
  if isNaN64 a || isNaN64 b then unordered
  else if Float.ofBits a < Float.ofBits b then -1
  else if Float.ofBits b < Float.ofBits a then 1
  else 0

end ClassEngine.FloatingPoint
