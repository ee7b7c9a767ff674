import ClassEngine.Code.Operation
import ClassEngine.FloatingPoint.Arith
import ClassEngine.Machine.Value

/-!
# Arithmetic of the machine

Integer operations wrap around.  Division rounds toward zero and fails only for
a zero divisor.  A shift uses the low five bits of its distance for ints and the
low six for longs.
-/

namespace ClassEngine.Machine

open Code

def intBinary : IntOp → Int32 → Int32 → Int32
  | .add, a, b => a + b
  | .sub, a, b => a - b
  | .mul, a, b => a * b
  | .shl, a, b => a <<< (b &&& 0x1f)
  | .shr, a, b => a >>> (b &&& 0x1f)
  | .ushr, a, b => (a.toUInt32 >>> (b.toUInt32 &&& 0x1f)).toInt32
  | .band, a, b => a &&& b
  | .bor, a, b => a ||| b
  | .bxor, a, b => a ^^^ b

def longBinary : LongOp → Int64 → Int64 → Int64
  | .add, a, b => a + b
  | .sub, a, b => a - b
  | .mul, a, b => a * b
  | .band, a, b => a &&& b
  | .bor, a, b => a ||| b
  | .bxor, a, b => a ^^^ b

def longShift : ShiftOp → Int64 → Int32 → Int64
  | .shl, a, b => a <<< (b &&& 0x3f).toInt64
  | .shr, a, b => a >>> (b &&& 0x3f).toInt64
  | .ushr, a, b => (a.toUInt64 >>> (b.toUInt32 &&& 0x3f).toUInt64).toInt64

def intDivide? : Division → Int32 → Int32 → Option Int32
  | .quotient, a, b => if b = 0 then none else some (a / b)
  | .remainder, a, b => if b = 0 then none else some (a % b)

def longDivide? : Division → Int64 → Int64 → Option Int64
  | .quotient, a, b => if b = 0 then none else some (a / b)
  | .remainder, a, b => if b = 0 then none else some (a % b)

def floatBinary : FloatOp → UInt32 → UInt32 → UInt32
  | .add => FloatingPoint.lift32 (· + ·)
  | .sub => FloatingPoint.lift32 (· - ·)
  | .mul => FloatingPoint.lift32 (· * ·)
  | .div => FloatingPoint.lift32 (· / ·)
  | .rem => FloatingPoint.remainder32

def doubleBinary : FloatOp → UInt64 → UInt64 → UInt64
  | .add => FloatingPoint.lift64 (· + ·)
  | .sub => FloatingPoint.lift64 (· - ·)
  | .mul => FloatingPoint.lift64 (· * ·)
  | .div => FloatingPoint.lift64 (· / ·)
  | .rem => FloatingPoint.remainder64

def convert : Conversion → Value → Value
  | .intToLong, v => .long v.asInt.toInt64
  | .intToFloat, v => .float (FloatingPoint.ofInt32Single v.asInt)
  | .intToDouble, v => .double (FloatingPoint.ofInt32Double v.asInt)
  | .longToInt, v => .int v.asLong.toInt32
  | .longToFloat, v => .float (FloatingPoint.ofInt64Single v.asLong)
  | .longToDouble, v => .double (FloatingPoint.ofInt64Double v.asLong)
  | .floatToInt, v => .int (FloatingPoint.toInt32 (FloatingPoint.widen v.asFloat))
  | .floatToLong, v => .long (FloatingPoint.toInt64 (FloatingPoint.widen v.asFloat))
  | .floatToDouble, v => .double (FloatingPoint.widen v.asFloat)
  | .doubleToInt, v => .int (FloatingPoint.toInt32 v.asDouble)
  | .doubleToLong, v => .long (FloatingPoint.toInt64 v.asDouble)
  | .doubleToFloat, v => .float (FloatingPoint.narrow v.asDouble)
  | .intToByte, v => .int v.asInt.toInt8.toInt32
  | .intToChar, v => .int v.asInt.toUInt32.toUInt16.toUInt32.toInt32
  | .intToShort, v => .int v.asInt.toInt16.toInt32

def longCompare (a b : Int64) : Int32 :=
  if a < b then -1 else if b < a then 1 else 0

/-- What a comparison with a number that is not one gives. -/
def unordered (nanIsGreater : Bool) : Int32 := if nanIsGreater then 1 else -1

def holds : Condition → Int32 → Int32 → Bool
  | .eq, a, b => a = b
  | .ne, a, b => a ≠ b
  | .lt, a, b => a < b
  | .ge, a, b => b ≤ a
  | .gt, a, b => b < a
  | .le, a, b => a ≤ b

/-- What an array with this element kind keeps of a stored value. -/
def narrowed (element : Char) (v : Value) : Value :=
  match element with
  | 'Z' => .int (v.asInt &&& 1)
  | 'B' => convert .intToByte v
  | 'C' => convert .intToChar v
  | 'S' => convert .intToShort v
  | _ => v

end ClassEngine.Machine
