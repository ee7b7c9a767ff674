import ClassEngine.Machine.Arith
import ClassEngine.Machine.Frame

/-!
# Work on one frame

The operations that only touch the operand stack and the local variables of the
current frame.
-/

namespace ClassEngine.Machine

open Code

namespace FrameM

def intOp (f : Int32 → Int32 → Int32) : FrameM Unit := do
  let b ← popInt
  let a ← popInt
  pushInt (f a b)

def longOp (f : Int64 → Int64 → Int64) : FrameM Unit := do
  let b ← popLong
  let a ← popLong
  push (.long (f a b))

def floatOp (f : UInt32 → UInt32 → Value) : FrameM Unit := do
  let b ← popFloat
  let a ← popFloat
  push (f a b)

def doubleOp (f : UInt64 → UInt64 → Value) : FrameM Unit := do
  let b ← popDouble
  let a ← popDouble
  push (f a b)

def divideInts (part : Division) : FrameM Unit := do
  let b ← popInt
  let a ← popInt
  match intDivide? part a b with
  | some r => pushInt r
  | none => fault .divisionByZero

def divideLongs (part : Division) : FrameM Unit := do
  let b ← popLong
  let a ← popLong
  match longDivide? part a b with
  | some r => push (.long r)
  | none => fault .divisionByZero

def loadFrom (slot : Nat) : FrameM Unit := do
  push (← getLocal slot)

def storeTo (slot : Nat) : FrameM Unit := do
  setLocal slot (← pop)

/-- Adds to an int variable; the variable is read before the delta. -/
def increment (slot : Nat) (delta : FrameM Int32) : FrameM Unit := do
  let v ← getLocal slot
  setLocal slot (.int (v.asInt + (← delta)))

def data : DataOp → FrameM Unit
  | .nop => return
  | .nullConst => push .null
  | .intConst n => pushInt (Int32.ofInt n)
  | .longConst n => push (.long (Int64.ofNat n))
  | .floatConst n => push (.float (FloatingPoint.ofInt32Single (Int32.ofNat n)))
  | .doubleConst n => push (.double (FloatingPoint.ofInt32Double (Int32.ofNat n)))
  | .pushByte => do pushInt (← i8).toInt32
  | .pushShort => do pushInt (← i16).toInt32
  | .load => do loadFrom (← u8).toNat
  | .loadSlot slot => loadFrom slot
  | .store => do storeTo (← u8).toNat
  | .storeSlot slot => storeTo slot
  | .increment => do increment (← u8).toNat (return (← i8).toInt32)
  | .pop => do
    let _ ← pop
  | .pop2 => dropSlots 2
  | .dup count skip => dup count skip
  | .swap => swap
  | .int op => intOp (intBinary op)
  | .intDivide part => divideInts part
  | .intNegate => do pushInt (-(← popInt))
  | .long op => longOp (longBinary op)
  | .longShift op => do
    let distance ← popInt
    let a ← popLong
    push (.long (longShift op a distance))
  | .longDivide part => divideLongs part
  | .longNegate => do push (.long (-(← popLong)))
  | .float op => floatOp fun a b => .float (floatBinary op a b)
  | .floatNegate => do push (.float (FloatingPoint.negate32 (← popFloat)))
  | .double op => doubleOp fun a b => .double (doubleBinary op a b)
  | .doubleNegate => do push (.double (FloatingPoint.negate64 (← popDouble)))
  | .convert c => do push (convert c (← pop))
  | .longCompare => do
    let b ← popLong
    let a ← popLong
    pushInt (longCompare a b)
  | .floatCompare nanIsGreater =>
    floatOp fun a b => .int (FloatingPoint.compare (FloatingPoint.widen a)
      (FloatingPoint.widen b) (unordered nanIsGreater))
  | .doubleCompare nanIsGreater =>
    doubleOp fun a b => .int (FloatingPoint.compare a b (unordered nanIsGreater))

end FrameM

end ClassEngine.Machine
