/-!
# Operations of the stack machine

Opcodes that differ only in a constant, in a condition or in the static type of
their operands share one operation.  What follows an opcode in the code, its
operand layout, depends on the operation alone.
-/

namespace ClassEngine.Code

inductive IntOp where
  | add | sub | mul | shl | shr | ushr | band | bor | bxor
  deriving DecidableEq, Repr

inductive LongOp where
  | add | sub | mul | band | bor | bxor
  deriving DecidableEq, Repr

inductive ShiftOp where
  | shl | shr | ushr
  deriving DecidableEq, Repr

inductive Division where
  | quotient | remainder
  deriving DecidableEq, Repr

inductive FloatOp where
  | add | sub | mul | div | rem
  deriving DecidableEq, Repr

inductive Conversion where
  | intToLong | intToFloat | intToDouble
  | longToInt | longToFloat | longToDouble
  | floatToInt | floatToLong | floatToDouble
  | doubleToInt | doubleToLong | doubleToFloat
  | intToByte | intToChar | intToShort
  deriving DecidableEq, Repr

inductive Condition where
  | eq | ne | lt | ge | gt | le
  deriving DecidableEq, Repr

/-- Work on the current frame alone, after which the next instruction follows. -/
inductive DataOp where
  | nop
  | nullConst
  | intConst (n : Int)
  | longConst (n : Nat)
  | floatConst (n : Nat)
  | doubleConst (n : Nat)
  | pushByte
  | pushShort
  | load
  | loadSlot (slot : Nat)
  | store
  | storeSlot (slot : Nat)
  | increment
  | pop
  | pop2
  | dup (count skip : Nat)
  | swap
  | int (op : IntOp)
  | intDivide (part : Division)
  | intNegate
  | long (op : LongOp)
  | longShift (op : ShiftOp)
  | longDivide (part : Division)
  | longNegate
  | float (op : FloatOp)
  | floatNegate
  | double (op : FloatOp)
  | doubleNegate
  | convert (c : Conversion)
  | longCompare
  | floatCompare (nanIsGreater : Bool)
  | doubleCompare (nanIsGreater : Bool)
  deriving DecidableEq, Repr

inductive JumpOp where
  | ifZero (c : Condition)
  | ifInt (c : Condition)
  | ifRef (equal : Bool)
  | ifNull (null : Bool)
  | goto
  | gotoWide
  | callSubroutine
  | callSubroutineWide
  | leaveSubroutine
  | tableSwitch
  | lookupSwitch
  deriving DecidableEq, Repr

inductive ArrayOp where
  | load
  | store
  | storeRef
  | length
  | create
  | createRefs
  | createNested
  deriving DecidableEq, Repr

inductive ObjectOp where
  | literal
  | literalWide
  | getStatic
  | putStatic
  | getField
  | putField
  | create
  | checkCast
  | instanceOf
  | raise
  | monitor
  deriving DecidableEq, Repr

inductive InvokeOp where
  | virtual
  | special
  | static
  | interface
  | dynamic
  deriving DecidableEq, Repr

inductive Operation where
  | data (op : DataOp)
  | jump (op : JumpOp)
  | wide
  | array (op : ArrayOp)
  | object (op : ObjectOp)
  | invoke (op : InvokeOp)
  | returnValue
  | returnVoid
  deriving DecidableEq, Repr

inductive OperandLayout where
  | none
  | unsignedByte
  | signedByte
  | unsignedShort
  | signedShort
  | localAndDelta
  | branch
  | branchWide
  | indexAndCount
  | indexAndDimensions
  | switch
  | widened
  deriving DecidableEq, Repr

/-- The number of operand bytes, unless it depends on the position or on what follows. -/
def OperandLayout.size? : OperandLayout → Option Nat
  | .none => some 0
  | .unsignedByte | .signedByte => some 1
  | .unsignedShort | .signedShort | .localAndDelta | .branch => some 2
  | .indexAndDimensions => some 3
  | .branchWide | .indexAndCount => some 4
  | .switch | .widened => Option.none

def DataOp.layout : DataOp → OperandLayout
  | .pushByte => .signedByte
  | .pushShort => .signedShort
  | .load | .store => .unsignedByte
  | .increment => .localAndDelta
  | _ => .none

def JumpOp.layout : JumpOp → OperandLayout
  | .ifZero _ | .ifInt _ | .ifRef _ | .ifNull _ | .goto | .callSubroutine => .branch
  | .gotoWide | .callSubroutineWide => .branchWide
  | .leaveSubroutine => .unsignedByte
  | .tableSwitch | .lookupSwitch => .switch

def ArrayOp.layout : ArrayOp → OperandLayout
  | .create => .unsignedByte
  | .createRefs => .unsignedShort
  | .createNested => .indexAndDimensions
  | .load | .store | .storeRef | .length => .none

def ObjectOp.layout : ObjectOp → OperandLayout
  | .literal => .unsignedByte
  | .raise | .monitor => .none
  | _ => .unsignedShort

def InvokeOp.layout : InvokeOp → OperandLayout
  | .interface | .dynamic => .indexAndCount
  | .virtual | .special | .static => .unsignedShort

def Operation.layout : Operation → OperandLayout
  | .data op => op.layout
  | .jump op => op.layout
  | .wide => .widened
  | .array op => op.layout
  | .object op => op.layout
  | .invoke op => op.layout
  | .returnValue | .returnVoid => .none

def Operation.isBranch (o : Operation) : Bool :=
  o.layout = .branch || o.layout = .branchWide

def Operation.isReturn : Operation → Bool
  | .returnValue | .returnVoid => true
  | _ => false

def Operation.usesPool : Operation → Bool
  | .object .raise | .object .monitor => false
  | .object _ | .invoke _ | .array .createRefs | .array .createNested => true
  | _ => false

end ClassEngine.Code
