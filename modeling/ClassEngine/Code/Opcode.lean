import ClassEngine.Code.Operation
import ClassEngine.Text.Digits

/-!
# Opcodes

An opcode is the byte an instruction starts with.  The first 202 bytes are
defined; `instructionSet` lists their mnemonics and operations in byte order.
-/

namespace ClassEngine.Code

structure InstructionRow where
  mnemonic : String
  operation : Operation
  deriving DecidableEq, Repr

def instructionSet : Array InstructionRow := #[
  ⟨"nop", .data .nop⟩,
  ⟨"aconst_null", .data .nullConst⟩,
  ⟨"iconst_m1", .data (.intConst (-1))⟩,
  ⟨"iconst_0", .data (.intConst 0)⟩,
  ⟨"iconst_1", .data (.intConst 1)⟩,
  ⟨"iconst_2", .data (.intConst 2)⟩,
  ⟨"iconst_3", .data (.intConst 3)⟩,
  ⟨"iconst_4", .data (.intConst 4)⟩,
  ⟨"iconst_5", .data (.intConst 5)⟩,
  ⟨"lconst_0", .data (.longConst 0)⟩,
  ⟨"lconst_1", .data (.longConst 1)⟩,
  ⟨"fconst_0", .data (.floatConst 0)⟩,
  ⟨"fconst_1", .data (.floatConst 1)⟩,
  ⟨"fconst_2", .data (.floatConst 2)⟩,
  ⟨"dconst_0", .data (.doubleConst 0)⟩,
  ⟨"dconst_1", .data (.doubleConst 1)⟩,
  ⟨"bipush", .data .pushByte⟩,
  ⟨"sipush", .data .pushShort⟩,
  ⟨"ldc", .object .literal⟩,
  ⟨"ldc_w", .object .literalWide⟩,
  ⟨"ldc2_w", .object .literalWide⟩,
  ⟨"iload", .data .load⟩,
  ⟨"lload", .data .load⟩,
  ⟨"fload", .data .load⟩,
  ⟨"dload", .data .load⟩,
  ⟨"aload", .data .load⟩,
  ⟨"iload_0", .data (.loadSlot 0)⟩,
  ⟨"iload_1", .data (.loadSlot 1)⟩,
  ⟨"iload_2", .data (.loadSlot 2)⟩,
  ⟨"iload_3", .data (.loadSlot 3)⟩,
  ⟨"lload_0", .data (.loadSlot 0)⟩,
  ⟨"lload_1", .data (.loadSlot 1)⟩,
  ⟨"lload_2", .data (.loadSlot 2)⟩,
  ⟨"lload_3", .data (.loadSlot 3)⟩,
  ⟨"fload_0", .data (.loadSlot 0)⟩,
  ⟨"fload_1", .data (.loadSlot 1)⟩,
  ⟨"fload_2", .data (.loadSlot 2)⟩,
  ⟨"fload_3", .data (.loadSlot 3)⟩,
  ⟨"dload_0", .data (.loadSlot 0)⟩,
  ⟨"dload_1", .data (.loadSlot 1)⟩,
  ⟨"dload_2", .data (.loadSlot 2)⟩,
  ⟨"dload_3", .data (.loadSlot 3)⟩,
  ⟨"aload_0", .data (.loadSlot 0)⟩,
  ⟨"aload_1", .data (.loadSlot 1)⟩,
  ⟨"aload_2", .data (.loadSlot 2)⟩,
  ⟨"aload_3", .data (.loadSlot 3)⟩,
  ⟨"iaload", .array .load⟩,
  ⟨"laload", .array .load⟩,
  ⟨"faload", .array .load⟩,
  ⟨"daload", .array .load⟩,
  ⟨"aaload", .array .load⟩,
  ⟨"baload", .array .load⟩,
  ⟨"caload", .array .load⟩,
  ⟨"saload", .array .load⟩,
  ⟨"istore", .data .store⟩,
  ⟨"lstore", .data .store⟩,
  ⟨"fstore", .data .store⟩,
  ⟨"dstore", .data .store⟩,
  ⟨"astore", .data .store⟩,
  ⟨"istore_0", .data (.storeSlot 0)⟩,
  ⟨"istore_1", .data (.storeSlot 1)⟩,
  ⟨"istore_2", .data (.storeSlot 2)⟩,
  ⟨"istore_3", .data (.storeSlot 3)⟩,
  ⟨"lstore_0", .data (.storeSlot 0)⟩,
  ⟨"lstore_1", .data (.storeSlot 1)⟩,
  ⟨"lstore_2", .data (.storeSlot 2)⟩,
  ⟨"lstore_3", .data (.storeSlot 3)⟩,
  ⟨"fstore_0", .data (.storeSlot 0)⟩,
  ⟨"fstore_1", .data (.storeSlot 1)⟩,
  ⟨"fstore_2", .data (.storeSlot 2)⟩,
  ⟨"fstore_3", .data (.storeSlot 3)⟩,
  ⟨"dstore_0", .data (.storeSlot 0)⟩,
  ⟨"dstore_1", .data (.storeSlot 1)⟩,
  ⟨"dstore_2", .data (.storeSlot 2)⟩,
  ⟨"dstore_3", .data (.storeSlot 3)⟩,
  ⟨"astore_0", .data (.storeSlot 0)⟩,
  ⟨"astore_1", .data (.storeSlot 1)⟩,
  ⟨"astore_2", .data (.storeSlot 2)⟩,
  ⟨"astore_3", .data (.storeSlot 3)⟩,
  ⟨"iastore", .array .store⟩,
  ⟨"lastore", .array .store⟩,
  ⟨"fastore", .array .store⟩,
  ⟨"dastore", .array .store⟩,
  ⟨"aastore", .array .storeRef⟩,
  ⟨"bastore", .array .store⟩,
  ⟨"castore", .array .store⟩,
  ⟨"sastore", .array .store⟩,
  ⟨"pop", .data .pop⟩,
  ⟨"pop2", .data .pop2⟩,
  ⟨"dup", .data (.dup 1 0)⟩,
  ⟨"dup_x1", .data (.dup 1 1)⟩,
  ⟨"dup_x2", .data (.dup 1 2)⟩,
  ⟨"dup2", .data (.dup 2 0)⟩,
  ⟨"dup2_x1", .data (.dup 2 1)⟩,
  ⟨"dup2_x2", .data (.dup 2 2)⟩,
  ⟨"swap", .data .swap⟩,
  ⟨"iadd", .data (.int .add)⟩,
  ⟨"ladd", .data (.long .add)⟩,
  ⟨"fadd", .data (.float .add)⟩,
  ⟨"dadd", .data (.double .add)⟩,
  ⟨"isub", .data (.int .sub)⟩,
  ⟨"lsub", .data (.long .sub)⟩,
  ⟨"fsub", .data (.float .sub)⟩,
  ⟨"dsub", .data (.double .sub)⟩,
  ⟨"imul", .data (.int .mul)⟩,
  ⟨"lmul", .data (.long .mul)⟩,
  ⟨"fmul", .data (.float .mul)⟩,
  ⟨"dmul", .data (.double .mul)⟩,
  ⟨"idiv", .data (.intDivide .quotient)⟩,
  ⟨"ldiv", .data (.longDivide .quotient)⟩,
  ⟨"fdiv", .data (.float .div)⟩,
  ⟨"ddiv", .data (.double .div)⟩,
  ⟨"irem", .data (.intDivide .remainder)⟩,
  ⟨"lrem", .data (.longDivide .remainder)⟩,
  ⟨"frem", .data (.float .rem)⟩,
  ⟨"drem", .data (.double .rem)⟩,
  ⟨"ineg", .data .intNegate⟩,
  ⟨"lneg", .data .longNegate⟩,
  ⟨"fneg", .data .floatNegate⟩,
  ⟨"dneg", .data .doubleNegate⟩,
  ⟨"ishl", .data (.int .shl)⟩,
  ⟨"lshl", .data (.longShift .shl)⟩,
  ⟨"ishr", .data (.int .shr)⟩,
  ⟨"lshr", .data (.longShift .shr)⟩,
  ⟨"iushr", .data (.int .ushr)⟩,
  ⟨"lushr", .data (.longShift .ushr)⟩,
  ⟨"iand", .data (.int .band)⟩,
  ⟨"land", .data (.long .band)⟩,
  ⟨"ior", .data (.int .bor)⟩,
  ⟨"lor", .data (.long .bor)⟩,
  ⟨"ixor", .data (.int .bxor)⟩,
  ⟨"lxor", .data (.long .bxor)⟩,
  ⟨"iinc", .data .increment⟩,
  ⟨"i2l", .data (.convert .intToLong)⟩,
  ⟨"i2f", .data (.convert .intToFloat)⟩,
  ⟨"i2d", .data (.convert .intToDouble)⟩,
  ⟨"l2i", .data (.convert .longToInt)⟩,
  ⟨"l2f", .data (.convert .longToFloat)⟩,
  ⟨"l2d", .data (.convert .longToDouble)⟩,
  ⟨"f2i", .data (.convert .floatToInt)⟩,
  ⟨"f2l", .data (.convert .floatToLong)⟩,
  ⟨"f2d", .data (.convert .floatToDouble)⟩,
  ⟨"d2i", .data (.convert .doubleToInt)⟩,
  ⟨"d2l", .data (.convert .doubleToLong)⟩,
  ⟨"d2f", .data (.convert .doubleToFloat)⟩,
  ⟨"i2b", .data (.convert .intToByte)⟩,
  ⟨"i2c", .data (.convert .intToChar)⟩,
  ⟨"i2s", .data (.convert .intToShort)⟩,
  ⟨"lcmp", .data .longCompare⟩,
  ⟨"fcmpl", .data (.floatCompare false)⟩,
  ⟨"fcmpg", .data (.floatCompare true)⟩,
  ⟨"dcmpl", .data (.doubleCompare false)⟩,
  ⟨"dcmpg", .data (.doubleCompare true)⟩,
  ⟨"ifeq", .jump (.ifZero .eq)⟩,
  ⟨"ifne", .jump (.ifZero .ne)⟩,
  ⟨"iflt", .jump (.ifZero .lt)⟩,
  ⟨"ifge", .jump (.ifZero .ge)⟩,
  ⟨"ifgt", .jump (.ifZero .gt)⟩,
  ⟨"ifle", .jump (.ifZero .le)⟩,
  ⟨"if_icmpeq", .jump (.ifInt .eq)⟩,
  ⟨"if_icmpne", .jump (.ifInt .ne)⟩,
  ⟨"if_icmplt", .jump (.ifInt .lt)⟩,
  ⟨"if_icmpge", .jump (.ifInt .ge)⟩,
  ⟨"if_icmpgt", .jump (.ifInt .gt)⟩,
  ⟨"if_icmple", .jump (.ifInt .le)⟩,
  ⟨"if_acmpeq", .jump (.ifRef true)⟩,
  ⟨"if_acmpne", .jump (.ifRef false)⟩,
  ⟨"goto", .jump .goto⟩,
  ⟨"jsr", .jump .callSubroutine⟩,
  ⟨"ret", .jump .leaveSubroutine⟩,
  ⟨"tableswitch", .jump .tableSwitch⟩,
  ⟨"lookupswitch", .jump .lookupSwitch⟩,
  ⟨"ireturn", .returnValue⟩,
  ⟨"lreturn", .returnValue⟩,
  ⟨"freturn", .returnValue⟩,
  ⟨"dreturn", .returnValue⟩,
  ⟨"areturn", .returnValue⟩,
  ⟨"return", .returnVoid⟩,
  ⟨"getstatic", .object .getStatic⟩,
  ⟨"putstatic", .object .putStatic⟩,
  ⟨"getfield", .object .getField⟩,
  ⟨"putfield", .object .putField⟩,
  ⟨"invokevirtual", .invoke .virtual⟩,
  ⟨"invokespecial", .invoke .special⟩,
  ⟨"invokestatic", .invoke .static⟩,
  ⟨"invokeinterface", .invoke .interface⟩,
  ⟨"invokedynamic", .invoke .dynamic⟩,
  ⟨"new", .object .create⟩,
  ⟨"newarray", .array .create⟩,
  ⟨"anewarray", .array .createRefs⟩,
  ⟨"arraylength", .array .length⟩,
  ⟨"athrow", .object .raise⟩,
  ⟨"checkcast", .object .checkCast⟩,
  ⟨"instanceof", .object .instanceOf⟩,
  ⟨"monitorenter", .object .monitor⟩,
  ⟨"monitorexit", .object .monitor⟩,
  ⟨"wide", .wide⟩,
  ⟨"multianewarray", .array .createNested⟩,
  ⟨"ifnull", .jump (.ifNull true)⟩,
  ⟨"ifnonnull", .jump (.ifNull false)⟩,
  ⟨"goto_w", .jump .gotoWide⟩,
  ⟨"jsr_w", .jump .callSubroutineWide⟩]

structure Opcode where
  byte : UInt8
  deriving DecidableEq, Repr

namespace Opcode

def row? (op : Opcode) : Option InstructionRow :=
  instructionSet[op.byte.toNat]?

def operation? (op : Opcode) : Option Operation :=
  op.row?.map (·.operation)

def isDefined (op : Opcode) : Bool :=
  op.row?.isSome

def mnemonic (op : Opcode) : String :=
  match op.row? with
  | some row => row.mnemonic
  | none => "unknown_" ++ Text.hexLower 2 op.byte.toNat

/-- Undefined opcodes have no operands. -/
def layout (op : Opcode) : OperandLayout :=
  match op.operation? with
  | some o => o.layout
  | none => .none

def isBranch (op : Opcode) : Bool :=
  op.operation?.any Operation.isBranch

def isReturn (op : Opcode) : Bool :=
  op.operation?.any Operation.isReturn

def usesPool (op : Opcode) : Bool :=
  op.operation?.any Operation.usesPool

def iconst0 : Opcode := ⟨0x03⟩
def iconst1 : Opcode := ⟨0x04⟩
def bipush : Opcode := ⟨0x10⟩
def sipush : Opcode := ⟨0x11⟩
def iload : Opcode := ⟨0x15⟩
def aload : Opcode := ⟨0x19⟩
def iload0 : Opcode := ⟨0x1a⟩
def aload0 : Opcode := ⟨0x2a⟩
def aload1 : Opcode := ⟨0x2b⟩
def istore : Opcode := ⟨0x36⟩
def astore : Opcode := ⟨0x3a⟩
def istore0 : Opcode := ⟨0x3b⟩
def iinc : Opcode := ⟨0x84⟩
def ifAcmpne : Opcode := ⟨0xa6⟩
def tableswitch : Opcode := ⟨0xaa⟩
def lookupswitch : Opcode := ⟨0xab⟩
def ireturn : Opcode := ⟨0xac⟩
def areturn : Opcode := ⟨0xb0⟩
def returnVoid : Opcode := ⟨0xb1⟩
def getfield : Opcode := ⟨0xb4⟩
def putfield : Opcode := ⟨0xb5⟩
def invokespecial : Opcode := ⟨0xb7⟩
def invokeinterface : Opcode := ⟨0xb9⟩
def wide : Opcode := ⟨0xc4⟩
def multianewarray : Opcode := ⟨0xc5⟩

end Opcode

end ClassEngine.Code
