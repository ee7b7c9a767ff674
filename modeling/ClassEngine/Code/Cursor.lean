import ClassEngine.BigEndian
import ClassEngine.Code.Opcode

/-!
# Reading code

A cursor is a position in a code array.  Reading moves it; a failed read leaves
it where the missing operand would have started.
-/

namespace ClassEngine.Code

structure Cursor where
  code : Array UInt8
  pos : Nat
  deriving DecidableEq, Repr

inductive ReadError where
  | truncated (pos : Nat)
  | invalidOpcode (op : Opcode) (pc : Nat)
  | emptyTable (low high : Int32)
  | negativePairs (count : Int32)
  | notASwitch (op : Opcode)
  deriving DecidableEq, Repr

def ReadError.message : ReadError → String
  | .truncated pos => s!"truncated instruction at {pos}"
  | .invalidOpcode op pc => s!"invalid opcode 0x{Text.hexLower 2 op.byte.toNat} at {pc}"
  | .emptyTable low high => s!"tableswitch: high {high.toInt} < low {low.toInt}"
  | .negativePairs count => s!"lookupswitch: negative pair count {count.toInt}"
  | .notASwitch op => s!"ReadSwitch: {op.mnemonic} is not a switch"

abbrev Reader := EStateM ReadError Cursor

namespace Cursor

def start (code : Array UInt8) : Cursor := ⟨code, 0⟩

def hasMore (c : Cursor) : Bool := c.pos < c.code.size

def seek (c : Cursor) (pos : Nat) : Cursor := { c with pos }

/-- The next multiple of four, where the operands of a switch start. -/
def align (c : Cursor) : Cursor := { c with pos := (c.pos + 3) / 4 * 4 }

end Cursor

namespace Reader

def need (count : Nat) : Reader Unit := fun c =>
  if c.code.size < c.pos + count then .error (.truncated c.pos) c else .ok () c

def take {α : Type} (width : Nat) (value? : Array UInt8 → Nat → Option α) : Reader α :=
  fun c =>
    match value? c.code c.pos with
    | some v => .ok v { c with pos := c.pos + width }
    | none => .error (.truncated c.pos) c

def u8 : Reader UInt8 := take 1 fun code pos => code[pos]?

def u16 : Reader UInt16 := take 2 BigEndian.read16?

def u32 : Reader UInt32 := take 4 BigEndian.read32?

def i8 : Reader Int8 := return (← u8).toInt8

def i16 : Reader Int16 := return (← u16).toInt16

def i32 : Reader Int32 := return (← u32).toInt32

def opcode : Reader Opcode := return ⟨← u8⟩

def align : Reader Unit := modify Cursor.align

end Reader

end ClassEngine.Code
