import ClassEngine.Code.Switch

/-!
# Instructions

`decode` splits a code array into instructions.  Each instruction starts where
the one before it ended; decoding stops at the end of the code or at the first
instruction that cannot be read, and keeps what it read before.
-/

namespace ClassEngine.Code

inductive Operands where
  | values (vs : List Int)
  | table (t : SwitchTable)
  deriving DecidableEq, Repr

structure Instruction where
  pc : Nat
  op : Opcode
  widened : Bool
  operands : Operands
  deriving DecidableEq, Repr

def Instruction.values (i : Instruction) : List Int :=
  match i.operands with
  | .values vs => vs
  | .table _ => []

def Instruction.table? (i : Instruction) : Option SwitchTable :=
  match i.operands with
  | .values _ => none
  | .table t => some t

namespace Reader

/-- The operands after a `wide` modifier: a 16-bit local index, and a 16-bit delta for `iinc`. -/
def widened (op : Opcode) : Reader (List Int) := do
  let index ← u16
  match op.operation? with
  | some (.data .increment) => return [(index.toNat : Int), (← i16).toInt]
  | _ => return [(index.toNat : Int)]

def operands (op : Opcode) : Reader Operands := do
  match op.layout with
  | .none | .widened => return .values []
  | .unsignedByte => return .values [((← u8).toNat : Int)]
  | .signedByte => return .values [(← i8).toInt]
  | .unsignedShort => return .values [((← u16).toNat : Int)]
  | .signedShort | .branch => return .values [(← i16).toInt]
  | .branchWide => return .values [(← i32).toInt]
  | .localAndDelta =>
    let index ← u8
    return .values [(index.toNat : Int), (← i8).toInt]
  | .indexAndCount =>
    let index ← u16
    let count ← u8
    let _ ← u8
    return .values [(index.toNat : Int), (count.toNat : Int)]
  | .indexAndDimensions =>
    let index ← u16
    return .values [(index.toNat : Int), ((← u8).toNat : Int)]
  | .switch => return .table (← switch op)

def instruction : Reader Instruction := do
  let pc := (← get).pos
  let op ← opcode
  match op.operation? with
  | none => throw (.invalidOpcode op pc)
  | some .wide =>
    let inner ← opcode
    return ⟨pc, inner, true, .values (← widened inner)⟩
  | some _ => return ⟨pc, op, false, ← operands op⟩

end Reader

/-- Reads at most `fuel` instructions; as each takes at least one byte, as many
as there are bytes left suffice. -/
def decodeLoop : Nat → Cursor → List Instruction × Option ReadError
  | 0, _ => ([], none)
  | fuel + 1, c =>
    if c.hasMore then
      match Reader.instruction.run c with
      | .ok i c' =>
        let (rest, error) := decodeLoop fuel c'
        (i :: rest, error)
      | .error e _ => ([], some e)
    else ([], none)

def decode (code : Array UInt8) : List Instruction × Option ReadError :=
  decodeLoop code.size (Cursor.start code)

end ClassEngine.Code
