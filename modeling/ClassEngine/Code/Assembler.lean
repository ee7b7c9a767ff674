import ClassEngine.BigEndian
import ClassEngine.Code.Opcode
import ClassEngine.Text.Quoted

/-!
# Assembling code

An assembler collects instructions whose branches refer to labels.  A label may
be marked before or after it is used; `assemble` fills in the offsets, each
relative to the start of its instruction.
-/

namespace ClassEngine.Code

structure Label where
  name : String
  position? : Option Nat
  deriving DecidableEq, Repr

structure LabelId where
  index : Nat
  deriving DecidableEq, Repr

/-- An operand at `slot` to be filled with the distance from `origin` to a label. -/
structure Fixup where
  label : LabelId
  slot : Nat
  origin : Nat
  wide : Bool
  deriving DecidableEq, Repr

structure Assembler where
  bytes : Array UInt8 := #[]
  labels : Array Label := #[]
  fixups : Array Fixup := #[]
  deriving DecidableEq, Repr

inductive EmitError where
  | alreadyMarked (name : String)
  | constantTooWide (value : Int32)
  | unpairedKeys
  deriving DecidableEq, Repr

def EmitError.message : EmitError → String
  | .alreadyMarked name => s!"bytecode: label {Text.quote name} already marked"
  | .constantTooWide value => s!"bytecode: EmitInt({value.toInt}) needs a constant pool entry"
  | .unpairedKeys => "bytecode: lookupswitch keys and targets differ in length"

inductive AssembleError where
  | unresolved (name : String)
  | outOfRange (name : String) (origin : Nat)
  deriving DecidableEq, Repr

def AssembleError.message : AssembleError → String
  | .unresolved name => s!"unresolved label: {Text.quote name}"
  | .outOfRange name origin =>
    s!"branch offset out of range: {Text.quote name} at {origin}"

namespace Assembler

def size (a : Assembler) : Nat := a.bytes.size

def emitBytes (a : Assembler) (bs : List UInt8) : Assembler :=
  { a with bytes := a.bytes ++ bs }

def emit (a : Assembler) (ops : List Opcode) : Assembler :=
  a.emitBytes (ops.map (·.byte))

def emitByte (a : Assembler) (op : Opcode) (operand : UInt8) : Assembler :=
  a.emitBytes [op.byte, operand]

def emitInt8 (a : Assembler) (op : Opcode) (operand : Int8) : Assembler :=
  a.emitByte op operand.toUInt8

def emitUInt16 (a : Assembler) (op : Opcode) (operand : UInt16) : Assembler :=
  a.emitBytes (op.byte :: BigEndian.bytes16 operand)

def emitInt16 (a : Assembler) (op : Opcode) (operand : Int16) : Assembler :=
  a.emitUInt16 op operand.toUInt16

/-- An increment takes the wide form when the local or the delta needs it. -/
def emitIncrement (a : Assembler) (index : UInt16) (delta : Int16) : Assembler :=
  if index > 255 || delta < -128 || delta > 127 then
    a.emitBytes ([Opcode.wide.byte, Opcode.iinc.byte] ++ BigEndian.bytes16 index ++
      BigEndian.bytes16 delta.toUInt16)
  else
    a.emitBytes [Opcode.iinc.byte, index.toUInt8, delta.toUInt16.toUInt8]

/-- The one-byte form for local 0 of an indexed load or store. -/
def shortForm? (op : Opcode) : Option UInt8 :=
  if Opcode.iload.byte ≤ op.byte && op.byte ≤ Opcode.aload.byte then
    some (Opcode.iload0.byte + (op.byte - Opcode.iload.byte) * 4)
  else if Opcode.istore.byte ≤ op.byte && op.byte ≤ Opcode.astore.byte then
    some (Opcode.istore0.byte + (op.byte - Opcode.istore.byte) * 4)
  else none

/-- A load or store takes the shortest of its one-byte, two-byte and wide forms. -/
def emitLocal (a : Assembler) (op : Opcode) (index : UInt16) : Assembler :=
  match shortForm? op with
  | none => a.emitByte op index.toUInt8
  | some short =>
    if index ≤ 3 then a.emitBytes [short + index.toUInt8]
    else if index ≤ 255 then a.emitByte op index.toUInt8
    else a.emitBytes ([Opcode.wide.byte, op.byte] ++ BigEndian.bytes16 index)

/-- Pushes an int that needs no pool entry, in the shortest form. -/
def emitInt (a : Assembler) (v : Int32) : Except EmitError Assembler :=
  if -1 ≤ v && v ≤ 5 then
    .ok (a.emitBytes [Opcode.iconst0.byte + v.toUInt32.toUInt8])
  else if -128 ≤ v && v ≤ 127 then .ok (a.emitInt8 .bipush v.toInt8)
  else if -32768 ≤ v && v ≤ 32767 then .ok (a.emitInt16 .sipush v.toInt16)
  else .error (.constantTooWide v)

def emitInvokeInterface (a : Assembler) (index : UInt16) (count : UInt8) : Assembler :=
  a.emitBytes ([Opcode.invokeinterface.byte] ++ BigEndian.bytes16 index ++ [count, 0])

def emitMultiNewArray (a : Assembler) (index : UInt16) (dimensions : UInt8) : Assembler :=
  a.emitBytes ([Opcode.multianewarray.byte] ++ BigEndian.bytes16 index ++ [dimensions])

/-! ## Labels -/

def newLabel (a : Assembler) (name : String) : LabelId × Assembler :=
  (⟨a.labels.size⟩, { a with labels := a.labels.push ⟨name, none⟩ })

def position? (a : Assembler) (l : LabelId) : Option Nat :=
  a.labels[l.index]?.bind (·.position?)

def labelName (a : Assembler) (l : LabelId) : String :=
  (a.labels[l.index]?.map (·.name)).getD ""

def mark (a : Assembler) (l : LabelId) : Except EmitError Assembler :=
  match a.position? l with
  | some _ => .error (.alreadyMarked (a.labelName l))
  | none =>
    .ok { a with labels := a.labels.modify l.index ({ · with position? := some a.size }) }

def here (a : Assembler) (name : String) : LabelId × Assembler :=
  (⟨a.labels.size⟩, { a with labels := a.labels.push ⟨name, some a.size⟩ })

def reserve (a : Assembler) (origin : Nat) (wide : Bool) (l : LabelId) : Assembler :=
  { a with
    fixups := a.fixups.push ⟨l, a.size, origin, wide⟩
    bytes := a.bytes ++ List.replicate (if wide then 4 else 2) (0 : UInt8) }

def emitJump (a : Assembler) (op : Opcode) (l : LabelId) : Assembler :=
  (a.emitBytes [op.byte]).reserve a.size false l

def emitJumpWide (a : Assembler) (op : Opcode) (l : LabelId) : Assembler :=
  (a.emitBytes [op.byte]).reserve a.size true l

def pad (a : Assembler) : Assembler :=
  a.emitBytes (List.replicate ((4 - a.size % 4) % 4) 0)

def emitWord (a : Assembler) (v : Int32) : Assembler :=
  a.emitBytes (BigEndian.bytes32 v.toUInt32)

def emitTableSwitch (a : Assembler) (default : LabelId) (low : Int32) (targets : List LabelId) :
    Assembler :=
  let origin := a.size
  let a := ((a.emit [.tableswitch]).pad.reserve origin true default).emitWord low
  let a := a.emitWord (low + Int32.ofInt targets.length - 1)
  targets.foldl (fun a l => a.reserve origin true l) a

/-- Pairs keys with targets; the pairs are emitted by increasing key. -/
def emitLookupSwitch (a : Assembler) (default : LabelId) (keys : List Int32)
    (targets : List LabelId) : Except EmitError Assembler :=
  if keys.length = targets.length then
    let origin := a.size
    let a := ((a.emit [.lookupswitch]).pad.reserve origin true default).emitWord
      (Int32.ofInt keys.length)
    let sorted := (keys.zip targets).mergeSort fun p q => p.1 ≤ q.1
    .ok (sorted.foldl (fun a (key, l) => (a.emitWord key).reserve origin true l) a)
  else .error .unpairedKeys

/-! ## Filling in the offsets -/

/-- Puts bytes in the place of those from a slot on. -/
def write (bytes : Array UInt8) (slot : Nat) (bs : List UInt8) : Array UInt8 :=
  (bs.foldl (fun (bytes, i) b => (bytes.set! i b, i + 1)) (bytes, slot)).1

def fill (a : Assembler) (bytes : Array UInt8) (f : Fixup) : Except AssembleError (Array UInt8) :=
  match a.position? f.label with
  | none => .error (.unresolved (a.labelName f.label))
  | some position =>
    let offset : Int := (position : Int) - f.origin
    if f.wide then
      .ok (write bytes f.slot (BigEndian.bytes32 (Int32.ofInt offset).toUInt32))
    else if -32768 ≤ offset && offset ≤ 32767 then
      .ok (write bytes f.slot (BigEndian.bytes16 (Int16.ofInt offset).toUInt16))
    else .error (.outOfRange (a.labelName f.label) f.origin)

/-- The finished code, or the first label reference that cannot be filled in. -/
def assemble (a : Assembler) : Except AssembleError (Array UInt8) :=
  a.fixups.foldlM a.fill a.bytes

/-- Fills in offsets in place, up to the first that cannot be filled in. -/
def patch (a : Assembler) : List Fixup → Array UInt8 → Option AssembleError × Array UInt8
  | [], bytes => (none, bytes)
  | f :: fixups, bytes =>
    match a.fill bytes f with
    | .ok bytes => a.patch fixups bytes
    | .error e => (some e, bytes)

/-- The outcome of `assemble`, and the assembler with the offsets that were filled in on the
way. -/
def finish (a : Assembler) : Except AssembleError (Array UInt8) × Assembler :=
  let (error?, bytes) := a.patch a.fixups.toList a.bytes
  let outcome := match error? with
    | none => .ok bytes
    | some e => .error e
  (outcome, { a with bytes })

end Assembler

end ClassEngine.Code
