import ClassEngine.Code.Opcode
import ClassEngine.Machine.DataOps

/-!
# Transfers of control within a method

A conditional jump reads its offset before it looks at the stack, a switch looks
at the stack first.  A table switch reads only the entry it selects; a lookup
switch halves the range of its pairs, which are in the order of their keys.
-/

namespace ClassEngine.Machine

open Code

namespace FrameM

def tableSwitch (key : Int32) : FrameM Int32 := do
  align
  let default ← i32
  let low ← i32
  let high ← i32
  if high < low then defectAt fun method pc => .emptyTable method pc high low
  else if key < low || high < key then return default
  else
    skip (4 * (key.toInt - low.toInt).toNat)
    i32

/-- The offset paired with a key among the pairs numbered from `lo` up to `hi`. -/
def searchPairs (code : Array UInt8) (base : Nat) (key : Int32) (lo hi : Nat) : Option Int32 :=
  if lo < hi then
    let mid := (lo + hi) / 2
    match BigEndian.read32? code (base + 8 * mid), BigEndian.read32? code (base + 8 * mid + 4) with
    | some k, some offset =>
      if k.toInt32 = key then some offset.toInt32
      else if k.toInt32 < key then searchPairs code base key (mid + 1) hi
      else searchPairs code base key lo mid
    | _, _ => none
  else none
termination_by hi - lo

def lookupSwitch (key : Int32) : FrameM Int32 := do
  align
  let default ← i32
  let count ← i32
  if count < 0 then defectAt fun method pc => .negativePairs method pc count
  else
    need (8 * count.toInt.toNat)
    let f ← get
    return (searchPairs f.body.code f.pc key 0 count.toInt.toNat).getD default

def branchIf (offset : Int16) (condition : Bool) : FrameM Unit :=
  if condition then branch offset.toInt else return

def callSubroutine (offset : Int) : FrameM Unit := do
  push (.returnAddress (UInt64.ofNat (← get).pc))
  branch offset

def leaveSubroutine (slot : Nat) : FrameM Unit := do
  match ← getLocal slot with
  | .returnAddress pc => modify fun f => { f with pc := pc.toNat }
  | v => defectAt (.notAReturnAddress v.kind)

def jump : JumpOp → FrameM Unit
  | .ifZero c => do
    let offset ← i16
    branchIf offset (holds c (← popInt) 0)
  | .ifInt c => do
    let offset ← i16
    let b ← popInt
    let a ← popInt
    branchIf offset (holds c a b)
  | .ifRef equal => do
    let offset ← i16
    let b ← popRef
    let a ← popRef
    branchIf offset (decide (a = b) == equal)
  | .ifNull null => do
    let offset ← i16
    branchIf offset ((← pop).isNull == null)
  | .goto => do branch (← i16).toInt
  | .gotoWide => do branch (← i32).toInt
  | .callSubroutine => do callSubroutine (← i16).toInt
  | .callSubroutineWide => do callSubroutine (← i32).toInt
  | .leaveSubroutine => do leaveSubroutine (← u8).toNat
  | .tableSwitch => do branch (← tableSwitch (← popInt)).toInt
  | .lookupSwitch => do branch (← lookupSwitch (← popInt)).toInt

/-- The instruction after a `wide` modifier, with a 16-bit local index. -/
def widened : FrameM Unit := do
  let op : Opcode := ⟨← u8⟩
  let slot := (← u16).toNat
  match op.operation? with
  | some (.data .load) => loadFrom slot
  | some (.data .store) => storeTo slot
  | some (.data .increment) => increment slot (return (← i16).toInt32)
  | some (.jump .leaveSubroutine) => leaveSubroutine slot
  | _ => defectAt (.wideOpcode op.mnemonic)

end FrameM

end ClassEngine.Machine
