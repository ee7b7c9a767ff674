import ClassEngine.Code.Cursor

/-!
# Switch tables

A switch maps int keys to branch offsets, relative to the switch instruction.
A table switch lists the offsets of consecutive keys, a lookup switch lists
pairs of a key and its offset.
-/

namespace ClassEngine.Code

structure SwitchTable where
  default : Int32
  cases : List (Int32 × Int32)
  deriving DecidableEq, Repr

def SwitchTable.target (t : SwitchTable) (key : Int32) : Int32 :=
  match t.cases.find? (·.1 = key) with
  | some (_, offset) => offset
  | none => t.default

namespace Reader

def tableCases (key : Int32) : Nat → Reader (List (Int32 × Int32))
  | 0 => return []
  | count + 1 => do
    let offset ← i32
    return (key, offset) :: (← tableCases (key + 1) count)

def lookupCases : Nat → Reader (List (Int32 × Int32))
  | 0 => return []
  | count + 1 => do
    let key ← i32
    let offset ← i32
    return (key, offset) :: (← lookupCases count)

/-- The operands of a switch whose opcode has been read already. -/
def switch (op : Opcode) : Reader SwitchTable := do
  align
  let default ← i32
  match op.operation? with
  | some (.jump .tableSwitch) =>
    let low ← i32
    let high ← i32
    if high < low then throw (.emptyTable low high)
    let count := (high.toInt - low.toInt + 1).toNat
    need (4 * count)
    return ⟨default, ← tableCases low count⟩
  | some (.jump .lookupSwitch) =>
    let count ← i32
    if count < 0 then throw (.negativePairs count)
    need (8 * count.toInt.toNat)
    return ⟨default, ← lookupCases count.toInt.toNat⟩
  | _ => throw (.notASwitch op)

end Reader

end ClassEngine.Code
