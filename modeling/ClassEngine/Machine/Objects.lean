import ClassEngine.Code.Opcode
import ClassEngine.Machine.Resolution

/-!
# Arrays, fields and objects

The operations on the heap and on static fields.  Those that use a class for the
first time initialize it, by `prepare`.
-/

namespace ClassEngine.Machine

open Code

namespace Exec

/-- The class of the current method, whose pool its code refers to. -/
def currentClass : Exec ClassId := return (← currentFrame).method.id.owner

def unsupported {α : Type} (text : String) : Exec α := do
  let f ← currentFrame
  fault (.unsupportedOpcode text f.method.render f.opPc)

/-! ## Arrays -/

def baseArrayName? (code : UInt8) : Option String :=
  match code.toNat with
  | 4 => some "[Z"
  | 5 => some "[C"
  | 6 => some "[F"
  | 7 => some "[D"
  | 8 => some "[B"
  | 9 => some "[S"
  | 10 => some "[I"
  | 11 => some "[J"
  | _ => none

def pushArray (id : ClassId) : Exec Unit := do
  let length ← onFrame .popInt
  let r ← allocArray id length
  onFrame (.push (.ref r))

def checkElement (array : Ref) (v : Value) : Exec Unit := do
  if v.isNull then return
  let ac ← classAt (← classOf array)
  let vid ← classOf v.asRef
  match ac.component? with
  | none => return
  | some component =>
    if (← get).registry.classes.isAssignable vid component then return
    else fault (.arrayStore (← classAt vid).name ac.name)

def array : ArrayOp → Exec Unit
  | .load => do
    let index ← onFrame .popInt
    let r ← onFrame .popRef
    let v ← loadElement r index
    onFrame (.push v)
  | .store => do
    let v ← onFrame .pop
    let index ← onFrame .popInt
    let r ← onFrame .popRef
    storeElement r index v
  | .storeRef => do
    let v ← onFrame .pop
    let index ← onFrame .popInt
    let r ← onFrame .popRef
    let _ ← loadElement r index
    checkElement r v
    storeElement r index v
  | .length => do
    let r ← onFrame .popRef
    let length ← ofExcept ((← get).heap.arrayLength r)
    onFrame (.pushInt (Int32.ofNat length))
  | .create => do
    let code ← onFrame .u8
    match baseArrayName? code with
    | none => onFrame (.defectAt (.arrayType code.toNat))
    | some name => pushArray (← loadClass name)
  | .createRefs => do
    let index ← onFrame .u16
    let element ← resolveClass (← currentClass) index
    pushArray (← arrayOf element)
  | .createNested => unsupported "multianewarray"

/-! ## Fields -/

def staticField (prepare : ClassId → Exec Unit) : Exec Field := do
  let index ← onFrame .u16
  let f ← resolveField (← currentClass) index
  if f.isStatic then
    prepare f.id.owner
    return f
  else fault (.incompatible (f.render ++ " is not static"))

def instanceField : Exec Field := do
  let index ← onFrame .u16
  let f ← resolveField (← currentClass) index
  if f.isStatic then fault (.incompatible (f.render ++ " is static")) else return f

/-- The object whose field is meant, if it has that field. -/
def fieldHolder (f : Field) (r : Ref) : Exec Object := do
  match (← get).heap.get? r with
  | none => fault (.nullPointer (some ("field " ++ f.name)))
  | some o =>
    let c ← classAt o.classId
    if f.slot < o.fields.size && (c.layout[f.slot]?).any (·.id = f.id) then return o
    else fault (.noSuchField (f.render ++ " on " ++ c.name))

/-! ## Objects -/

def castCheck (v : Value) (index : UInt16) : Exec Unit := do
  if v.isNull then return
  let target ← resolveClass (← currentClass) index
  let id ← classOf v.asRef
  if (← get).registry.classes.isAssignable id target then return
  else fault (.classCast (← classAt id).name (← classAt target).name)

def isInstance (v : Value) (target : ClassId) : Exec Bool := do
  if v.isNull then return false
  let id ← classOf v.asRef
  return (← get).registry.classes.isAssignable id target

def pushLiteral (index : UInt16) : Exec Unit := do
  let v ← literal (← currentClass) index
  onFrame (.push v)

def object (prepare : ClassId → Exec Unit) : ObjectOp → Exec Unit
  | .literal => do pushLiteral (← onFrame .u8).toUInt16
  | .literalWide => do pushLiteral (← onFrame .u16)
  | .getStatic => do
    let f ← staticField prepare
    onFrame (.push (← getStaticSlot f))
  | .putStatic => do
    let f ← staticField prepare
    setStaticSlot f (← onFrame .pop)
  | .getField => do
    let f ← instanceField
    let r ← onFrame .popRef
    let o ← fieldHolder f r
    onFrame (.push (o.fields[f.slot]?.getD .top))
  | .putField => do
    let f ← instanceField
    let v ← onFrame .pop
    let r ← onFrame .popRef
    let _ ← fieldHolder f r
    modify fun vm =>
      { vm with heap := vm.heap.modify r fun o =>
        { o with fields := o.fields.setIfInBounds f.slot v } }
  | .create => do
    let index ← onFrame .u16
    let id ← resolveClass (← currentClass) index
    let c ← classAt id
    if c.isAbstract || c.isArray then fault (.instantiation c.name)
    prepare id
    let r ← allocInstance id
    onFrame (.push (.ref r))
  | .checkCast => do
    let index ← onFrame .u16
    castCheck (← onFrame (.peek 0)) index
  | .instanceOf => do
    let index ← onFrame .u16
    let target ← resolveClass (← currentClass) index
    let v ← onFrame .pop
    onFrame (.push (.ofBool (← isInstance v target)))
  | .raise => do
    let r ← onFrame .popRef
    if r = .null then fault (.nullPointer (some "throw of null")) else throw (.thrown r)
  | .monitor => do
    if (← onFrame .pop).isNull then fault (.nullPointer (some "monitor on null"))

end Exec

end ClassEngine.Machine
