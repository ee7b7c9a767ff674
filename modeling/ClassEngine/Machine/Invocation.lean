import ClassEngine.Machine.Objects

/-!
# Invocation

A call takes the operands of the method from the stack of the caller and puts
them into the first local variables of a new frame, the receiver first.  The
caller goes on after the call instruction once the new frame returns.
-/

namespace ClassEngine.Machine

open Code
open ClassFile (FieldType Body)

def placeFrom (slot : Nat) (locals : Array Value) : List Value → Option (Array Value)
  | [] => some locals
  | v :: rest =>
    match storeLocal? locals slot v with
    | none => none
    | some locals => placeFrom (slot + if v.isWide then 2 else 1) locals rest

def mismatch? (method : String) (index : Nat) : List Value → List FieldType → Option Defect
  | v :: vs, p :: ps =>
    if v.kind = kindOf p then mismatch? method (index + 1) vs ps
    else some (.argumentKind method index v.kind (kindOf p))
  | _, _ => none

def receiverMismatch? (m : Method) (args : List Value) : Option Defect :=
  match args with
  | receiver :: _ =>
    if !m.isStatic && receiver.kind ≠ .ref then some (.receiverKind m.render receiver.kind)
    else none
  | [] => none

/-- The local variables of a new frame for as many arguments of the host as the method
takes. -/
def bindArguments (m : Method) (body : Body) (args : List Value) :
    Except Defect (Array Value) :=
  let declared := if m.isStatic then args else args.drop 1
  match receiverMismatch? m args, mismatch? m.render 0 declared m.signature.params with
  | some d, _ | none, some d => .error d
  | none, none =>
    let locals := Frame.unsetLocals body
    let tooFew : Defect := .argumentSlots m.render locals.size m.argSlots
    if locals.size < m.argSlots then .error tooFew
    else
      match placeFrom 0 locals args with
      | some locals => .ok locals
      | none => .error tooFew

namespace FrameM

def checkReceiver (m : Method) (operands : List Value) : FrameM Unit := do
  if let receiver :: _ := operands then
    if !m.isStatic && receiver.kind ≠ .ref then
      throw (.inr (.receiverKind m.render receiver.kind))

/-- Checks that the parameters from a number on can carry the operands. -/
def checkOperands (m : Method) (index : Nat) : List Value → List FieldType → FrameM Unit
  | v :: vs, p :: ps =>
    if v.kind = kindOf p then checkOperands m (index + 1) vs ps
    else throw (.inr (.argumentKind m.render index v.kind (kindOf p)))
  | _, _ => return

def storeOperands (slot : Nat) : List Value → FrameM Unit
  | [] => return
  | v :: rest => do
    setLocal slot v
    storeOperands (slot + if v.isWide then 2 else 1) rest

/-- The local variables of a called method, with the operands that lie on the stack of the
caller, the first one deepest. -/
def takeOperands (m : Method) (body : Body) : FrameM (Array Value) := do
  let caller ← get
  if caller.stack.length < m.arity then
    throw (.inr (.missingArguments m.render m.arity caller.stack.length))
  let operands := (caller.stack.take m.arity).reverse
  checkReceiver m operands
  checkOperands m 0 (if m.isStatic then operands else operands.drop 1) m.signature.params
  let callee := Frame.enter m body (Frame.unsetLocals body)
  if callee.locals.size < m.argSlots then
    throw (.inr (.argumentSlots m.render callee.locals.size m.argSlots))
  match storeOperands 0 operands callee with
  | .error e _ => throw e
  | .ok () callee =>
    set { caller with stack := caller.stack.drop m.arity }
    return callee.locals

end FrameM

namespace Exec

def enter (f : Frame) : Exec Unit := do
  profile (·.recordInvocation f.method.id f.method.render)
  modify fun vm => { vm with frames := f :: vm.frames }

def checkDepth : Exec Unit := do
  let vm ← get
  if vm.maxFrames ≤ vm.frames.length then fault (.stackOverflow vm.frames.length)

def call (m : Method) : Exec Unit := do
  if m.isNative then fault (.unsatisfiedLink m.render)
  match m.body? with
  | none => fault (.abstractMethod m.render)
  | some body =>
    if m.isAbstract then fault (.abstractMethod m.render)
    checkDepth
    enter (.enter m body (← onFrame (.takeOperands m body)))

def receiver (m : Method) : Exec Value := do
  let v ← onFrame (.peek m.signature.params.length)
  if v.isNull then fault (.nullPointer (some ("invoking " ++ m.name))) else return v

/-- The method that a receiver runs for `m`, remembered at the call site. -/
def selectMethod (m : Method) (receiver : Value) : Exec Method := do
  let rc ← classOfObject receiver.asRef
  let f ← currentFrame
  let site : CallSite := ⟨f.method, f.opPc⟩
  let (target?, cache) := ((← get).cacheAt site).lookup rc
  setSite site cache
  match target? with
  | some target => return target
  | none =>
    let c ← classAt rc
    match c.vtable.lookup? m.name m.descriptor with
    | none => fault (.noSuchMethod (c.name ++ "." ++ m.name ++ m.descriptor))
    | some target =>
      setSite site (cache.update rc target)
      return target

/-- Whether a direct call means the method of the caller's superclass. -/
def isSuperCall (classes : Classes) (caller : ClassId) (c : Class) (m : Method) : Bool :=
  m.name ≠ ClassFile.constructorName && !m.isPrivate && !m.ofInterface &&
    ClassFile.Access.has c.flags ClassFile.Access.isSuper &&
    caller ≠ m.id.owner && classes.isSubclass caller m.id.owner

def specialTarget (m : Method) : Exec Method := do
  let caller ← currentClass
  let c ← classAt caller
  let classes := (← get).registry.classes
  if isSuperCall classes caller c m then
    match c.super?.bind (classes.findMethod? · m.name m.descriptor) with
    | some target => return target
    | none => fault (.noSuchMethod m.render)
  else return m

def checkInstanceMethod (m : Method) : Exec Unit :=
  if m.isStatic then fault (.incompatible (m.render ++ " is static")) else return

def dispatch (m : Method) (receiver : Value) : Exec Unit := do
  if m.isPrivate then call m else call (← selectMethod m receiver)

def invoke (prepare : ClassId → Exec Unit) : InvokeOp → Exec Unit
  | .static => do
    let index ← onFrame .u16
    let m ← resolveMethod (← currentClass) index
    if !m.isStatic then fault (.incompatible (m.render ++ " is not static"))
    prepare m.id.owner
    call m
  | .special => do
    let index ← onFrame .u16
    let m ← resolveMethod (← currentClass) index
    checkInstanceMethod m
    let target ← specialTarget m
    let _ ← receiver m
    call target
  | .virtual => do
    let index ← onFrame .u16
    let m ← resolveMethod (← currentClass) index
    checkInstanceMethod m
    dispatch m (← receiver m)
  | .interface => do
    let index ← onFrame .u16
    let _ ← onFrame .u8
    let _ ← onFrame .u8
    let m ← resolveInterfaceMethod (← currentClass) index
    checkInstanceMethod m
    let v ← receiver m
    let rc ← classOfObject v.asRef
    if (← get).registry.classes.isAssignable rc m.id.owner then dispatch m v
    else
      let c ← classAt rc
      fault (.incompatible (c.name ++ " does not implement " ++ m.ownerName))
  | .dynamic => unsupported "invokedynamic"

end Exec

end ClassEngine.Machine
