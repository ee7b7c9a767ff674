import ClassEngine.Machine.Initialization

/-!
# Exceptions

An exception goes to the innermost frame with a handler for it: the first row
that covers the current instruction of the frame and accepts the class.  Frames
without one are left.  An exception that leaves the first frame of a run ends the
run; its trace tells where it was first raised.
-/

namespace ClassEngine.Machine

open ClassFile (Handler)

def throwableName : String := "java/lang/Throwable"

def messageFieldName : String := "detailMessage"

namespace Exec

/-- Whether a row accepts exceptions of a class; a class that cannot be loaded
accepts none. -/
def accepts (f : Frame) (thrown : ClassId) (h : Handler) : Exec Bool := do
  if h.catchType = 0 then return true
  match ← attempt (resolveClass f.method.id.owner h.catchType) with
  | .ok target => return (← get).registry.classes.isAssignable thrown target
  | .error _ => return false

/-- The target of the first row for the current instruction of a frame. -/
def findHandler (f : Frame) (thrown : ClassId) : List Handler → Exec (Option Nat)
  | [] => return none
  | h :: rest => do
    if h.covers f.opPc then
      if ← accepts f thrown h then return some h.target.toNat
    findHandler f thrown rest

/-- The frames that remain when the innermost frame above the first `base` with a
handler goes on there. -/
def seekHandler (base : Nat) (thrown : ClassId) : List Frame → Exec (Option (List Frame))
  | [] => return none
  | f :: below => do
    if below.length < base then return none
    match ← findHandler f thrown f.body.handlers with
    | some pc => return some ({ f with stack := [], pc } :: below)
    | none => seekHandler base thrown below

def throwableMessage (r : Ref) : Exec String := do
  match (← get).registry.find? throwableName with
  | none => return ""
  | some root =>
    match ← attempt (getField r root messageFieldName) with
    | .error _ => return ""
    | .ok v => if v.isNull then return "" else return (← stringText? v.asRef).getD ""

/-- Remembers where an exception is raised, unless it was raised before. -/
def recordTrace (r : Ref) : Exec Unit :=
  modify fun vm =>
    if vm.traces.any (·.1 = r) then vm
    else { vm with traces := (r, vm.frames.map (·.traceElement)) :: vm.traces }

def traceOf (r : Ref) : Exec (List TraceElement) := do
  return (((← get).traces.find? (·.1 = r)).map (·.2)).getD []

/-- Goes to the handler of an exception, or ends the run. -/
def unwind (base : Nat) (r : Ref) : Exec Unit := do
  recordTrace r
  let id ← classOfObject r
  match ← seekHandler base id (← get).frames with
  | some frames =>
    note (.caught r)
    modify ({ · with frames })
    onFrame (.push (.ref r))
  | none =>
    cutTo base
    let c ← classAt id
    let message ← throwableMessage r
    fault (.uncaught ⟨r, c.name, message, ← traceOf r⟩)

/-- A new exception with a message; its constructor does not run. -/
def newThrowable (prepare : ClassId → Exec Unit) (className message : String) : Exec Ref := do
  let id ← loadClass className
  prepare id
  let r ← allocInstance id
  if message = "" then return r
  let root ← loadClass throwableName
  let text ← newString message
  setField r root messageFieldName (.ref text)
  return r

/-- Raises a fault as the guest exception that stands for it.  A fault without
one ends the run. -/
def raiseFault (prepare : ClassId → Exec Unit) (base : Nat) (e : Fault) : Exec Unit := do
  match e.guestException? with
  | none =>
    cutTo base
    fault e
  | some (className, message) =>
    match ← attempt (newThrowable prepare className message) with
    | .ok r => unwind base r
    | .error cause =>
      cutTo base
      fault (.cannotCreate className e.message cause)

end Exec

end ClassEngine.Machine
