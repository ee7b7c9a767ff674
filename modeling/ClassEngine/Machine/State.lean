import ClassEngine.Machine.Frame
import ClassEngine.Machine.Heap
import ClassEngine.Machine.InlineCache
import ClassEngine.Machine.Loading
import ClassEngine.Machine.Profiler

/-!
# The state of the machine

The machine has one stack of frames.  Requests of the host and static
initializers run as nested segments of it.  An operation that fails keeps what
it changed before.  The journal tells of the work so far; no operation reads it.
-/

namespace ClassEngine.Machine

open Search (Source)

inductive Stop where
  /-- An error of the guest or of the host's request. -/
  | fault (f : Fault)
  /-- An exception raised by guest code. -/
  | thrown (r : Ref)
  /-- A condition that no well-formed code meets. -/
  | defect (d : Defect)
  /-- Something that is not an object was used as one; the machine is lost. -/
  | undefined
  /-- The given number of rounds was not enough. -/
  | exhausted
  deriving DecidableEq, Repr

structure CallSite where
  method : Method
  pc : Nat
  deriving DecidableEq, Repr

/-- What the journal tells of initialization and of how runs go. -/
inductive Event where
  /-- A class has come into a state. -/
  | moved (id : ClassId) (state : ClassState)
  /-- The static initializer of a class starts. -/
  | running (m : MethodId)
  /-- A handler has accepted an exception. -/
  | caught (r : Ref)
  /-- A run has ended with a fault. -/
  | ended (e : Fault)
  deriving DecidableEq, Repr

structure Vm where
  source : Source
  maxFrames : Nat
  registry : Registry := {}
  heap : Heap := {}
  /-- Innermost first. -/
  frames : List Frame := []
  /-- Where each exception in flight was first raised. -/
  traces : List (Ref × List TraceElement) := []
  sites : List (CallSite × InlineCache ClassId Method) := []
  profiler? : Option (Profiler MethodId) := none
  /-- A return instruction has been executed, and its result not yet handed on. -/
  returning : Bool := false
  result : Value := .top
  hasResult : Bool := false
  /-- The latest event first. -/
  journal : List Event := []

/-- The cache of a call instruction; it is empty until the instruction selects a method. -/
def Vm.cacheAt (vm : Vm) (site : CallSite) : InlineCache ClassId Method :=
  ((vm.sites.find? (·.1 = site)).map (·.2)).getD {}

/-- The cache of the call instruction at a position of a method, if it has selected a
method before. -/
def Vm.site? (vm : Vm) (site : MethodId × Nat) : Option (InlineCache ClassId Method) :=
  (vm.sites.find? fun s => s.1.method.id = site.1 && s.1.pc = site.2).map (·.2)

abbrev Exec := EStateM Stop Vm

namespace Exec

def fault {α : Type} (e : Fault) : Exec α := throw (.fault e)

/-- Passes on a fault as the outcome; anything else still ends the operation. -/
def attempt {α : Type} (x : Exec α) : Exec (Except Fault α) := fun vm =>
  match x vm with
  | .ok a vm => .ok (.ok a) vm
  | .error (.fault e) vm => .ok (.error e) vm
  | .error stop vm => .error stop vm

def loading {α : Type} (x : Loading α) : Exec α := fun vm =>
  match x vm.registry with
  | (.ok a, registry) => .ok a { vm with registry }
  | (.error e, registry) => .error (.fault e) { vm with registry }

def onFrame {α : Type} (x : FrameM α) : Exec α := fun vm =>
  match vm.frames with
  | [] => .error .undefined vm
  | f :: below =>
    match x f with
    | .ok a f => .ok a { vm with frames := f :: below }
    | .error (.inl e) f => .error (.fault e) { vm with frames := f :: below }
    | .error (.inr d) f => .error (.defect d) { vm with frames := f :: below }

def currentFrame : Exec Frame := do
  match (← get).frames with
  | f :: _ => return f
  | [] => throw .undefined

def ofExcept {α : Type} : Except Fault α → Exec α
  | .ok a => return a
  | .error e => fault e

def ofChecked {α : Type} : Except (Fault ⊕ Defect) α → Exec α
  | .ok a => return a
  | .error (.inl e) => fault e
  | .error (.inr d) => throw (.defect d)

def cutTo (base : Nat) : Exec Unit :=
  modify fun vm => { vm with frames := vm.frames.drop (vm.frames.length - base) }

def note (e : Event) : Exec Unit :=
  modify fun vm => { vm with journal := e :: vm.journal }

/-! ## Classes -/

def loadClass (name : String) : Exec ClassId := do
  loading (load (← get).source [] name)

/-- The class with a number; every number in use has one. -/
def classAt (id : ClassId) : Exec Class := do
  match (← get).registry.classes[id]? with
  | some c => return c
  | none => throw .undefined

def statusAt (id : ClassId) : Exec ClassStatus := do
  match (← get).registry.status? id with
  | some s => return s
  | none => throw .undefined

def modifyStatus (id : ClassId) (f : ClassStatus → ClassStatus) : Exec Unit :=
  modify fun vm => { vm with registry := vm.registry.modifyStatus id f }

def setState (id : ClassId) (state : ClassState) : Exec Unit := do
  modifyStatus id fun s => { s with state }
  note (.moved id state)

def getStaticSlot (f : Field) : Exec Value := do
  match (← statusAt f.id.owner).statics[f.slot]? with
  | some v => return v
  | none => throw .undefined

def setStaticSlot (f : Field) (v : Value) : Exec Unit :=
  modifyStatus f.id.owner fun s => { s with statics := s.statics.setIfInBounds f.slot v }

def arrayOf (id : ClassId) : Exec ClassId := do
  loadClass (arrayNameOf (← classAt id))

/-! ## Objects -/

def stringClassName : String := "java/lang/String"

def allocInstance (id : ClassId) : Exec Ref := do
  let c ← classAt id
  modifyGet fun vm =>
    let (r, heap) := vm.heap.allocInstance id c
    (r, { vm with heap })

def allocArray (id : ClassId) (length : Int32) : Exec Ref := do
  let c ← classAt id
  let (r, heap) ← ofExcept ((← get).heap.allocArray id c length)
  modify ({ · with heap })
  return r

def newString (text : String) : Exec Ref := do
  let id ← loadClass stringClassName
  let c ← classAt id
  modifyGet fun vm =>
    let (r, heap) := vm.heap.newString id c text
    (r, { vm with heap })

def intern (text : String) : Exec Ref := do
  let id ← loadClass stringClassName
  let c ← classAt id
  modifyGet fun vm =>
    let (r, heap) := vm.heap.intern id c text
    (r, { vm with heap })

def classOf (r : Ref) : Exec ClassId := do
  return (← ofExcept ((← get).heap.deref r)).classId

def classOfObject (r : Ref) : Exec ClassId := do
  match (← get).heap.get? r with
  | some o => return o.classId
  | none => throw .undefined

def loadElement (r : Ref) (index : Int32) : Exec Value := do
  let vm ← get
  ofChecked (vm.heap.load vm.registry.classes r index)

def storeElement (r : Ref) (index : Int32) (v : Value) : Exec Unit := do
  let vm ← get
  let heap ← ofChecked (vm.heap.store vm.registry.classes r index v)
  set { vm with heap }

def getField (r : Ref) (declaring : ClassId) (name : String) : Exec Value := do
  let c ← classAt declaring
  let vm ← get
  ofExcept (vm.heap.getField vm.registry.classes r c name)

def setField (r : Ref) (declaring : ClassId) (name : String) (v : Value) : Exec Unit := do
  let c ← classAt declaring
  let vm ← get
  let heap ← ofExcept (vm.heap.setField vm.registry.classes r c name v)
  set { vm with heap }

def stringText? (r : Ref) : Exec (Option String) := do
  let vm ← get
  match vm.heap.get? r with
  | none => return none
  | some o =>
    if (vm.registry.classes[o.classId]?).any (·.name = stringClassName) then return some o.text
    else return none

/-! ## Call sites and counters -/

def setSite (site : CallSite) (cache : InlineCache ClassId Method) : Exec Unit :=
  modify fun vm => { vm with sites := (site, cache) :: vm.sites.filter (·.1 ≠ site) }

def profile (f : Profiler MethodId → Profiler MethodId) : Exec Unit :=
  modify fun vm => { vm with profiler? := vm.profiler?.map f }

end Exec

end ClassEngine.Machine
