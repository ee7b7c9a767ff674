import ClassEngine.Proofs.Machine.Execution

/-!
# Sessions

A session is what a host asks of one machine: requests one after the other, each
with the fuel it may use, however each of them ends.
-/

namespace ClassEngine.Machine

inductive Request where
  | load (className : String)
  | prepare (id : ClassId)
  | invoke (m : Method) (args : List Value)
  | invokeStatic (className name descriptor : String) (args : List Value)
  | run (className : String)
  | getStatic (className name : String)
  | newString (text : String)

namespace Exec

variable {α : Type}

def serve (fuel : Nat) : Request → Exec Unit
  | .load className => do
    let _ ← loadClass className
  | .prepare id => initialized fuel id
  | .invoke m args => do
    let _ ← invokeMethod fuel m args
  | .invokeStatic className name descriptor args => do
    let _ ← invokeStatic fuel className name descriptor args
  | .run className => do
    let _ ← runProgram fuel className
  | .getStatic className name => do
    let _ ← getStatic fuel className name
  | .newString text => do
    let _ ← newString text

end Exec

def Vm.serve (vm : Vm) (session : List (Nat × Request)) : Vm :=
  session.foldl (fun vm (fuel, q) => Exec.after (Exec.serve fuel q) vm) vm

theorem Vm.serve_induction {R : Vm → Vm → Prop} (refl : ∀ vm, R vm vm)
    (trans : ∀ {a b c}, R a b → R b c → R a c)
    (step : ∀ fuel q vm, R vm (Exec.after (Exec.serve fuel q) vm)) (vm : Vm)
    (session : List (Nat × Request)) : R vm (vm.serve session) := by
  induction session generalizing vm with
  | nil => exact refl vm
  | cons request rest ih => exact trans (step request.1 request.2 vm) (ih _)

namespace Exec

section

variable {P : ∀ {α : Type}, Exec α → Prop} {fuel : Nat}

theorem Compositional.invokeMethod (hP : Compositional P)
    (hexecute : ∀ m args, P (execute fuel m args)) (hinit : ∀ id, P (initialized fuel id))
    (m : Method) (args : List Value) : P (invokeMethod fuel m args) := by
  unfold Exec.invokeMethod
  dsimp only
  split
  · exact hP.bind (hinit _) fun _ => hexecute m args
  · exact hexecute m args

theorem Compositional.serve (hP : Compositional P) (hexecute : ∀ m args, P (execute fuel m args))
    (hinit : ∀ id, P (initialized fuel id)) (q : Request) : P (serve fuel q) := by
  have hinvoke := hP.invokeMethod hexecute hinit
  cases q with
  | load className => exact hP.discard (hP.small (local_loadClass _))
  | prepare id => exact hinit id
  | invoke m args => exact hP.discard (hinvoke m args)
  | invokeStatic className name descriptor args =>
      refine hP.discard (hP.bind (hP.small (local_loadClass _)) fun id => ?_)
      refine hP.bind (hP.small local_get) fun vm => ?_
      cases vm.registry.classes.findMethod? id name descriptor with
      | none => exact hP.small (local_fault _ rfl)
      | some m =>
          dsimp only
          split
          · exact hinvoke m args
          · exact hP.small (local_fault _ rfl)
  | run className =>
      refine hP.discard (hP.bind (hP.small (local_loadClass _)) fun id => ?_)
      refine hP.bind (hP.small (local_classAt id)) fun c => ?_
      cases entryPoint? c with
      | none => exact hP.small (local_fault _ rfl)
      | some m =>
          dsimp only
          split
          · refine hP.bind (hP.small (local_loadClass _)) fun string => ?_
            refine hP.bind (hP.small (local_arrayOf string)) fun array => ?_
            exact hP.bind (hP.small (local_allocArray array 0)) fun r => hinvoke m _
          · exact hinvoke m []
  | getStatic className name =>
      refine hP.discard (hP.bind (hP.small (local_loadClass _)) fun id => ?_)
      refine hP.bind (hP.small local_get) fun vm => ?_
      split
      · exact hP.small (local_fault _ rfl)
      · exact hP.bind (hinit _) fun _ => hP.small (reads_getStaticSlot _).isLocal
  | newString text => exact hP.discard (hP.small (local_newString text))

end

variable {α : Type} {K : Effect} {fuel : Nat}

theorem has_serve (hK : K.Steady) (hexecute : ∀ m args, Has K (execute fuel m args))
    (hinit : ∀ id, Has K (initialized fuel id)) (q : Request) : Has K (serve fuel q) :=
  (compositional_has hK).serve hexecute hinit q

theorem has_execute (hR : K.Running) (hI : K.Initializing) (fuel : Nat) (m : Method)
    (args : List Value) : Has K (execute fuel m args) :=
  has_executeBy hR.toWorking (has_run hR (has_ensureInitialized hI) fuel) (runStops_run fuel) m args

theorem has_initialized (hR : K.Running) (hI : K.Initializing) (fuel : Nat) (id : ClassId) :
    Has K (initialized fuel id) :=
  has_ensureInitialized hI (fun m => has_discard hR.toSteady (has_execute hR hI fuel m [])) id

end Exec

/-! ## All calls of a host -/

/-- Besides its requests a host can work on the registry and the heap directly. -/
inductive HostCall where
  | request (fuel : Nat) (q : Request)
  | arrayOf (id : ClassId)
  | resolve (use : PoolUse) (id : ClassId) (index : UInt16)
  | intern (text : String)
  | newObject (id : ClassId)
  | newArray (id : ClassId) (length : Int32)
  | storeElement (r : Ref) (index : Int32) (v : Value)
  | setField (r : Ref) (declaring : ClassId) (name : String) (v : Value)

namespace Exec

def resolveEntry (id : ClassId) (index : UInt16) : PoolUse → Exec Unit
  | .classRef => do
    let _ ← resolveClass id index
  | .field => do
    let _ ← resolveField id index
  | .method => do
    let _ ← resolveMethod id index
  | .interfaceMethod => do
    let _ ← resolveInterfaceMethod id index
  | .literal => do
    let _ ← literal id index

def answer : HostCall → Exec Unit
  | .request fuel q => serve fuel q
  | .arrayOf id => do
    let _ ← arrayOf id
  | .resolve use id index => resolveEntry id index use
  | .intern text => do
    let _ ← intern text
  | .newObject id => do
    let _ ← allocInstance id
  | .newArray id length => do
    let _ ← allocArray id length
  | .storeElement r index v => storeElement r index v
  | .setField r declaring name v => setField r declaring name v

section

variable {P : ∀ {α : Type}, Exec α → Prop}

theorem Compositional.resolveEntry (hP : Compositional P) (id : ClassId) (index : UInt16)
    (use : PoolUse) : P (resolveEntry id index use) := by
  cases use with
  | classRef => exact hP.discard (hP.small (local_resolveClass id index))
  | field => exact hP.discard (hP.small (local_resolveField id index))
  | method => exact hP.discard (hP.small (local_resolveMethod id index))
  | interfaceMethod => exact hP.discard (hP.small (local_resolveInterfaceMethod id index))
  | literal => exact hP.discard (hP.small (local_literal id index))

theorem Compositional.answer (hP : Compositional P)
    (hexecute : ∀ fuel m args, P (execute fuel m args))
    (hinit : ∀ fuel id, P (initialized fuel id)) (call : HostCall) : P (answer call) := by
  cases call with
  | request fuel q => exact hP.serve (hexecute fuel) (hinit fuel) q
  | arrayOf id => exact hP.discard (hP.small (local_arrayOf id))
  | resolve use id index => exact hP.resolveEntry id index use
  | intern text => exact hP.discard (hP.small (fetches_intern text).isLocal)
  | newObject id => exact hP.discard (hP.small (local_allocInstance id))
  | newArray id length => exact hP.discard (hP.small (local_allocArray id length))
  | storeElement r index v => exact hP.small (local_storeElement r index v)
  | setField r declaring name v => exact hP.small (local_setField r declaring name v)

end

theorem has_answer {K : Effect} (hR : K.Running) (hI : K.Initializing) (call : HostCall) :
    Has K (answer call) :=
  (compositional_has hR.toSteady).answer (has_execute hR hI) (has_initialized hR hI) call

end Exec

def Vm.answer (vm : Vm) (calls : List HostCall) : Vm :=
  calls.foldl (fun vm call => Exec.after (Exec.answer call) vm) vm

theorem Exec.answer_load {vm : Vm} {name : String} {id : ClassId} {reg : Registry} (fuel : Nat)
    (h : Machine.load vm.source [] name vm.registry = (.ok id, reg)) :
    Exec.answer (.request fuel (.load name)) vm = .ok () { vm with registry := reg } := by
  rw [Exec.answer, Exec.serve, Exec.bind_apply, Exec.loadClass_apply, h]
  rfl

theorem Vm.answer_load {vm : Vm} {name : String} {id : ClassId} {reg : Registry} (fuel : Nat)
    (h : Machine.load vm.source [] name vm.registry = (.ok id, reg)) :
    vm.answer [.request fuel (.load name)] = { vm with registry := reg } :=
  Exec.after_ok (Exec.answer_load fuel h)

theorem Vm.answer_induction {R : Vm → Vm → Prop} (refl : ∀ vm, R vm vm)
    (trans : ∀ {a b c}, R a b → R b c → R a c)
    (step : ∀ call vm, R vm (Exec.after (Exec.answer call) vm)) (vm : Vm)
    (calls : List HostCall) : R vm (vm.answer calls) := by
  induction calls generalizing vm with
  | nil => exact refl vm
  | cons call rest ih => exact trans (step call vm) (ih _)

end ClassEngine.Machine
