import ClassEngine.Machine.CoreLibrary
import ClassEngine.Machine.Execution

/-!
# Requests of the host

What a program that embeds the machine asks of it.  Requests that run guest code
take the number of rounds they may use.
-/

namespace ClassEngine.Machine

open Search (Source)

def defaultMaxFrames : Nat := 1024

namespace Vm

/-- A machine that takes from the core library what the source does not have. -/
def start (source? : Option Source) (maxFrames : Int) (profiler? : Option (Profiler MethodId)) :
    Vm where
  source := Search.path (source?.toList ++ [CoreLibrary.classes.source])
  maxFrames := if 0 < maxFrames then maxFrames.toNat else defaultMaxFrames
  profiler?

def classesByName (vm : Vm) : List (String × ClassState) :=
  ((vm.registry.classes.toList.zip vm.registry.statuses.toList).map fun (c, s) =>
    (c.name, s.state)).mergeSort fun a b => a.1 ≤ b.1

def describeField (f : Field) : String :=
  let kind := if f.isStatic then "static" else "instance"
  s!"\n  field {f.name} {f.descriptor} slot {f.slot} ({kind})"

def describeMethod (m : Method) : String :=
  let mark := if m.isStatic then " static" else ""
  let size := match m.body? with
    | some body => s!" ({body.code.size} bytes)"
    | none => ""
  "\n  method " ++ m.name ++ m.descriptor ++ mark ++ size

def describeSlot (id : ClassId) (slot : Nat) (m : Method) : String :=
  let origin := if m.id.owner = id then "" else " from " ++ m.ownerName
  s!"\n  vtable {slot} " ++ m.name ++ m.descriptor ++ origin

/-- The slots of an array class all come from other classes. -/
def describe (vm : Vm) (id : ClassId) : String :=
  match vm.registry.classes[id]?, vm.registry.status? id with
  | some c, some s =>
    let super := match c.super?.bind (vm.registry.classes[·]?) with
      | some parent => " extends " ++ parent.name
      | none => ""
    c.name ++ s!" ({s.state.name})" ++ super ++ String.join (c.fields.map describeField) ++
      String.join (c.methods.map describeMethod) ++
      String.join (c.vtable.slots.toList.mapIdx (describeSlot id))
  | _, _ => ""

end Vm

/-- Where a program starts: a static `main` without parameters, or else the last
one that takes an array of strings. -/
def entryPoint? (c : Class) : Option Method :=
  let candidates := c.methods.filter fun m => m.name = "main" && m.isStatic && m.body?.isSome
  match candidates.find? (·.descriptor.startsWith "()") with
  | some m => some m
  | none => candidates.reverse.find? (·.descriptor = "([Ljava/lang/String;)V")

namespace Exec

/-- Calls a method, after initializing its class when it is static. -/
def invokeMethod (fuel : Nat) (m : Method) (args : List Value) : Exec Value := do
  if m.isStatic then initialized fuel m.id.owner
  execute fuel m args

def runProgram (fuel : Nat) (className : String) : Exec Value := do
  let c ← classAt (← loadClass className)
  match entryPoint? c with
  | none => fault (.noSuchMethod (className ++ " has no static main method"))
  | some m =>
    if m.signature.params.length = 1 then
      let array ← arrayOf (← loadClass stringClassName)
      let r ← allocArray array 0
      invokeMethod fuel m [.ref r]
    else invokeMethod fuel m []

def invokeStatic (fuel : Nat) (className name descriptor : String) (args : List Value) :
    Exec Value := do
  let id ← loadClass className
  match (← get).registry.classes.findMethod? id name descriptor with
  | none => fault (.noSuchMethod (className ++ "." ++ name ++ descriptor))
  | some m => if m.isStatic then invokeMethod fuel m args else fault (.notStatic m.render)

def getStatic (fuel : Nat) (className name : String) : Exec Value := do
  let id ← loadClass className
  match ((← get).registry.classes.findField? name "" id).filter (·.isStatic) with
  | none => fault (.noSuchField (className ++ "." ++ name))
  | some f =>
    initialized fuel f.id.owner
    getStaticSlot f

def textOf? (v : Value) : Exec (Option String) :=
  match v with
  | .ref r => stringText? r
  | _ => return none

end Exec

end ClassEngine.Machine
