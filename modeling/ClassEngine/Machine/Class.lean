import ClassEngine.ClassFile.Basic
import ClassEngine.ClassFile.Descriptor
import ClassEngine.Machine.Value

/-!
# Linked classes

Classes are numbered in the order in which they are linked, so that the
superclass, the superinterfaces and the component of a class have smaller
numbers than the class itself.  Members are identified by the number of their
class and their place in its declaration.
-/

namespace ClassEngine.Machine

open ClassFile (FieldType MethodDescriptor Body Pool)

abbrev ClassId := Nat

structure FieldId where
  owner : ClassId
  index : Nat
  deriving DecidableEq, Repr

structure Field where
  id : FieldId
  ownerName : String
  name : String
  descriptor : String
  flags : UInt16
  type : FieldType
  /-- The place among the instance fields, or among the static fields of the owner. -/
  slot : Nat
  constantIndex : UInt16
  deriving DecidableEq, Repr

namespace Field

def isStatic (f : Field) : Bool := ClassFile.Access.has f.flags ClassFile.Access.isStatic

def zero (f : Field) : Value := .zero f.type.kind

def render (f : Field) : String := f.ownerName ++ "." ++ f.name ++ ":" ++ f.descriptor

end Field

structure MethodId where
  owner : ClassId
  index : Nat
  deriving DecidableEq, Repr

structure Method where
  id : MethodId
  ownerName : String
  ownerFlags : UInt16
  name : String
  descriptor : String
  flags : UInt16
  signature : MethodDescriptor
  body? : Option Body
  deriving DecidableEq, Repr

/-- The runtime package of a class: its name up to the last slash. -/
def packageOf (className : String) : String :=
  match className.toList.reverse.dropWhile (· ≠ '/') with
  | [] => ""
  | _ :: rest => String.ofList rest.reverse

structure MethodKey where
  name : String
  descriptor : String
  deriving DecidableEq, Repr

namespace Method

def key (m : Method) : MethodKey := ⟨m.name, m.descriptor⟩

def isStatic (m : Method) : Bool := ClassFile.Access.has m.flags ClassFile.Access.isStatic

def isPrivate (m : Method) : Bool := ClassFile.Access.has m.flags ClassFile.Access.isPrivate

def isAbstract (m : Method) : Bool := ClassFile.Access.has m.flags ClassFile.Access.isAbstract

def isNative (m : Method) : Bool := ClassFile.Access.has m.flags ClassFile.Access.isNative

def ofInterface (m : Method) : Bool :=
  ClassFile.Access.has m.ownerFlags ClassFile.Access.isInterface

def render (m : Method) : String := m.ownerName ++ "." ++ m.name ++ m.descriptor

/-- The number of operands, with the receiver of an instance method. -/
def arity (m : Method) : Nat :=
  m.signature.params.length + if m.isStatic then 0 else 1

def argSlots (m : Method) : Nat :=
  m.signature.argSlots + if m.isStatic then 0 else 1

def hasKey (m : Method) (name descriptor : String) : Bool :=
  m.name = name && m.descriptor = descriptor

def isVirtual (m : Method) : Bool :=
  !m.isStatic && !m.isPrivate && !m.name.startsWith "<"

/-- Whether a method of a subclass replaces an inherited one: a package-private
method is seen only inside its runtime package. -/
def overrides (m old : Method) : Bool :=
  !m.isPrivate && !m.isStatic && !old.isPrivate &&
    (ClassFile.Access.has old.flags (ClassFile.Access.isPublic ||| ClassFile.Access.isProtected) ||
      packageOf old.ownerName = packageOf m.ownerName)

end Method

/-- The methods that a receiver can run, in slots that keep their places in subclasses, and
an index of their names and descriptors. -/
structure VTable where
  slots : Array Method
  index : List (MethodKey × Nat)
  deriving DecidableEq, Repr

namespace VTable

def empty : VTable := ⟨#[], []⟩

def slotOf? (t : VTable) (name descriptor : String) : Option Nat :=
  (t.index.find? (·.1 = ⟨name, descriptor⟩)).map (·.2)

def lookup? (t : VTable) (name descriptor : String) : Option Method :=
  (t.slotOf? name descriptor).bind (t.slots[·]?)

def set (t : VTable) (slot : Nat) (m : Method) : VTable :=
  { t with slots := t.slots.setIfInBounds slot m }

/-- Gives a method a new slot, to which the index leads from now on. -/
def add (t : VTable) (m : Method) : VTable :=
  ⟨t.slots.push m, (m.key, t.slots.size) :: t.index.filter (·.1 ≠ m.key)⟩

end VTable

structure ArrayShape where
  /-- The first character of the element descriptor. -/
  element : Char
  /-- The class of the elements, unless they are of a base type. -/
  component? : Option ClassId
  deriving DecidableEq, Repr

structure Class where
  name : String
  flags : UInt16
  super? : Option ClassId
  interfaces : List ClassId
  sourceFile : String
  fields : List Field
  methods : List Method
  vtable : VTable
  /-- The instance fields, those of superclasses first. -/
  layout : Array Field
  pool : Pool
  array? : Option ArrayShape
  deriving DecidableEq, Repr

namespace Class

def isInterface (c : Class) : Bool := ClassFile.Access.has c.flags ClassFile.Access.isInterface

def isAbstract (c : Class) : Bool :=
  ClassFile.Access.has c.flags (ClassFile.Access.isAbstract ||| ClassFile.Access.isInterface)

def isFinal (c : Class) : Bool := ClassFile.Access.has c.flags ClassFile.Access.isFinal

def isArray (c : Class) : Bool := c.array?.isSome

def component? (c : Class) : Option ClassId := c.array?.bind (·.component?)

def package (c : Class) : String := packageOf c.name

/-- Of several methods with one name and descriptor, the last. -/
def declaredMethod? (c : Class) (name descriptor : String) : Option Method :=
  c.methods.reverse.find? (·.hasKey name descriptor)

/-- Of several fields with one name, the first. -/
def declaredField? (c : Class) (name : String) : Option Field :=
  c.fields.find? (·.name = name)

/-- The place in instances of `c` of a field that `declaring` declares. -/
def fieldSlot? (c declaring : Class) (name : String) : Option Nat :=
  match declaring.declaredField? name with
  | none => none
  | some f =>
    if f.isStatic then none
    else if (c.layout[f.slot]?).any (·.id = f.id) then some f.slot
    else none

def zeroFields (c : Class) : Array Value := c.layout.map (·.zero)

end Class

inductive ClassState where
  | loaded | linked | initializing | initialized | failed
  deriving DecidableEq, Repr

namespace ClassState

def name : ClassState → String
  | .loaded => "loaded"
  | .linked => "linked"
  | .initializing => "initializing"
  | .initialized => "initialized"
  | .failed => "failed"

def all : List ClassState := [.loaded, .linked, .initializing, .initialized, .failed]

def nameOf (n : Nat) : String :=
  match all[n]? with
  | some s => s.name
  | none => "unknown"

end ClassState

end ClassEngine.Machine
