import ClassEngine.Machine.Arith
import ClassEngine.Machine.Class
import ClassEngine.Machine.Fault

/-!
# The heap

Objects are numbered in the order in which they are allocated, from one on, and
are never removed.  An object has one value for each instance field of its
class, and an array one for each element.  Equal string literals share one
object.
-/

namespace ClassEngine.Machine

structure Object where
  classId : ClassId
  fields : Array Value := #[]
  elements : Array Value := #[]
  /-- The characters of a string object. -/
  text : String := ""
  deriving DecidableEq, Repr

structure Heap where
  objects : Array Object := #[]
  interned : List (String × Ref) := []
  deriving DecidableEq, Repr

namespace Heap

def size (h : Heap) : Nat := h.objects.size

def get? (h : Heap) (r : Ref) : Option Object :=
  if r = .null then none else h.objects[r.address.toNat - 1]?

def deref (h : Heap) (r : Ref) : Except Fault Object :=
  match h.get? r with
  | some o => .ok o
  | none => .error (.nullPointer none)

def modify (h : Heap) (r : Ref) (f : Object → Object) : Heap :=
  { h with objects := h.objects.modify (r.address.toNat - 1) f }

def alloc (h : Heap) (o : Object) : Ref × Heap :=
  (⟨UInt32.ofNat (h.objects.size + 1)⟩, { h with objects := h.objects.push o })

def allocInstance (h : Heap) (id : ClassId) (c : Class) : Ref × Heap :=
  h.alloc { classId := id, fields := c.zeroFields }

def elementKind (c : Class) : Char :=
  (c.array?.map (·.element)).getD 'I'

def allocArray (h : Heap) (id : ClassId) (c : Class) (length : Int32) :
    Except Fault (Ref × Heap) :=
  if length < 0 then .error (.negativeArraySize length)
  else
    let elements := Array.replicate length.toInt.toNat (Value.zero (elementKind c))
    .ok (h.alloc { classId := id, elements })

def newString (h : Heap) (id : ClassId) (c : Class) (text : String) : Ref × Heap :=
  h.alloc { classId := id, fields := c.zeroFields, text }

def intern (h : Heap) (id : ClassId) (c : Class) (text : String) : Ref × Heap :=
  match h.interned.find? (·.1 = text) with
  | some (_, r) => (r, h)
  | none =>
    let (r, h) := h.newString id c text
    (r, { h with interned := (text, r) :: h.interned })

/-! ## Elements -/

/-- The array at an address, if the index is within its bounds.  What is not an
array is a defect of the code. -/
def arrayAt (h : Heap) (cs : Array Class) (r : Ref) (index : Int32) :
    Except (Fault ⊕ Defect) (Object × Class × Nat) :=
  match h.get? r with
  | none => .error (.inl (.nullPointer none))
  | some o =>
    match cs[o.classId]? with
    | none => .error (.inl (.nullPointer none))
    | some c =>
      if !c.isArray then .error (.inr (.notAnArray c.name))
      else if index < 0 || o.elements.size ≤ index.toInt.toNat then
        .error (.inl (.indexOutOfBounds index o.elements.size))
      else .ok (o, c, index.toInt.toNat)

def load (h : Heap) (cs : Array Class) (r : Ref) (index : Int32) :
    Except (Fault ⊕ Defect) Value := do
  let (o, _, i) ← h.arrayAt cs r index
  return o.elements[i]?.getD .top

/-- Narrow element types keep the low bits of what is stored. -/
def store (h : Heap) (cs : Array Class) (r : Ref) (index : Int32) (v : Value) :
    Except (Fault ⊕ Defect) Heap := do
  let (_, c, i) ← h.arrayAt cs r index
  let v := narrowed (elementKind c) v
  return h.modify r fun o => { o with elements := o.elements.setIfInBounds i v }

def arrayLength (h : Heap) (r : Ref) : Except Fault Nat := do
  return (← h.deref r).elements.size

/-! ## Fields -/

def fieldSlot (h : Heap) (cs : Array Class) (r : Ref) (declaring : Class)
    (name : String) : Except Fault (Object × Nat) := do
  let o ← h.deref r
  let some c := cs[o.classId]? | throw (.nullPointer none)
  match c.fieldSlot? declaring name with
  | some slot => return (o, slot)
  | none => throw (.noSuchField s!"{declaring.name}.{name} on {c.name}")

def getField (h : Heap) (cs : Array Class) (r : Ref) (declaring : Class) (name : String) :
    Except Fault Value := do
  let (o, slot) ← h.fieldSlot cs r declaring name
  return o.fields[slot]?.getD .top

def setField (h : Heap) (cs : Array Class) (r : Ref) (declaring : Class) (name : String)
    (v : Value) : Except Fault Heap := do
  let (_, slot) ← h.fieldSlot cs r declaring name
  return h.modify r fun o => { o with fields := o.fields.setIfInBounds slot v }

end Heap

end ClassEngine.Machine
