import ClassEngine.Machine.Class

/-!
# The class hierarchy

Walks over superclasses, superinterfaces and array components.  Each step goes
to a class with a smaller number; a step that would not is not taken.
-/

namespace ClassEngine.Machine

abbrev Classes := Array Class

namespace Classes

def super? (cs : Classes) (id : ClassId) : Option ClassId :=
  (cs[id]?).bind (·.super?)

def interfaces (cs : Classes) (id : ClassId) : List ClassId :=
  ((cs[id]?).map (·.interfaces)).getD []

def chain (cs : Classes) (id : ClassId) : List ClassId :=
  id :: match cs.super? id with
    | some s => if s < id then chain cs s else []
    | none => []
termination_by id

def isSubclass (cs : Classes) (id other : ClassId) : Bool :=
  other ∈ cs.chain id

/-- Whether an interface is reached from a class over at least one superinterface. -/
def implements (cs : Classes) (id target : ClassId) : Bool :=
  (cs.chain id).any fun k =>
    (cs.interfaces k).any fun i =>
      i = target || if i < id then implements cs i target else false
termination_by id

/-- Whether a value of one class may be kept in a variable of another. -/
def isAssignable (cs : Classes) (id target : ClassId) : Bool :=
  if id = target then true
  else
    match cs[id]?, cs[target]? with
    | some c, some t =>
      if c.isArray then
        if t.isArray then
          match c.component?, t.component? with
          | some x, some y => if x < id then isAssignable cs x y else false
          | _, _ => false
        else t.super?.isNone && !t.isInterface
      else if t.isInterface then cs.implements id target
      else cs.isSubclass id target
    | _, _ => false
termination_by id

def visitInterfaces (cs : Classes) (seen : List ClassId) (id : ClassId) : List ClassId :=
  if id ∈ seen then seen
  else
    (cs.interfaces id).foldl
      (fun seen i => if i < id then visitInterfaces cs seen i else seen) (seen ++ [id])
termination_by id

/-- Every superinterface of a class with these superinterfaces and superclass,
nearest first. -/
def allInterfaces (cs : Classes) (interfaces : List ClassId) (super? : Option ClassId) :
    List ClassId :=
  let inherited := match super? with
    | some s => (cs.chain s).flatMap cs.interfaces
    | none => []
  (interfaces ++ inherited).foldl cs.visitInterfaces []

/-! ## Members -/

def declaredMethod? (cs : Classes) (id : ClassId) (name descriptor : String) : Option Method :=
  (cs[id]?).bind (·.declaredMethod? name descriptor)

/-- The first method with a body of its own, or else the first. -/
def preferConcrete (ms : List Method) : Option Method :=
  match ms.find? (!·.isAbstract) with
  | some m => some m
  | none => ms.head?

def findInterfaceMethod? (cs : Classes) (name descriptor : String) (id : ClassId) :
    Option Method :=
  match cs.declaredMethod? id name descriptor with
  | some m => some m
  | none =>
    preferConcrete ((cs.interfaces id).filterMap fun i =>
      if i < id then findInterfaceMethod? cs name descriptor i else none)
termination_by id

/-- The class and its superclasses come before their superinterfaces. -/
def findMethod? (cs : Classes) (id : ClassId) (name descriptor : String) : Option Method :=
  match (cs.chain id).findSome? fun k => cs.declaredMethod? k name descriptor with
  | some m => some m
  | none =>
    preferConcrete (((cs.chain id).flatMap cs.interfaces).filterMap
      (cs.findInterfaceMethod? name descriptor))

/-- The class, then its superinterfaces, then its superclass; an empty descriptor
accepts any field of the name. -/
def findField? (cs : Classes) (name descriptor : String) (id : ClassId) : Option Field :=
  match cs[id]? with
  | none => none
  | some c =>
    match (c.declaredField? name).filter fun f => descriptor = "" || f.descriptor = descriptor with
    | some f => some f
    | none =>
      match c.interfaces.findSome? fun i =>
          if i < id then findField? cs name descriptor i else none with
      | some f => some f
      | none =>
        match c.super? with
        | some s => if s < id then findField? cs name descriptor s else none
        | none => none
termination_by id

end Classes

end ClassEngine.Machine
