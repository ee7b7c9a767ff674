import ClassEngine.Machine.Fault
import ClassEngine.Machine.Linking

/-!
# The class registry

A registry holds each class under its own name, at most one for a name, and
remembers which names failed to load and why.  What is fixed when a class is
linked is kept apart from what changes afterwards: its state, its static
variables and the outcomes of the first uses of its pool entries.
-/

namespace ClassEngine.Machine

inductive PoolUse where
  | classRef
  | field
  | method
  | interfaceMethod
  | literal
  deriving DecidableEq, Repr

inductive Resolved where
  | classRef (id : ClassId)
  | field (f : Field)
  | method (m : Method)
  | value (v : Value)
  deriving DecidableEq, Repr

structure Resolution where
  use : PoolUse
  outcome : Except Fault Resolved

structure ClassStatus where
  state : ClassState
  statics : Array Value
  resolutions : Array (Option Resolution)

structure Registry where
  classes : Classes := #[]
  statuses : Array ClassStatus := #[]
  failures : List (String × Fault) := []

namespace Registry

def find? (reg : Registry) (name : String) : Option ClassId :=
  reg.classes.findIdx? (·.name = name)

def failure? (reg : Registry) (name : String) : Option Fault :=
  (reg.failures.find? (·.1 = name)).map (·.2)

def status? (reg : Registry) (id : ClassId) : Option ClassStatus :=
  reg.statuses[id]?

def modifyStatus (reg : Registry) (id : ClassId) (f : ClassStatus → ClassStatus) : Registry :=
  { reg with statuses := reg.statuses.modify id f }

def add (reg : Registry) (c : Class) (state : ClassState) (statics : Array Value) :
    ClassId × Registry :=
  (reg.classes.size,
    { reg with
      classes := reg.classes.push c
      statuses := reg.statuses.push
        ⟨state, statics, Array.replicate c.pool.size none⟩ })

def addFailure (reg : Registry) (name : String) (e : Fault) : Registry :=
  { reg with failures := (name, e) :: reg.failures }

end Registry

end ClassEngine.Machine
