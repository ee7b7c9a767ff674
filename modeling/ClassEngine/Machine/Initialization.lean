import ClassEngine.Machine.Resolution

/-!
# Initialization

A class is initialized when it is first used: after its superclass, its constant
fields get their values and its static initializer runs.  A class whose
initialization is under way counts as initialized, so that its initializer can
use it.  A class that failed stays failed.
-/

namespace ClassEngine.Machine

namespace Exec

def assignConstant (f : Field) : Exec Unit := do
  if f.isStatic && f.constantIndex ≠ 0 then
    match ← attempt (literal f.id.owner f.constantIndex) with
    | .ok v => setStaticSlot f v
    | .error cause => fault (.constantValue f.render cause)

def ofInitializer (name : String) (e : Fault) : Fault :=
  if e.belongs .uncaught then .initializerThrew name e else e

/-- Marks a class as failed when `x` fails. -/
def failing (id : ClassId) (x : Exec Unit) : Exec Unit := do
  match ← attempt x with
  | .ok () => return
  | .error e =>
    setState id .failed
    fault e

def initializeOwn (runInitializer : Method → Exec Unit) (c : Class) : Exec Unit := do
  c.fields.forM assignConstant
  match c.declaredMethod? ClassFile.initializerName "()V" with
  | none => return
  | some m =>
    note (.running m.id)
    match ← attempt (runInitializer m) with
    | .ok () => return
    | .error e => fault (ofInitializer c.name e)

def ensureInitialized (runInitializer : Method → Exec Unit) (id : ClassId) : Exec Unit := do
  let c ← classAt id
  match (← statusAt id).state with
  | .initialized | .initializing => return
  | .failed => fault (.previouslyFailed c.name)
  | .loaded | .linked =>
    setState id .initializing
    failing id do
      if let some s := c.super? then
        if s < id then
          if !c.isInterface then ensureInitialized runInitializer s
      initializeOwn runInitializer c
    setState id .initialized
termination_by id

end Exec

end ClassEngine.Machine
