import ClassEngine.Machine.State

/-!
# Resolution of pool entries

A symbolic reference is followed when it is first used, and the outcome, success
or failure, is kept for further uses of the same sort.  An entry used in two
ways is followed anew for the second sort of use each time.
-/

namespace ClassEngine.Machine

open ClassFile (Constant MemberKind Tag PoolError)

namespace Exec

/-- The kept outcome of an entry: of the same use, of another use, or none. -/
inductive Kept where
  | outcome (o : Except Fault Resolved)
  | otherUse
  | nothing

def kept (status : ClassStatus) (index : UInt16) (use : PoolUse) : Kept :=
  match status.resolutions[index.toNat]? with
  | none => .otherUse
  | some none => .nothing
  | some (some r) => if r.use = use then .outcome r.outcome else .otherUse

def keep (id : ClassId) (index : UInt16) (use : PoolUse) (outcome : Except Fault Resolved) :
    Exec Unit :=
  modifyStatus id fun s =>
    { s with resolutions := s.resolutions.setIfInBounds index.toNat (some ⟨use, outcome⟩) }

/-- Follows an entry by `follow` unless the outcome for this use is kept. -/
def resolve (id : ClassId) (index : UInt16) (use : PoolUse) (follow : Exec Resolved) :
    Exec Resolved := do
  match kept (← statusAt id) index use with
  | .outcome o => ofExcept o
  | .otherUse => follow
  | .nothing =>
    let outcome ← attempt follow
    keep id index use outcome
    ofExcept outcome

def entry {α : Type} (e : Except PoolError α) : Exec α :=
  match e with
  | .ok a => return a
  | .error cause => fault (.badConstant cause)

def followClass (id : ClassId) (index : UInt16) : Exec Resolved := do
  let pool := (← classAt id).pool
  return .classRef (← loadClass (← entry (pool.className index)))

def followField (id : ClassId) (index : UInt16) : Exec Resolved := do
  let pool := (← classAt id).pool
  let ref ← entry (pool.member index [.fieldRef])
  let owner ← loadClass ref.owner
  match (← get).registry.classes.findField? ref.name ref.descriptor owner with
  | some f => return .field f
  | none => fault (.noSuchField ref.render)

def followMethod (id : ClassId) (index : UInt16) (tags : List Tag) : Exec Resolved := do
  let pool := (← classAt id).pool
  let ref ← entry (pool.member index tags)
  let owner ← loadClass ref.owner
  let c ← classAt owner
  if decide (ref.kind = .interfaceMethod) ≠ c.isInterface then fault (.incompatible ref.render)
  else
    match (← get).registry.classes.findMethod? owner ref.name ref.descriptor with
    | some m => return .method m
    | none => fault (.noSuchMethod ref.render)

def followLiteral (id : ClassId) (index : UInt16) : Exec Resolved := do
  let pool := (← classAt id).pool
  match ← entry (pool.get index) with
  | .integer v => return .value (.int v)
  | .float bits => return .value (.float bits)
  | .long v => return .value (.long v)
  | .double bits => return .value (.double bits)
  | .string _ =>
    let text ← entry (pool.stringValue index)
    return .value (.ref (← intern text))
  | c =>
    match c with
    | .classRef _ | .methodType _ | .methodHandle _ _ | .dynamic _ _ _ =>
      fault (.unsupportedConstant c.tag)
    | _ => fault (.notLoadable index c.tag)

def resolveClass (id : ClassId) (index : UInt16) : Exec ClassId := do
  match ← resolve id index .classRef (followClass id index) with
  | .classRef c => return c
  | _ => throw .undefined

def resolveField (id : ClassId) (index : UInt16) : Exec Field := do
  match ← resolve id index .field (followField id index) with
  | .field f => return f
  | _ => throw .undefined

/-- A method of a class, or of an interface when it is called directly. -/
def resolveMethod (id : ClassId) (index : UInt16) : Exec Method := do
  match ← resolve id index .method
    (followMethod id index [.methodRef, .interfaceMethodRef]) with
  | .method m => return m
  | _ => throw .undefined

def resolveInterfaceMethod (id : ClassId) (index : UInt16) : Exec Method := do
  match ← resolve id index .interfaceMethod (followMethod id index [.interfaceMethodRef]) with
  | .method m => return m
  | _ => throw .undefined

def literal (id : ClassId) (index : UInt16) : Exec Value := do
  match ← resolve id index .literal (followLiteral id index) with
  | .value v => return v
  | _ => throw .undefined

end Exec

end ClassEngine.Machine
