import ClassEngine.ClassFile.Constant
import ClassEngine.Decimal.Written
import ClassEngine.Text.Quoted

/-!
# Constant pools

A pool is indexed from one; slot zero and the slot after each wide constant are
empty.  Entries are not checked against each other when a file is read: every
accessor checks the entries that it follows.
-/

namespace ClassEngine.ClassFile

structure Pool where
  slots : Array (Option Constant)
  deriving DecidableEq, Repr

inductive PoolError where
  | unusable (index : UInt16)
  | mismatch (index : UInt16) (found : Tag) (wanted : List Tag)
  deriving DecidableEq, Repr

def PoolError.message : PoolError → String
  | .unusable index => s!"index {index.toNat} out of range or unusable"
  | .mismatch index found wanted =>
    let names := String.intercalate " " (wanted.map Tag.name)
    s!"#{index.toNat} is {found.name}, want [{names}]"

structure Member where
  kind : MemberKind
  owner : String
  name : String
  descriptor : String
  deriving DecidableEq, Repr

def Member.render (m : Member) : String :=
  m.owner ++ "." ++ m.name ++ ":" ++ m.descriptor

namespace Pool

def size (p : Pool) : Nat := p.slots.size

def get? (p : Pool) (index : UInt16) : Option Constant :=
  if index = 0 then none else (p.slots[index.toNat]?).join

def get (p : Pool) (index : UInt16) : Except PoolError Constant :=
  match p.get? index with
  | some c => .ok c
  | none => .error (.unusable index)

def utf8 (p : Pool) (index : UInt16) : Except PoolError String := do
  match ← p.get index with
  | .utf8 text => return text
  | c => throw (.mismatch index c.tag [.utf8])

def className (p : Pool) (index : UInt16) : Except PoolError String := do
  match ← p.get index with
  | .classRef name => p.utf8 name
  | c => throw (.mismatch index c.tag [.classRef])

def stringValue (p : Pool) (index : UInt16) : Except PoolError String := do
  match ← p.get index with
  | .string text => p.utf8 text
  | c => throw (.mismatch index c.tag [.string])

def nameAndType (p : Pool) (index : UInt16) : Except PoolError (String × String) := do
  match ← p.get index with
  | .nameAndType name descriptor => return (← p.utf8 name, ← p.utf8 descriptor)
  | c => throw (.mismatch index c.tag [.nameAndType])

def anyMember : List Tag := [.fieldRef, .methodRef, .interfaceMethodRef]

/-- The member referred to by an entry whose tag is among `wanted`. -/
def member (p : Pool) (index : UInt16) (wanted : List Tag) : Except PoolError Member := do
  match ← p.get index with
  | .member kind owner nameAndType =>
    if kind.tag ∈ wanted then
      let owner ← p.className owner
      let (name, descriptor) ← p.nameAndType nameAndType
      return ⟨kind, owner, name, descriptor⟩
    else throw (.mismatch index kind.tag wanted)
  | c => throw (.mismatch index c.tag wanted)

private def textOr (e : Except PoolError String) : String :=
  match e with
  | .ok text => text
  | .error _ => ""

def describe (p : Pool) (index : UInt16) : String :=
  match p.get? index with
  | none => "<invalid>"
  | some c =>
    match c with
    | .utf8 text => Text.quote text
    | .integer value => s!"int {value.toInt}"
    | .float bits => "float " ++ Decimal.renderSingle bits
    | .long value => s!"long {value.toInt}"
    | .double bits => "double " ++ Decimal.renderDouble bits
    | .classRef name => "class " ++ textOr (p.utf8 name)
    | .string text => "String " ++ Text.quote (textOr (p.utf8 text))
    | .member kind _ _ =>
      match p.member index anyMember with
      | .error _ => s!"<invalid {kind.tag.name}>"
      | .ok m => (if kind = .field then "Field " else "Method ") ++ m.render
    | .nameAndType _ _ =>
      match p.nameAndType index with
      | .error _ => ":"
      | .ok (name, descriptor) => name ++ ":" ++ descriptor
    | c => c.tag.name

end Pool

end ClassEngine.ClassFile
