import ClassEngine.Proofs.ClassFile.Files
import ClassEngine.Proofs.ClassFile.Pools
import ClassEngine.Proofs.Code.Emission
import Mathlib.Data.List.Forall2

/-!
# What a builder is told

A builder is called with names, descriptors and values, and keeps indices of its pool.  Here are
the calls, the declarations that they make, which do not know of a pool, and what it means that a
class file is as declared.
-/

namespace ClassEngine.ClassFile

/-! ## Declarations -/

structure DeclaredField where
  flags : UInt16
  name : String
  descriptor : String
  value? : Option Literal
  deriving DecidableEq, Repr

inductive DeclaredHandler where
  /-- An empty class name catches everything. -/
  | labels (start stop target : Code.LabelId) (catchName : String)
  | row (h : Handler)
  deriving DecidableEq, Repr

structure DeclaredMethod where
  flags : UInt16
  name : String
  descriptor : String
  code : CodeDraft := .none
  assembler : Code.Assembler := {}
  handlers : List DeclaredHandler := []
  lines : List LineDraft := []
  throws : List String := []

structure Declared where
  name : String
  /-- Empty when the class is to have no superclass. -/
  superName : String
  version : Version := ⟨52, 0⟩
  flags : UInt16 := Access.isPublic ||| Access.isSuper
  interfaces : List String := []
  fields : List DeclaredField := []
  methods : List DeclaredMethod := []
  sourceFile : String := ""

/-! ## Calls -/

inductive MethodCall where
  | setCode (maxStack maxLocals : UInt16) (code : List UInt8)
  | startAssembly (maxStack maxLocals : UInt16)
  | emit (e : Code.Emission)
  | protect (start stop target : Code.LabelId) (catchName : String)
  | addHandler (h : Handler)
  | addLine (e : LineEntry)
  | addLineAt (start : Code.LabelId) (line : UInt16)
  | addThrows (className : String)
  deriving DecidableEq, Repr

inductive Call where
  | setFlags (flags : UInt16)
  | setVersion (version : Version)
  | setSourceFile (name : String)
  | addInterface (name : String)
  | addField (flags : UInt16) (name descriptor : String)
  | addConstantField (flags : UInt16) (name descriptor : String) (value : Literal)
  | addMethod (flags : UInt16) (name descriptor : String)
  | changeMethod (index : Nat) (call : MethodCall)
  | utf8 (text : String)
  | classRef (name : String)
  | string (text : String)
  | nameAndType (name descriptor : String)
  | member (kind : MemberKind) (owner name descriptor : String)
  | literal (value : Literal)
  /-- The class may be written more than once. -/
  | bytes
  deriving DecidableEq, Repr

namespace CodeDraft

def isAssembly : CodeDraft → Bool
  | .assembly _ _ => true
  | .none | .bytes _ _ _ => false

/-- Once a method is assembled, code that is given as bytes is not used, only its limits are. -/
def withBytes (maxStack maxLocals : UInt16) (code : List UInt8) : CodeDraft → CodeDraft
  | .assembly _ _ => .assembly maxStack maxLocals
  | .none | .bytes _ _ _ => .bytes maxStack maxLocals code

end CodeDraft

namespace MethodCall

/-- There is an assembler to call once the method is assembled. -/
def perform (m : MethodDraft) : MethodCall → Build MethodDraft
  | .setCode maxStack maxLocals code =>
    return { m with code := m.code.withBytes maxStack maxLocals code }
  | .startAssembly maxStack maxLocals =>
    return { m with code := .assembly maxStack maxLocals, assembler := {} }
  | .emit e =>
    return if m.code.isAssembly then { m with assembler := m.assembler.perform e } else m
  | .protect start stop target catchName => m.addCatch start stop target catchName
  | .addHandler h => return m.addHandler h
  | .addLine e => return m.addLine e
  | .addLineAt start line => return m.addLineAt start line
  | .addThrows className => m.addThrows className

def declare (m : DeclaredMethod) : MethodCall → DeclaredMethod
  | .setCode maxStack maxLocals code => { m with code := m.code.withBytes maxStack maxLocals code }
  | .startAssembly maxStack maxLocals =>
    { m with code := .assembly maxStack maxLocals, assembler := {} }
  | .emit e => if m.code.isAssembly then { m with assembler := m.assembler.perform e } else m
  | .protect start stop target catchName =>
    { m with handlers := m.handlers ++ [.labels start stop target catchName] }
  | .addHandler h => { m with handlers := m.handlers ++ [.row h] }
  | .addLine e => { m with lines := m.lines ++ [.entry e] }
  | .addLineAt start line => { m with lines := m.lines ++ [.label start line] }
  | .addThrows className => { m with throws := m.throws ++ [className] }

end MethodCall

namespace Builder

def changeMethod (index : Nat) (change : MethodDraft → Build MethodDraft) : Build Unit := do
  match (← get).methods[index]? with
  | none => return ()
  | some m =>
    let m ← change m
    modify fun b => { b with methods := b.methods.set index m }

end Builder

namespace Call

def perform : Call → Build Unit
  | .setFlags flags => Builder.setFlags flags
  | .setVersion version => Builder.setVersion version
  | .setSourceFile name => Builder.setSourceFile name
  | .addInterface name => Builder.addInterface name
  | .addField flags name descriptor => Builder.addField flags name descriptor
  | .addConstantField flags name descriptor value =>
    Builder.addConstantField flags name descriptor value
  | .addMethod flags name descriptor => do
    Builder.addMethod (← Builder.declareMethod flags name descriptor)
  | .changeMethod index call => Builder.changeMethod index call.perform
  | .utf8 text => do let _ ← Builder.utf8 text
  | .classRef name => do let _ ← Builder.classRef name
  | .string text => do let _ ← Builder.string text
  | .nameAndType name descriptor => do let _ ← Builder.nameAndType name descriptor
  | .member kind owner name descriptor => do let _ ← Builder.member kind owner name descriptor
  | .literal value => do let _ ← Builder.literal value
  | .bytes => do let _ ← Builder.bytes

def declare (d : Declared) : Call → Declared
  | .setFlags flags => { d with flags }
  | .setVersion version => { d with version }
  | .setSourceFile name => { d with sourceFile := name }
  | .addInterface name => { d with interfaces := d.interfaces ++ [name] }
  | .addField flags name descriptor =>
    { d with fields := d.fields ++ [⟨flags, name, descriptor, none⟩] }
  | .addConstantField flags name descriptor value =>
    { d with fields := d.fields ++ [⟨flags, name, descriptor, some value⟩] }
  | .addMethod flags name descriptor =>
    { d with methods := d.methods ++ [{ flags, name, descriptor }] }
  | .changeMethod index call => { d with methods := d.methods.modify index call.declare }
  | .utf8 _ | .classRef _ | .string _ | .nameAndType _ _ | .member _ _ _ _ | .literal _
  | .bytes => d

end Call

def Builder.build (name super : String) (calls : List Call) : Builder :=
  (calls.forM Call.perform (Builder.start name super)).2

def Declared.ofCalls (name superName : String) (calls : List Call) : Declared :=
  calls.foldl Call.declare { name, superName }

/-! ## Files as declared -/

namespace DeclaredMethod

/-- The limits and the bytes of the code, if the method has any and it can be assembled. -/
def finished? (m : DeclaredMethod) : Option (UInt16 × UInt16 × List UInt8) :=
  match m.code with
  | .none => none
  | .bytes maxStack maxLocals code => some (maxStack, maxLocals, code)
  | .assembly maxStack maxLocals =>
    m.assembler.assemble.toOption.map fun code => (maxStack, maxLocals, code.toList)

/-- The position of a label; a class is only written if the labels that it uses are marked. -/
def position (m : DeclaredMethod) (l : Code.LabelId) : Nat := (m.assembler.position? l).getD 0

def bounds (m : DeclaredMethod) : DeclaredHandler → Bounds
  | .labels start stop target _ => ⟨m.position start, m.position stop, m.position target⟩
  | .row h => h.bounds

def lineAt (m : DeclaredMethod) : LineDraft → Nat × UInt16
  | .label start line => (m.position start, line)
  | .entry e => (e.start.toNat, e.line)

/-- The code has 1 to 65535 bytes and the rows of the exception table are inside of it; or the
method has no code and is one without. -/
def Legal (m : DeclaredMethod) : Prop :=
  match m.finished? with
  | none => (Access.has m.flags Access.isAbstract || Access.has m.flags Access.isNative) = true
  | some (_, _, code) =>
    0 < code.length ∧ code.length ≤ 65535 ∧ ∀ h ∈ m.handlers, (m.bounds h).Within code.length

instance (m : DeclaredMethod) : Decidable m.Legal :=
  match h : m.finished? with
  | none => decidable_of_iff
      ((Access.has m.flags Access.isAbstract || Access.has m.flags Access.isNative) = true)
      (by rw [Legal, h])
  | some (_, _, code) => decidable_of_iff
      (0 < code.length ∧ code.length ≤ 65535 ∧ ∀ h ∈ m.handlers, (m.bounds h).Within code.length)
      (by rw [Legal, h])

/-- The tables and the code are not longer than their counts can tell. -/
structure Countable (m : DeclaredMethod) : Prop where
  handlers : m.handlers.length ≤ 65535
  lines : m.lines.length ≤ 65535
  throws : m.throws.length ≤ 65535
  code : ∀ finished ∈ m.finished?, finished.2.2.length < 4294967296

instance (m : DeclaredMethod) : Decidable m.Countable :=
  decidable_of_iff (m.handlers.length ≤ 65535 ∧ m.lines.length ≤ 65535 ∧ m.throws.length ≤ 65535 ∧
      ∀ finished ∈ m.finished?, finished.2.2.length < 4294967296)
    ⟨fun ⟨handlers, lines, throws, code⟩ => ⟨handlers, lines, throws, code⟩,
      fun ⟨handlers, lines, throws, code⟩ => ⟨handlers, lines, throws, code⟩⟩

end DeclaredMethod

def DeclaredHandler.Catches (p : Pool) (catchType : UInt16) : DeclaredHandler → Prop
  | .labels _ _ _ catchName =>
    if catchName = "" then catchType = 0 else p.className catchType = .ok catchName
  | .row h => catchType = h.catchType

/-- The field is as declared; its initial value is in the pool. -/
structure DeclaredField.Describes (p : Pool) (d : DeclaredField) (f : Field) : Prop where
  flags : f.flags = d.flags
  name : f.name = d.name
  descriptor : f.descriptor = d.descriptor
  value :
    match d.value? with
    | none => f.constantIndex = 0
    | some value => p.Holds f.constantIndex value

structure DeclaredMethod.DescribesBody (p : Pool) (d : DeclaredMethod) (b : Body) : Prop where
  code : d.finished? = some (b.maxStack, b.maxLocals, b.code.toList)
  handlers : List.Forall₂ (fun handler h => h.bounds = d.bounds handler ∧
    handler.Catches p h.catchType) d.handlers b.handlers
  lines : b.lines.map (fun e => (e.start.toNat, e.line)) = d.lines.map d.lineAt

structure DeclaredMethod.Describes (p : Pool) (d : DeclaredMethod) (m : Method) : Prop where
  flags : m.flags = d.flags
  name : m.name = d.name
  descriptor : m.descriptor = d.descriptor
  body :
    match m.body? with
    | none => d.code = .none
    | some b => d.DescribesBody p b
  throws : m.throws = d.throws

namespace Declared

structure Legal (d : Declared) : Prop where
  version : 45 ≤ d.version.major.toNat ∧ d.version.major.toNat ≤ 69
  super : d.superName ≠ "" ∨ d.name = rootClassName
  methods : ∀ m ∈ d.methods, m.Legal

structure Countable (d : Declared) : Prop where
  interfaces : d.interfaces.length ≤ 65535
  fields : d.fields.length ≤ 65535
  methodsCount : d.methods.length ≤ 65535
  methods : ∀ m ∈ d.methods, m.Countable

structure Describes (d : Declared) (p : Pool) (file : ClassFile) : Prop where
  version : file.version = d.version
  pool : file.pool = p
  flags : file.flags = d.flags
  name : file.name = d.name
  superName : file.superName = d.superName
  interfaces : file.interfaces = d.interfaces
  fields : List.Forall₂ (DeclaredField.Describes p) d.fields file.fields
  methods : List.Forall₂ (DeclaredMethod.Describes p) d.methods file.methods
  sourceFile : file.sourceFile = d.sourceFile

end Declared

end ClassEngine.ClassFile
