import Std.Data.HashMap
import ClassEngine.BigEndian
import ClassEngine.ClassFile.Basic
import ClassEngine.ClassFile.Error
import ClassEngine.Code.Assembler

/-!
# Writing class files

A builder collects the parts of one class file.  Its pool holds each constant
once; asking for a constant again gives the index it already has.  The first
error is kept and reported when the file is written.
-/

namespace ClassEngine.ClassFile

/-- The value of a constant field. -/
inductive Literal where
  | int (value : Int32)
  | long (value : Int64)
  | float (bits : UInt32)
  | double (bits : UInt64)
  | string (text : String)
  | unsupported (type : String)
  deriving DecidableEq, Repr

inductive BuildError where
  | poolOverflow
  | textTooLong
  | badField (name : String) (cause : DescriptorError)
  | badMethod (name : String) (cause : DescriptorError)
  | unsupportedLiteral (field type : String)
  | emptyCode (method : String)
  | unmarkedLabel (method : String)
  | assembly (method : String) (cause : Code.AssembleError)
  deriving DecidableEq, Repr

def BuildError.message : BuildError → String
  | .poolOverflow => FaultKind.badConstant.heading ++ ": constant pool overflow"
  | .textTooLong => FaultKind.badConstant.heading ++ ": string too long"
  | .badField name cause => s!"field {name}: {cause.text}"
  | .badMethod name cause => s!"method {name}: {cause.text}"
  | .unsupportedLiteral field type => s!"field {field}: unsupported constant {type}"
  | .emptyCode method => s!"method {method}: {FaultKind.malformed.heading}: empty code"
  | .unmarkedLabel method => s!"method {method}: unresolved label"
  | .assembly method cause => s!"method {method}: {cause.message}"

structure FieldDraft where
  flags : UInt16
  name : UInt16
  descriptor : UInt16
  /-- Zero when the field has no initial value. -/
  constant : UInt16
  deriving DecidableEq, Repr

/-- An exception table row, by labels of the method's code or by positions. -/
inductive HandlerDraft where
  | labels (start stop target : Code.LabelId) (catchType : UInt16)
  | row (h : Handler)
  deriving DecidableEq, Repr

inductive LineDraft where
  | label (start : Code.LabelId) (line : UInt16)
  | entry (e : LineEntry)
  deriving DecidableEq, Repr

inductive CodeDraft where
  | none
  | bytes (maxStack maxLocals : UInt16) (code : List UInt8)
  | assembly (maxStack maxLocals : UInt16)
  deriving DecidableEq, Repr

structure MethodDraft where
  flags : UInt16
  name : UInt16
  descriptor : UInt16
  label : String
  code : CodeDraft := .none
  assembler : Code.Assembler := {}
  handlers : List HandlerDraft := []
  lines : List LineDraft := []
  throws : List UInt16 := []

structure Builder where
  version : Version := ⟨52, 0⟩
  flags : UInt16 := Access.isPublic ||| Access.isSuper
  slots : Array (Option Constant) := #[none]
  index : Std.HashMap Constant UInt16 := {}
  this : UInt16 := 0
  super : UInt16 := 0
  interfaces : List UInt16 := []
  fields : List FieldDraft := []
  methods : List MethodDraft := []
  sourceFile : UInt16 := 0
  error? : Option BuildError := none

abbrev Build := StateM Builder

namespace Builder

def maxSlots : Nat := 65535

def fail (e : BuildError) : Build Unit :=
  modify fun b => { b with error? := b.error?.or (some e) }

/-! ## Pool entries -/

/-- The index of a constant, or zero when the pool is full. -/
def add (c : Constant) : Build UInt16 := do
  match (← get).index[c]? with
  | some i => return i
  | none =>
    let width := if c.isWide then 2 else 1
    if maxSlots < (← get).slots.size + width then
      fail .poolOverflow
      return 0
    else
      let i := UInt16.ofNat (← get).slots.size
      modify fun b =>
        { b with
          slots := if c.isWide then (b.slots.push (some c)).push none else b.slots.push (some c)
          index := b.index.insert c i }
      return i

def utf8 (text : String) : Build UInt16 := do
  if 65535 < (ModifiedUtf8.encode text).length then
    fail .textTooLong
    return 0
  else add (.utf8 text)

def classRef (name : String) : Build UInt16 := do
  add (.classRef (← utf8 name))

def string (text : String) : Build UInt16 := do
  add (.string (← utf8 text))

def nameAndType (name descriptor : String) : Build UInt16 := do
  add (.nameAndType (← utf8 name) (← utf8 descriptor))

def member (kind : MemberKind) (owner name descriptor : String) : Build UInt16 := do
  add (.member kind (← classRef owner) (← nameAndType name descriptor))

def literal : Literal → Build (Option UInt16)
  | .int value => some <$> add (.integer value)
  | .long value => some <$> add (.long value)
  | .float bits => some <$> add (.float bits)
  | .double bits => some <$> add (.double bits)
  | .string text => some <$> string text
  | .unsupported _ => return none

/-! ## Declarations -/

/-- A public class; an empty superclass name leaves the class without one. -/
def start (name super : String) : Builder :=
  let declare : Build Unit := do
    let this ← classRef name
    modify ({ · with this })
    if super ≠ "" then
      let super ← classRef super
      modify ({ · with super })
  (declare.run {}).2

def setFlags (flags : UInt16) : Build Unit := modify ({ · with flags })

def setVersion (version : Version) : Build Unit := modify ({ · with version })

def setSourceFile (name : String) : Build Unit := do
  let sourceFile ← utf8 name
  modify ({ · with sourceFile })

def addInterface (name : String) : Build Unit := do
  let i ← classRef name
  modify fun b => { b with interfaces := b.interfaces ++ [i] }

def declareField (flags : UInt16) (name descriptor : String) : Build FieldDraft := do
  if let .error e := FieldType.parse descriptor then fail (.badField name e)
  return ⟨flags, ← utf8 name, ← utf8 descriptor, 0⟩

def pushField (f : FieldDraft) : Build Unit :=
  modify fun b => { b with fields := b.fields ++ [f] }

def addField (flags : UInt16) (name descriptor : String) : Build Unit := do
  pushField (← declareField flags name descriptor)

def addConstantField (flags : UInt16) (name descriptor : String) (value : Literal) :
    Build Unit := do
  let f ← declareField flags name descriptor
  match ← literal value with
  | some constant => pushField { f with constant }
  | none =>
    if let .unsupported type := value then fail (.unsupportedLiteral name type)
    pushField f

/-- A method without code; it becomes part of the class by `addMethod`. -/
def declareMethod (flags : UInt16) (name descriptor : String) : Build MethodDraft := do
  if let .error e := MethodDescriptor.parse descriptor then fail (.badMethod name e)
  return { flags, name := ← utf8 name, descriptor := ← utf8 descriptor,
           label := name ++ descriptor }

def addMethod (m : MethodDraft) : Build Unit :=
  modify fun b => { b with methods := b.methods ++ [m] }

end Builder

namespace MethodDraft

/-- Protects the code between two labels; an empty class name catches everything. -/
def addCatch (m : MethodDraft) (start stop target : Code.LabelId) (className : String) :
    Build MethodDraft := do
  let catchType ← if className = "" then pure 0 else Builder.classRef className
  return { m with handlers := m.handlers ++ [.labels start stop target catchType] }

def addHandler (m : MethodDraft) (h : Handler) : MethodDraft :=
  { m with handlers := m.handlers ++ [.row h] }

def addLine (m : MethodDraft) (e : LineEntry) : MethodDraft :=
  { m with lines := m.lines ++ [.entry e] }

def addLineAt (m : MethodDraft) (start : Code.LabelId) (line : UInt16) : MethodDraft :=
  { m with lines := m.lines ++ [.label start line] }

def addThrows (m : MethodDraft) (className : String) : Build MethodDraft := do
  let i ← Builder.classRef className
  return { m with throws := m.throws ++ [i] }

/-! ## Code attributes -/

def position (m : MethodDraft) (l : Code.LabelId) : Except BuildError UInt16 :=
  match m.assembler.position? l with
  | some pos => .ok (UInt16.ofNat pos)
  | none => .error (.unmarkedLabel m.label)

def handlerRow (m : MethodDraft) : HandlerDraft → Except BuildError Handler
  | .row h => .ok h
  | .labels start stop target catchType => do
    return ⟨← m.position start, ← m.position stop, ← m.position target, catchType⟩

def lineEntry (m : MethodDraft) : LineDraft → Except BuildError LineEntry
  | .entry e => .ok e
  | .label start line => do return ⟨← m.position start, line⟩

def finishCode (m : MethodDraft) : Except BuildError (Option (UInt16 × UInt16 × List UInt8)) := do
  match m.code with
  | .none => return none
  | .bytes maxStack maxLocals code =>
    if code.isEmpty then throw (.emptyCode m.label) else return some (maxStack, maxLocals, code)
  | .assembly maxStack maxLocals =>
    match m.assembler.assemble with
    | .error e => throw (.assembly m.label e)
    | .ok code =>
      if code.isEmpty then throw (.emptyCode m.label)
      else return some (maxStack, maxLocals, code.toList)

def encodeHandler (h : Handler) : List UInt8 :=
  BigEndian.bytes16 h.start ++ BigEndian.bytes16 h.stop ++ BigEndian.bytes16 h.target ++
    BigEndian.bytes16 h.catchType

def encodeLine (e : LineEntry) : List UInt8 :=
  BigEndian.bytes16 e.start ++ BigEndian.bytes16 e.line

def count16 {α : Type} (xs : List α) : List UInt8 :=
  BigEndian.bytes16 (UInt16.ofNat xs.length)

def count32 (n : Nat) : List UInt8 :=
  BigEndian.bytes32 (UInt32.ofNat n)

/-- The bytes of the code attribute, if the method has code. -/
def encodeBody (m : MethodDraft) : Build (Except BuildError (Option (List UInt8))) := do
  let head := do
    let some (maxStack, maxLocals, code) ← m.finishCode | return none
    let rows ← m.handlers.mapM m.handlerRow
    return some (BigEndian.bytes16 maxStack ++ BigEndian.bytes16 maxLocals ++
      count32 code.length ++ code ++ count16 rows ++ rows.flatMap encodeHandler)
  match head with
  | .error e => return .error e
  | .ok none => return .ok none
  | .ok (some head) =>
    if m.lines.isEmpty then return .ok (some (head ++ BigEndian.bytes16 0))
    else
      let name ← Builder.utf8 "LineNumberTable"
      return do
        let entries ← m.lines.mapM m.lineEntry
        return some (head ++ BigEndian.bytes16 1 ++ BigEndian.bytes16 name ++
          count32 (2 + 4 * entries.length) ++ count16 entries ++ entries.flatMap encodeLine)

end MethodDraft

def Constant.encode (c : Constant) : List UInt8 :=
  c.tag.code :: match c with
    | .utf8 text =>
      let bs := ModifiedUtf8.encode text
      BigEndian.bytes16 (UInt16.ofNat bs.length) ++ bs
    | .integer value => BigEndian.bytes32 value.toUInt32
    | .float bits => BigEndian.bytes32 bits
    | .long value => BigEndian.bytes64 value.toUInt64
    | .double bits => BigEndian.bytes64 bits
    | .classRef i | .string i | .methodType i | .unit _ i => BigEndian.bytes16 i
    | .member _ i j | .nameAndType i j | .dynamic _ i j =>
      BigEndian.bytes16 i ++ BigEndian.bytes16 j
    | .methodHandle kind i => kind :: BigEndian.bytes16 i

namespace Builder

open MethodDraft (count16 count32)

def encodeBodies : List MethodDraft → Build (Except BuildError (List (Option (List UInt8))))
  | [] => return .ok []
  | m :: ms => do
    match ← m.encodeBody with
    | .error e => return .error e
    | .ok body => return (← encodeBodies ms).map (body :: ·)

def encodeAttribute (name : UInt16) (body : List UInt8) : List UInt8 :=
  BigEndian.bytes16 name ++ count32 body.length ++ body

def encodeField (constantValue : UInt16) (f : FieldDraft) : List UInt8 :=
  BigEndian.bytes16 f.flags ++ BigEndian.bytes16 f.name ++ BigEndian.bytes16 f.descriptor ++
    if f.constant = 0 then BigEndian.bytes16 0
    else BigEndian.bytes16 1 ++ encodeAttribute constantValue (BigEndian.bytes16 f.constant)

def encodeMethod (code exceptions : UInt16) (m : MethodDraft) (body : Option (List UInt8)) :
    List UInt8 :=
  let bodyAttributes := body.toList.map (encodeAttribute code)
  let throwAttributes :=
    if m.throws.isEmpty then []
    else [encodeAttribute exceptions (count16 m.throws ++ m.throws.flatMap BigEndian.bytes16)]
  let attributes := bodyAttributes ++ throwAttributes
  BigEndian.bytes16 m.flags ++ BigEndian.bytes16 m.name ++ BigEndian.bytes16 m.descriptor ++
    count16 attributes ++ attributes.flatten

/-- The pool indices of the attribute names that the file uses. -/
structure AttributeNames where
  code : UInt16
  constantValue : UInt16
  exceptions : UInt16
  sourceFile : UInt16
  deriving DecidableEq, Repr

def attributeNames : Build AttributeNames := do
  let b ← get
  let nameIf (used : Bool) (name : String) : Build UInt16 := if used then utf8 name else pure 0
  let code ← utf8 "Code"
  let constantValue ← nameIf (b.fields.any (·.constant ≠ 0)) "ConstantValue"
  let exceptions ← nameIf (b.methods.any fun m => !m.throws.isEmpty) "Exceptions"
  let sourceFile ← nameIf (b.sourceFile ≠ 0) "SourceFile"
  return ⟨code, constantValue, exceptions, sourceFile⟩

def encode (b : Builder) (names : AttributeNames) (bodies : List (Option (List UInt8))) :
    List UInt8 :=
  BigEndian.bytes32 0xcafebabe ++ BigEndian.bytes16 b.version.minor ++
    BigEndian.bytes16 b.version.major ++
    BigEndian.bytes16 (UInt16.ofNat b.slots.size) ++
    b.slots.toList.flatMap (fun slot => (slot.map Constant.encode).getD []) ++
    BigEndian.bytes16 b.flags ++ BigEndian.bytes16 b.this ++ BigEndian.bytes16 b.super ++
    count16 b.interfaces ++ b.interfaces.flatMap BigEndian.bytes16 ++
    count16 b.fields ++ b.fields.flatMap (encodeField names.constantValue) ++
    count16 b.methods ++
    (b.methods.zip bodies).flatMap (fun (m, body) =>
      encodeMethod names.code names.exceptions m body) ++
    if b.sourceFile = 0 then BigEndian.bytes16 0
    else BigEndian.bytes16 1 ++
      encodeAttribute names.sourceFile (BigEndian.bytes16 b.sourceFile)

/-- The class file.  Method bodies are finished first, as they may add names to the pool. -/
def bytes : Build (Except BuildError (List UInt8)) := do
  match ← encodeBodies (← get).methods with
  | .error e => return .error e
  | .ok bodies =>
    let names ← attributeNames
    let b ← get
    match b.error? with
    | some e => return .error e
    | none => return .ok (b.encode names bodies)

end Builder

end ClassEngine.ClassFile
