import ClassEngine.BigEndian
import ClassEngine.ClassFile.Basic
import ClassEngine.ClassFile.Error

/-!
# Reading class files

The file is read once from front to back.  Attributes that are not interpreted
at their place are skipped; the interpreted ones are read from their own bytes,
with offsets counted from the start of the attribute.
-/

namespace ClassEngine.ClassFile

structure Input where
  offset : Nat
  rest : List UInt8
  deriving DecidableEq, Repr

abbrev Parser := StateT Input (Except ParseError)

namespace Parser

def fail {α : Type} (e : ParseError) : Parser α := fun _ => .error e

def within {α : Type} (place : Place) (p : Parser α) : Parser α := fun input =>
  match p input with
  | .ok r => .ok r
  | .error e => .error (.within place e)

def lift {α : Type} (r : Except ParseError α) : Parser α := fun input =>
  match r with
  | .ok a => .ok (a, input)
  | .error e => .error e

def u1 : Parser UInt8 := fun input =>
  match input.rest with
  | a :: rest => .ok (a, ⟨input.offset + 1, rest⟩)
  | _ => .error (.truncated 1 input.offset)

def u2 : Parser UInt16 := fun input =>
  match input.rest with
  | a :: b :: rest => .ok (BigEndian.join16 a b, ⟨input.offset + 2, rest⟩)
  | _ => .error (.truncated 2 input.offset)

def u4 : Parser UInt32 := fun input =>
  match input.rest with
  | a :: b :: c :: d :: rest => .ok (BigEndian.join32 a b c d, ⟨input.offset + 4, rest⟩)
  | _ => .error (.truncated 4 input.offset)

def u8 : Parser UInt64 := fun input =>
  match input.rest with
  | a :: b :: c :: d :: e :: f :: g :: h :: rest =>
    .ok (BigEndian.join64 (BigEndian.join32 a b c d) (BigEndian.join32 e f g h),
      ⟨input.offset + 8, rest⟩)
  | _ => .error (.truncated 8 input.offset)

def bytes (count : Nat) : Parser (List UInt8) := fun input =>
  let taken := input.rest.take count
  if taken.length < count then .error (.truncated count input.offset)
  else .ok (taken, ⟨input.offset + count, input.rest.drop count⟩)

def remaining : Parser Nat := return (← get).rest.length

/-- Runs a parser `count` times, telling it the number of each round from `index` on. -/
def rounds {α : Type} (p : Nat → Parser α) (index : Nat) : Nat → Parser (List α)
  | 0 => return []
  | count + 1 => do
    let a ← p index
    return a :: (← rounds p (index + 1) count)

def table {α : Type} (p : Nat → Parser α) : Parser (List α) := do
  let count ← u2
  rounds p 0 count.toNat

/-- Reads a whole byte string; what is left over is reported by `extra`. -/
def runOn {α : Type} (p : Parser α) (bs : List UInt8) (extra : Nat → ParseError) :
    Except ParseError α :=
  match p ⟨0, bs⟩ with
  | .error e => .error e
  | .ok (a, input) => if input.rest.isEmpty then .ok a else .error (extra input.rest.length)

def fromPool {α : Type} (r : Except PoolError α) : Parser α :=
  lift (r.mapError ParseError.pool)

/-! ## Constant pool -/

def constant (tag : UInt8) : Parser Constant := do
  match tag.toNat with
  | 1 =>
    let length ← u2
    let bs ← bytes length.toNat
    return .utf8 (← lift ((ModifiedUtf8.decode bs).mapError ParseError.encoding))
  | 3 => return .integer (← u4).toInt32
  | 4 => return .float (← u4)
  | 5 => return .long (← u8).toInt64
  | 6 => return .double (← u8)
  | 7 => return .classRef (← u2)
  | 8 => return .string (← u2)
  | 9 => return .member .field (← u2) (← u2)
  | 10 => return .member .method (← u2) (← u2)
  | 11 => return .member .interfaceMethod (← u2) (← u2)
  | 12 => return .nameAndType (← u2) (← u2)
  | 15 => return .methodHandle (← u1) (← u2)
  | 16 => return .methodType (← u2)
  | 17 => return .dynamic .value (← u2) (← u2)
  | 18 => return .dynamic .call (← u2) (← u2)
  | 19 => return .unit .module (← u2)
  | 20 => return .unit .package (← u2)
  | _ => fail (.unknownTag tag)

def poolSlots (slots : Array (Option Constant)) : Nat → Parser (Array (Option Constant))
  | 0 => return slots
  | 1 => do
    let tag ← u1
    let c ← within (.constant slots.size) (constant tag)
    if c.isWide then fail (.poolOverrun slots.size) else return slots.push (some c)
  | left + 2 => do
    let tag ← u1
    let c ← within (.constant slots.size) (constant tag)
    if c.isWide then poolSlots ((slots.push (some c)).push none) left
    else poolSlots (slots.push (some c)) (left + 1)

def pool : Parser Pool := do
  let count ← u2
  if count = 0 then fail .emptyPool
  return ⟨← poolSlots #[none] (count.toNat - 1)⟩

/-! ## Attributes -/

def rawAttribute (p : Pool) : Parser (String × List UInt8) := do
  let index ← u2
  let name ← within .attributeName (fromPool (p.utf8 index))
  let length ← u4
  let left ← remaining
  if left < length.toNat then fail (.attributeOverrun name length.toNat left)
  return (name, ← bytes length.toNat)

/-- Reads attributes in turn, each changing what was gathered from those before it. -/
def attributeRounds {σ : Type} (p : Pool)
    (interpret : String → List UInt8 → σ → Except ParseError σ) (s : σ) : Nat → Parser σ
  | 0 => return s
  | count + 1 => do
    let (name, body) ← rawAttribute p
    let s ← within (.attributeBody name) (lift (interpret name body s))
    attributeRounds p interpret s count

def attributes {σ : Type} (p : Pool) (interpret : String → List UInt8 → σ → Except ParseError σ)
    (s : σ) : Parser σ := do
  let count ← u2
  attributeRounds p interpret s count.toNat

/-! ## Members -/

def memberHeader (p : Pool) : Parser (UInt16 × String × String) := do
  let flags ← u2
  let nameIndex ← u2
  let descriptorIndex ← u2
  let name ← fromPool (p.utf8 nameIndex)
  let descriptor ← fromPool (p.utf8 descriptorIndex)
  return (flags, name, descriptor)

def fieldAttribute (name : String) (body : List UInt8) (f : Field) : Except ParseError Field :=
  if name = "ConstantValue" then
    match body with
    | [a, b] => .ok { f with constantIndex := BigEndian.join16 a b }
    | _ => .error (.constantValueLength body.length)
  else .ok f

def field (p : Pool) (index : Nat) : Parser Field := do
  let (flags, name, descriptor) ← within (.fieldAt index) (memberHeader p)
  within (.field name) do
    let _ ← lift ((FieldType.parse descriptor).mapError ParseError.descriptor)
    attributes p fieldAttribute ⟨flags, name, descriptor, 0⟩

def handler (codeLength : Nat) (index : Nat) : Parser Handler := do
  let h : Handler := ⟨← u2, ← u2, ← u2, ← u2⟩
  if h.stop ≤ h.start || codeLength < h.stop.toNat || codeLength ≤ h.target.toNat then
    fail (.handlerRange index)
  return h

def lineEntry (_ : Nat) : Parser LineEntry := return ⟨← u2, ← u2⟩

def lineTable (length : Nat) : Parser (List LineEntry) := do
  let count ← u2
  if length ≠ 2 + 4 * count.toNat then fail (.lineTableLength length count.toNat)
  rounds lineEntry 0 count.toNat

def bodyAttribute (name : String) (bs : List UInt8) (lines : List LineEntry) :
    Except ParseError (List LineEntry) := do
  if name = "LineNumberTable" then
    let (more, _) ← lineTable bs.length ⟨0, bs⟩
    return lines ++ more
  else return lines

def body (p : Pool) : Parser Body := do
  let maxStack ← u2
  let maxLocals ← u2
  let length ← u4
  if length = 0 || 65536 ≤ length then fail (.codeLength length.toNat)
  let code ← bytes length.toNat
  let handlers ← table (handler length.toNat)
  let lines ← attributes p bodyAttribute []
  return ⟨maxStack, maxLocals, code.toArray, handlers, lines⟩

def declaredThrow (p : Pool) (_ : Nat) : Parser String := do
  fromPool (p.className (← u2))

def throwsTable (p : Pool) (length : Nat) : Parser (List String) := do
  let count ← u2
  if length ≠ 2 + 2 * count.toNat then fail (.exceptionsLength length count.toNat)
  rounds (declaredThrow p) 0 count.toNat

def methodAttribute (p : Pool) (name : String) (bs : List UInt8) (m : Method) :
    Except ParseError Method := do
  if name = "Code" then return { m with body? := some (← runOn (body p) bs .codeTrailing) }
  else if name = "Exceptions" then
    let (throws, _) ← throwsTable p bs.length ⟨0, bs⟩
    return { m with throws }
  else return m

def method (p : Pool) (index : Nat) : Parser Method := do
  let (flags, name, descriptor) ← within (.methodAt index) (memberHeader p)
  let _ ← within (.method name)
    (lift ((MethodDescriptor.parse descriptor).mapError ParseError.descriptor))
  let m ← within (.methodBody name descriptor)
    (attributes p (methodAttribute p) ⟨flags, name, descriptor, none, []⟩)
  if m.body?.isNone && !m.isAbstract && !m.isNative then fail (.missingCode name descriptor)
  return m

/-! ## Whole files -/

def magic : UInt32 := 0xcafebabe

def minMajor : UInt16 := 45

def maxMajor : UInt16 := 69

def superName (p : Pool) (name : String) : Parser String := do
  let index ← u2
  if index = 0 then
    if name = rootClassName then return "" else fail (.noSuperclass name)
  else within .superClass (fromPool (p.className index))

def interfaceName (p : Pool) (index : Nat) : Parser String := do
  let entry ← u2
  within (.interface index) (fromPool (p.className entry))

def classAttribute (p : Pool) (name : String) (bs : List UInt8) (sourceFile : String) :
    Except ParseError String :=
  if name = "SourceFile" then
    match bs with
    | [a, b] => (p.utf8 (BigEndian.join16 a b)).mapError ParseError.pool
    | _ => .error (.sourceFileLength bs.length)
  else .ok sourceFile

def classFile : Parser ClassFile := do
  let word ← u4
  if word ≠ magic then fail (.badMagic word)
  let minor ← u2
  let major ← u2
  if major < minMajor || maxMajor < major then fail (.unsupportedVersion major minor)
  let pool ← pool
  let flags ← u2
  let thisIndex ← u2
  let name ← within .thisClass (fromPool (pool.className thisIndex))
  let superName ← superName pool name
  let interfaces ← table (interfaceName pool)
  let fields ← table (field pool)
  let methods ← table (method pool)
  let sourceFile ← attributes pool (classAttribute pool) ""
  return ⟨⟨major, minor⟩, pool, flags, name, superName, interfaces, fields, methods, sourceFile⟩

end Parser

def parse (bs : List UInt8) : Except ParseError ClassFile :=
  Parser.runOn Parser.classFile bs .trailing

end ClassEngine.ClassFile
