import ClassEngine.ClassFile.Pool

/-!
# Class files

The contents of one class file, before its references are followed.
-/

namespace ClassEngine

namespace ClassFile

namespace Access

def isPublic : UInt16 := 0x0001
def isPrivate : UInt16 := 0x0002
def isProtected : UInt16 := 0x0004
def isStatic : UInt16 := 0x0008
def isFinal : UInt16 := 0x0010
def isSuper : UInt16 := 0x0020
def isNative : UInt16 := 0x0100
def isInterface : UInt16 := 0x0200
def isAbstract : UInt16 := 0x0400

def has (flags mask : UInt16) : Bool := flags &&& mask ≠ 0

end Access

def constructorName : String := "<init>"

def initializerName : String := "<clinit>"

def rootClassName : String := "java/lang/Object"

structure Version where
  major : UInt16
  minor : UInt16
  deriving DecidableEq, Repr

structure Field where
  flags : UInt16
  name : String
  descriptor : String
  /-- The pool index of the initial value of a static field, or zero. -/
  constantIndex : UInt16
  deriving DecidableEq, Repr

def Field.isStatic (f : Field) : Bool := Access.has f.flags Access.isStatic

/-- A row of an exception table: positions from `start` up to, not including,
`stop` are protected.  Catch type zero accepts every exception. -/
structure Handler where
  start : UInt16
  stop : UInt16
  target : UInt16
  catchType : UInt16
  deriving DecidableEq, Repr

def Handler.covers (h : Handler) (pc : Int) : Bool :=
  h.start.toNat ≤ pc && pc < h.stop.toNat

structure LineEntry where
  start : UInt16
  line : UInt16
  deriving DecidableEq, Repr

structure Body where
  maxStack : UInt16
  maxLocals : UInt16
  code : Array UInt8
  handlers : List Handler
  lines : List LineEntry
  deriving DecidableEq, Repr

/-- The line of the entry nearest before a position, the first of several, or zero. -/
def lineAt (lines : List LineEntry) (pc : Int) : Nat :=
  let nearer (best : Option LineEntry) (e : LineEntry) : Option LineEntry :=
    if e.start.toNat ≤ pc && best.all (fun b => b.start < e.start) then some e else best
  match lines.foldl nearer none with
  | some e => e.line.toNat
  | none => 0

def Body.lineAt (b : Body) (pc : Int) : Nat := ClassFile.lineAt b.lines pc

structure Method where
  flags : UInt16
  name : String
  descriptor : String
  body? : Option Body
  throws : List String
  deriving DecidableEq, Repr

namespace Method

def isStatic (m : Method) : Bool := Access.has m.flags Access.isStatic

def isAbstract (m : Method) : Bool := Access.has m.flags Access.isAbstract

def isNative (m : Method) : Bool := Access.has m.flags Access.isNative

def isPrivate (m : Method) : Bool := Access.has m.flags Access.isPrivate

end Method

end ClassFile

structure ClassFile where
  version : ClassFile.Version
  pool : ClassFile.Pool
  flags : UInt16
  name : String
  /-- Empty only for the root class. -/
  superName : String
  interfaces : List String
  fields : List ClassFile.Field
  methods : List ClassFile.Method
  sourceFile : String
  deriving DecidableEq, Repr

namespace ClassFile

def isInterface (c : ClassFile) : Bool := Access.has c.flags Access.isInterface

def method? (c : ClassFile) (name descriptor : String) : Option Method :=
  c.methods.find? fun m => m.name = name && m.descriptor = descriptor

def field? (c : ClassFile) (name : String) : Option Field :=
  c.fields.find? (·.name = name)

end ClassFile

end ClassEngine
