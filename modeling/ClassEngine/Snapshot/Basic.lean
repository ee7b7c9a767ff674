import ClassEngine.ClassFile.Error
import ClassEngine.ClassFile.Parse

/-!
# Snapshots

A snapshot is a class file in flattened form: references to the constant pool
are written out, so that it can be read without the pool.
-/

namespace ClassEngine.Snapshot

open ClassFile (ParseError PoolError Pool)

structure Constant where
  index : UInt16 := 0
  tag : String := ""
  text : String := ""
  deriving DecidableEq, Repr

structure Field where
  flags : UInt16 := 0
  name : String := ""
  descriptor : String := ""
  /-- The initial value, or nothing. -/
  constant : String := ""
  deriving DecidableEq, Repr

structure Handler where
  start : UInt16 := 0
  stop : UInt16 := 0
  target : UInt16 := 0
  /-- The class accepted; no name accepts every exception. -/
  catchType : String := ""
  deriving DecidableEq, Repr

structure Line where
  start : UInt16 := 0
  line : UInt16 := 0
  deriving DecidableEq, Repr

structure Code where
  maxStack : UInt16 := 0
  maxLocals : UInt16 := 0
  /-- Missing only in a snapshot that was read. -/
  bytes? : Option (List UInt8) := none
  handlers : List Handler := []
  lines : List Line := []
  deriving DecidableEq, Repr

structure Method where
  flags : UInt16 := 0
  name : String := ""
  descriptor : String := ""
  code? : Option Code := none
  throws : List String := []
  deriving DecidableEq, Repr

structure Class where
  major : UInt16 := 0
  minor : UInt16 := 0
  flags : UInt16 := 0
  name : String := ""
  super : String := ""
  interfaces : List String := []
  constants : List Constant := []
  fields : List Field := []
  methods : List Method := []
  sourceFile : String := ""
  deriving DecidableEq, Repr

def Class.method? (c : Class) (name descriptor : String) : Option Method :=
  c.methods.find? fun m => m.name = name && m.descriptor = descriptor

inductive SnapshotError where
  | unreadable (e : ParseError)
  | badCatchType (method : String) (e : PoolError)

namespace SnapshotError

def cause : SnapshotError → ParseError
  | .unreadable e => e
  | .badCatchType _ e => .pool e

def message : SnapshotError → String
  | .unreadable e => e.message
  | .badCatchType method e => "snapshot: " ++ method ++ ": " ++ e.text

end SnapshotError

def ofConstants (pool : Pool) : List Constant :=
  (pool.slots.toList.zipIdx.filterMap fun (slot, i) =>
    slot.map fun c => ⟨UInt16.ofNat i, c.tag.name, pool.describe (UInt16.ofNat i)⟩)

def ofField (pool : Pool) (f : ClassFile.Field) : Field :=
  ⟨f.flags, f.name, f.descriptor,
    if f.constantIndex = 0 then "" else pool.describe f.constantIndex⟩

def ofHandler (pool : Pool) (h : ClassFile.Handler) : Except PoolError Handler := do
  let catchType ← if h.catchType = 0 then pure "" else pool.className h.catchType
  return ⟨h.start, h.stop, h.target, catchType⟩

def ofBody (pool : Pool) (b : ClassFile.Body) : Except PoolError Code := do
  return {
    maxStack := b.maxStack
    maxLocals := b.maxLocals
    bytes? := some b.code.toList
    handlers := ← b.handlers.mapM (ofHandler pool)
    lines := b.lines.map fun e => ⟨e.start, e.line⟩ }

def ofMethod (pool : Pool) (className : String) (m : ClassFile.Method) :
    Except SnapshotError Method :=
  match m.body?.mapM (ofBody pool) with
  | .ok code? => .ok ⟨m.flags, m.name, m.descriptor, code?, m.throws⟩
  | .error e => .error (.badCatchType (className ++ "." ++ m.name ++ m.descriptor) e)

def ofClassFile (c : ClassFile) : Except SnapshotError Class := do
  return {
    major := c.version.major
    minor := c.version.minor
    flags := c.flags
    name := c.name
    super := c.superName
    interfaces := c.interfaces
    constants := ofConstants c.pool
    fields := c.fields.map (ofField c.pool)
    methods := ← c.methods.mapM (ofMethod c.pool c.name)
    sourceFile := c.sourceFile }

def ofBytes (bytes : List UInt8) : Except SnapshotError Class :=
  match ClassFile.parse bytes with
  | .ok c => ofClassFile c
  | .error e => .error (.unreadable e)

end ClassEngine.Snapshot
