import ClassEngine.BigEndian
import ClassEngine.Machine.Class
import ClassEngine.Machine.Fault

/-!
# Frames

A frame is one activation of a method: its local variables, its operand stack,
which never grows beyond the limit of the method, and its position in the code.
Every access is checked, and a failed one is a defect.  An operation on a frame
that fails keeps what it changed before.
-/

namespace ClassEngine.Machine

open ClassFile (Body)

structure Frame where
  method : Method
  body : Body
  locals : Array Value
  /-- The top of the stack first. -/
  stack : List Value
  /-- The position of the next byte to read. -/
  pc : Nat
  /-- The start of the current instruction. -/
  opPc : Nat
  deriving DecidableEq, Repr

namespace Frame

def enter (m : Method) (body : Body) (locals : Array Value) : Frame :=
  ⟨m, body, locals, [], 0, 0⟩

def unsetLocals (body : Body) : Array Value :=
  Array.replicate body.maxLocals.toNat .top

def maxStack (f : Frame) : Nat := f.body.maxStack.toNat

def line (f : Frame) : Nat := f.body.lineAt f.opPc

def traceElement (f : Frame) : TraceElement :=
  ⟨f.method.ownerName, f.method.name, f.line, f.opPc⟩

end Frame

/-- Stores a value in a local variable, a wide one also claiming the next. -/
def storeLocal? (locals : Array Value) (slot : Nat) (v : Value) : Option (Array Value) :=
  if v.isWide then
    if slot + 2 ≤ locals.size then
      some ((locals.setIfInBounds slot v).setIfInBounds (slot + 1) .top)
    else none
  else if slot + 1 ≤ locals.size then some (locals.setIfInBounds slot v)
  else none

abbrev FrameM := EStateM (Fault ⊕ Defect) Frame

namespace FrameM

def defectAt {α : Type} (d : String → Nat → Defect) : FrameM α := do
  let f ← get
  throw (.inr (d f.method.render f.opPc))

def fault {α : Type} (e : Fault) : FrameM α := throw (.inl e)

/-! ## The operand stack -/

def push (v : Value) : FrameM Unit := do
  let f ← get
  if f.stack.length < f.maxStack then set { f with stack := v :: f.stack }
  else defectAt .stackOverflow

def pop : FrameM Value := do
  let f ← get
  match f.stack with
  | v :: rest =>
    set { f with stack := rest }
    return v
  | [] => defectAt .stackUnderflow

def peek (depth : Nat) : FrameM Value := do
  match (← get).stack[depth]? with
  | some v => return v
  | none => defectAt .stackUnderflow

def pushInt (v : Int32) : FrameM Unit := push (.int v)

def popInt : FrameM Int32 := return (← pop).asInt

def popLong : FrameM Int64 := return (← pop).asLong

def popFloat : FrameM UInt32 := return (← pop).asFloat

def popDouble : FrameM UInt64 := return (← pop).asDouble

def popRef : FrameM Ref := return (← pop).asRef

/-! ## Shuffles -/

/-- How many entries make up exactly the given number of slots; a long or double
counts as two slots. -/
def entriesFor : List Value → Nat → FrameM Nat
  | _, 0 => return 0
  | [], _ + 1 => defectAt .stackUnderflow
  | v :: rest, slots + 1 => do
    if v.isWide then
      match slots with
      | 0 => defectAt .splitsWide
      | slots + 1 => return (← entriesFor rest slots) + 1
    else return (← entriesFor rest slots) + 1

def dropSlots (count : Nat) : FrameM Unit := do
  let f ← get
  let n ← entriesFor f.stack count
  set { f with stack := f.stack.drop n }

/-- Puts values in the place of the entries from a depth on. -/
def overwrite (depth : Nat) (vs : List Value) : FrameM Unit :=
  modify fun f =>
    { f with stack := f.stack.take depth ++ vs ++ f.stack.drop (depth + vs.length) }

/-- Copies the top `count` slots beneath the `skip` slots under them: makes room on
top, moves up what was there, and puts the copy under it. -/
def dup (count skip : Nat) : FrameM Unit := do
  let f ← get
  let n ← entriesFor f.stack count
  let m ← entriesFor (f.stack.drop n) skip
  (List.replicate n Value.top).forM push
  let grown ← get
  overwrite 0 ((grown.stack.drop n).take (n + m))
  overwrite (n + m) (f.stack.take n)

def swap : FrameM Unit := do
  let a ← pop
  let b ← pop
  if a.isWide || b.isWide then defectAt .wideSwap
  else
    push a
    push b

/-! ## Local variables -/

def getLocal (slot : Nat) : FrameM Value := do
  let f ← get
  match f.locals[slot]? with
  | some v => return v
  | none => throw (.inr (.localRange slot f.method.render))

def setLocal (slot : Nat) (v : Value) : FrameM Unit := do
  let f ← get
  match storeLocal? f.locals slot v with
  | some locals => set { f with locals }
  | none => throw (.inr (.localRange slot f.method.render))

/-! ## The instruction stream -/

def need (count : Nat) : FrameM Unit := do
  let f ← get
  if f.body.code.size < f.pc + count then defectAt .truncated

def fetch {α : Type} (width : Nat) (value? : Array UInt8 → Nat → Option α) : FrameM α := do
  let f ← get
  match value? f.body.code f.pc with
  | some v =>
    set { f with pc := f.pc + width }
    return v
  | none => defectAt .truncated

def u8 : FrameM UInt8 := fetch 1 fun code pos => code[pos]?

def u16 : FrameM UInt16 := fetch 2 BigEndian.read16?

def i8 : FrameM Int8 := return (← u8).toInt8

def i16 : FrameM Int16 := return (← u16).toInt16

def i32 : FrameM Int32 := return (← fetch 4 BigEndian.read32?).toInt32

def align : FrameM Unit := modify fun f => { f with pc := (f.pc + 3) / 4 * 4 }

def skip (count : Nat) : FrameM Unit := modify fun f => { f with pc := f.pc + count }

/-- Goes to a distance from the start of the current instruction. -/
def branch (offset : Int) : FrameM Unit := do
  let f ← get
  let target := (f.opPc : Int) + offset
  if target < 0 || (f.body.code.size : Int) ≤ target then
    throw (.inr (.branchOutside target f.method.render))
  else set { f with pc := target.toNat }

def beginInstruction : FrameM Unit := modify fun f => { f with opPc := f.pc }

end FrameM

end ClassEngine.Machine
