import ClassEngine.Machine.Exceptions
import ClassEngine.Machine.Invocation
import ClassEngine.Machine.Jumps

/-!
# Execution

A run executes instructions until the frame it was started with returns or an
exception leaves that frame.  It goes in rounds of one instruction and what
follows from it.  Static initializers are runs inside a round.  The number of
rounds is bounded by the fuel, which counts down also from a run to the runs
inside it.
-/

namespace ClassEngine.Machine

open Code

namespace Exec

/-- Ends the current frame and leaves the result, if there is one, to the run. -/
def leaveFrame (v? : Option Value) : Exec Unit :=
  modify fun vm =>
    { vm with
      frames := vm.frames.drop 1
      returning := true
      result := v?.getD .top
      hasResult := v?.isSome }

def clearReturn : Exec Unit := modify ({ · with returning := false })

def perform (prepare : ClassId → Exec Unit) : Operation → Exec Unit
  | .data op => onFrame (.data op)
  | .jump op => onFrame (.jump op)
  | .wide => onFrame .widened
  | .array op => array op
  | .object op => object prepare op
  | .invoke op => invoke prepare op
  | .returnValue => do leaveFrame (some (← onFrame .pop))
  | .returnVoid => leaveFrame none

def step (prepare : ClassId → Exec Unit) : Exec Unit := do
  onFrame .beginInstruction
  let op : Opcode := ⟨← onFrame .u8⟩
  match op.operation? with
  | some operation => perform prepare operation
  | none => unsupported ("0x" ++ Text.hexLower 2 op.byte.toNat)

/-- Hands the result of a return to the caller; the first frame of the run has none. -/
def finish (base : Nat) : Exec (Option Value) := do
  clearReturn
  let vm ← get
  if vm.frames.length = base then return some vm.result
  if vm.hasResult then onFrame (.push vm.result)
  return none

/-- After a return, what else came of the instruction is of no account. -/
def unlessReturning (base : Nat) (x : Exec Unit) : Exec (Option Value) := do
  if (← get).returning then finish base
  else
    x
    return none

/-- One round.  There is a result when the first frame of the run has returned. -/
def advance (prepare : ClassId → Exec Unit) (base : Nat) : Exec (Option Value) := fun vm =>
  match (do countInstruction; step prepare : Exec Unit) vm with
  | .ok () vm => unlessReturning base (pure ()) vm
  | .error (.thrown r) vm => unlessReturning base (unwind base r) vm
  | .error (.fault e) vm => unlessReturning base (raiseFault prepare base e) vm
  | .error stop vm => .error stop vm
where
  countInstruction : Exec Unit := do
    let m := (← currentFrame).method
    profile (·.recordInstruction m.id m.render)

/-- A defect ends the run as an internal fault. -/
def contain {α : Type} (base : Nat) (x : Exec α) : Exec α := fun vm =>
  match x vm with
  | .error (.defect d) vm => (do cutTo base; clearReturn; fault (.internal d) : Exec α) vm
  | outcome => outcome

/-- Forgets the traces when no frame is left. -/
def releaseTraces {α : Type} (x : Exec α) : Exec α := fun vm =>
  let release (vm : Vm) : Vm := if vm.frames.isEmpty then { vm with traces := [] } else vm
  match x vm with
  | .ok a vm => .ok a (release vm)
  | .error stop vm => .error stop (release vm)

/-- Writes the end of a run with a fault to the journal. -/
def noteEnd {α : Type} (x : Exec α) : Exec α := fun vm =>
  match x vm with
  | .error (.fault e) vm => (do note (.ended e); fault e : Exec α) vm
  | outcome => outcome

/-- Runs a method on top of the current frames, by `run`. -/
def executeBy (run : Nat → Exec Value) (m : Method) (args : List Value) : Exec Value := do
  if m.isNative then fault (.unsatisfiedLink m.render)
  match m.body? with
  | none => fault (.abstractMethod m.render)
  | some body =>
    checkDepth
    if args.length ≠ m.arity then
      fault (.internal (.argumentCount m.render m.arity args.length))
    match bindArguments m body args with
    | .error d => fault (.internal d)
    | .ok locals =>
      let base := (← get).frames.length
      enter (.enter m body locals)
      releaseTraces (noteEnd (run base))

def initializeBy (run : Nat → Exec Value) : ClassId → Exec Unit :=
  ensureInitialized fun m => do
    let _ ← executeBy run m []

/-- Runs until the frame above the first `base` frames is done. -/
def run : Nat → Nat → Exec Value
  | 0, _ => throw .exhausted
  | fuel + 1, base => do
    match ← contain base (advance (initializeBy (run fuel)) base) with
    | some v => return v
    | none => run fuel base

def execute (fuel : Nat) : Method → List Value → Exec Value := executeBy (run fuel)

def initialized (fuel : Nat) : ClassId → Exec Unit := initializeBy (run fuel)

end Exec

end ClassEngine.Machine
