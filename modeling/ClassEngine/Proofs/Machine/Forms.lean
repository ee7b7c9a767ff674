import ClassEngine.Proofs.Code.RoundTrip
import ClassEngine.Proofs.Machine.FrameBounds

/-!
# One meaning, several forms

To read, write or add to a local variable and to push an int there are instructions of one, of two
or three, and of more bytes.  The assembler picks one by its operands.  Whichever it picks, the
machine does the same with it to the local variables and the operand stack.
-/

namespace ClassEngine.Machine

open Code

/-! ## What an instruction is for -/

inductive Access where
  | load
  | store
  deriving DecidableEq, Repr

inductive Purpose where
  | access (way : Access) (slot : UInt16)
  | add (slot : UInt16) (delta : Int16)
  | push (n : Int32)
  deriving DecidableEq, Repr

/-- The local variables and the operand stack when the purpose is served, unless the variable is
not there or the stack is empty or full. -/
def Frame.serve? (f : Frame) : Purpose → Option (Array Value × List Value)
  | .access .load slot => do
    let v ← f.locals[slot.toNat]?
    if f.stack.length < f.maxStack then some (f.locals, v :: f.stack) else none
  | .access .store slot => do
    let v ← f.stack.head?
    return (← storeLocal? f.locals slot.toNat v, f.stack.tail)
  | .add slot delta => do
    let v ← f.locals[slot.toNat]?
    return (f.locals.setIfInBounds slot.toNat (.int (v.asInt + delta.toInt32)), f.stack)
  | .push n => if f.stack.length < f.maxStack then some (f.locals, .int n :: f.stack) else none

namespace FrameM

variable {α : Type} {f : Frame} {p : Purpose} {n k : Nat}

/-- What the work gives that serves the purpose and reads `n` bytes of code: it ends in a defect
where the purpose cannot be served. -/
inductive Served (p : Purpose) (n : Nat) (f : Frame) :
    EStateM.Result (Fault ⊕ Defect) Frame Unit → Prop
  | done {locals : Array Value} {stack : List Value} (h : f.serve? p = some (locals, stack)) :
      Served p n f (.ok () { f with locals, stack, pc := f.pc + n })
  | failed (h : f.serve? p = none) (d : Defect) (f' : Frame) : Served p n f (.error (.inr d) f')

theorem Served.bind {x : FrameM α} {g : α → FrameM Unit} {a : α}
    (hx : x f = .ok a { f with pc := f.pc + n })
    (hg : Served p k { f with pc := f.pc + n } (g a { f with pc := f.pc + n })) :
    Served p (n + k) f ((x >>= g) f) := by
  have hserve : Frame.serve? { f with pc := f.pc + n } p = f.serve? p := by cases p <;> rfl
  rw [bind_apply, hx]
  dsimp only
  generalize g a { f with pc := f.pc + n } = result at hg
  cases hg with
  | done h =>
      dsimp only
      rw [Nat.add_assoc]
      exact .done (hserve.symm.trans h)
  | failed h d f' => exact .failed (hserve.symm.trans h) d f'

theorem served_loadFrom (slot : UInt16) (f : Frame) :
    Served (.access .load slot) 0 f (loadFrom slot.toNat f) := by
  unfold loadFrom
  rw [bind_apply, getLocal_apply]
  cases hv : f.locals[slot.toNat]? with
  | none =>
      refine .failed ?_ _ _
      simp [Frame.serve?, hv]
  | some v =>
      dsimp only
      rw [FrameM.push_apply]
      split
      · rename_i hroom
        refine .done ?_
        simp [Frame.serve?, hv, hroom]
      · rename_i hfull
        refine .failed ?_ _ _
        simp [Frame.serve?, hv, hfull]

theorem served_storeTo (slot : UInt16) (f : Frame) :
    Served (.access .store slot) 0 f (storeTo slot.toNat f) := by
  unfold storeTo
  rw [bind_apply, pop_apply]
  cases hstack : f.stack with
  | nil =>
      refine .failed ?_ _ _
      simp [Frame.serve?, hstack]
  | cons v rest =>
      dsimp only
      rw [setLocal_apply]
      dsimp only
      cases hlocals : storeLocal? f.locals slot.toNat v with
      | none =>
          refine .failed ?_ _ _
          simp [Frame.serve?, hstack, hlocals]
      | some locals =>
          refine .done ?_
          simp [Frame.serve?, hstack, hlocals]

theorem served_increment {slot : UInt16} {delta : Int16} {x : FrameM Int32}
    (hx : x f = .ok delta.toInt32 { f with pc := f.pc + n }) :
    Served (.add slot delta) n f (increment slot.toNat x f) := by
  unfold increment
  rw [bind_apply, getLocal_apply]
  cases hv : f.locals[slot.toNat]? with
  | none =>
      refine .failed ?_ _ _
      simp [Frame.serve?, hv]
  | some v =>
      have hstore : storeLocal? f.locals slot.toNat (.int (v.asInt + delta.toInt32)) =
          some (f.locals.setIfInBounds slot.toNat (.int (v.asInt + delta.toInt32))) :=
        if_pos (Array.getElem?_eq_some_iff.mp hv).1
      dsimp only
      rw [bind_apply, hx]
      dsimp only
      rw [setLocal_apply]
      dsimp only
      rw [hstore]
      refine .done ?_
      simp [Frame.serve?, hv]

theorem served_pushInt (v : Int32) (f : Frame) : Served (.push v) 0 f (pushInt v f) := by
  unfold pushInt
  rw [FrameM.push_apply]
  split
  · rename_i hroom
    refine .done ?_
    simp [Frame.serve?, hroom]
  · rename_i hfull
    refine .failed ?_ _ _
    simp [Frame.serve?, hfull]

/-! ## Operands -/

theorem i8_apply {byte : UInt8} (h : f.body.code[f.pc]? = some byte) :
    i8 f = .ok byte.toInt8 { f with pc := f.pc + 1 } := by
  unfold i8
  rw [bind_apply, Exec.u8_apply h]
  rfl

theorem u16_apply {w : UInt16} (h : BigEndian.read16? f.body.code f.pc = some w) :
    u16 f = .ok w { f with pc := f.pc + 2 } := by
  rw [u16, FrameM.fetch_apply, h]

theorem i16_apply {w : UInt16} (h : BigEndian.read16? f.body.code f.pc = some w) :
    i16 f = .ok w.toInt16 { f with pc := f.pc + 2 } := by
  unfold i16
  rw [bind_apply, u16_apply h]
  rfl

end FrameM

/-! ## Encodings -/

/-- How a step ends on an instruction of `width` bytes that has the purpose: the purpose is served
and the next instruction follows, or the step ends in a defect where it cannot be served. -/
inductive Exec.Serves (vm : Vm) (f : Frame) (below : List Frame) (p : Purpose) (width : Nat) :
    EStateM.Result Stop Vm Unit → Prop
  | done {locals : Array Value} {stack : List Value} (h : f.serve? p = some (locals, stack)) :
      Serves vm f below p width (.ok () { vm with
        frames := { f with locals, stack, opPc := f.pc, pc := f.pc + width } :: below })
  | failed (h : f.serve? p = none) (d : Defect) (vm' : Vm) :
      Serves vm f below p width (.error (.defect d) vm')

/-- The bytes are an instruction with this purpose, wherever they stand in the code. -/
def Purpose.EncodedBy (p : Purpose) (bs : List UInt8) : Prop :=
  ∀ (prepare : ClassId → Exec Unit) (vm : Vm) (f : Frame) (below : List Frame),
    vm.frames = f :: below → StandsAt f.body.code f.pc bs →
      Exec.Serves vm f below p bs.length (Exec.step prepare vm)

/-- Wherever it is called, it appends the same bytes, and they are an instruction with this
purpose. -/
def Purpose.EmittedBy (p : Purpose) (emit : Assembler → Except EmitError Assembler) : Prop :=
  ∃ bs, (∀ a, emit a = .ok (a.emitBytes bs)) ∧ p.EncodedBy bs

section Encodings

variable {p : Purpose} {op : Opcode} {o : Operation} {bs : List UInt8}

/-- The work of the operation serves the purpose wherever the operands stand. -/
theorem encodedBy_of_work {x : FrameM Unit} (hop : op.operation? = some o)
    (hperform : ∀ prepare, Exec.perform prepare o = Exec.onFrame x)
    (hx : ∀ f, StandsAt f.body.code f.pc bs → FrameM.Served p bs.length f (x f)) :
    p.EncodedBy (op.byte :: bs) := by
  intro prepare vm f below hframes hcode
  have hbyte : f.body.code[f.pc]? = some op.byte := hcode.getElem? (Nat.succ_pos _)
  have hoperands : StandsAt f.body.code (f.pc + 1) bs := @StandsAt.right _ _ [op.byte] _ hcode
  have hserve : Frame.serve? { f with opPc := f.pc, pc := f.pc + 1 } p = f.serve? p := by
    cases p with
    | access way slot => cases way <;> rfl
    | add | push => rfl
  have hwork := hx { f with opPc := f.pc, pc := f.pc + 1 } hoperands
  rw [Exec.step_apply hframes hbyte hop, hperform, Exec.onFrame]
  dsimp only
  generalize x { f with opPc := f.pc, pc := f.pc + 1 } = result at hwork
  cases hwork with
  | done h =>
      rw [List.length_cons, Nat.add_comm bs.length]
      dsimp only
      rw [Nat.add_assoc]
      exact .done (hserve.symm.trans h)
  | failed h d f' => exact .failed (hserve.symm.trans h) d _

theorem encodedBy_data {d : DataOp} (hop : op.operation? = some (.data d))
    (hx : ∀ f, StandsAt f.body.code f.pc bs → FrameM.Served p bs.length f (FrameM.data d f)) :
    p.EncodedBy (op.byte :: bs) :=
  encodedBy_of_work hop (fun _ => rfl) hx

theorem encodedBy_wide (hx : ∀ f, StandsAt f.body.code f.pc (op.byte :: bs) →
      FrameM.Served p (op.byte :: bs).length f (FrameM.widened f)) :
    p.EncodedBy (Opcode.wide.byte :: op.byte :: bs) :=
  encodedBy_of_work Reader.namedRows.wide (fun _ => rfl) hx

end Encodings

/-! ## Loads and stores -/

namespace Access

/-- The opcodes of one way: those that are followed by the number of the local variable. -/
def Names (op : Opcode) : Access → Prop
  | .load => Opcode.iload.byte ≤ op.byte ∧ op.byte ≤ Opcode.aload.byte
  | .store => Opcode.istore.byte ≤ op.byte ∧ op.byte ≤ Opcode.astore.byte

def operand : Access → DataOp
  | .load => .load
  | .store => .store

def implied (slot : Nat) : Access → DataOp
  | .load => .loadSlot slot
  | .store => .storeSlot slot

def work (slot : Nat) : Access → FrameM Unit
  | .load => .loadFrom slot
  | .store => .storeTo slot

theorem served_work (way : Access) (slot : UInt16) (f : Frame) :
    FrameM.Served (.access way slot) 0 f (way.work slot.toNat f) := by
  cases way with
  | load => exact FrameM.served_loadFrom slot f
  | store => exact FrameM.served_storeTo slot f

theorem data_implied (way : Access) (slot : Nat) :
    FrameM.data (way.implied slot) = way.work slot := by cases way <;> rfl

theorem data_operand (way : Access) :
    FrameM.data way.operand = (do way.work (← FrameM.u8).toNat) := by cases way <;> rfl

theorem operations {way : Access} {op : Opcode} (h : way.Names op) :
    op.operation? = some (.data way.operand) ∧
      ∃ first, Assembler.shortForm? op = some first ∧ ∀ index : UInt16, index ≤ 3 →
        (⟨first + index.toUInt8⟩ : Opcode).operation? = some (.data (way.implied index.toNat)) := by
  let first (b : Nat) : UInt8 := (Assembler.shortForm? ⟨UInt8.ofNat b⟩).getD 0
  have hrows : ∀ b < 256, way.Names ⟨UInt8.ofNat b⟩ →
      (⟨UInt8.ofNat b⟩ : Opcode).operation? = some (.data way.operand) ∧
        Assembler.shortForm? ⟨UInt8.ofNat b⟩ = some (first b) ∧
          ∀ n < 4, (⟨first b + UInt8.ofNat n⟩ : Opcode).operation? =
            some (.data (way.implied n)) := by
    cases way <;> unfold Names <;> decide +kernel
  obtain ⟨hop, hform, hshort⟩ := hrows op.byte.toNat op.byte.toNat_lt (by simpa using h)
  refine ⟨by simpa using hop, first op.byte.toNat, by simpa using hform, fun index hindex => ?_⟩
  obtain ⟨hlt, hbyte⟩ := Assembler.byte_of_short_index hindex
  rw [hbyte]
  exact hshort index.toNat hlt

end Access

theorem served_widened {way : Access} {op : Opcode} {slot : UInt16} {f : Frame}
    (h : way.Names op) (hcode : StandsAt f.body.code f.pc (op.byte :: BigEndian.bytes16 slot)) :
    FrameM.Served (.access way slot) 3 f (FrameM.widened f) := by
  have hbyte : f.body.code[f.pc]? = some op.byte := hcode.getElem? (Nat.succ_pos _)
  have hslot : StandsAt f.body.code (f.pc + 1) (BigEndian.bytes16 slot) :=
    @StandsAt.right _ _ [op.byte] _ hcode
  refine FrameM.Served.bind (n := 1) (k := 2) (Exec.u8_apply hbyte) ?_
  refine FrameM.Served.bind (n := 2) (k := 0) (FrameM.u16_apply hslot.read16?) ?_
  rw [(Access.operations h).1]
  cases way with
  | load => exact FrameM.served_loadFrom slot _
  | store => exact FrameM.served_storeTo slot _

theorem emittedBy_emitLocal {way : Access} {op : Opcode} (h : way.Names op) (index : UInt16) :
    (Purpose.access way index).EmittedBy fun a => .ok (a.emitLocal op index) := by
  obtain ⟨hop, first, hform, hshort⟩ := Access.operations h
  unfold Purpose.EmittedBy Assembler.emitLocal
  rw [hform]
  dsimp only
  split
  · rename_i hindex
    refine ⟨_, fun _ => rfl, encodedBy_data (hshort index hindex) fun f _ => ?_⟩
    rw [Access.data_implied]
    exact way.served_work index f
  · split
    · rename_i hbyte
      refine ⟨_, fun _ => rfl, encodedBy_data hop fun f hcode => ?_⟩
      rw [Access.data_operand]
      refine FrameM.Served.bind (n := 1) (k := 0)
        (Exec.u8_apply (hcode.getElem? Nat.zero_lt_one)) ?_
      rw [Assembler.byte_of_index hbyte]
      exact way.served_work index _
    · exact ⟨_, fun _ => rfl, encodedBy_wide fun f hcode => served_widened h hcode⟩

theorem served_widenedIncrement {slot : UInt16} {delta : Int16} {f : Frame}
    (hcode : StandsAt f.body.code f.pc
      (Opcode.iinc.byte :: (BigEndian.bytes16 slot ++ BigEndian.bytes16 delta.toUInt16))) :
    FrameM.Served (.add slot delta) 5 f (FrameM.widened f) := by
  have hbyte : f.body.code[f.pc]? = some Opcode.iinc.byte := hcode.getElem? (Nat.succ_pos _)
  have hslot : StandsAt f.body.code (f.pc + 1)
      (BigEndian.bytes16 slot ++ BigEndian.bytes16 delta.toUInt16) :=
    @StandsAt.right _ _ [Opcode.iinc.byte] _ hcode
  refine FrameM.Served.bind (n := 1) (k := 4) (Exec.u8_apply hbyte) ?_
  refine FrameM.Served.bind (n := 2) (k := 2) (FrameM.u16_apply hslot.left.read16?) ?_
  have hiinc := Reader.namedRows.iinc
  rw [hiinc]
  apply FrameM.served_increment
  rw [FrameM.bind_apply, FrameM.i16_apply hslot.right.read16?]
  rfl

theorem emittedBy_emitIncrement (index : UInt16) (delta : Int16) :
    (Purpose.add index delta).EmittedBy fun a => .ok (a.emitIncrement index delta) := by
  unfold Purpose.EmittedBy Assembler.emitIncrement
  split
  · exact ⟨_, fun _ => rfl, encodedBy_wide fun f hcode => served_widenedIncrement hcode⟩
  · rename_i hnarrow
    simp only [Bool.or_eq_true, decide_eq_true_eq, not_or] at hnarrow
    obtain ⟨⟨hindex, hlow⟩, hhigh⟩ := hnarrow
    have hdelta : delta.toUInt16.toUInt8.toInt8.toInt32 = delta.toInt32 := by
      apply Int32.toInt_inj.mp
      rw [← Assembler.toUInt8_toInt8, Int8.toInt8_toUInt8, Int8.toInt_toInt32,
        Int16.toInt_toInt32, Assembler.byte_of_delta hlow hhigh]
    refine ⟨_, fun _ => rfl, encodedBy_data Reader.namedRows.iinc fun f hcode => ?_⟩
    have hfirst : f.body.code[f.pc]? = some index.toUInt8 := hcode.getElem? (i := 0) (by simp)
    have hsecond : f.body.code[f.pc + 1]? = some delta.toUInt16.toUInt8 :=
      hcode.getElem? (i := 1) (by simp)
    refine FrameM.Served.bind (n := 1) (k := 1) (Exec.u8_apply hfirst) ?_
    rw [Assembler.byte_of_index (UInt16.not_lt.mp hindex)]
    apply FrameM.served_increment
    rw [FrameM.bind_apply, FrameM.i8_apply hsecond]
    exact congrArg (fun d => EStateM.Result.ok d _) hdelta

theorem emittedBy_emitInt {n : Int32} (hlow : -32768 ≤ n) (hhigh : n ≤ 32767) :
    (Purpose.push n).EmittedBy fun a => a.emitInt n := by
  unfold Purpose.EmittedBy Assembler.emitInt
  split
  · rename_i hsmall
    simp only [Bool.and_eq_true, decide_eq_true_eq] at hsmall
    obtain ⟨op, hbyte, hop⟩ := Assembler.constant_of_small hsmall.1 hsmall.2
    rw [← hbyte]
    refine ⟨_, fun _ => rfl, encodedBy_data hop fun f _ => ?_⟩
    rw [FrameM.data, Int32.ofInt_toInt]
    exact FrameM.served_pushInt n f
  · split
    · rename_i hbyte
      simp only [Bool.and_eq_true, decide_eq_true_eq] at hbyte
      have hvalue : n.toInt8.toUInt8.toInt8.toInt32 = n := by
        apply Int32.toInt_inj.mp
        rw [Int8.toInt8_toUInt8, Int8.toInt_toInt32, Assembler.byte_of_int hbyte.1 hbyte.2]
      refine ⟨_, fun _ => rfl, encodedBy_data Reader.namedRows.bipush fun f hcode => ?_⟩
      refine FrameM.Served.bind (n := 1) (k := 0)
        (FrameM.i8_apply (hcode.getElem? Nat.zero_lt_one)) ?_
      rw [hvalue]
      exact FrameM.served_pushInt n _
    · have hrange : (decide (-32768 ≤ n) && decide (n ≤ 32767)) = true := by simp [hlow, hhigh]
      have hvalue : n.toInt16.toUInt16.toInt16.toInt32 = n := by
        apply Int32.toInt_inj.mp
        rw [Int16.toInt16_toUInt16, Int16.toInt_toInt32, Assembler.short_of_int hlow hhigh]
      refine ⟨_, fun _ => if_pos hrange, encodedBy_data Reader.namedRows.sipush fun f hcode => ?_⟩
      refine FrameM.Served.bind (n := 2) (k := 0) (FrameM.i16_apply hcode.read16?) ?_
      rw [hvalue]
      exact FrameM.served_pushInt n _

/-- Whichever form the assembler picks for a load, a store, an increment or a constant, a step on
it does what the instruction is for, or ends in a defect where that cannot be done. -/
theorem chosen_forms_serve :
    (∀ (way : Access) (op : Opcode) (index : UInt16), way.Names op →
      (Purpose.access way index).EmittedBy fun a => .ok (a.emitLocal op index)) ∧
    (∀ (index : UInt16) (delta : Int16),
      (Purpose.add index delta).EmittedBy fun a => .ok (a.emitIncrement index delta)) ∧
    (∀ n : Int32, -32768 ≤ n → n ≤ 32767 → (Purpose.push n).EmittedBy fun a => a.emitInt n) :=
  ⟨fun _ _ index h => emittedBy_emitLocal h index, emittedBy_emitIncrement,
    fun _ => emittedBy_emitInt⟩

namespace LongInLastSlots

def body : ClassFile.Body := ⟨2, 5, #[0x42], [], []⟩

def method : Method :=
  ⟨⟨0, 0⟩, "A", 0x0021, "run", "()V", 0x0008, ⟨[], none, "()V"⟩, some body⟩

def frame : Frame := ⟨method, body, #[.int 1, .top, .top, .top, .int 2], [.long 7], 0, 0⟩

def machine : Vm := { Vm.start none 0 none with frames := [frame] }

theorem chosen_forms_serve_last :
    Access.store.Names ⟨0x37⟩ ∧
    Exec.step (Exec.initialized 0) machine = .ok () { machine with
      frames := [{ frame with
        locals := #[.int 1, .top, .top, .long 7, .top], stack := [], opPc := 0, pc := 1 }] } ∧
    (-32768 : Int32) ≤ -32768 ∧ (-32768 : Int32) ≤ 32767 ∧
    (Purpose.push (-32768)).EncodedBy [0x11, 0x80, 0x00] := by
  have hnames : Access.store.Names ⟨0x37⟩ := ⟨by decide, by decide⟩
  have hlow : (-32768 : Int32) ≤ -32768 := by decide
  have hhigh : (-32768 : Int32) ≤ 32767 := by decide
  obtain ⟨store, hstore, hstored⟩ := chosen_forms_serve.1 .store ⟨0x37⟩ 3 hnames
  obtain ⟨push, hpush, hpushed⟩ := chosen_forms_serve.2.2 (-32768) hlow hhigh
  have hbytes (bs : List UInt8) : (({} : Assembler).emitBytes bs).bytes.toList = bs := by
    simp [Assembler.emitBytes]
  obtain rfl : [0x42] = store :=
    (congrArg (·.bytes.toList) (Except.ok.inj (hstore {}))).trans (hbytes store)
  obtain rfl : [0x11, 0x80, 0x00] = push :=
    (congrArg (·.bytes.toList) (Except.ok.inj (hpush {}))).trans (hbytes push)
  have hstep := hstored (Exec.initialized 0) machine frame [] rfl ⟨[], [], rfl, rfl⟩
  refine ⟨hnames, ?_, hlow, hhigh, hpushed⟩
  generalize Exec.step _ machine = result at hstep ⊢
  cases hstep with
  | done h =>
      cases h
      rfl
  | failed h => cases h

end LongInLastSlots

end ClassEngine.Machine
