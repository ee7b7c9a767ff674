import ClassEngine.Proofs.Machine.Advancing
import ClassEngine.Proofs.Machine.Switches

/-!
# The machine and the decoder agree on instructions

The decoder tells from the bytes alone where an instruction ends and how far it branches.  The
machine reads the same bytes while it executes: what it completes the decoder can read, and the
frame goes on where the decoder says.
-/

namespace ClassEngine

namespace Code.Reader

variable {code : Array UInt8} {pos n : Nat} {op : Opcode} {o : Operation}

theorem take_of_some {α : Type} {width : Nat} {value? : Array UInt8 → Nat → Option α} {v : α}
    (h : value? code pos = some v) : take width value? ⟨code, pos⟩ = .ok v ⟨code, pos + width⟩ := by
  simp [take, h]

theorem u8_bind {α : Type} {b : UInt8} (g : UInt8 → Reader α) (h : code[pos]? = some b) :
    (u8 >>= g) ⟨code, pos⟩ = g b ⟨code, pos + 1⟩ := by
  rw [bind_apply, u8, take_of_some h]

theorem i8_bind {α : Type} {b : UInt8} (g : Int8 → Reader α) (h : code[pos]? = some b) :
    (i8 >>= g) ⟨code, pos⟩ = g b.toInt8 ⟨code, pos + 1⟩ := by
  rw [bind_apply, i8, u8_bind _ h]
  rfl

theorem opcode_bind {α : Type} {b : UInt8} (g : Opcode → Reader α) (h : code[pos]? = some b) :
    (opcode >>= g) ⟨code, pos⟩ = g ⟨b⟩ ⟨code, pos + 1⟩ := by
  rw [bind_apply, opcode, u8_bind _ h]
  rfl

theorem u16_bind {α : Type} {w : UInt16} (g : UInt16 → Reader α)
    (h : BigEndian.read16? code pos = some w) :
    (u16 >>= g) ⟨code, pos⟩ = g w ⟨code, pos + 2⟩ := by
  rw [bind_apply, u16, take_of_some h]

theorem i16_bind {α : Type} {w : UInt16} (g : Int16 → Reader α)
    (h : BigEndian.read16? code pos = some w) :
    (i16 >>= g) ⟨code, pos⟩ = g w.toInt16 ⟨code, pos + 2⟩ := by
  rw [bind_apply, i16, u16_bind _ h]
  rfl

theorem i32_bind {α : Type} {w : UInt32} (g : Int32 → Reader α)
    (h : BigEndian.read32? code pos = some w) :
    (i32 >>= g) ⟨code, pos⟩ = g w.toInt32 ⟨code, pos + 4⟩ := by
  rw [bind_apply, i32, bind_apply, u32, take_of_some h]
  rfl

theorem exists_byte (h : pos < code.size) : ∃ b, code[pos]? = some b :=
  ⟨code[pos], Array.getElem?_eq_getElem h⟩

theorem exists_read16 (h : pos + 1 < code.size) : ∃ w, BigEndian.read16? code pos = some w := by
  obtain ⟨a, ha⟩ : ∃ a, code[pos]? = some a := exists_byte (by omega)
  obtain ⟨b, hb⟩ := exists_byte h
  exact ⟨BigEndian.join16 a b, by simp [BigEndian.read16?, ha, hb]⟩

theorem exists_read32 (h : pos + 3 < code.size) : ∃ w, BigEndian.read32? code pos = some w := by
  obtain ⟨a, ha⟩ : ∃ a, code[pos]? = some a := exists_byte (by omega)
  obtain ⟨b, hb⟩ : ∃ b, code[pos + 1]? = some b := exists_byte (by omega)
  obtain ⟨c, hc⟩ : ∃ c, code[pos + 2]? = some c := exists_byte (by omega)
  obtain ⟨d, hd⟩ := exists_byte h
  exact ⟨BigEndian.join32 a b c d, by simp [BigEndian.read32?, ha, hb, hc, hd]⟩

/-! ## Operands -/

theorem operands_unsignedByte {b : UInt8} (hlayout : op.layout = .unsignedByte)
    (h : code[pos]? = some b) :
    operands op ⟨code, pos⟩ = .ok (.values [(b.toNat : Int)]) ⟨code, pos + 1⟩ := by
  unfold operands
  rw [hlayout]
  exact u8_bind _ h

theorem operands_branch {w : UInt16} (hlayout : op.layout = .branch)
    (h : BigEndian.read16? code pos = some w) :
    operands op ⟨code, pos⟩ = .ok (.values [w.toInt16.toInt]) ⟨code, pos + 2⟩ := by
  unfold operands
  rw [hlayout]
  exact i16_bind _ h

theorem operands_branchWide {w : UInt32} (hlayout : op.layout = .branchWide)
    (h : BigEndian.read32? code pos = some w) :
    operands op ⟨code, pos⟩ = .ok (.values [w.toInt32.toInt]) ⟨code, pos + 4⟩ := by
  unfold operands
  rw [hlayout]
  exact i32_bind _ h

theorem operands_of_room (hn : op.layout.size? = some n) (room : pos + n ≤ code.size) :
    ∃ vs, operands op ⟨code, pos⟩ = .ok (.values vs) ⟨code, pos + n⟩ := by
  cases hlayout : op.layout <;> rw [hlayout] at hn <;> cases hn <;> unfold operands <;>
    rw [hlayout]
  case none => exact ⟨[], rfl⟩
  case unsignedByte =>
    obtain ⟨b, hb⟩ := exists_byte room
    exact ⟨_, u8_bind _ hb⟩
  case signedByte =>
    obtain ⟨b, hb⟩ := exists_byte room
    exact ⟨_, i8_bind _ hb⟩
  case unsignedShort =>
    obtain ⟨w, hw⟩ := exists_read16 room
    exact ⟨_, u16_bind _ hw⟩
  case signedShort | branch =>
    obtain ⟨w, hw⟩ := exists_read16 room
    exact ⟨_, i16_bind _ hw⟩
  case localAndDelta =>
    obtain ⟨index, hindex⟩ : ∃ i, code[pos]? = some i := exists_byte (by omega)
    obtain ⟨delta, hdelta⟩ : ∃ d, code[pos + 1]? = some d := exists_byte (by omega)
    exact ⟨_, (u8_bind _ hindex).trans (i8_bind _ hdelta)⟩
  case branchWide =>
    obtain ⟨w, hw⟩ := exists_read32 room
    exact ⟨_, i32_bind _ hw⟩
  case indexAndCount =>
    obtain ⟨index, hindex⟩ : ∃ i, BigEndian.read16? code pos = some i := exists_read16 (by omega)
    obtain ⟨count, hcount⟩ : ∃ c, code[pos + 2]? = some c := exists_byte (by omega)
    obtain ⟨zero, hzero⟩ : ∃ z, code[pos + 3]? = some z := exists_byte (by omega)
    exact ⟨_, (u16_bind _ hindex).trans ((u8_bind _ hcount).trans (u8_bind _ hzero))⟩
  case indexAndDimensions =>
    obtain ⟨index, hindex⟩ : ∃ i, BigEndian.read16? code pos = some i := exists_read16 (by omega)
    obtain ⟨dimensions, hdimensions⟩ : ∃ d, code[pos + 2]? = some d := exists_byte (by omega)
    exact ⟨_, (u16_bind _ hindex).trans (u8_bind _ hdimensions)⟩

/-! ## Instructions -/

theorem instruction_of_operands {vs : Operands} {c : Cursor} (hop : op.operation? = some o)
    (hwide : o ≠ .wide) (hbyte : code[pos]? = some op.byte)
    (hvs : operands op ⟨code, pos + 1⟩ = .ok vs c) :
    instruction ⟨code, pos⟩ = .ok ⟨pos, op, false, vs⟩ c := by
  have hget : (get : Reader Cursor) ⟨code, pos⟩ = .ok ⟨code, pos⟩ ⟨code, pos⟩ := rfl
  unfold instruction
  rw [bind_apply, hget]
  dsimp only
  rw [opcode_bind _ hbyte]
  cases o with
  | wide => exact absurd rfl hwide
  | data | jump | array | object | invoke | returnValue | returnVoid =>
      rw [hop]
      dsimp only
      rw [bind_apply, hvs]
      rfl

theorem instruction_of_room (hop : op.operation? = some o) (hn : o.layout.size? = some n)
    (hbyte : code[pos]? = some op.byte) (room : pos + 1 + n ≤ code.size) :
    ∃ vs, instruction ⟨code, pos⟩ = .ok ⟨pos, op, false, .values vs⟩ ⟨code, pos + 1 + n⟩ := by
  have hwide : o ≠ .wide := by
    rintro rfl
    cases hn
  rw [← (layout_of_operation hop).2] at hn
  obtain ⟨vs, hvs⟩ := operands_of_room hn room
  exact ⟨vs, instruction_of_operands hop hwide hbyte hvs⟩

theorem instruction_of_wide {b : UInt8} {inner : UInt8} {vs : List Int} {c : Cursor}
    (hop : (⟨b⟩ : Opcode).operation? = some .wide) (hbyte : code[pos]? = some b)
    (hinner : code[pos + 1]? = some inner) (hvs : widened ⟨inner⟩ ⟨code, pos + 2⟩ = .ok vs c) :
    instruction ⟨code, pos⟩ = .ok ⟨pos, ⟨inner⟩, true, .values vs⟩ c := by
  have hget : (get : Reader Cursor) ⟨code, pos⟩ = .ok ⟨code, pos⟩ ⟨code, pos⟩ := rfl
  unfold instruction
  rw [bind_apply, hget]
  dsimp only
  rw [opcode_bind _ hbyte, hop]
  dsimp only
  rw [opcode_bind _ hinner, bind_apply, hvs]
  rfl

theorem widened_local {w : UInt16} (hop : op.operation? ≠ some (.data .increment))
    (h : BigEndian.read16? code pos = some w) :
    widened op ⟨code, pos⟩ = .ok [(w.toNat : Int)] ⟨code, pos + 2⟩ := by
  unfold widened
  rw [u16_bind _ h]
  generalize op.operation? = o? at hop
  cases o? with
  | none => rfl
  | some o =>
      cases o with
      | data d =>
          cases d with
          | increment => exact absurd rfl hop
          | _ => rfl
      | _ => rfl

theorem widened_increment {w delta : UInt16} (hop : op.operation? = some (.data .increment))
    (h : BigEndian.read16? code pos = some w)
    (hdelta : BigEndian.read16? code (pos + 2) = some delta) :
    widened op ⟨code, pos⟩ = .ok [(w.toNat : Int), delta.toInt16.toInt] ⟨code, pos + 4⟩ := by
  unfold widened
  rw [u16_bind _ h, hop]
  exact i16_bind _ hdelta

end Code.Reader

namespace Machine

open Code

namespace FrameM

variable {f f' : Frame}

/-! ## Reading and branching -/

theorem i16_eq_ok {v : Int16} (h : i16 f = .ok v f') :
    ∃ w, BigEndian.read16? f.body.code f.pc = some w ∧ v = w.toInt16 ∧
      f' = { f with pc := f.pc + 2 } := by
  obtain ⟨w, f₁, hw, h⟩ := bind_eq_ok h
  cases h
  obtain ⟨hread, hf'⟩ := fetch_eq_ok hw
  exact ⟨w, hread, rfl, hf'⟩

theorem i32_eq_ok {v : Int32} (h : i32 f = .ok v f') :
    ∃ w, BigEndian.read32? f.body.code f.pc = some w ∧ v = w.toInt32 ∧
      f' = { f with pc := f.pc + 4 } := by
  obtain ⟨w, f₁, hw, h⟩ := bind_eq_ok h
  cases h
  obtain ⟨hread, hf'⟩ := fetch_eq_ok hw
  exact ⟨w, hread, rfl, hf'⟩

theorem branch_lands {offset : Int} {u : Unit} (h : branch offset f = .ok u f') :
    f.Continues f' ∧ (f'.pc : Int) = f.opPc + offset ∧ f'.stack = f.stack := by
  obtain ⟨hstart, -, rfl⟩ := branch_eq_ok h
  exact ⟨⟨rfl, rfl⟩, Int.toNat_of_nonneg hstart, rfl⟩

class MayBranch (offset : Int) (x : FrameM Unit) : Prop where
  lands : ∀ {f f' : Frame}, x f = .ok () f' →
    f.Continues f' ∧ (f'.pc = f.pc ∨ (f'.pc : Int) = f.opPc + offset)

instance (offset : Int16) (condition : Bool) :
    MayBranch offset.toInt (branchIf offset condition) where
  lands {f f'} h := by
    unfold branchIf at h
    split at h
    · obtain ⟨hcontinues, hpc, -⟩ := branch_lands h
      exact ⟨hcontinues, .inr hpc⟩
    · cases h
      exact ⟨.refl f, .inl rfl⟩

instance {offset : Int} {α : Type} {x : FrameM α} {g : α → FrameM Unit} [hx : Advances 0 x]
    [hg : ∀ a, MayBranch offset (g a)] : MayBranch offset (x >>= g) where
  lands {f f'} h := by
    obtain ⟨a, f₁, h₁, h₂⟩ := bind_eq_ok h
    have hf₁ := hx.advances h₁
    obtain ⟨hcontinues, hpc⟩ := (hg a).lands h₂
    rw [hf₁.pc, hf₁.opPc] at hpc
    exact ⟨hf₁.toContinues.trans hcontinues, hpc⟩

theorem conditional_eq_ok {g : Int16 → FrameM Unit}
    [hg : ∀ offset, MayBranch offset.toInt (g offset)]
    (h : (i16 >>= g) f = .ok () f') :
    ∃ w, BigEndian.read16? f.body.code f.pc = some w ∧ f.Continues f' ∧
      (f'.pc = f.pc + 2 ∨ (f'.pc : Int) = f.opPc + w.toInt16.toInt) := by
  obtain ⟨offset, f₁, h₁, h₂⟩ := bind_eq_ok h
  obtain ⟨w, hw, rfl, rfl⟩ := i16_eq_ok h₁
  obtain ⟨hcontinues, hpc⟩ := (hg _).lands h₂
  exact ⟨w, hw, ⟨hcontinues.method, hcontinues.body⟩, hpc⟩

theorem callSubroutine_eq_ok {offset : Int} {u : Unit}
    (h : callSubroutine offset f = .ok u f') :
    f.Continues f' ∧ (f'.pc : Int) = f.opPc + offset ∧
      f'.stack = .returnAddress (UInt64.ofNat f.pc) :: f.stack := by
  obtain ⟨f₁, _, hget, h⟩ := bind_eq_ok h
  cases hget
  obtain ⟨_, f₂, hpush, h⟩ := bind_eq_ok h
  obtain ⟨-, rfl⟩ := push_eq_ok hpush
  obtain ⟨hcontinues, hpc, hstack⟩ := branch_lands h
  exact ⟨⟨hcontinues.method, hcontinues.body⟩, hpc, hstack⟩

theorem leaveSubroutine_eq_ok {slot : Nat} {u : Unit} (h : leaveSubroutine slot f = .ok u f') :
    ∃ pc, f.locals[slot]? = some (.returnAddress pc) ∧ f' = { f with pc := pc.toNat } := by
  obtain ⟨v, f₁, hlocal, h⟩ := bind_eq_ok h
  obtain ⟨hslot, rfl⟩ := getLocal_eq_ok hlocal
  cases v with
  | returnAddress pc =>
      cases h
      exact ⟨pc, hslot, rfl⟩
  | _ => contradiction

end FrameM

/-! ## Where an instruction ends -/

/-- The instruction has an offset, and the frame goes on that far from where the instruction
starts. -/
def Frame.Branches (f : Frame) (i : Instruction) (f' : Frame) : Prop :=
  ∃ offset, i.values = [offset] ∧ (f'.pc : Int) = f.pc + offset

/-- Where a jump from the frame `f` goes on, when the decoder reads it as `i` and finds its end
at `next`. -/
def Frame.Lands (f : Frame) (i : Instruction) (next : Nat) (f' : Frame) : JumpOp → Prop
  | .ifZero _ | .ifInt _ | .ifRef _ | .ifNull _ => f'.pc = next ∨ f.Branches i f'
  | .goto | .gotoWide => f.Branches i f'
  | .callSubroutine | .callSubroutineWide =>
    f.Branches i f' ∧ f'.stack = .returnAddress (UInt64.ofNat next) :: f.stack
  | .leaveSubroutine =>
    ∃ (slot : Nat) (pc : UInt64), i.values = [(slot : Int)] ∧
      f.locals[slot]? = some (.returnAddress pc) ∧ f'.pc = pc.toNat
  | .tableSwitch | .lookupSwitch => False

/-- What the instruction `i` of the frame `f` makes of the machine, when it ends at `next`. -/
def Frame.Follows (f : Frame) (below : List Frame) (i : Instruction) (next : Nat) (vm vm' : Vm) :
    Operation → Prop
  | .returnValue => vm'.returning = true ∧ vm'.hasResult = true ∧
      f.stack.head? = some vm'.result ∧ vm'.frames = below
  | .returnVoid => vm'.returning = true ∧ vm'.hasResult = false ∧ vm'.frames = below
  | .invoke _ => (vm.returning = false → vm'.returning = false) ∧
      ∃ callee f', vm'.frames = callee :: f' :: below ∧ callee.pc = 0 ∧ f.Continues f' ∧
        f'.pc = next
  | .jump op => (vm.returning = false → vm'.returning = false) ∧
      ∃ f', vm'.frames = f' :: below ∧ f.Continues f' ∧ f.Lands i next f' op
  | .data _ | .wide | .array _ | .object _ => (vm.returning = false → vm'.returning = false) ∧
      ∃ f', vm'.frames = f' :: below ∧ f.Continues f' ∧ f'.pc = next

section Lands

variable {f f' : Frame} {b : UInt8} {n : Nat}

theorem FrameM.lands_jump {op : JumpOp} (hbyte : f.body.code[f.pc]? = some b)
    (hop : (⟨b⟩ : Opcode).operation? = some (.jump op)) (hplain : op.layout ≠ .switch)
    (h : jump op { f with opPc := f.pc, pc := f.pc + 1 } = .ok () f') :
    ∃ i next, Reader.instruction ⟨f.body.code, f.pc⟩ = .ok i ⟨f.body.code, next⟩ ∧ i.op = ⟨b⟩ ∧
      f.Continues f' ∧ f.Lands i next f' op := by
  have hread {vs : Operands} {c : Cursor}
      (hvs : Reader.operands ⟨b⟩ ⟨f.body.code, f.pc + 1⟩ = .ok vs c) :
      Reader.instruction ⟨f.body.code, f.pc⟩ = .ok ⟨f.pc, ⟨b⟩, false, vs⟩ c :=
    Reader.instruction_of_operands hop nofun hbyte hvs
  have hlayout := (Reader.layout_of_operation hop).2
  cases op with
  | ifZero | ifInt | ifRef | ifNull =>
      obtain ⟨w, hw, hcontinues, hpc⟩ := conditional_eq_ok h
      refine ⟨_, _, hread (Reader.operands_branch hlayout hw), rfl, ?_, ?_⟩
      · exact ⟨hcontinues.method, hcontinues.body⟩
      · exact hpc.imp_right fun hpc => ⟨_, rfl, hpc⟩
  | goto =>
      obtain ⟨offset, f₁, h₁, h₂⟩ := bind_eq_ok h
      obtain ⟨w, hw, rfl, rfl⟩ := i16_eq_ok h₁
      obtain ⟨hcontinues, hpc, -⟩ := branch_lands h₂
      refine ⟨_, _, hread (Reader.operands_branch hlayout hw), rfl, ?_, ⟨_, rfl, hpc⟩⟩
      exact ⟨hcontinues.method, hcontinues.body⟩
  | gotoWide =>
      obtain ⟨offset, f₁, h₁, h₂⟩ := bind_eq_ok h
      obtain ⟨w, hw, rfl, rfl⟩ := i32_eq_ok h₁
      obtain ⟨hcontinues, hpc, -⟩ := branch_lands h₂
      refine ⟨_, _, hread (Reader.operands_branchWide hlayout hw), rfl, ?_, ⟨_, rfl, hpc⟩⟩
      exact ⟨hcontinues.method, hcontinues.body⟩
  | callSubroutine =>
      obtain ⟨offset, f₁, h₁, h₂⟩ := bind_eq_ok h
      obtain ⟨w, hw, rfl, rfl⟩ := i16_eq_ok h₁
      obtain ⟨hcontinues, hpc, hstack⟩ := callSubroutine_eq_ok h₂
      refine ⟨_, _, hread (Reader.operands_branch hlayout hw), rfl, ?_, ⟨_, rfl, hpc⟩, hstack⟩
      exact ⟨hcontinues.method, hcontinues.body⟩
  | callSubroutineWide =>
      obtain ⟨offset, f₁, h₁, h₂⟩ := bind_eq_ok h
      obtain ⟨w, hw, rfl, rfl⟩ := i32_eq_ok h₁
      obtain ⟨hcontinues, hpc, hstack⟩ := callSubroutine_eq_ok h₂
      refine ⟨_, _, hread (Reader.operands_branchWide hlayout hw), rfl, ?_, ⟨_, rfl, hpc⟩, hstack⟩
      exact ⟨hcontinues.method, hcontinues.body⟩
  | leaveSubroutine =>
      obtain ⟨index, f₁, h₁, h₂⟩ := bind_eq_ok h
      obtain ⟨hindex, rfl⟩ := fetch_eq_ok h₁
      obtain ⟨pc, hslot, rfl⟩ := leaveSubroutine_eq_ok h₂
      exact ⟨_, _, hread (Reader.operands_unsignedByte hlayout hindex), rfl, ⟨rfl, rfl⟩,
        index.toNat, pc, rfl, hslot, rfl⟩
  | tableSwitch | lookupSwitch => exact absurd rfl hplain

theorem FrameM.follows_widened {below : List Frame} {vm : Vm}
    (hbyte : f.body.code[f.pc]? = some b) (hop : (⟨b⟩ : Opcode).operation? = some .wide)
    (h : widened { f with opPc := f.pc, pc := f.pc + 1 } = .ok () f') :
    ∃ i next o, Reader.instruction ⟨f.body.code, f.pc⟩ = .ok i ⟨f.body.code, next⟩ ∧
      i.op.operation? = some o ∧
        f.Follows below i next vm { vm with frames := f' :: below } o := by
  obtain ⟨inner, f₁, h₁, h⟩ := bind_eq_ok h
  obtain ⟨hinner, rfl⟩ := fetch_eq_ok h₁
  obtain ⟨index, f₂, h₂, h⟩ := bind_eq_ok h
  obtain ⟨hindex, rfl⟩ := fetch_eq_ok h₂
  have hread {vs : List Int} {c : Cursor}
      (hvs : Reader.widened ⟨inner⟩ ⟨f.body.code, f.pc + 2⟩ = .ok vs c) :
      Reader.instruction ⟨f.body.code, f.pc⟩ = .ok ⟨f.pc, ⟨inner⟩, true, .values vs⟩ c :=
    Reader.instruction_of_wide hop hbyte hinner hvs
  have hlocal (hne : (⟨inner⟩ : Opcode).operation? ≠ some (.data .increment)) :=
    hread (Reader.widened_local hne hindex)
  have hmoved {x : FrameM Unit} [hx : Advances 0 x] {f₀ : Frame} (h : x f₀ = .ok () f')
      (hf₀ : f.Continues f₀) : f.Continues f' ∧ f'.pc = f₀.pc := by
    have hf' := hx.advances h
    exact ⟨hf₀.trans hf'.toContinues, hf'.pc⟩
  dsimp only at h
  cases hoperation : (⟨inner⟩ : Opcode).operation? with
  | none =>
      rw [hoperation] at h
      cases h
  | some o =>
      rw [hoperation] at h hlocal
      cases o with
      | data d =>
          cases d with
          | load =>
              have hpc := hmoved (x := loadFrom _) h ⟨rfl, rfl⟩
              exact ⟨_, _, _, hlocal nofun, hoperation, id, f', rfl, hpc⟩
          | store =>
              have hpc := hmoved (x := storeTo _) h ⟨rfl, rfl⟩
              exact ⟨_, _, _, hlocal nofun, hoperation, id, f', rfl, hpc⟩
          | increment =>
              obtain ⟨v, f₃, hslot, h⟩ := bind_eq_ok h
              obtain ⟨-, rfl⟩ := getLocal_eq_ok hslot
              obtain ⟨delta, f₄, hdelta, h⟩ := bind_eq_ok h
              obtain ⟨offset, f₅, hoffset, hdelta⟩ := bind_eq_ok hdelta
              cases hdelta
              obtain ⟨w, hw, -, rfl⟩ := i16_eq_ok hoffset
              have hpc := hmoved (x := setLocal _ _) h ⟨rfl, rfl⟩
              exact ⟨_, _, _, hread (Reader.widened_increment hoperation hindex hw), hoperation,
                id, f', rfl, hpc⟩
          | _ => cases h
      | jump j =>
          cases j with
          | leaveSubroutine =>
              obtain ⟨pc, hslot, rfl⟩ := leaveSubroutine_eq_ok h
              exact ⟨_, _, _, hlocal nofun, hoperation, id, _, rfl, ⟨rfl, rfl⟩, index.toNat, pc,
                rfl, hslot, rfl⟩
          | _ => cases h
      | _ => cases h

end Lands

namespace Exec

variable {vm vm' : Vm} {f : Frame} {below : List Frame}

theorem step_eq_ok {prepare : ClassId → Exec Unit} (hframes : vm.frames = f :: below)
    (h : step prepare vm = .ok () vm') :
    ∃ b o, f.body.code[f.pc]? = some b ∧ (⟨b⟩ : Opcode).operation? = some o ∧
      perform prepare o (fetched vm f below) = .ok () vm' := by
  cases hbyte : f.body.code[f.pc]? with
  | none =>
      rw [step_out_of_code hframes hbyte] at h
      cases h
  | some b =>
      cases hop : (⟨b⟩ : Opcode).operation? with
      | some o =>
          rw [step_apply hframes hbyte hop] at h
          exact ⟨b, o, rfl, hop, h⟩
      | none =>
          rw [step_unknown hframes hbyte hop] at h
          obtain ⟨f₃, vm₃, -, h⟩ := bind_eq_ok h
          cases h

section Follows

variable {b : UInt8} {o : Operation} {n : Nat}

/-- The bytes that the machine has read are those that the decoder reads. -/
theorem decodes_of_advances {f' : Frame} (hbyte : f.body.code[f.pc]? = some b)
    (hop : (⟨b⟩ : Opcode).operation? = some o) (hn : o.layout.size? = some n)
    (hf' : Frame.Advances n { f with opPc := f.pc, pc := f.pc + 1 } f') :
    ∃ vs, Reader.instruction ⟨f.body.code, f.pc⟩ =
      .ok ⟨f.pc, ⟨b⟩, false, .values vs⟩ ⟨f.body.code, f'.pc⟩ := by
  have hsize := (Array.getElem?_eq_some_iff.mp hbyte).1
  have hroom : n ≤ f.body.code.size - (f.pc + 1) := hf'.room
  have hpc : f'.pc = f.pc + 1 + n := hf'.pc
  rw [hpc]
  exact Reader.instruction_of_room hop hn hbyte (by omega)

theorem follows_of_advances {x : Exec Unit} (hx : Advances n x)
    (hbyte : f.body.code[f.pc]? = some b) (hop : (⟨b⟩ : Opcode).operation? = some o)
    (hn : o.layout.size? = some n) (h : x (fetched vm f below) = .ok () vm') :
    ∃ i next, Reader.instruction ⟨f.body.code, f.pc⟩ = .ok i ⟨f.body.code, next⟩ ∧
      i.op = ⟨b⟩ ∧ ∃ f', vm'.frames = f' :: below ∧ f.Continues f' ∧ f'.pc = next := by
  obtain ⟨f', hframes, hf'⟩ := hx.advances rfl h
  obtain ⟨vs, hread⟩ := decodes_of_advances hbyte hop hn hf'
  exact ⟨_, _, hread, rfl, f', hframes, ⟨hf'.method, hf'.body⟩, rfl⟩

theorem follows_of_calls {x : Exec Unit} (hx : Calls n x) (hbyte : f.body.code[f.pc]? = some b)
    (hop : (⟨b⟩ : Opcode).operation? = some o) (hn : o.layout.size? = some n)
    (h : x (fetched vm f below) = .ok () vm') :
    ∃ i next, Reader.instruction ⟨f.body.code, f.pc⟩ = .ok i ⟨f.body.code, next⟩ ∧
      i.op = ⟨b⟩ ∧ ∃ callee f', vm'.frames = callee :: f' :: below ∧
        callee.pc = 0 ∧ f.Continues f' ∧ f'.pc = next := by
  obtain ⟨callee, f', hframes, hcallee, hf'⟩ := hx.calls rfl h
  obtain ⟨vs, hread⟩ := decodes_of_advances hbyte hop hn hf'
  exact ⟨_, _, hread, rfl, callee, f', hframes, hcallee, ⟨hf'.method, hf'.body⟩, rfl⟩

theorem staysClear_initializeBy (fuel : Nat) (id : ClassId) :
    Has staysClear (initializeBy (run fuel) id) :=
  fun vm => (quietly_initializeBy (runStops_run fuel) id vm).2

end Follows

/-- Where a step on an opcode other than a switch completes, the decoder reads an instruction,
and the frame goes on where that instruction ends or branches to.  Where the decoder fails, no
step completes. -/
theorem step_follows_decoder {fuel : Nat} (hframes : vm.frames = f :: below)
    (hplain : ∀ b, f.body.code[f.pc]? = some b → (⟨b⟩ : Opcode).layout ≠ .switch)
    (h : step (initializeBy (run fuel)) vm = .ok () vm') :
    ∃ i next o, Reader.instruction.run ⟨f.body.code, f.pc⟩ = .ok i ⟨f.body.code, next⟩ ∧
      i.op.operation? = some o ∧ f.Follows below i next vm vm' o := by
  obtain ⟨b, o, hbyte, hop, h⟩ := step_eq_ok hframes h
  have hclear (ho : o.isReturn = false) : (fetched vm f below).returning = false →
      vm'.returning = false :=
    (staysClear_perform (staysClear_initializeBy fuel) ho).ok h
  cases o with
  | data d =>
      obtain ⟨n, hn⟩ : ∃ n, d.layout.size? = some n := by cases d <;> exact ⟨_, rfl⟩
      have := FrameM.advances_data hn
      obtain ⟨i, next, hread, hi, hfollows⟩ :=
        follows_of_advances (x := onFrame (.data d)) inferInstance hbyte hop hn h
      exact ⟨i, next, .data d, hread, hi ▸ hop, hclear rfl, hfollows⟩
  | array a =>
      obtain ⟨n, hn⟩ : ∃ n, a.layout.size? = some n := by cases a <;> exact ⟨_, rfl⟩
      obtain ⟨i, next, hread, hi, hfollows⟩ :=
        follows_of_advances (advances_array hn) hbyte hop hn h
      exact ⟨i, next, .array a, hread, hi ▸ hop, hclear rfl, hfollows⟩
  | object a =>
      obtain ⟨n, hn⟩ : ∃ n, a.layout.size? = some n := by cases a <;> exact ⟨_, rfl⟩
      obtain ⟨i, next, hread, hi, hfollows⟩ :=
        follows_of_advances (advances_object hn) hbyte hop hn h
      exact ⟨i, next, .object a, hread, hi ▸ hop, hclear rfl, hfollows⟩
  | invoke a =>
      obtain ⟨n, hn⟩ : ∃ n, a.layout.size? = some n := by cases a <;> exact ⟨_, rfl⟩
      obtain ⟨i, next, hread, hi, hfollows⟩ := follows_of_calls (calls_invoke hn) hbyte hop hn h
      exact ⟨i, next, .invoke a, hread, hi ▸ hop, hclear rfl, hfollows⟩
  | wide =>
      obtain ⟨f', hwidened, rfl⟩ := onFrame_eq_ok rfl
        (show onFrame .widened (fetched vm f below) = _ from h)
      exact FrameM.follows_widened hbyte hop hwidened
  | jump j =>
      obtain ⟨f', hjump, rfl⟩ := onFrame_eq_ok rfl
        (show onFrame (.jump j) (fetched vm f below) = _ from h)
      have hswitch : j.layout ≠ .switch := by
        have hlayout := hplain b hbyte
        rwa [(Reader.layout_of_operation hop).2] at hlayout
      obtain ⟨i, next, hread, hi, hcontinues, hlands⟩ :=
        FrameM.lands_jump hbyte hop hswitch hjump
      exact ⟨i, next, .jump j, hread, hi ▸ hop, hclear rfl, f', rfl, hcontinues, hlands⟩
  | returnValue =>
      obtain ⟨v, vm₁, h₁, h⟩ := bind_eq_ok h
      obtain ⟨f', hpop, rfl⟩ := onFrame_eq_ok rfl h₁
      cases h
      obtain ⟨vs, hread⟩ := decodes_of_advances hbyte hop rfl (FrameM.Advances.advances hpop)
      obtain ⟨rest, hstack, -⟩ := FrameM.pop_eq_ok hpop
      exact ⟨_, _, .returnValue, hread, hop, rfl, rfl, congrArg List.head? hstack, rfl⟩
  | returnVoid =>
      cases h
      obtain ⟨vs, hread⟩ := decodes_of_advances hbyte hop rfl (.refl _)
      exact ⟨_, _, .returnVoid, hread, hop, rfl, rfl, rfl⟩

end Exec

def looping : Frame where
  method := ⟨⟨0, 0⟩, "Loop", 0, "wait", "()V", 8, ⟨[], none, "()V"⟩, none⟩
  body := ⟨1, 1, #[26, 153, 255, 255, 177], [], []⟩
  locals := #[.int 0]
  stack := [.int 0]
  pc := 1
  opPc := 0

def loopVm : Vm where
  source := .among [] fun name => .error (.notFound name)
  maxFrames := 8
  frames := [looping]

def loopedVm : Vm :=
  { loopVm with frames := [{ looping with stack := [], pc := 0, opPc := 1 }] }

theorem step_follows_decoder_looping :
    loopVm.frames = [looping] ∧
      (∀ b, looping.body.code[looping.pc]? = some b → (⟨b⟩ : Opcode).layout ≠ .switch) ∧
      Exec.step (Exec.initializeBy (Exec.run 0)) loopVm = .ok () loopedVm ∧
      ∃ i next o, Reader.instruction.run ⟨looping.body.code, looping.pc⟩ =
          .ok i ⟨looping.body.code, next⟩ ∧ i.op.operation? = some o ∧
        looping.Follows [] i next loopVm loopedVm o := by
  have hplain : ∀ b, looping.body.code[looping.pc]? = some b → (⟨b⟩ : Opcode).layout ≠ .switch := by
    rintro _ ⟨⟩
    decide +kernel
  have hstep : Exec.step (Exec.initializeBy (Exec.run 0)) loopVm = .ok () loopedVm := by
    have hop : (⟨153⟩ : Opcode).operation? = some (.jump (.ifZero .eq)) := by decide +kernel
    rw [Exec.step_apply rfl rfl hop]
    rfl
  exact ⟨rfl, hplain, hstep, Exec.step_follows_decoder rfl hplain hstep⟩

end Machine

end ClassEngine
