import ClassEngine.Proofs.Machine.Frames
import ClassEngine.Proofs.Machine.Rounds

/-!
# How far an operation advances

What an operation reads of the code moves its frame on by as many bytes, and nothing else moves
it but a jump.  The bytes that count are those of operations that succeed.
-/

namespace ClassEngine.Machine

/-- The same activation `n` bytes of code later, within one instruction. -/
structure Frame.Advances (n : Nat) (f f' : Frame) : Prop extends f.Continues f' where
  opPc : f'.opPc = f.opPc
  pc : f'.pc = f.pc + n
  room : n ≤ f.body.code.size - f.pc

namespace Frame.Advances

variable {f f' f'' : Frame} {m n : Nat}

theorem refl (f : Frame) : f.Advances 0 f := ⟨.refl f, rfl, rfl, Nat.zero_le _⟩

theorem trans (h : f.Advances n f') (h' : f'.Advances m f'') : f.Advances (n + m) f'' where
  toContinues := h.toContinues.trans h'.toContinues
  opPc := h'.opPc.trans h.opPc
  pc := by
    rw [h'.pc, h.pc]
    omega
  room := by
    have hroom := h.room
    have hroom' := h'.room
    rw [h.body, h.pc] at hroom'
    omega

theorem of_same (hc : f.Continues f') (hop : f'.opPc = f.opPc) (hpc : f'.pc = f.pc) :
    f.Advances 0 f' :=
  ⟨hc, hop, hpc, Nat.zero_le _⟩

end Frame.Advances

namespace FrameM

variable {α β : Type} {m n : Nat}

/-- The work reads `n` bytes of the code whenever it succeeds. -/
class Advances (n : outParam Nat) (x : FrameM α) : Prop where
  advances : ∀ {f : Frame} {a : α} {f' : Frame}, x f = .ok a f' → f.Advances n f'

instance (a : α) : Advances 0 (pure a : FrameM α) where
  advances := by
    rintro f _ _ ⟨⟩
    exact .refl f

instance : Advances 0 (get : FrameM Frame) where
  advances := by
    rintro f _ _ ⟨⟩
    exact .refl f

theorem Advances.bind {x : FrameM α} {g : α → FrameM β} (hx : Advances n x)
    (hg : ∀ a, Advances m (g a)) : Advances (n + m) (x >>= g) where
  advances h := by
    obtain ⟨a, f₁, h₁, h₂⟩ := bind_eq_ok h
    exact (hx.advances h₁).trans ((hg a).advances h₂)

instance {x : FrameM α} {g : α → FrameM β} [hx : Advances 0 x] [hg : ∀ a, Advances m (g a)] :
    Advances m (x >>= g) := by
  have h := hx.bind hg
  rwa [Nat.zero_add] at h

-- Tried last, so that work which reads nothing adds no zero to the sum.
instance (priority := low) {x : FrameM α} {g : α → FrameM β} [hx : Advances n x]
    [hg : ∀ a, Advances m (g a)] : Advances (n + m) (x >>= g) :=
  hx.bind hg

instance {c : Prop} [Decidable c] {x y : FrameM α} [hx : Advances n x] [hy : Advances n y] :
    Advances n (if c then x else y) := by
  split
  · exact hx
  · exact hy

theorem Advances.of_error {x : FrameM α} (h : ∀ f a f', x f ≠ .ok a f') : Advances n x where
  advances hok := absurd hok (h _ _ _)

instance (d : String → Nat → Defect) : Advances 0 (defectAt d : FrameM α) :=
  .of_error fun _ _ _ => nofun

instance (e : Fault) : Advances 0 (fault e : FrameM α) := .of_error fun _ _ _ => nofun

/-! ## The operand stack and the local variables -/

instance (v : Value) : Advances 0 (push v) where
  advances h := by
    obtain ⟨-, rfl⟩ := push_eq_ok h
    exact .of_same ⟨rfl, rfl⟩ rfl rfl

instance : Advances 0 pop where
  advances h := by
    obtain ⟨rest, -, rfl⟩ := pop_eq_ok h
    exact .of_same ⟨rfl, rfl⟩ rfl rfl

instance (depth : Nat) : Advances 0 (peek depth) where
  advances {f a f'} h := by
    obtain ⟨-, rfl⟩ := peek_eq_ok h
    exact .refl f'

instance (v : Int32) : Advances 0 (pushInt v) := by
  unfold pushInt
  infer_instance

instance : Advances 0 popInt := by
  unfold popInt
  infer_instance

instance : Advances 0 popLong := by
  unfold popLong
  infer_instance

instance : Advances 0 popFloat := by
  unfold popFloat
  infer_instance

instance : Advances 0 popDouble := by
  unfold popDouble
  infer_instance

instance : Advances 0 popRef := by
  unfold popRef
  infer_instance

instance (count : Nat) : Advances 0 (dropSlots count) where
  advances h := by
    obtain ⟨n, rfl⟩ := dropSlots_eq_ok h
    exact .of_same ⟨rfl, rfl⟩ rfl rfl

instance (count skip : Nat) : Advances 0 (dup count skip) where
  advances h := by
    obtain ⟨n, m, -, -, rfl⟩ := dup_eq_ok h
    exact .of_same ⟨rfl, rfl⟩ rfl rfl

instance : Advances 0 swap := by
  unfold swap
  infer_instance

instance (slot : Nat) : Advances 0 (getLocal slot) where
  advances {f a f'} h := by
    obtain ⟨-, rfl⟩ := getLocal_eq_ok h
    exact .refl f'

instance (slot : Nat) (v : Value) : Advances 0 (setLocal slot v) where
  advances h := by
    obtain ⟨locals, -, rfl⟩ := setLocal_eq_ok h
    exact .of_same ⟨rfl, rfl⟩ rfl rfl

instance (m : Method) (body : ClassFile.Body) : Advances 0 (takeOperands m body) where
  advances h := by
    obtain ⟨args, rest, -, -, rfl, -⟩ := takeOperands_eq_ok h
    exact .of_same ⟨rfl, rfl⟩ rfl rfl

/-! ## The instruction stream -/

/-- A way to read `width` bytes, which fails when they are not all there. -/
class Within {α : Type} (width : Nat) (value? : Array UInt8 → Nat → Option α) : Prop where
  room : ∀ {code pos v}, value? code pos = some v → width ≤ code.size - pos

instance : Within 1 fun (code : Array UInt8) pos => code[pos]? where
  room h := by
    have := (Array.getElem?_eq_some_iff.mp h).1
    omega

theorem size_of_read16? {code : Array UInt8} {pos : Nat} {w : UInt16}
    (h : BigEndian.read16? code pos = some w) : pos + 1 < code.size := by
  simp only [BigEndian.read16?, Option.bind_eq_bind, Option.bind_eq_some_iff] at h
  obtain ⟨a, -, b, hb, -⟩ := h
  exact (Array.getElem?_eq_some_iff.mp hb).1

theorem size_of_read32? {code : Array UInt8} {pos : Nat} {w : UInt32}
    (h : BigEndian.read32? code pos = some w) : pos + 3 < code.size := by
  simp only [BigEndian.read32?, Option.bind_eq_bind, Option.bind_eq_some_iff] at h
  obtain ⟨a, -, b, -, c, -, d, hd, -⟩ := h
  exact (Array.getElem?_eq_some_iff.mp hd).1

instance : Within 2 BigEndian.read16? where
  room h := by
    have := size_of_read16? h
    omega

instance : Within 4 BigEndian.read32? where
  room h := by
    have := size_of_read32? h
    omega

instance (width : Nat) (value? : Array UInt8 → Nat → Option α) [hw : Within width value?] :
    Advances width (fetch width value?) where
  advances h := by
    obtain ⟨hv, rfl⟩ := fetch_eq_ok h
    exact ⟨⟨rfl, rfl⟩, rfl, rfl, hw.room hv⟩

instance : Advances 1 u8 := by
  unfold u8
  infer_instance

instance : Advances 2 u16 := by
  unfold u16
  infer_instance

instance : Advances 1 i8 := by
  unfold i8
  infer_instance

instance : Advances 2 i16 := by
  unfold i16
  infer_instance

instance : Advances 4 i32 := by
  unfold i32
  infer_instance

/-! ## Data instructions -/

instance (part : Code.Division) : Advances 0 (divideInts part) := by
  have hpart (a b : Int32) : Advances 0 (match intDivide? part a b with
      | some r => pushInt r
      | none => fault .divisionByZero) := by
    cases intDivide? part a b <;> infer_instance
  unfold divideInts
  infer_instance

instance (part : Code.Division) : Advances 0 (divideLongs part) := by
  have hpart (a b : Int64) : Advances 0 (match longDivide? part a b with
      | some r => push (.long r)
      | none => fault .divisionByZero) := by
    cases longDivide? part a b <;> infer_instance
  unfold divideLongs
  infer_instance

instance (slot : Nat) : Advances 0 (loadFrom slot) := by
  unfold loadFrom
  infer_instance

instance (slot : Nat) : Advances 0 (storeTo slot) := by
  unfold storeTo
  infer_instance

instance (slot : Nat) (delta : FrameM Int32) [hdelta : Advances n delta] :
    Advances n (increment slot delta) := by
  unfold increment
  exact inferInstanceAs (Advances (n + 0) _)

theorem advances_data {op : Code.DataOp} (hn : op.layout.size? = some n) :
    Advances n (data op) := by
  cases op <;> cases hn <;> simp only [data, intOp, longOp, floatOp, doubleOp] <;> infer_instance

end FrameM

/-! ## The whole machine -/

namespace Exec

variable {α β : Type} {m n : Nat}

/-- The operation does not touch the frames. -/
class OffFrame (x : Exec α) : Prop where
  frames : ∀ vm, (after x vm).frames = vm.frames

theorem OffFrame.ok {x : Exec α} [hx : OffFrame x] {vm vm' : Vm} {a : α} (h : x vm = .ok a vm') :
    vm'.frames = vm.frames := by
  have hframes := hx.frames vm
  rwa [after_ok h] at hframes

theorem Reads.offFrame {x : Exec α} (hx : Reads x) : OffFrame x :=
  ⟨fun vm => congrArg Vm.frames (hx vm).1⟩

instance (a : α) : OffFrame (pure a : Exec α) := ⟨fun _ => rfl⟩

instance (stop : Stop) : OffFrame (throw stop : Exec α) := ⟨fun _ => rfl⟩

instance (e : Fault) : OffFrame (fault e : Exec α) := ⟨fun _ => rfl⟩

instance : OffFrame (get : Exec Vm) := ⟨fun _ => rfl⟩

instance {x : Exec α} {g : α → Exec β} [hx : OffFrame x] [hg : ∀ a, OffFrame (g a)] :
    OffFrame (x >>= g) := by
  constructor
  intro vm
  have hframes := hx.frames vm
  unfold after at *
  rw [bind_apply]
  cases hcase : x vm with
  | error stop vm' =>
      rw [hcase] at hframes
      exact hframes
  | ok a vm' =>
      rw [hcase] at hframes
      exact ((hg a).frames vm').trans hframes

instance {c : Prop} [Decidable c] {x y : Exec α} [hx : OffFrame x] [hy : OffFrame y] :
    OffFrame (if c then x else y) := by
  split
  · exact hx
  · exact hy

instance {x : Exec α} [hx : OffFrame x] : OffFrame (attempt x) := by
  constructor
  intro vm
  rw [after_attempt]
  exact hx.frames vm

instance (e : Except Fault α) : OffFrame (ofExcept e) := by
  cases e <;> unfold ofExcept <;> infer_instance

instance (e : Except ClassFile.PoolError α) : OffFrame (entry e) := by
  cases e <;> unfold entry <;> infer_instance

/-! ## Classes and pools -/

instance : OffFrame currentFrame := reads_currentFrame.offFrame

instance : OffFrame currentClass := by
  unfold currentClass
  infer_instance

instance (id : ClassId) : OffFrame (classAt id) := (reads_classAt id).offFrame

instance (id : ClassId) : OffFrame (statusAt id) := (reads_statusAt id).offFrame

instance (name : String) : OffFrame (loadClass name) := ⟨fun vm => by rw [after_loadClass]⟩

instance (id : ClassId) : OffFrame (arrayOf id) := by
  unfold arrayOf
  infer_instance

instance (id : ClassId) (index : UInt16) : OffFrame (followClass id index) := by
  unfold followClass
  infer_instance

theorem offFrame_bind {x : Exec α} {g : α → Exec β} [OffFrame x] (hg : ∀ a, OffFrame (g a)) :
    OffFrame (x >>= g) :=
  inferInstance

instance (id : ClassId) (index : UInt16) : OffFrame (followField id index) := by
  refine offFrame_bind fun c => offFrame_bind fun ref => offFrame_bind fun owner => ?_
  refine offFrame_bind fun vm => ?_
  cases vm.registry.classes.findField? ref.name ref.descriptor owner <;> infer_instance

instance (id : ClassId) (index : UInt16) (tags : List ClassFile.Tag) :
    OffFrame (followMethod id index tags) := by
  refine offFrame_bind fun c => offFrame_bind fun ref => offFrame_bind fun owner => ?_
  refine offFrame_bind fun _ => ?_
  split
  · infer_instance
  · refine offFrame_bind fun vm => ?_
    cases vm.registry.classes.findMethod? owner ref.name ref.descriptor <;> infer_instance

instance (text : String) : OffFrame (intern text) := by
  refine offFrame_bind fun id => offFrame_bind fun c => ?_
  exact ⟨fun _ => rfl⟩

instance (id : ClassId) (index : UInt16) : OffFrame (followLiteral id index) := by
  refine offFrame_bind fun c => offFrame_bind fun entry => ?_
  cases entry <;> dsimp only <;> infer_instance

instance (id : ClassId) (index : UInt16) (use : PoolUse) {follow : Exec Resolved}
    [OffFrame follow] : OffFrame (resolve id index use follow) := by
  refine offFrame_bind fun s => ?_
  have hkeep (outcome : Except Fault Resolved) : OffFrame (keep id index use outcome) :=
    ⟨fun _ => rfl⟩
  cases kept s index use <;> dsimp only <;> infer_instance

instance (id : ClassId) (index : UInt16) : OffFrame (resolveClass id index) := by
  refine offFrame_bind fun r => ?_
  cases r <;> dsimp only <;> infer_instance

instance (id : ClassId) (index : UInt16) : OffFrame (resolveField id index) := by
  refine offFrame_bind fun r => ?_
  cases r <;> dsimp only <;> infer_instance

instance (id : ClassId) (index : UInt16) : OffFrame (resolveMethod id index) := by
  refine offFrame_bind fun r => ?_
  cases r <;> dsimp only <;> infer_instance

instance (id : ClassId) (index : UInt16) : OffFrame (resolveInterfaceMethod id index) := by
  refine offFrame_bind fun r => ?_
  cases r <;> dsimp only <;> infer_instance

instance (id : ClassId) (index : UInt16) : OffFrame (literal id index) := by
  refine offFrame_bind fun r => ?_
  cases r <;> dsimp only <;> infer_instance

/-! ## The heap and the static fields -/

instance (f : Field) : OffFrame (getStaticSlot f) := (reads_getStaticSlot f).offFrame

instance (f : Field) (v : Value) : OffFrame (setStaticSlot f v) := ⟨fun _ => rfl⟩

instance (id : ClassId) : OffFrame (allocInstance id) := by
  refine offFrame_bind fun c => ?_
  exact ⟨fun _ => rfl⟩

instance (heap : Heap) : OffFrame (modify ({ · with heap }) : Exec Unit) := ⟨fun _ => rfl⟩

instance (id : ClassId) (length : Int32) : OffFrame (allocArray id length) := by
  refine offFrame_bind fun c => offFrame_bind fun vm => ?_
  infer_instance

instance (r : Ref) : OffFrame (classOf r) := (reads_classOf r).offFrame

instance (r : Ref) : OffFrame (classOfObject r) := (reads_classOfObject r).offFrame

instance (r : Ref) (index : Int32) : OffFrame (loadElement r index) :=
  (reads_loadElement r index).offFrame

instance (r : Ref) (index : Int32) (v : Value) : OffFrame (storeElement r index v) := by
  constructor
  intro vm
  unfold after storeElement
  rw [bind_apply, get_apply]
  dsimp only
  rw [bind_apply]
  cases vm.heap.store vm.registry.classes r index v with
  | ok heap => rfl
  | error e => cases e <;> rfl

instance (a : Ref) (v : Value) : OffFrame (checkElement a v) := by
  unfold checkElement
  split
  · infer_instance
  · refine offFrame_bind fun id => offFrame_bind fun ac => offFrame_bind fun vid => ?_
    cases ac.component? <;> dsimp only <;> infer_instance

instance (f : Field) (r : Ref) : OffFrame (fieldHolder f r) := by
  refine offFrame_bind fun vm => ?_
  cases vm.heap.get? r <;> dsimp only <;> infer_instance

instance (v : Value) (index : UInt16) : OffFrame (castCheck v index) := by
  unfold castCheck
  infer_instance

instance (v : Value) (target : ClassId) : OffFrame (isInstance v target) := by
  unfold isInstance
  infer_instance

/-! ## Methods to call -/

instance (m : Method) : OffFrame (checkInstanceMethod m) := by
  unfold checkInstanceMethod
  infer_instance

instance : OffFrame checkDepth := by
  unfold checkDepth
  infer_instance

instance (m : Method) : OffFrame (specialTarget m) := by
  unfold specialTarget
  refine offFrame_bind fun caller => offFrame_bind fun c => offFrame_bind fun vm => ?_
  dsimp only
  split
  · split <;> infer_instance
  · infer_instance

instance (m : Method) (v : Value) : OffFrame (selectMethod m v) := by
  have hset (site : CallSite) (cache : InlineCache ClassId Method) :
      OffFrame (setSite site cache) := ⟨fun _ => rfl⟩
  refine offFrame_bind fun rc => offFrame_bind fun f => offFrame_bind fun vm => ?_
  refine offFrame_bind fun _ => ?_
  split
  · infer_instance
  · refine offFrame_bind fun c => ?_
    split <;> infer_instance

/-! ## The current frame -/

/-- The operation reads `n` bytes of the code whenever it succeeds, and leaves the frames below
the current one alone. -/
class Advances (n : outParam Nat) (x : Exec α) : Prop where
  advances : ∀ {vm vm' : Vm} {a : α} {f : Frame} {below : List Frame}, vm.frames = f :: below →
    x vm = .ok a vm' → ∃ f', vm'.frames = f' :: below ∧ f.Advances n f'

theorem Advances.of_error {x : Exec α} (h : ∀ vm a vm', x vm ≠ .ok a vm') : Advances n x where
  advances _ hok := absurd hok (h _ _ _)

theorem Advances.bind {x : Exec α} {g : α → Exec β} (hx : Advances n x)
    (hg : ∀ a, Advances m (g a)) : Advances (n + m) (x >>= g) where
  advances hframes h := by
    obtain ⟨a, vm₁, h₁, h₂⟩ := bind_eq_ok h
    obtain ⟨f₁, hframes₁, hf₁⟩ := hx.advances hframes h₁
    obtain ⟨f₂, hframes₂, hf₂⟩ := (hg a).advances hframes₁ h₂
    exact ⟨f₂, hframes₂, hf₁.trans hf₂⟩

instance (priority := low) {x : Exec α} [hx : OffFrame x] : Advances 0 x where
  advances hframes h := ⟨_, hx.ok h ▸ hframes, .refl _⟩

instance {x : Exec α} {g : α → Exec β} [hx : Advances 0 x] [hg : ∀ a, Advances m (g a)] :
    Advances m (x >>= g) := by
  have h := hx.bind hg
  rwa [Nat.zero_add] at h

instance (priority := low) {x : Exec α} {g : α → Exec β} [hx : Advances n x]
    [hg : ∀ a, Advances m (g a)] : Advances (n + m) (x >>= g) :=
  hx.bind hg

instance {c : Prop} [Decidable c] {x y : Exec α} [hx : Advances n x] [hy : Advances n y] :
    Advances n (if c then x else y) := by
  split
  · exact hx
  · exact hy

instance {x : FrameM α} [hx : x.Advances n] : Advances n (onFrame x) where
  advances {vm vm' a f below} hframes h := by
    obtain ⟨f₀, f', below₀, hframes₀, hcase, rfl⟩ := exists_of_onFrame_ok h
    cases hframes.symm.trans hframes₀
    exact ⟨f', rfl, hx.advances hcase⟩

theorem advances_unsupported (text : String) : Advances n (unsupported text : Exec α) := by
  apply Advances.of_error
  intro vm a vm' h
  obtain ⟨f, vm₁, -, h⟩ := bind_eq_ok h
  contradiction

instance (id : ClassId) : Advances 0 (pushArray id) := by
  unfold pushArray
  infer_instance

theorem advances_array {op : Code.ArrayOp} (hn : op.layout.size? = some n) :
    Advances n (array op) := by
  cases op with
  | createNested => exact advances_unsupported _
  | create =>
      cases hn
      refine Advances.bind (n := 1) (m := 0) inferInstance fun code => ?_
      cases baseArrayName? code with
      | none => infer_instance
      | some name => infer_instance
  | _ =>
      cases hn
      unfold array
      infer_instance

variable {prepare : ClassId → Exec Unit} [hprepare : ∀ id, Advances 0 (prepare id)]

instance : Advances 2 (staticField prepare) := by
  unfold staticField
  infer_instance

instance : Advances 2 instanceField := by
  unfold instanceField
  infer_instance

instance (index : UInt16) : Advances 0 (pushLiteral index) := by
  unfold pushLiteral
  infer_instance

theorem advances_object {op : Code.ObjectOp} (hn : op.layout.size? = some n) :
    Advances n (object prepare op) := by
  have hput (f : Field) (r : Ref) (v : Value) : OffFrame (modify fun vm =>
      { vm with heap := vm.heap.modify r fun o =>
        { o with fields := o.fields.setIfInBounds f.slot v } } : Exec Unit) := ⟨fun _ => rfl⟩
  cases op <;> cases hn <;> unfold object <;> infer_instance

/-! ## Calls -/

/-- The operation reads `n` bytes of the code and puts one new frame on the current one. -/
class Calls (n : outParam Nat) (x : Exec Unit) : Prop where
  calls : ∀ {vm vm' : Vm} {f : Frame} {below : List Frame}, vm.frames = f :: below →
    x vm = .ok () vm' →
      ∃ callee f', vm'.frames = callee :: f' :: below ∧ callee.pc = 0 ∧ f.Advances n f'

theorem Calls.of_error {x : Exec Unit} (h : ∀ vm a vm', x vm ≠ .ok a vm') : Calls n x where
  calls _ hok := absurd hok (h _ _ _)

theorem Calls.bind {x : Exec α} {g : α → Exec Unit} (hx : Advances n x)
    (hg : ∀ a, Calls m (g a)) : Calls (n + m) (x >>= g) where
  calls hframes h := by
    obtain ⟨a, vm₁, h₁, h₂⟩ := bind_eq_ok h
    obtain ⟨f₁, hframes₁, hf₁⟩ := hx.advances hframes h₁
    obtain ⟨callee, f₂, hframes₂, hpc, hf₂⟩ := (hg a).calls hframes₁ h₂
    exact ⟨callee, f₂, hframes₂, hpc, hf₁.trans hf₂⟩

instance {x : Exec α} {g : α → Exec Unit} [hx : Advances 0 x] [hg : ∀ a, Calls m (g a)] :
    Calls m (x >>= g) := by
  have h := Calls.bind hx hg
  rwa [Nat.zero_add] at h

instance (priority := low) {x : Exec α} {g : α → Exec Unit} [hx : Advances n x]
    [hg : ∀ a, Calls m (g a)] : Calls (n + m) (x >>= g) :=
  .bind hx hg

instance {c : Prop} [Decidable c] {x y : Exec Unit} [hx : Calls n x] [hy : Calls n y] :
    Calls n (if c then x else y) := by
  split
  · exact hx
  · exact hy

instance (e : Fault) : Calls 0 (fault e) := .of_error fun _ _ _ => nofun

instance (d : Defect) : Calls 0 (throw (.defect d)) := .of_error fun _ _ _ => nofun

instance (m : Method) (body : ClassFile.Body) (locals : Array Value) :
    Calls 0 (enter (.enter m body locals)) where
  calls {vm vm' f below} hframes h := by
    obtain ⟨_, vm₁, h₁, h₂⟩ := bind_eq_ok h
    cases h₁
    cases h₂
    exact ⟨_, f, congrArg _ hframes, rfl, .refl f⟩

instance (m : Method) : Calls 0 (call m) := by
  unfold call
  cases m.body? <;> dsimp only <;> infer_instance

instance (m : Method) : Advances 0 (receiver m) := by
  unfold receiver
  infer_instance

instance (m : Method) (v : Value) : Calls 0 (dispatch m v) := by
  unfold dispatch
  infer_instance

theorem calls_invoke {op : Code.InvokeOp} (hn : op.layout.size? = some n) :
    Calls n (invoke prepare op) := by
  cases op with
  | dynamic =>
      refine .of_error fun vm a vm' h => ?_
      obtain ⟨f, vm₁, -, h⟩ := bind_eq_ok h
      contradiction
  | interface =>
      cases hn
      unfold invoke
      refine Calls.bind (n := 2) (m := 2) inferInstance fun _ => ?_
      refine Calls.bind (n := 1) (m := 1) inferInstance fun _ => ?_
      refine Calls.bind (n := 1) (m := 0) inferInstance fun _ => ?_
      infer_instance
  | _ =>
      cases hn
      unfold invoke
      infer_instance

end Exec

/-! ## Static initializers -/

/-- The frames are as they were when the operation comes to an end. -/
def restoresFrames : Effect := fun a o b =>
  (o = none ∨ ∃ e, o = some (.fault e)) → b.frames = a.frames

namespace Exec

variable {α : Type}

theorem OffFrame.restores {x : Exec α} [hx : OffFrame x] : Has restoresFrames x :=
  fun vm _ => hx.frames vm

instance (f : Field) : OffFrame (assignConstant f) := by
  unfold assignConstant
  split
  · refine offFrame_bind fun outcome => ?_
    cases outcome <;> infer_instance
  · infer_instance

theorem preparing_restoresFrames : restoresFrames.Preparing where
  trans h h' ho := (h' ho).trans (h (.inl rfl))
  reads h _ := congrArg Vm.frames h.1
  assigned _ := OffFrame.restores
  moved _ _ _ _ := rfl
  running _ _ _ := rfl
  failed _ h := h
  renamed _ h _ := h (.inr ⟨_, rfl⟩)

theorem has_executeBy_restoresFrames (fuel : Nat) (m : Method) (args : List Value) :
    Has restoresFrames (executeBy (run fuel) m args) := by
  have hleaves (vm : Vm) := runLeaves_executeBy (fun h => runLeaves_run fuel h) m args vm
  apply has_of_cases
  · intro vm v vm' h _
    have hleaves := hleaves vm
    rwa [h] at hleaves
  · intro vm stop vm' h ho
    have hleaves := hleaves vm
    rw [h] at hleaves
    rcases ho with ho | ⟨e, ho⟩
    · contradiction
    · cases ho
      exact hleaves

theorem frames_of_initializeBy {fuel : Nat} {id : ClassId} {vm vm' : Vm} {u : Unit}
    (h : initializeBy (run fuel) id vm = .ok u vm') : vm'.frames = vm.frames := by
  have hrun (m : Method) : Has restoresFrames
      (do let _ ← executeBy (run fuel) m [] : Exec Unit) :=
    Has.bind_of_trans preparing_restoresFrames.trans (has_executeBy_restoresFrames fuel m [])
      fun _ => OffFrame.restores
  exact (prepares_ensureInitialized preparing_restoresFrames hrun id).ok h (.inl rfl)

instance (fuel : Nat) (id : ClassId) : Advances 0 (initializeBy (run fuel) id) where
  advances hframes h := ⟨_, (frames_of_initializeBy h).trans hframes, .refl _⟩

end Exec

end ClassEngine.Machine
