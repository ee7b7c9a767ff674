import ClassEngine.Proofs.Machine.Deeds
import ClassEngine.Proofs.Machine.Settling

/-!
# What is stored

Elements are stored by the instructions for it that complete, each of which stores its operand, and
by nothing else.  The stores of the parts of an operation, in their order, are those of the whole.
-/

namespace ClassEngine.Machine

open Code

namespace Exec

variable {α β : Type}

/-! ## Parts of instructions -/

instance (a : Ref) (v : Value) : Quiet (checkElement a v) := by
  unfold checkElement
  split
  · infer_instance
  · refine quiet_bind fun id => quiet_bind fun ac => quiet_bind fun vid => ?_
    cases ac.component? <;> dsimp only <;> infer_instance

instance (id : ClassId) : Quiet (pushArray id) := by
  unfold pushArray
  infer_instance

theorem quiet_array {op : ArrayOp} (hstore : op ≠ .store) (hstoreRef : op ≠ .storeRef) :
    Quiet (array op) := by
  cases op with
  | store => exact absurd rfl hstore
  | storeRef => exact absurd rfl hstoreRef
  | create =>
      refine quiet_bind fun code => ?_
      cases baseArrayName? code <;> dsimp only <;> infer_instance
  | _ =>
      unfold array
      infer_instance

instance : Quiet instanceField := by
  unfold instanceField
  infer_instance

instance (f : Field) (r : Ref) : Quiet (fieldHolder f r) := by
  refine quiet_bind fun vm => ?_
  cases vm.heap.get? r <;> dsimp only <;> infer_instance

instance (v : Value) (index : UInt16) : Quiet (castCheck v index) := by
  unfold castCheck
  infer_instance

instance (v : Value) (target : ClassId) : Quiet (isInstance v target) := by
  unfold isInstance
  infer_instance

instance (index : UInt16) : Quiet (pushLiteral index) := by
  unfold pushLiteral
  infer_instance

instance (r : Ref) (slot : Nat) (v : Value) : Quiet
    (modify fun vm => { vm with heap := vm.heap.modify r fun o =>
      { o with fields := o.fields.setIfInBounds slot v } } : Exec Unit) :=
  ⟨fun vm => .single (.objects vm (.assign r slot v) rfl)⟩

instance : Quiet checkDepth := by
  unfold checkDepth
  infer_instance

instance (m : Method) : Quiet (call m) := by
  unfold call
  cases m.body? <;> dsimp only <;> infer_instance

instance (m : Method) : Quiet (receiver m) := by
  unfold receiver
  infer_instance

instance (m : Method) : Quiet (checkInstanceMethod m) := by
  unfold checkInstanceMethod
  infer_instance

instance (m : Method) : Quiet (specialTarget m) := by
  refine quiet_bind fun caller => quiet_bind fun c => quiet_bind fun vm => ?_
  dsimp only
  split
  · split <;> infer_instance
  · infer_instance

instance (m : Method) (v : Value) : Quiet (selectMethod m v) := by
  refine quiet_bind fun rc => quiet_bind fun f => quiet_bind fun vm => ?_
  refine quiet_bind fun _ => ?_
  split
  · infer_instance
  · refine quiet_bind fun c => ?_
    split <;> infer_instance

instance (m : Method) (v : Value) : Quiet (dispatch m v) := by
  unfold dispatch
  infer_instance

/-! ## Exceptions and the ends of rounds -/

instance (f : Frame) (thrown : ClassId) (h : ClassFile.Handler) :
    Quiet (accepts f thrown h) := by
  unfold accepts
  split
  · infer_instance
  · refine quiet_bind fun outcome => ?_
    cases outcome <;> dsimp only <;> infer_instance

theorem sequential_quiet : Sequential Quiet where
  pure _ := inferInstance
  bind _ hg := quiet_bind hg

instance (f : Frame) (thrown : ClassId) (rows : List ClassFile.Handler) :
    Quiet (findHandler f thrown rows) :=
  sequential_quiet.findHandler (fun _ => inferInstance) rows

instance (base : Nat) (thrown : ClassId) (frames : List Frame) :
    Quiet (seekHandler base thrown frames) :=
  sequential_quiet.seekHandler base (fun _ _ => inferInstance) frames

instance (base : Nat) (r : Ref) : Quiet (unwind base r) := by
  refine quiet_bind fun _ => quiet_bind fun id => quiet_bind fun vm => ?_
  refine quiet_bind fun frames? => ?_
  cases frames? <;> dsimp only <;> infer_instance

instance (base : Nat) : Quiet (finish base) := by
  refine quiet_bind fun _ => quiet_bind fun vm => ?_
  dsimp only
  infer_instance

instance (base : Nat) {x : Exec Unit} [Quiet x] : Quiet (unlessReturning base x) :=
  quiet_bind fun _ => inferInstance

instance (f : Field) : Quiet (assignConstant f) := by
  unfold assignConstant
  split
  · refine quiet_bind fun outcome => ?_
    cases outcome <;> dsimp only <;> infer_instance
  · infer_instance

instance (fields : List Field) : Quiet (fields.forM assignConstant) := by
  induction fields with
  | nil => exact inferInstanceAs (Quiet (pure () : Exec Unit))
  | cons f rest ih => exact inferInstanceAs (Quiet (do assignConstant f; rest.forM assignConstant))

instance : Quiet (modify released : Exec Unit) :=
  quiet_aside fun vm => by
    show (released vm).source = vm.source ∧ (released vm).registry = vm.registry ∧
      (released vm).heap = vm.heap
    unfold released
    split <;> exact ⟨rfl, rfl, rfl⟩

end Exec

/-! ## Stores -/

/-- An instruction that stores an element, with whatever type of elements in its name. -/
def storesElement : UInt8 → Bool
  | 0x4f | 0x50 | 0x51 | 0x52 | 0x53 | 0x54 | 0x55 | 0x56 => true
  | _ => false

/-- What is stored, in order, on the way from one machine to another. -/
inductive Vm.Trail (start : Vm) : List Write → Vm → Prop
  | refl : start.Trail [] start
  | quiet {ws : List Write} {a b : Vm} (before : start.Trail ws a) (h : QuietDeed a b) :
      start.Trail ws b
  | store {ws : List Write} {w : Write} {a : Vm} {heap : Heap} (before : start.Trail ws a)
      (h : a.heap.store a.registry.classes w.ref w.index w.value = .ok heap) :
      start.Trail (ws ++ [w]) { a with heap }

namespace Vm.Trail

variable {a b c : Vm} {ws later : List Write}

theorem trans (h : a.Trail ws b) (h' : b.Trail later c) : a.Trail (ws ++ later) c := by
  induction h' with
  | refl => simpa using h
  | quiet _ hdeed ih => exact ih.quiet hdeed
  | store _ hstore ih =>
      rw [← List.append_assoc]
      exact ih.store hstore

theorem of_quiet (h : QuietDeeds a b) : a.Trail [] b := by
  induction h with
  | refl => exact .refl
  | tail _ hdeed ih => exact ih.quiet hdeed

theorem fineDeeds (h : a.Trail ws b) : FineDeeds a b := by
  induction h with
  | refl => exact .refl
  | quiet _ hdeed ih => exact ih.tail hdeed.fine
  | store _ hstore ih => exact ih.tail (.store _ hstore)

end Vm.Trail

theorem FrameM.pop_read_eq_ok {α : Type} {read : Value → α} {f f' : Frame} {a : α}
    (h : (do return read (← pop) : FrameM α) f = .ok a f') :
    ∃ v rest, f.stack = v :: rest ∧ a = read v ∧ f' = { f with stack := rest } := by
  obtain ⟨v, f₁, hv, hread⟩ := bind_eq_ok h
  obtain ⟨rest, hstack, rfl⟩ := pop_eq_ok hv
  cases hread
  exact ⟨v, rest, hstack, rfl, rfl⟩

namespace Exec

variable {α β : Type}

/-- The elements that an operation on a machine stores, in order. -/
inductive Stores : {α : Type} → Exec α → Vm → List Write → Prop
  | quiet {α : Type} {x : Exec α} (h : Quiet x) (vm : Vm) : Stores x vm []
  | completed {prepare : ClassId → Exec Unit} {vm vm' : Vm} {f : Frame} {below : List Frame}
      {byte : UInt8} {v index r : Value} {rest : List Value} (hframes : vm.frames = f :: below)
      (hbyte : f.body.code[f.pc]? = some byte) (hstores : storesElement byte = true)
      (hstack : f.stack = v :: index :: r :: rest) (hok : step prepare vm = .ok () vm') :
      Stores (step prepare) vm [⟨r.asRef, index.asInt, v⟩]
  | refused {prepare : ClassId → Exec Unit} {vm vm' : Vm} {stop : Stop} {f : Frame}
      {below : List Frame} {byte : UInt8} (hframes : vm.frames = f :: below)
      (hbyte : f.body.code[f.pc]? = some byte) (hstores : storesElement byte = true)
      (herror : step prepare vm = .error stop vm') : Stores (step prepare) vm []
  | congr {α : Type} {x y : Exec α} {vm : Vm} {ws : List Write} (h : y vm = x vm)
      (same : Stores x vm ws) : Stores y vm ws
  | settle {α β : Type} {x : Exec α} {rest : Except Stop α → Exec β} {vm : Vm}
      {ws later : List Write} (first : Stores x vm ws)
      (next : Stores (rest (outcome x vm)) (after x vm) later) :
      Stores (settle x rest) vm (ws ++ later)

/-! ### Instructions that store -/

theorem storesElement_iff {byte : UInt8} : storesElement byte = true ↔
    (⟨byte⟩ : Opcode).operation? = some (.array .store) ∨
      (⟨byte⟩ : Opcode).operation? = some (.array .storeRef) := by
  have hall : ∀ i : Fin 256, storesElement (.ofNat i) = true ↔
      (⟨.ofNat i⟩ : Opcode).operation? = some (.array .store) ∨
        (⟨.ofNat i⟩ : Opcode).operation? = some (.array .storeRef) := by
    decide +kernel
  have hbyte := hall ⟨byte.toNat, byte.toNat_lt⟩
  rwa [UInt8.ofNat_toNat] at hbyte

theorem storeElement_eq_ok {r : Ref} {index : Int32} {v : Value} {vm vm' : Vm}
    (h : storeElement r index v vm = .ok () vm') :
    ∃ heap, vm.heap.store vm.registry.classes r index v = .ok heap ∧ vm' = { vm with heap } := by
  simp only [storeElement, bind_apply, get_apply] at h
  cases hstore : vm.heap.store vm.registry.classes r index v with
  | error e =>
      rw [hstore] at h
      cases e <;> cases h
  | ok heap =>
      rw [hstore] at h
      cases h
      exact ⟨heap, rfl, rfl⟩

theorem storeElement_eq_error {r : Ref} {index : Int32} {v : Value} {vm vm' : Vm} {stop : Stop}
    (h : storeElement r index v vm = .error stop vm') : vm' = vm := by
  simp only [storeElement, bind_apply, get_apply] at h
  cases hstore : vm.heap.store vm.registry.classes r index v with
  | error e =>
      rw [hstore] at h
      cases e <;> cases h <;> rfl
  | ok heap =>
      rw [hstore] at h
      cases h

theorem storeOperands_eq_ok {k : Value → Int32 → Ref → Exec Unit} {vm vm' : Vm} {f : Frame}
    {below : List Frame} (hframes : vm.frames = f :: below)
    (h : (do
      let v ← onFrame .pop
      let index ← onFrame .popInt
      let r ← onFrame .popRef
      k v index r) vm = .ok () vm') :
    ∃ v index r rest, f.stack = v :: index :: r :: rest ∧
      k v index.asInt r.asRef { vm with frames := { f with stack := rest } :: below } =
        .ok () vm' := by
  obtain ⟨v, vm₁, hv, h⟩ := bind_eq_ok h
  obtain ⟨_, vm₂, hindex, h⟩ := bind_eq_ok h
  obtain ⟨_, vm₃, hr, h⟩ := bind_eq_ok h
  obtain ⟨f₁, hpop, rfl⟩ := onFrame_eq_ok hframes hv
  obtain ⟨rest₁, hstack, rfl⟩ := FrameM.pop_eq_ok hpop
  obtain ⟨f₂, hpop, rfl⟩ := onFrame_eq_ok rfl hindex
  obtain ⟨index, rest₂, rfl, rfl, rfl⟩ := FrameM.pop_read_eq_ok hpop
  obtain ⟨f₃, hpop, rfl⟩ := onFrame_eq_ok rfl hr
  obtain ⟨r, rest₃, rfl, rfl, rfl⟩ := FrameM.pop_read_eq_ok hpop
  exact ⟨v, index, r, rest₃, hstack, h⟩

theorem Reads.eq_of_ok {x : Exec α} (hx : Reads x) {a : α} {vm vm' : Vm}
    (h : x vm = .ok a vm') : vm' = vm := by
  have hafter := (hx vm).1
  rwa [after_ok h] at hafter

theorem exists_of_completed {prepare : ClassId → Exec Unit} {vm vm' : Vm} {f : Frame}
    {below : List Frame} {byte : UInt8} (hframes : vm.frames = f :: below)
    (hbyte : f.body.code[f.pc]? = some byte) (hstores : storesElement byte = true)
    (hok : step prepare vm = .ok () vm') :
    ∃ v index r rest, f.stack = v :: index :: r :: rest ∧
      storeElement r.asRef index.asInt v { vm with
        frames := { f with stack := rest, opPc := f.pc, pc := f.pc + 1 } :: below } =
          .ok () vm' := by
  obtain hop | hop := storesElement_iff.mp hstores
  · rw [step_apply hframes hbyte hop] at hok
    exact storeOperands_eq_ok rfl hok
  · rw [step_apply hframes hbyte hop] at hok
    obtain ⟨v, index, r, rest, hstack, h⟩ := storeOperands_eq_ok rfl hok
    obtain ⟨_, vm₁, hload, h⟩ := bind_eq_ok h
    obtain ⟨_, vm₂, hcheck, h⟩ := bind_eq_ok h
    obtain rfl := (reads_loadElement _ _).eq_of_ok hload
    obtain rfl := (reads_checkElement _ _).eq_of_ok hcheck
    exact ⟨v, index, r, rest, hstack, h⟩

theorem quiet_of_bind_error {x : Exec α} {g : α → Exec β} [hx : Quiet x]
    (hg : ∀ a {vm stop vm'}, g a vm = .error stop vm' → QuietDeeds vm vm') {vm vm' : Vm}
    {stop : Stop} (h : (x >>= g) vm = .error stop vm') : QuietDeeds vm vm' := by
  obtain h | ⟨a, vm₁, hok, h⟩ := bind_eq_error h
  · exact hx.error h
  · exact (hx.ok hok).trans (hg a h)

theorem quiet_of_refused {prepare : ClassId → Exec Unit} {vm vm' : Vm} {stop : Stop} {f : Frame}
    {below : List Frame} {byte : UInt8} (hframes : vm.frames = f :: below)
    (hbyte : f.body.code[f.pc]? = some byte) (hstores : storesElement byte = true)
    (herror : step prepare vm = .error stop vm') : QuietDeeds vm vm' := by
  have hlast (v : Value) (index : Int32) (r : Ref) {vm : Vm} {stop : Stop} {vm' : Vm}
      (h : storeElement r index v vm = .error stop vm') : QuietDeeds vm vm' := by
    rw [storeElement_eq_error h]
  have hfetched : QuietDeeds vm (fetched vm f below) := .single (.aside rfl rfl rfl)
  obtain hop | hop := storesElement_iff.mp hstores
  · rw [step_apply hframes hbyte hop] at herror
    exact hfetched.trans (quiet_of_bind_error (fun v => quiet_of_bind_error fun index =>
      quiet_of_bind_error fun r => hlast v index r) herror)
  · rw [step_apply hframes hbyte hop] at herror
    exact hfetched.trans (quiet_of_bind_error (fun v => quiet_of_bind_error fun index =>
      quiet_of_bind_error fun r => quiet_of_bind_error fun _ => quiet_of_bind_error fun _ =>
        hlast v index r) herror)

theorem Stores.trail {x : Exec α} {vm : Vm} {ws : List Write} (h : Stores x vm ws) :
    vm.Trail ws (after x vm) := by
  induction h with
  | quiet hx vm => exact .of_quiet (hx.deeds vm)
  | @completed prepare vm vm' f below byte v index r rest hframes hbyte hstores hstack hok =>
      obtain ⟨v', index', r', rest', hstack', hstore⟩ :=
        exists_of_completed hframes hbyte hstores hok
      rw [hstack] at hstack'
      cases hstack'
      obtain ⟨heap, hheap, rfl⟩ := storeElement_eq_ok hstore
      have hpopped : vm.Trail [] { vm with
          frames := { f with stack := rest, opPc := f.pc, pc := f.pc + 1 } :: below } :=
        .of_quiet (.single (.aside rfl rfl rfl))
      rw [after_ok hok]
      exact hpopped.store hheap
  | refused hframes hbyte hstores herror =>
      rw [after_error herror]
      exact .of_quiet (quiet_of_refused hframes hbyte hstores herror)
  | congr heq _ ih =>
      rw [after, heq]
      exact ih
  | settle _ _ ihfirst ihnext => exact ihfirst.trans ihnext

namespace Stores

variable {x : Exec α} {g : α → Exec β} {vm vm' : Vm} {ws later : List Write}

theorem bind_ok {a : α} (hx : Stores x vm ws) (h : x vm = .ok a vm') (hg : Stores (g a) vm' later) :
    Stores (x >>= g) vm (ws ++ later) := by
  rw [bind_eq_settle]
  refine hx.settle ?_
  rw [outcome, after, h]
  exact hg

theorem bind_error {stop : Stop} (hx : Stores x vm ws) (h : x vm = .error stop vm') :
    Stores (x >>= g) vm ws := by
  rw [bind_eq_settle, ← List.append_nil ws]
  refine hx.settle ?_
  rw [outcome, after, h]
  exact .quiet (inferInstanceAs (Quiet (throw stop : Exec β))) vm'

end Stores

end Exec

end ClassEngine.Machine
