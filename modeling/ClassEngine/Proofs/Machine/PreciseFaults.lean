import ClassEngine.Proofs.Machine.Entries
import ClassEngine.Proofs.Machine.PlainRoot
import ClassEngine.Proofs.Machine.Sparing

/-!
# Faults are precise

An instruction writes its result last, and by then nothing can fail.  So an instruction that stops
has spared the guest: a handler finds the variables, the objects and the static fields as they
were before the instruction.
-/

namespace ClassEngine.Machine

open Code

namespace FrameM

variable {α β : Type}

/-- The work has left the variables alone if it fails. -/
class Precise (x : FrameM α) : Prop where
  keeps : ∀ {f f' : Frame} {e : Fault ⊕ Defect}, x f = .error e f' → f.Keeps f'

instance (priority := low) {x : FrameM α} [hx : ∀ f : Frame, x.Keeps f.Keeps] : Precise x where
  keeps {f _ _} h := after_error h ▸ (hx f).keeps (.refl f)

instance (slot : Nat) (v : Value) : Precise (setLocal slot v) where
  keeps {f _ _} h := Atomic.eq_of_error h ▸ .refl f

instance {x : FrameM α} {g : α → FrameM β} [hx : ∀ f : Frame, x.Keeps f.Keeps]
    [hg : ∀ a, Precise (g a)] : Precise (x >>= g) where
  keeps {f f' e} h := by
    have hafter := (hx f).keeps (.refl f)
    obtain h | ⟨a, f₁, hok, h⟩ := bind_eq_error h
    · exact after_error h ▸ hafter
    · exact (after_ok hok ▸ hafter).trans ((hg a).keeps h)

instance (slot : Nat) : Precise (storeTo slot) := by
  unfold storeTo
  infer_instance

instance (slot : Nat) (delta : FrameM Int32) [∀ f : Frame, delta.Keeps f.Keeps] :
    Precise (increment slot delta) := by
  unfold increment
  infer_instance

instance (op : DataOp) : Precise (data op) := by
  cases op <;> simp only [data, intOp, longOp, floatOp, doubleOp] <;> infer_instance

instance : Precise widened := by
  have hopcode (op : Opcode) (slot : Nat) : Precise (match op.operation? with
      | some (.data .load) => loadFrom slot
      | some (.data .store) => storeTo slot
      | some (.data .increment) => increment slot (return (← i16).toInt32)
      | some (.jump .leaveSubroutine) => leaveSubroutine slot
      | _ => defectAt (.wideOpcode op.mnemonic)) := by
    split <;> infer_instance
  unfold widened
  infer_instance

end FrameM

namespace Exec

variable {α β : Type}

def precise : Effect := fun a o b => o ≠ none → sparing (fun _ => False) a o b

class Precise (x : Exec α) : Prop where
  precise : Has precise x

theorem precise_of_error {x : Exec α} (h : ∀ {vm stop vm'}, x vm = .error stop vm' →
    sparing (fun _ => False) vm (some stop) vm') : Precise x :=
  ⟨has_of_cases (fun _ _ _ _ hnone => absurd rfl hnone) fun _ _ _ herror _ => h herror⟩

theorem Precise.error {x : Exec α} [hx : Precise x] {vm vm' : Vm} {stop : Stop}
    (h : x vm = .error stop vm') : sparing (fun _ => False) vm (some stop) vm' :=
  hx.precise.error h nofun

instance (priority := low) {x : Exec α} [hx : Sparing x] : Precise x :=
  precise_of_error fun h => hx.spares.error h

/-- What comes before the last part spares the guest however it ends. -/
theorem Precise.bind {x : Exec α} {g : α → Exec β} [hx : Sparing x] (hg : ∀ a, Precise (g a)) :
    Precise (x >>= g) := by
  refine precise_of_error fun h => ?_
  obtain h | ⟨a, vm₁, h₁, h₂⟩ := bind_eq_error h
  · exact hx.spares.error h
  · exact sparing_trans (hx.spares.ok h₁) ((hg a).error h₂)

instance {x : Exec α} {g : α → Exec β} [Sparing x] [∀ a, Precise (g a)] : Precise (x >>= g) :=
  .bind inferInstance

instance {c : Prop} [Decidable c] {x y : Exec α} [hx : Precise x] [hy : Precise y] :
    Precise (if c then x else y) := by
  split
  · exact hx
  · exact hy

/-- A write that is done at the end cannot fail. -/
theorem Precise.bind_of_ok {x : Exec α} {g : α → Exec β} [hx : Precise x]
    (hg : ∀ a vm, ∃ b vm', g a vm = .ok b vm') : Precise (x >>= g) := by
  refine precise_of_error fun h => ?_
  obtain h | ⟨a, vm₁, -, h₂⟩ := bind_eq_error h
  · exact hx.error h
  · obtain ⟨b, vm', hok⟩ := hg a vm₁
    rw [hok] at h₂
    cases h₂

instance {x : Exec α} [Precise x] (b : β) : Precise (x >>= fun _ => pure b) :=
  .bind_of_ok fun _ vm => ⟨b, vm, rfl⟩

instance (x : FrameM α) [hx : x.Precise] : Precise (onFrame x) := by
  refine precise_of_error fun {vm stop vm'} h => ?_
  obtain ⟨-, rfl⟩ | ⟨f, f', below, e, hframes, hcase, -, rfl⟩ := exists_of_onFrame_error h
  · exact sparing_of_spares rfl (.refl _ _)
  · have hkeeps : KeepsFrames vm.frames (f' :: below) := hframes ▸ .current below (hx.keeps hcase)
    exact sparing_of_spares rfl (.setFrames hkeeps)

instance (f : Vm → Vm) : Precise (modify f : Exec Unit) := precise_of_error fun h => by cases h

instance (vm : Vm) : Precise (set vm : Exec PUnit) := precise_of_error fun h => by cases h

/-! ## Arrays, fields and objects -/

instance (r : Ref) (index : Int32) (v : Value) : Precise (storeElement r index v) := by
  unfold storeElement
  infer_instance

instance (array : Ref) (v : Value) : Sparing (checkElement array v) := by
  unfold checkElement
  split
  · infer_instance
  · refine .bind fun id => .bind fun ac => .bind fun vid => ?_
    cases ac.component? <;> dsimp only <;> infer_instance

instance (id : ClassId) : Sparing (pushArray id) := by
  unfold pushArray
  infer_instance

instance (op : ArrayOp) : Precise (array op) := by
  cases op with
  | create =>
      refine .bind fun code => ?_
      cases baseArrayName? code <;> dsimp only <;> infer_instance
  | _ =>
      unfold array
      infer_instance

instance : Sparing instanceField := by
  unfold instanceField
  infer_instance

instance (f : Field) (r : Ref) : Sparing (fieldHolder f r) := by
  refine .bind fun vm => ?_
  cases vm.heap.get? r <;> dsimp only <;> infer_instance

instance (v : Value) (index : UInt16) : Sparing (castCheck v index) := by
  unfold castCheck
  infer_instance

instance (v : Value) (target : ClassId) : Sparing (isInstance v target) := by
  unfold isInstance
  infer_instance

instance (index : UInt16) : Sparing (pushLiteral index) := by
  unfold pushLiteral
  infer_instance

instance (f : Field) (v : Value) : Precise (setStaticSlot f v) := by
  unfold setStaticSlot modifyStatus
  infer_instance

section

variable {prepare : ClassId → Exec Unit} [∀ id, Sparing (prepare id)]

instance : Sparing (staticField prepare) := by
  unfold staticField
  infer_instance

instance (op : ObjectOp) : Precise (object prepare op) := by
  cases op with
  | create =>
      refine .bind fun index => .bind fun owner => .bind fun id => .bind fun c => ?_
      dsimp only
      infer_instance
  | _ =>
      unfold object
      infer_instance

end

/-! ## Calls -/

instance (f : Frame) : Precise (enter f) := precise_of_error fun h => by cases h

instance : Sparing checkDepth := by
  unfold checkDepth
  infer_instance

instance (m : Method) : Precise (call m) := by
  have hbody : Precise (match m.body? with
      | none => fault (.abstractMethod m.render)
      | some body => do
        if m.isAbstract then fault (.abstractMethod m.render)
        checkDepth
        enter (.enter m body (← onFrame (.takeOperands m body))) : Exec Unit) := by
    cases m.body? <;> dsimp only <;> infer_instance
  unfold call
  infer_instance

instance (m : Method) : Sparing (receiver m) := by
  unfold receiver
  infer_instance

instance (m : Method) : Sparing (specialTarget m) := by
  refine .bind fun caller => .bind fun c => .bind fun vm => ?_
  dsimp only
  split
  · split <;> infer_instance
  · infer_instance

instance (m : Method) : Sparing (checkInstanceMethod m) := by
  unfold checkInstanceMethod
  infer_instance

instance (m : Method) (v : Value) : Sparing (selectMethod m v) := by
  refine .bind fun rc => .bind fun f => .bind fun vm => ?_
  dsimp only
  refine .bind fun _ => ?_
  split
  · infer_instance
  · refine .bind fun c => ?_
    split <;> infer_instance

instance (m : Method) (v : Value) : Precise (dispatch m v) := by
  unfold dispatch
  infer_instance

section

variable {prepare : ClassId → Exec Unit} [∀ id, Sparing (prepare id)]

instance (op : InvokeOp) : Precise (invoke prepare op) := by
  cases op with
  | interface =>
      refine .bind fun index => .bind fun _ => .bind fun _ => .bind fun id => .bind fun m => ?_
      infer_instance
  | _ =>
      unfold invoke
      infer_instance

/-! ## Instructions -/

instance (v? : Option Value) : Precise (leaveFrame v?) := by
  unfold leaveFrame
  infer_instance

instance (op : Operation) : Precise (perform prepare op) := by
  cases op <;> unfold perform <;> infer_instance

theorem precise_step : Precise (step prepare) := by
  refine .bind fun _ => .bind fun byte => ?_
  dsimp only
  split <;> infer_instance

end

end Exec

/-- An instruction that stops leaves the frames, the local variables, the static fields and the
objects as they were, unless a static initializer has started.  Only a constant field of a class
whose initialization has begun may have got its value. -/
theorem faults_precise {fuel : Nat} {vm vm' : Vm} {stop : Stop}
    (h : Exec.step (Exec.initialized fuel) vm = .error stop vm') :
    ∃ events, vm'.journal = events ++ vm.journal ∧
      ((∀ m, .running m ∉ events) → vm.Spares (vm'.Begun events) vm') := by
  have hstep : Exec.Precise (Exec.step (Exec.initializeBy (Exec.run fuel))) := Exec.precise_step
  obtain ⟨events, hjournal, hspares⟩ := hstep.error h
  exact ⟨events, hjournal, fun hquiet =>
    (hspares hquiet).mono fun f hf => hf.resolve_left not_false⟩

namespace ConstantOfNative

/-- A class with a constant field of the value 5 and a native method `foo`. -/
def ownerFile : List UInt8 := [
  0xca, 0xfe, 0xba, 0xbe, 0x00, 0x00, 0x00, 0x34, 0x00, 0x0b, 0x01, 0x00, 0x01, 0x41, 0x07, 0x00,
  0x01, 0x01, 0x00, 0x10, 0x6a, 0x61, 0x76, 0x61, 0x2f, 0x6c, 0x61, 0x6e, 0x67, 0x2f, 0x4f, 0x62,
  0x6a, 0x65, 0x63, 0x74, 0x07, 0x00, 0x03, 0x01, 0x00, 0x01, 0x78, 0x01, 0x00, 0x01, 0x49, 0x01,
  0x00, 0x0d, 0x43, 0x6f, 0x6e, 0x73, 0x74, 0x61, 0x6e, 0x74, 0x56, 0x61, 0x6c, 0x75, 0x65, 0x03,
  0x00, 0x00, 0x00, 0x05, 0x01, 0x00, 0x03, 0x66, 0x6f, 0x6f, 0x01, 0x00, 0x03, 0x28, 0x29, 0x56,
  0x00, 0x21, 0x00, 0x02, 0x00, 0x04, 0x00, 0x00, 0x00, 0x01, 0x00, 0x19, 0x00, 0x05, 0x00, 0x06,
  0x00, 0x01, 0x00, 0x07, 0x00, 0x00, 0x00, 0x02, 0x00, 0x08, 0x00, 0x01, 0x01, 0x09, 0x00, 0x09,
  0x00, 0x0a, 0x00, 0x00, 0x00, 0x00]

def callerFile : List UInt8 := [
  0xca, 0xfe, 0xba, 0xbe, 0x00, 0x00, 0x00, 0x34, 0x00, 0x0d, 0x01, 0x00, 0x04, 0x4d, 0x61, 0x69,
  0x6e, 0x07, 0x00, 0x01, 0x01, 0x00, 0x10, 0x6a, 0x61, 0x76, 0x61, 0x2f, 0x6c, 0x61, 0x6e, 0x67,
  0x2f, 0x4f, 0x62, 0x6a, 0x65, 0x63, 0x74, 0x07, 0x00, 0x03, 0x01, 0x00, 0x01, 0x41, 0x07, 0x00,
  0x05, 0x01, 0x00, 0x03, 0x66, 0x6f, 0x6f, 0x01, 0x00, 0x03, 0x28, 0x29, 0x56, 0x0c, 0x00, 0x07,
  0x00, 0x08, 0x0a, 0x00, 0x06, 0x00, 0x09, 0x01, 0x00, 0x03, 0x72, 0x75, 0x6e, 0x01, 0x00, 0x04,
  0x43, 0x6f, 0x64, 0x65, 0x00, 0x21, 0x00, 0x02, 0x00, 0x04, 0x00, 0x00, 0x00, 0x00, 0x00, 0x01,
  0x00, 0x09, 0x00, 0x0b, 0x00, 0x08, 0x00, 0x01, 0x00, 0x0c, 0x00, 0x00, 0x00, 0x10, 0x00, 0x00,
  0x00, 0x00, 0x00, 0x00, 0x00, 0x04, 0xb8, 0x00, 0x0a, 0xb1, 0x00, 0x00, 0x00, 0x00, 0x00, 0x00]

def files : Search.Memory :=
  ⟨[(ClassFile.rootClassName, .ok PlainRoot.file), ("A", .ok ownerFile),
    ("Main", .ok callerFile)]⟩

def start : Vm := Vm.start (some files.source) 0 none

def fooRef : ClassFile.Member := ⟨.method, "A", "foo", "()V"⟩

def constant : Field := ⟨⟨1, 0⟩, "A", "x", "I", 0x0019, .base .int "I", 0, 8⟩

def native : Method := ⟨⟨1, 0⟩, "A", 0x0021, "foo", "()V", 0x0109, ⟨[], none, "()V"⟩, none⟩

def body : ClassFile.Body := ⟨0, 0, #[0xb8, 0x00, 0x0a, 0xb1], [], []⟩

def run : Method := ⟨⟨2, 0⟩, "Main", 0x0021, "run", "()V", 0x0009, ⟨[], none, "()V"⟩, some body⟩

def owner : Class :=
  { PlainRoot.root with
    name := "A"
    super? := some 0
    fields := [constant]
    methods := [native]
    pool := ⟨#[none, some (.utf8 "A"), some (.classRef 1), some (.utf8 ClassFile.rootClassName),
      some (.classRef 3), some (.utf8 "x"), some (.utf8 "I"), some (.utf8 "ConstantValue"),
      some (.integer 5), some (.utf8 "foo"), some (.utf8 "()V")]⟩ }

def caller : Class :=
  { PlainRoot.root with
    name := "Main"
    super? := some 0
    methods := [run]
    pool := ⟨#[none, some (.utf8 "Main"), some (.classRef 1), some (.utf8 ClassFile.rootClassName),
      some (.classRef 3), some (.utf8 "A"), some (.classRef 5), some (.utf8 "foo"),
      some (.utf8 "()V"), some (.nameAndType 7 8), some (.member .method 6 9),
      some (.utf8 "run"), some (.utf8 "Code")]⟩ }

def withOwner : Registry := (PlainRoot.registry.add owner .linked #[.int 0]).2

def withCaller : Registry := (withOwner.add caller .linked #[]).2

def inState (state : ClassState) (id : ClassId) (reg : Registry) : Registry :=
  reg.modifyStatus id fun s => { s with state }

def keeping (id : ClassId) (index : Nat) (r : Resolution) (reg : Registry) : Registry :=
  reg.modifyStatus id fun s => { s with resolutions := s.resolutions.setIfInBounds index (some r) }

def loaded : Vm := { start with registry := withCaller }

def resolved : Registry := keeping 2 10 ⟨.method, .ok (.method native)⟩ withCaller

def prepared : Registry := inState .initialized 2 (inState .initialized 0 resolved)

def begun : Registry := inState .initializing 1 prepared

def assigned : Registry :=
  (keeping 1 8 ⟨.literal, .ok (.value (.int 5))⟩ begun).modifyStatus 1 fun s =>
    { s with statics := #[.int 5] }

def journal : List Event :=
  [.moved 2 .initialized, .moved 0 .initialized, .moved 0 .initializing, .moved 2 .initializing]

def calling : Vm :=
  { start with registry := prepared, journal, frames := [.enter run body #[]] }

def within (reg : Registry) (opened : List Event) (pc : Nat) : Vm :=
  { start with
    registry := reg, journal := opened ++ journal, frames := [⟨run, body, #[], [], pc, 0⟩] }

def stopped : Vm :=
  within (inState .initialized 1 assigned) [.moved 1 .initialized, .moved 1 .initializing] 3

theorem load_owner : load start.source [] "A" {} = (.ok 1, withOwner) := by
  have hgather : gather (load start.source ["A"]) "A" [⟨.superclass, ClassFile.rootClassName⟩] {} =
      (.ok [0], PlainRoot.registry) :=
    Registry.gather_cons (PlainRoot.load_root rfl (by decide)) (by decide) rfl
  exact Registry.load_of_gathered PlainRoot.registry owner (by with_unfolding_all decide)
    (by decide) (by decide) (by decide +kernel) hgather
    (by decide +kernel)

theorem load_caller : load start.source [] "Main" withOwner = (.ok 2, withCaller) := by
  have hroot : withOwner.find? ClassFile.rootClassName = some 0 := by with_unfolding_all decide
  have hgather : gather (load start.source ["Main"]) "Main"
      [⟨.superclass, ClassFile.rootClassName⟩] withOwner = (.ok [0], withOwner) :=
    Registry.gather_cons (Registry.load_of_found hroot) (by decide) rfl
  exact Registry.load_of_gathered withOwner caller (by with_unfolding_all decide)
    (by decide) (by decide) (by decide +kernel) hgather
    (by decide +kernel)

section

open Exec

theorem answer_resolve :
    answer (.resolve .method 2 10) loaded = .ok () { start with registry := resolved } := by
  have hfollow : followMethod 2 10 [.methodRef, .interfaceMethodRef] loaded =
      .ok (.method native) loaded :=
    followMethod_of_found (rfl : loaded.registry.classes[2]? = some caller)
      (rfl : _ = Except.ok fooRef) (by with_unfolding_all decide)
      (rfl : loaded.registry.classes[1]? = some owner) (by decide) (by with_unfolding_all decide)
  rw [answer, resolveEntry, bind_of_ok (resolveMethod_of_followed rfl rfl hfollow rfl)]
  rfl

variable {runInitializer : Method → Exec Unit}

theorem initialized_caller :
    ensureInitialized runInitializer 2 { start with registry := resolved } =
      .ok () { start with registry := prepared, journal } := by
  have hroot : ensureInitialized runInitializer 0
      (after (setState 2 .initializing) { start with registry := resolved }) = .ok () _ :=
    ensureInitialized_of_linked (c := PlainRoot.root) (s := ⟨.linked, #[], Array.replicate 3 none⟩)
      rfl rfl rfl rfl nofun rfl (initializeOwn_of_none rfl rfl)
  exact ensureInitialized_of_linked (c := caller) (s := ⟨.linked, #[], _⟩) rfl rfl rfl rfl
    (by decide) hroot (initializeOwn_of_none (by decide) rfl)

theorem answer_run :
    answer (.request 0 (.invoke run [])) { start with registry := resolved } =
      .error .exhausted calling := by
  have hinit : initialized 0 2 { start with registry := resolved } =
      .ok () { start with registry := prepared, journal } := initialized_caller
  have hexecute : execute 0 run [] { start with registry := prepared, journal } =
      .error .exhausted calling :=
    (executeBy_apply rfl (by decide) (rfl : run.body? = some body) (by decide) (by decide)
      (by decide : _ = Except.ok #[])).trans rfl
  have hinvoke : invokeMethod 0 run [] { start with registry := resolved } =
      .error .exhausted calling := (bind_of_ok hinit).trans hexecute
  exact bind_of_error hinvoke

/-- The calls of the host that lead there. -/
theorem answer_calling :
    start.answer [.request 0 (.load "A"), .request 0 (.load "Main"), .resolve .method 2 10,
      .request 0 (.invoke run [])] = calling := by
  have hcalls : start.answer [.request 0 (.load "A"), .request 0 (.load "Main"),
      .resolve .method 2 10] = { start with registry := resolved } := by
    show after _ (after _ (after _ start)) = _
    rw [after_ok (answer_load 0 load_owner), after_ok (answer_load 0 load_caller)]
    exact after_ok answer_resolve
  show after _ (start.answer [.request 0 (.load "A"), .request 0 (.load "Main"),
      .resolve .method 2 10]) = calling
  rw [hcalls, after_error answer_run]

theorem ensureInitialized_owner :
    ensureInitialized runInitializer 1 (within prepared [] 3) = .ok () stopped := by
  have hassign : assignConstant constant (within begun [.moved 1 .initializing] 3) =
      .ok () (within assigned [.moved 1 .initializing] 3) := rfl
  have hroot : ensureInitialized runInitializer 0
      (after (setState 1 .initializing) (within prepared [] 3)) = .ok () _ :=
    ensureInitialized_of_initialized (c := PlainRoot.root)
      (s := ⟨.initialized, #[], Array.replicate 3 none⟩) rfl rfl rfl
  exact ensureInitialized_of_linked (c := owner)
    (s := ⟨.linked, #[.int 0], Array.replicate 11 none⟩) rfl rfl rfl rfl (by decide) hroot
    (initializeOwn_of_none (by decide) (bind_of_ok hassign))

theorem step_native :
    step (initialized 0) calling = .error (.fault (.unsatisfiedLink "A.foo()V")) stopped := by
  have hop : (⟨0xb8⟩ : Opcode).operation? = some (.invoke .static) := by decide +kernel
  have hindex : onFrame .u16 (within prepared [] 1) = .ok 10 (within prepared [] 3) := rfl
  have hclass : currentClass (within prepared [] 3) = .ok 2 (within prepared [] 3) := rfl
  have hresolve : resolveMethod 2 10 (within prepared [] 3) =
      .ok native (within prepared [] 3) := rfl
  have hprepare : initialized 0 native.id.owner (within prepared [] 3) = .ok () stopped :=
    ensureInitialized_owner
  have hcall : call native stopped = .error (.fault (.unsatisfiedLink "A.foo()V")) stopped := rfl
  rw [step_apply rfl rfl hop]
  show invoke (initialized 0) .static (within prepared [] 1) = _
  unfold invoke
  dsimp only
  rw [bind_of_ok hindex, bind_of_ok hclass, bind_of_ok hresolve]
  exact (bind_of_ok hprepare).trans hcall

/-- No static initializer has run, and a static field has changed all the same. -/
theorem fault_after_constant :
    start.answer [.request 0 (.load "A"), .request 0 (.load "Main"), .resolve .method 2 10,
        .request 0 (.invoke run [])] = calling ∧
      step (initialized 0) calling = .error (.fault (.unsatisfiedLink "A.foo()V")) stopped ∧
      stopped.journal = [.moved 1 .initialized, .moved 1 .initializing] ++ calling.journal ∧
      (calling.registry.status? 1).map (·.statics) = some #[.int 0] ∧
      (stopped.registry.status? 1).map (·.statics) = some #[.int 5] :=
  ⟨answer_calling, step_native, rfl, rfl, rfl⟩

theorem faults_precise_native :
    step (initialized 0) calling = .error (.fault (.unsatisfiedLink "A.foo()V")) stopped ∧
      calling.Spares (stopped.Begun [.moved 1 .initialized, .moved 1 .initializing]) stopped := by
  obtain ⟨events, hjournal, hspares⟩ := faults_precise step_native
  have hevents : events = [.moved 1 .initialized, .moved 1 .initializing] := by
    have hsame : [.moved 1 .initialized, .moved 1 .initializing] ++ journal = events ++ journal :=
      hjournal
    exact (List.append_cancel_right hsame).symm
  subst hevents
  exact ⟨step_native, hspares (by simp)⟩

end

end ConstantOfNative

end ClassEngine.Machine
