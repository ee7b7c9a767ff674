import ClassEngine.Proofs.Machine.Effect

/-!
# The parts of the state

Every operation on a part of the state is made of single changes.
-/

namespace ClassEngine.Machine

/-! ## Faults of the heap -/

namespace Heap

variable {heap : Heap} {cs : Array Class} {r : Ref} {e : Fault}

theorem error_of_bind {ε α β : Type} {x : Except ε α} {f : α → Except ε β} {e : ε}
    (h : (x >>= f) = .error e) (hf : ∀ a, f a ≠ .error e) : x = .error e := by
  cases x with
  | ok a => exact absurd h (hf a)
  | error e' =>
      cases h
      rfl

theorem covered_deref (h : heap.deref r = .error e) : e.isCovered = true := by
  unfold deref at h
  split at h <;> cases h
  rfl

theorem covered_arrayLength (h : heap.arrayLength r = .error e) : e.isCovered = true :=
  covered_deref (error_of_bind h fun _ => nofun)

theorem covered_allocArray {id : ClassId} {c : Class} {length : Int32}
    (h : heap.allocArray id c length = .error e) : e.isCovered = true := by
  unfold allocArray at h
  split at h <;> cases h
  rfl

theorem covered_arrayAt {index : Int32} (h : heap.arrayAt cs r index = .error (.inl e)) :
    e.isCovered = true := by
  unfold arrayAt at h
  split at h
  · cases h
    rfl
  · split at h
    · cases h
      rfl
    · split at h
      · cases h
      · split at h <;> cases h
        rfl

theorem covered_load {index : Int32} (h : heap.load cs r index = .error (.inl e)) :
    e.isCovered = true :=
  covered_arrayAt (error_of_bind h fun _ => nofun)

theorem covered_store {index : Int32} {v : Value}
    (h : heap.store cs r index v = .error (.inl e)) : e.isCovered = true :=
  covered_arrayAt (error_of_bind h fun _ => nofun)

variable {declaring : Class} {name : String}

theorem covered_fieldSlot (h : heap.fieldSlot cs r declaring name = .error e) :
    e.isCovered = true := by
  unfold fieldSlot at h
  cases hderef : heap.deref r with
  | error e' =>
      rw [hderef] at h
      cases h
      exact covered_deref hderef
  | ok o =>
      rw [hderef] at h
      dsimp only [bind, Except.bind] at h
      split at h
      · split at h <;> cases h
        rfl
      · cases h
        rfl

theorem covered_getField (h : heap.getField cs r declaring name = .error e) :
    e.isCovered = true :=
  covered_fieldSlot (error_of_bind h fun _ => nofun)

theorem covered_setField {v : Value} (h : heap.setField cs r declaring name v = .error e) :
    e.isCovered = true :=
  covered_fieldSlot (error_of_bind h fun _ => nofun)

end Heap

namespace Exec

variable {α : Type}

@[simp] theorem get_apply (vm : Vm) : (get : Exec Vm) vm = .ok vm vm := rfl

@[simp] theorem pure_apply (a : α) (vm : Vm) : (pure a : Exec α) vm = .ok a vm := rfl

theorem cutTo_apply (base : Nat) (vm : Vm) :
    cutTo base vm = .ok () (after (cutTo base) vm) := rfl

theorem after_cutTo_cons (vm : Vm) (f : Frame) (below : List Frame) :
    after (cutTo below.length) { vm with frames := f :: below } = { vm with frames := below } := by
  have hdrop : (f :: below).drop ((f :: below).length - below.length) = below := by simp
  show { vm with frames := (f :: below).drop ((f :: below).length - below.length) } = _
  rw [hdrop]

theorem statusAt_apply (id : ClassId) (vm : Vm) :
    statusAt id vm =
      match vm.registry.status? id with
      | some s => .ok s vm
      | none => .error .undefined vm := by
  simp only [statusAt, bind_apply, get_apply]
  cases vm.registry.status? id <;> rfl

theorem classAt_apply (id : ClassId) (vm : Vm) :
    classAt id vm =
      match vm.registry.classes[id]? with
      | some c => .ok c vm
      | none => .error .undefined vm := by
  simp only [classAt, bind_apply, get_apply]
  cases vm.registry.classes[id]? <;> rfl

theorem classAt_apply_of_some {id : ClassId} {vm : Vm} {c : Class}
    (h : vm.registry.classes[id]? = some c) : classAt id vm = .ok c vm := by
  rw [classAt_apply, h]

theorem classAt_apply_of_none {id : ClassId} {vm : Vm} (h : vm.registry.classes[id]? = none) :
    classAt id vm = .error .undefined vm := by
  rw [classAt_apply, h]

theorem classAt_eq_ok {id : ClassId} {vm vm' : Vm} {c : Class} (h : classAt id vm = .ok c vm') :
    vm.registry.classes[id]? = some c ∧ vm' = vm := by
  rw [classAt_apply] at h
  cases hc : vm.registry.classes[id]? with
  | none =>
      rw [hc] at h
      cases h
  | some c =>
      rw [hc] at h
      cases h
      exact ⟨rfl, rfl⟩

theorem statusAt_apply_of_some {id : ClassId} {vm : Vm} {s : ClassStatus}
    (h : vm.registry.status? id = some s) : statusAt id vm = .ok s vm := by
  rw [statusAt_apply, h]

theorem statusAt_apply_of_none {id : ClassId} {vm : Vm} (h : vm.registry.status? id = none) :
    statusAt id vm = .error .undefined vm := by
  rw [statusAt_apply, h]

theorem statusAt_eq_ok {id : ClassId} {vm vm' : Vm} {s : ClassStatus}
    (h : statusAt id vm = .ok s vm') : vm.registry.status? id = some s ∧ vm' = vm := by
  rw [statusAt_apply] at h
  cases hs : vm.registry.status? id with
  | none =>
      rw [hs] at h
      cases h
  | some s =>
      rw [hs] at h
      cases h
      exact ⟨rfl, rfl⟩

theorem loadClass_apply (name : String) (vm : Vm) :
    loadClass name vm =
      match load vm.source [] name vm.registry with
      | (.ok id, registry) => .ok id { vm with registry }
      | (.error e, registry) => .error (.fault e) { vm with registry } := by
  simp only [loadClass, bind_apply, get_apply, loading]
  obtain ⟨outcome, registry⟩ := load vm.source [] name vm.registry
  cases outcome <;> rfl

theorem loadClass_of_found {name : String} {vm : Vm} {id : ClassId}
    (h : vm.registry.find? name = some id) : loadClass name vm = .ok id vm := by
  rw [loadClass_apply, load]
  simp only [h]

theorem loadClass_of_failure {name : String} {vm : Vm} {e : Fault}
    (hfind : vm.registry.find? name = none) (hfailure : vm.registry.failure? name = some e) :
    loadClass name vm = .error (.fault e) vm := by
  rw [loadClass_apply, load]
  simp only [hfind, hfailure]

theorem after_loadClass (name : String) (vm : Vm) :
    after (loadClass name) vm =
      { vm with registry := (load vm.source [] name vm.registry).2 } := by
  simp only [after, loadClass_apply]
  obtain ⟨outcome, registry⟩ := load vm.source [] name vm.registry
  cases outcome <;> rfl

theorem find?_of_loadClass {name : String} {vm vm' : Vm} {id : ClassId}
    (h : loadClass name vm = .ok id vm') : vm'.registry.find? name = some id := by
  have hloads := Registry.load_loads vm.source [] name vm.registry
  rw [loadClass_apply] at h
  generalize load vm.source [] name vm.registry = result at h hloads
  obtain ⟨outcome, registry⟩ := result
  cases outcome <;> cases h
  exact hloads.found rfl

theorem local_loadClass (name : String) : Local (loadClass name) := by
  intro vm
  refine ⟨?changes, ?quiet, fun hvm => ⟨?registry, ?fault⟩⟩
  case changes =>
    rw [after_loadClass]
    exact .single (.load vm name)
  case registry =>
    rw [after_loadClass]
    exact (Registry.coveredResult_load vm.source [] name hvm).registry
  all_goals
    unfold stop?
    rw [loadClass_apply]
  case quiet =>
    cases load vm.source [] name vm.registry with
    | mk outcome registry => cases outcome <;> exact nofun
  case fault =>
    have hresult := Registry.coveredResult_load vm.source [] name hvm
    generalize load vm.source [] name vm.registry = result at hresult
    obtain ⟨outcome, registry⟩ := result
    cases outcome with
    | ok id => exact nofun
    | error e =>
        rintro _ ⟨⟩
        exact hresult.fault rfl

theorem exists_of_onFrame_ok {x : FrameM α} {vm vm' : Vm} {a : α}
    (h : onFrame x vm = .ok a vm') : ∃ f f' below, vm.frames = f :: below ∧ x f = .ok a f' ∧
      vm' = { vm with frames := f' :: below } := by
  unfold onFrame at h
  split at h
  · cases h
  · rename_i f below hframes
    split at h
    · rename_i f' hx
      cases h
      exact ⟨f, f', below, hframes, hx, rfl⟩
    · cases h
    · cases h

theorem onFrame_eq_ok {x : FrameM α} {vm vm' : Vm} {f : Frame} {below : List Frame} {a : α}
    (hframes : vm.frames = f :: below) (h : onFrame x vm = .ok a vm') :
    ∃ f', x f = .ok a f' ∧ vm' = { vm with frames := f' :: below } := by
  obtain ⟨f₀, f', below₀, hframes₀, hcase, rfl⟩ := exists_of_onFrame_ok h
  cases hframes.symm.trans hframes₀
  exact ⟨f', hcase, rfl⟩

/-- Work on a frame that fails keeps what it has changed of the frame. -/
theorem exists_of_onFrame_error {x : FrameM α} {vm vm' : Vm} {stop : Stop}
    (h : onFrame x vm = .error stop vm') :
    stop = .undefined ∧ vm' = vm ∨ ∃ f f' below e, vm.frames = f :: below ∧ x f = .error e f' ∧
      stop = e.elim .fault .defect ∧ vm' = { vm with frames := f' :: below } := by
  unfold onFrame at h
  split at h
  · cases h
    exact .inl ⟨rfl, rfl⟩
  · rename_i f below hframes
    split at h
    · cases h
    · rename_i e f' hx
      cases h
      exact .inr ⟨f, f', below, .inl e, hframes, hx, rfl, rfl⟩
    · rename_i d f' hx
      cases h
      exact .inr ⟨f, f', below, .inr d, hframes, hx, rfl, rfl⟩

theorem onFrame_of_idle (x : FrameM α) {vm : Vm} (h : vm.frames = []) :
    onFrame x vm = .error .undefined vm := by
  simp only [onFrame, h]

theorem after_onFrame (x : FrameM α) {f : Frame} {below : List Frame} {vm : Vm}
    (h : vm.frames = f :: below) :
    after (onFrame x) vm = { vm with frames := x.after f :: below } := by
  simp only [after, onFrame, h, FrameM.after]
  cases x f with
  | ok a f' => rfl
  | error e f' => cases e <;> rfl

theorem local_onFrame (x : FrameM α) [hx : x.Proper (· = .divisionByZero)] : Local (onFrame x) := by
  apply has_of_cases
  · intro vm a vm' h
    obtain ⟨f, f', below, hframes, hcase, rfl⟩ := exists_of_onFrame_ok h
    have hchange := Change.frame vm f f' below hframes ((hx.proper f).continues_of_ok hcase)
    exact quietChanges_of_registry (.single hchange) rfl nofun nofun
  · intro vm stop vm' h
    rcases exists_of_onFrame_error h with
      ⟨rfl, rfl⟩ | ⟨f, f', below, e, hframes, hcase, rfl, rfl⟩
    · exact local_undefined (α := α) vm'
    · have hchange := Change.frame vm f f' below hframes ((hx.proper f).continues_of_error hcase)
      cases e with
      | inl e =>
          refine quietChanges_of_registry (.single hchange) rfl nofun ?_
          rintro _ ⟨⟩
          rw [(hx.proper f).of_fault hcase]
          rfl
      | inr d => exact quietChanges_of_registry (.single hchange) rfl nofun nofun

theorem onFrame_push_apply (v : Value) {f : Frame} {below : List Frame} {vm : Vm}
    (h : vm.frames = f :: below) :
    onFrame (.push v) vm =
      if f.stack.length < f.maxStack then
        .ok () { vm with frames := { f with stack := v :: f.stack } :: below }
      else .error (.defect (.stackOverflow f.method.render f.opPc)) vm := by
  simp only [onFrame, h, FrameM.push_apply]
  by_cases hroom : f.stack.length < f.maxStack
  · simp only [hroom, if_true]
  · simp only [hroom, if_false, ← h]

theorem reads_currentFrame : Reads currentFrame := by
  refine reads_get.bind fun vm => ?_
  cases vm.frames with
  | nil => exact reads_undefined
  | cons f below => exact reads_pure f

theorem looks_classAt (id : ClassId) : Looks (classAt id) := by
  refine looks_get.bind fun vm => ?_
  cases vm.registry.classes[id]? with
  | none => exact looks_undefined
  | some c => exact looks_pure c

theorem reads_classAt (id : ClassId) : Reads (classAt id) := (looks_classAt id).reads

theorem reads_statusAt (id : ClassId) : Reads (statusAt id) := by
  refine reads_get.bind fun vm => ?_
  cases vm.registry.status? id with
  | none => exact reads_undefined
  | some s => exact reads_pure s

theorem reads_ofExcept {x : Except Fault α} (hx : ∀ e, x = .error e → e.isCovered = true) :
    Reads (ofExcept x) := by
  cases x with
  | ok a => exact reads_pure a
  | error e => exact reads_fault e (hx e rfl)

theorem reads_ofChecked {x : Except (Fault ⊕ Defect) α}
    (hx : ∀ e, x = .error (.inl e) → e.isCovered = true) : Reads (ofChecked x) := by
  cases x with
  | ok a => exact reads_pure a
  | error e =>
      cases e with
      | inl e => exact reads_fault e (hx e rfl)
      | inr d => exact reads_defect d

theorem reads_getStaticSlot (f : Field) : Reads (getStaticSlot f) := by
  refine (reads_statusAt _).bind fun s => ?_
  cases s.statics[f.slot]? with
  | none => exact reads_undefined
  | some v => exact reads_pure v

theorem reads_classOf (r : Ref) : Reads (classOf r) :=
  reads_get.bind fun _ => (reads_ofExcept fun _ => Heap.covered_deref).bind fun _ => reads_pure _

theorem looks_classOfObject (r : Ref) : Looks (classOfObject r) := by
  refine looks_get.bind fun vm => ?_
  cases vm.heap.get? r with
  | none => exact looks_undefined
  | some o => exact looks_pure _

theorem reads_classOfObject (r : Ref) : Reads (classOfObject r) := (looks_classOfObject r).reads

theorem reads_loadElement (r : Ref) (index : Int32) : Reads (loadElement r index) :=
  reads_get.bind fun _ => reads_ofChecked fun _ => Heap.covered_load

theorem reads_getField (r : Ref) (declaring : ClassId) (name : String) :
    Reads (getField r declaring name) :=
  (reads_classAt declaring).bind fun _ => reads_get.bind fun _ =>
    reads_ofExcept fun _ => Heap.covered_getField

theorem local_currentFrame : Local currentFrame := reads_currentFrame.isLocal

theorem local_classAt (id : ClassId) : Local (classAt id) := (reads_classAt id).isLocal

theorem local_ofExcept {x : Except Fault α} (hx : ∀ e, x = .error e → e.isCovered = true) :
    Local (ofExcept x) :=
  (reads_ofExcept hx).isLocal

theorem local_classOf (r : Ref) : Local (classOf r) := (reads_classOf r).isLocal

theorem local_setStaticSlot (f : Field) (v : Value) : Local (setStaticSlot f v) :=
  fun vm => ⟨.single (.assign vm f v), nofun,
    fun hvm => ⟨hvm.modifyStatus _ _ fun hs hr => hvm.kept hs hr, nofun⟩⟩

theorem local_arrayOf (id : ClassId) : Local (arrayOf id) :=
  (local_classAt id).bind fun _ => local_loadClass _

theorem allocInstance_apply_of_some {id : ClassId} {vm : Vm} {c : Class}
    (h : vm.registry.classes[id]? = some c) :
    allocInstance id vm =
      .ok (vm.heap.allocInstance id c).1 { vm with heap := (vm.heap.allocInstance id c).2 } := by
  rw [allocInstance, bind_of_ok (classAt_apply_of_some h)]
  rfl

theorem local_allocInstance (id : ClassId) : Local (allocInstance id) :=
  (local_classAt id).bind fun _ => local_modifyGet (fun vm => .heap vm _) fun _ => rfl

theorem local_allocArray (id : ClassId) (length : Int32) : Local (allocArray id length) := by
  refine (local_classAt id).bind fun c => local_get.bind fun vm => ?_
  refine (local_ofExcept fun _ => Heap.covered_allocArray).bind fun (r, heap) => ?_
  exact (local_modify (fun vm => .heap vm heap) fun _ => rfl).bind fun _ => local_pure r

theorem local_newString (text : String) : Local (newString text) :=
  (local_loadClass _).bind fun id => (local_classAt id).bind fun _ =>
    local_modifyGet (fun vm => .heap vm _) fun _ => rfl

theorem local_setHeap {heap? : Vm → Exec Heap} (h : ∀ vm, Reads (heap? vm)) :
    Local (do
      let vm ← get
      let heap ← heap? vm
      set { vm with heap } : Exec Unit) := by
  intro vm
  obtain ⟨hafter, hquiet, hfault⟩ := h vm vm
  unfold after at hafter
  unfold stop? at hquiet hfault
  simp only [stop?, after, bind_apply, get_apply]
  cases hheap : heap? vm vm with
  | ok heap vm' =>
      refine quietChanges_of_registry (.single (.heap vm heap)) rfl ?_ ?_
      · rintro _ ⟨⟩
      · rintro _ ⟨⟩
  | error stop vm' =>
      simp only [hheap] at hafter hquiet hfault ⊢
      rw [hafter]
      exact quietChanges_of_registry .refl rfl hquiet hfault

theorem local_storeElement (r : Ref) (index : Int32) (v : Value) :
    Local (storeElement r index v) :=
  local_setHeap fun _ => reads_ofChecked fun _ => Heap.covered_store

theorem local_setField (r : Ref) (declaring : ClassId) (name : String) (v : Value) :
    Local (setField r declaring name v) :=
  (local_classAt declaring).bind fun _ => local_setHeap fun _ =>
    reads_ofExcept fun _ => Heap.covered_setField

theorem local_profile (f : Profiler MethodId → Profiler MethodId) : Local (profile f) :=
  local_modify (fun vm => .profiler vm _) fun _ => rfl

end Exec

end ClassEngine.Machine
