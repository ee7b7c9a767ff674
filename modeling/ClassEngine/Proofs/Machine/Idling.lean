import ClassEngine.Proofs.Machine.Advancing

/-!
# Work besides the profiler

Most of what a machine does pushes no frame and has nothing to do with the profiler: with
another profiler, or none, it does the same.  Frames may change and may be left, but there are
no more activations than there were.
-/

namespace ClassEngine.Machine

open Code

def Vm.profiledBy (vm : Vm) (p? : Option (Profiler MethodId)) : Vm := { vm with profiler? := p? }

def Vm.activations (vm : Vm) : List Method := vm.frames.map (·.method)

namespace Exec

variable {α β : Type}

def under (p? : Option (Profiler MethodId)) : EStateM.Result Stop Vm α → EStateM.Result Stop Vm α
  | .ok a vm => .ok a (vm.profiledBy p?)
  | .error stop vm => .error stop (vm.profiledBy p?)

/-- The operation neither reads nor changes the profiler. -/
def Blind (x : Exec α) : Prop := ∀ vm p?, x (vm.profiledBy p?) = under p? (x vm)

/-- The operation pushes no frame, and has nothing to do with the profiler. -/
class Idle (x : Exec α) : Prop where
  activations : ∀ vm, (after x vm).activations <:+ vm.activations
  blind : Blind x

theorem Blind.bind {x : Exec α} {g : α → Exec β} (hx : Blind x) (hg : ∀ a, Blind (g a)) :
    Blind (x >>= g) := by
  intro vm p?
  rw [bind_apply, bind_apply, hx]
  cases x vm with
  | ok a vm' => exact hg a vm' p?
  | error stop vm' => rfl

/-- What looks at the machine looks past the profiler. -/
theorem Blind.look {f : Vm → Exec α} (hf : ∀ vm p?, f (vm.profiledBy p?) = f vm)
    (h : ∀ vm, Blind (f vm)) : Blind (get >>= f) := by
  intro vm p?
  rw [bind_apply, bind_apply, get_apply, get_apply]
  dsimp only
  rw [hf]
  exact h vm vm p?

theorem OffFrame.activations {x : Exec α} [hx : OffFrame x] (vm : Vm) :
    (after x vm).activations <:+ vm.activations := by
  rw [Vm.activations, hx.frames]
  exact List.suffix_rfl

theorem OffFrame.idle {x : Exec α} [OffFrame x] (h : Blind x) : Idle x := ⟨OffFrame.activations, h⟩

instance (a : α) : Idle (pure a : Exec α) := OffFrame.idle fun _ _ => rfl

instance (stop : Stop) : Idle (throw stop : Exec α) := OffFrame.idle fun _ _ => rfl

instance (e : Fault) : Idle (fault e : Exec α) := OffFrame.idle fun _ _ => rfl

theorem idle_bind {x : Exec α} {g : α → Exec β} [hx : Idle x] (hg : ∀ a, Idle (g a)) :
    Idle (x >>= g) where
  activations vm := by
    have hfirst := hx.activations vm
    unfold after at *
    rw [bind_apply]
    cases hcase : x vm with
    | error stop vm' =>
        rw [hcase] at hfirst
        exact hfirst
    | ok a vm' =>
        rw [hcase] at hfirst
        exact ((hg a).activations vm').trans hfirst
  blind := hx.blind.bind fun a => (hg a).blind

instance {x : Exec α} {g : α → Exec β} [Idle x] [∀ a, Idle (g a)] : Idle (x >>= g) :=
  idle_bind inferInstance

theorem idle_look {f : Vm → Exec α} (hf : ∀ vm p?, f (vm.profiledBy p?) = f vm)
    (h : ∀ vm, Idle (f vm)) : Idle (get >>= f) where
  activations vm := (h vm).activations vm
  blind := .look hf fun vm => (h vm).blind

instance {c : Prop} [Decidable c] {x y : Exec α} [hx : Idle x] [hy : Idle y] :
    Idle (if c then x else y) := by
  split
  · exact hx
  · exact hy

instance {x : Exec α} [hx : Idle x] : Idle (attempt x) where
  activations vm := by
    rw [after_attempt]
    exact hx.activations vm
  blind vm p? := by
    rw [attempt_apply, attempt_apply, hx.blind]
    cases x vm with
    | ok a vm' => rfl
    | error stop vm' => cases stop <;> rfl

instance (e : Except Fault α) : Idle (ofExcept e) := by
  cases e <;> unfold ofExcept <;> infer_instance

instance (e : Except (Fault ⊕ Defect) α) : Idle (ofChecked e) := by
  unfold ofChecked
  split <;> infer_instance

instance (e : Except ClassFile.PoolError α) : Idle (entry e) := by
  cases e <;> unfold entry <;> infer_instance

/-! ## Frames -/

instance (x : FrameM α) [hx : x.Proper (· = .divisionByZero)] : Idle (onFrame x) where
  activations vm := by
    cases hframes : vm.frames with
    | nil =>
        have hsame : after (onFrame x) vm = vm := after_error (onFrame_of_idle x hframes)
        exact hsame.symm ▸ List.suffix_rfl
    | cons f below =>
        have hsame : (after (onFrame x) vm).activations = vm.activations := by
          rw [after_onFrame x hframes, Vm.activations, Vm.activations, hframes, List.map_cons,
            List.map_cons, (hx.proper f).continues.method]
        exact hsame.symm ▸ List.suffix_rfl
  blind vm p? := by
    have hframes : (vm.profiledBy p?).frames = vm.frames := rfl
    unfold onFrame
    rw [hframes]
    cases vm.frames with
    | nil => rfl
    | cons f below =>
        dsimp only
        cases x f with
        | ok a f' => rfl
        | error e f' => cases e <;> rfl

instance : Idle currentFrame := by
  refine idle_look (fun _ _ => rfl) fun vm => ?_
  cases vm.frames <;> dsimp only <;> infer_instance

instance : Idle currentClass := by
  unfold currentClass
  infer_instance

instance (text : String) : Idle (unsupported text : Exec α) := by
  unfold unsupported
  infer_instance

instance : Idle checkDepth := by
  refine idle_look (fun _ _ => rfl) fun vm => ?_
  infer_instance

instance (v? : Option Value) : Idle (leaveFrame v?) where
  activations vm := (List.drop_suffix 1 vm.frames).map _
  blind _ _ := rfl

instance : Idle clearReturn where
  activations _ := List.suffix_rfl
  blind _ _ := rfl

instance (base : Nat) : Idle (cutTo base) where
  activations vm := (List.drop_suffix _ vm.frames).map _
  blind _ _ := rfl

instance (e : Event) : Idle (note e) where
  activations _ := List.suffix_rfl
  blind _ _ := rfl

instance (site : CallSite) (cache : InlineCache ClassId Method) : Idle (setSite site cache) where
  activations _ := List.suffix_rfl
  blind _ _ := rfl

/-! ## Classes and pools -/

instance (id : ClassId) : Idle (classAt id) := by
  refine idle_look (fun _ _ => rfl) fun vm => ?_
  cases vm.registry.classes[id]? <;> dsimp only <;> infer_instance

instance (id : ClassId) : Idle (statusAt id) := by
  refine idle_look (fun _ _ => rfl) fun vm => ?_
  cases vm.registry.status? id <;> dsimp only <;> infer_instance

instance (name : String) : Idle (loadClass name) := by
  refine OffFrame.idle fun vm p? => ?_
  simp only [loadClass_apply, Vm.profiledBy]
  obtain ⟨outcome, registry⟩ := load vm.source [] name vm.registry
  cases outcome <;> rfl

instance (id : ClassId) : Idle (arrayOf id) := by
  unfold arrayOf
  infer_instance

instance (id : ClassId) (f : ClassStatus → ClassStatus) : Idle (modifyStatus id f) where
  activations _ := List.suffix_rfl
  blind _ _ := rfl

instance (id : ClassId) (state : ClassState) : Idle (setState id state) := by
  unfold setState
  infer_instance

instance (f : Field) : Idle (getStaticSlot f) := by
  refine idle_bind fun s => ?_
  cases s.statics[f.slot]? <;> dsimp only <;> infer_instance

instance (f : Field) (v : Value) : Idle (setStaticSlot f v) := by
  unfold setStaticSlot
  infer_instance

instance (id : ClassId) (index : UInt16) : Idle (followClass id index) := by
  unfold followClass
  infer_instance

instance (id : ClassId) (index : UInt16) : Idle (followField id index) := by
  refine idle_bind fun c => idle_bind fun ref => idle_bind fun owner => ?_
  refine idle_look (fun _ _ => rfl) fun vm => ?_
  cases vm.registry.classes.findField? ref.name ref.descriptor owner <;> infer_instance

instance (id : ClassId) (index : UInt16) (tags : List ClassFile.Tag) :
    Idle (followMethod id index tags) := by
  refine idle_bind fun c => idle_bind fun ref => idle_bind fun owner => idle_bind fun o => ?_
  have hfind : Idle (do
      match (← get).registry.classes.findMethod? owner ref.name ref.descriptor with
        | some m => return .method m
        | none => fault (.noSuchMethod ref.render) : Exec Resolved) := by
    refine idle_look (fun _ _ => rfl) fun vm => ?_
    cases vm.registry.classes.findMethod? owner ref.name ref.descriptor <;> infer_instance
  infer_instance

/-! ## Objects -/

instance (id : ClassId) : Idle (allocInstance id) :=
  idle_bind fun _ => ⟨fun _ => List.suffix_rfl, fun _ _ => rfl⟩

instance (text : String) : Idle (newString text) :=
  idle_bind fun _ => idle_bind fun _ => ⟨fun _ => List.suffix_rfl, fun _ _ => rfl⟩

instance (text : String) : Idle (intern text) :=
  idle_bind fun _ => idle_bind fun _ => ⟨fun _ => List.suffix_rfl, fun _ _ => rfl⟩

theorem idle_putHeap (f : Vm → Heap) (hf : ∀ vm p?, f (vm.profiledBy p?) = f vm) :
    Idle (modify fun vm => { vm with heap := f vm } : Exec Unit) where
  activations _ := List.suffix_rfl
  blind vm p? := by
    show EStateM.Result.ok () { vm.profiledBy p? with heap := f (vm.profiledBy p?) } = _
    rw [hf]
    rfl

instance (id : ClassId) (length : Int32) : Idle (allocArray id length) := by
  refine idle_bind fun c => idle_look (fun _ _ => rfl) fun vm => ?_
  have hput (heap : Heap) := idle_putHeap (fun _ => heap) fun _ _ => rfl
  infer_instance

instance (r : Ref) : Idle (classOf r) := by
  refine idle_look (fun _ _ => rfl) fun vm => ?_
  infer_instance

instance (r : Ref) : Idle (classOfObject r) := by
  refine idle_look (fun _ _ => rfl) fun vm => ?_
  cases vm.heap.get? r <;> dsimp only <;> infer_instance

instance (r : Ref) (index : Int32) : Idle (loadElement r index) := by
  refine idle_look (fun _ _ => rfl) fun vm => ?_
  infer_instance

instance (r : Ref) (declaring : ClassId) (name : String) : Idle (getField r declaring name) := by
  refine idle_bind fun c => idle_look (fun _ _ => rfl) fun vm => ?_
  infer_instance

instance (r : Ref) : Idle (stringText? r) := by
  refine idle_look (fun _ _ => rfl) fun vm => ?_
  cases vm.heap.get? r <;> dsimp only <;> infer_instance

instance (r : Ref) (index : Int32) (v : Value) : Idle (storeElement r index v) := by
  refine OffFrame.idle fun vm p? => ?_
  unfold storeElement
  simp only [bind_apply, get_apply, Vm.profiledBy]
  cases vm.heap.store vm.registry.classes r index v with
  | ok heap => rfl
  | error e => cases e <;> rfl

instance (r : Ref) (declaring : ClassId) (name : String) (v : Value) :
    Idle (setField r declaring name v) := by
  refine idle_bind fun c => ⟨fun vm => ?_, fun vm p? => ?_⟩
  · unfold after
    simp only [bind_apply, get_apply]
    cases vm.heap.setField vm.registry.classes r c name v <;> exact List.suffix_rfl
  · simp only [bind_apply, get_apply, Vm.profiledBy]
    cases vm.heap.setField vm.registry.classes r c name v <;> rfl

instance (id : ClassId) (index : UInt16) : Idle (followLiteral id index) := by
  refine idle_bind fun c => idle_bind fun entry => ?_
  cases entry <;> dsimp only <;> infer_instance

instance (id : ClassId) (index : UInt16) (use : PoolUse) {follow : Exec Resolved}
    [Idle follow] : Idle (resolve id index use follow) := by
  refine idle_bind fun s => ?_
  have hkeep (outcome : Except Fault Resolved) : Idle (keep id index use outcome) := by
    unfold keep
    infer_instance
  cases kept s index use <;> dsimp only <;> infer_instance

instance (id : ClassId) (index : UInt16) : Idle (resolveClass id index) := by
  refine idle_bind fun r => ?_
  cases r <;> dsimp only <;> infer_instance

instance (id : ClassId) (index : UInt16) : Idle (resolveField id index) := by
  refine idle_bind fun r => ?_
  cases r <;> dsimp only <;> infer_instance

instance (id : ClassId) (index : UInt16) : Idle (resolveMethod id index) := by
  refine idle_bind fun r => ?_
  cases r <;> dsimp only <;> infer_instance

instance (id : ClassId) (index : UInt16) : Idle (resolveInterfaceMethod id index) := by
  refine idle_bind fun r => ?_
  cases r <;> dsimp only <;> infer_instance

instance (id : ClassId) (index : UInt16) : Idle (literal id index) := by
  refine idle_bind fun r => ?_
  cases r <;> dsimp only <;> infer_instance

/-! ## Instructions -/

theorem idle_ofAssignable (id target : ClassId) {x y : Exec α} [Idle x] [Idle y] :
    Idle (do if (← get).registry.classes.isAssignable id target then x else y) := by
  refine idle_look (fun _ _ => rfl) fun vm => ?_
  infer_instance

instance (a : Ref) (v : Value) : Idle (checkElement a v) := by
  unfold checkElement
  split
  · infer_instance
  · refine idle_bind fun id => idle_bind fun ac => idle_bind fun vid => ?_
    cases ac.component? with
    | none => exact inferInstanceAs (Idle (pure () : Exec Unit))
    | some component => exact idle_ofAssignable vid component

instance (id : ClassId) : Idle (pushArray id) := by
  unfold pushArray
  infer_instance

instance (op : ArrayOp) : Idle (array op) := by
  cases op with
  | create =>
      refine idle_bind fun code => ?_
      cases baseArrayName? code <;> dsimp only <;> infer_instance
  | length =>
      refine idle_bind fun r => idle_look (fun _ _ => rfl) fun vm => ?_
      infer_instance
  | _ =>
      unfold array
      infer_instance

instance : Idle instanceField := by
  unfold instanceField
  infer_instance

instance (f : Field) (r : Ref) : Idle (fieldHolder f r) := by
  refine idle_look (fun _ _ => rfl) fun vm => ?_
  cases vm.heap.get? r <;> dsimp only <;> infer_instance

instance (v : Value) (index : UInt16) : Idle (castCheck v index) := by
  have hcheck (id target : ClassId) : Idle (do
      if (← get).registry.classes.isAssignable id target then return
      else fault (.classCast (← classAt id).name (← classAt target).name) : Exec Unit) :=
    idle_ofAssignable id target
  unfold castCheck
  infer_instance

instance (v : Value) (target : ClassId) : Idle (isInstance v target) := by
  have hcheck (id : ClassId) : Idle (do
      return (← get).registry.classes.isAssignable id target : Exec Bool) :=
    idle_look (fun _ _ => rfl) fun _ => inferInstance
  unfold isInstance
  infer_instance

instance (index : UInt16) : Idle (pushLiteral index) := by
  unfold pushLiteral
  infer_instance

instance (m : Method) : Idle (receiver m) := by
  unfold receiver
  infer_instance

instance (m : Method) : Idle (checkInstanceMethod m) := by
  unfold checkInstanceMethod
  infer_instance

instance (m : Method) : Idle (specialTarget m) := by
  refine idle_bind fun caller => idle_bind fun c => idle_look (fun _ _ => rfl) fun vm => ?_
  dsimp only
  split
  · split <;> infer_instance
  · infer_instance

instance (m : Method) (v : Value) : Idle (selectMethod m v) := by
  refine idle_bind fun rc => idle_bind fun f => idle_look (fun _ _ => rfl) fun vm => ?_
  refine idle_bind fun _ => ?_
  split
  · infer_instance
  · refine idle_bind fun c => ?_
    split <;> infer_instance

/-! ## Exceptions -/

instance (f : Frame) (thrown : ClassId) (h : ClassFile.Handler) : Idle (accepts f thrown h) := by
  unfold accepts
  split
  · infer_instance
  · refine idle_bind fun outcome => ?_
    cases outcome with
    | ok target => exact idle_look (fun _ _ => rfl) fun _ => inferInstance
    | error e => infer_instance

theorem sequential_idle : Sequential Idle where
  pure _ := inferInstance
  bind _ hg := idle_bind hg

instance (f : Frame) (thrown : ClassId) (rows : List ClassFile.Handler) :
    Idle (findHandler f thrown rows) :=
  sequential_idle.findHandler (fun _ => inferInstance) rows

instance (base : Nat) (thrown : ClassId) (frames : List Frame) :
    Idle (seekHandler base thrown frames) :=
  sequential_idle.seekHandler base (fun _ _ => inferInstance) frames

instance (r : Ref) : Idle (throwableMessage r) := by
  refine idle_look (fun _ _ => rfl) fun vm => ?_
  cases vm.registry.find? throwableName with
  | none => infer_instance
  | some root =>
      refine idle_bind fun outcome => ?_
      cases outcome <;> dsimp only <;> infer_instance

instance (r : Ref) : Idle (traceOf r) :=
  idle_look (fun _ _ => rfl) fun _ => inferInstance

instance (r : Ref) : Idle (recordTrace r) where
  activations vm := by
    obtain ⟨traces, h⟩ := recordTrace_apply r vm
    rw [after_ok h]
    exact List.suffix_rfl
  blind vm p? := by
    change EStateM.Result.ok () (if vm.traces.any (·.1 = r) then _ else _) =
      EStateM.Result.ok () ((if vm.traces.any (·.1 = r) then _ else _ : Vm).profiledBy p?)
    split <;> rfl

theorem activations_seekHandler {base : Nat} {thrown : ClassId} {frames : List Frame}
    {vm vm' : Vm} (h : seekHandler base thrown vm.frames vm = .ok (some frames) vm') :
    frames.map (·.method) <:+ vm.activations := by
  obtain ⟨f, below, pc, hsuffix, -, rfl⟩ := seekHandler_some h
  exact hsuffix.map (·.method)

instance (base : Nat) (r : Ref) : Idle (unwind base r) := by
  have hland (frames : List Frame) : Blind (do
      note (.caught r)
      modify ({ · with frames })
      onFrame (.push (.ref r)) : Exec Unit) :=
    (Idle.blind.bind fun _ => Blind.bind (fun _ _ => rfl) fun _ => Idle.blind)
  have hend (id : ClassId) : Idle (do
      cutTo base
      let c ← classAt id
      let message ← throwableMessage r
      fault (.uncaught ⟨r, c.name, message, ← traceOf r⟩) : Exec Unit) := inferInstance
  refine idle_bind fun _ => idle_bind fun id => ⟨fun vm => ?_, fun vm p? => ?_⟩
  · have hseek := Idle.activations (x := seekHandler base id vm.frames) vm
    unfold after at hseek ⊢
    rw [bind_apply, get_apply]
    dsimp only
    rw [bind_apply]
    cases hcase : seekHandler base id vm.frames vm with
    | error stop vm' =>
        rw [hcase] at hseek
        exact hseek
    | ok frames? vm' =>
        rw [hcase] at hseek
        cases frames? with
        | none => exact ((hend id).activations vm').trans hseek
        | some frames =>
            have hpush := Idle.activations (x := onFrame (.push (.ref r)))
              { after (note (.caught r)) vm' with frames }
            exact hpush.trans (activations_seekHandler hcase)
  · refine Blind.bind (x := seekHandler base id vm.frames) Idle.blind (fun frames? => ?_) vm p?
    cases frames? with
    | none => exact (hend id).blind
    | some frames => exact hland frames

instance (base : Nat) : Idle (finish base) :=
  idle_bind fun _ => idle_look (fun _ _ => rfl) fun _ => inferInstance

instance (base : Nat) (x : Exec Unit) [Idle x] : Idle (unlessReturning base x) :=
  idle_look (fun _ _ => rfl) fun _ => inferInstance

instance (f : Field) : Idle (assignConstant f) := by
  unfold assignConstant
  split
  · refine idle_bind fun outcome => ?_
    cases outcome <;> dsimp only <;> infer_instance
  · infer_instance

instance {β : Type} (g : β → Exec Unit) [∀ b, Idle (g b)] (bs : List β) : Idle (bs.forM g) := by
  induction bs with
  | nil => exact inferInstanceAs (Idle (pure () : Exec Unit))
  | cons b rest ih => exact inferInstanceAs (Idle (do g b; rest.forM g : Exec Unit))

end Exec

end ClassEngine.Machine
