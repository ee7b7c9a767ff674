import ClassEngine.Proofs.Machine.FrameBounds
import ClassEngine.Proofs.Machine.Frames

/-!
# Machines within their bounds

A machine is within its bounds when it has no more frames than it may have, all of them are within
the bounds of their code, and all code that it can come by is legal.  The operations of which an
instruction is made keep it there, however they end.
-/

namespace ClassEngine.Machine

/-- All code that the machine can come by is legal. -/
structure Vm.LegalCode (vm : Vm) : Prop where
  coherent : vm.registry.Coherent vm.source
  entries : vm.registry.LegalEntries
  caches : vm.LegalCaches

/-- The machine has at most `limit` frames.  The current one has the property, the others are
within their bounds.  No result is on its way to a caller. -/
structure Vm.Within (limit : Nat) (P : Frame → Prop) (vm : Vm) : Prop extends vm.LegalCode where
  most : vm.maxFrames = limit
  depth : vm.frames.length ≤ limit
  current : ∀ f ∈ vm.frames.head?, P f
  callers : ∀ f ∈ vm.frames.tail, f.Bounded
  returning : vm.returning = false

abbrev Vm.Bounded (limit : Nat) (vm : Vm) : Prop := vm.Within limit Frame.Bounded

/-- What an operation leaves of the current frame.  Only a run that has no rounds left may leave it
where a return from a subroutine has led. -/
def Frame.LeftBy (o : Option Stop) (f : Frame) : Prop :=
  match o with
  | some .exhausted => f.Landed
  | _ => f.Bounded

theorem Frame.Bounded.leftBy {f : Frame} (h : f.Bounded) (o : Option Stop) : f.LeftBy o := by
  unfold LeftBy
  split
  · exact h.landed
  · exact h

theorem Frame.LeftBy.landed {f : Frame} {o : Option Stop} (h : f.LeftBy o) : f.Landed := by
  unfold LeftBy at h
  split at h
  · exact h
  · exact Bounded.landed h

namespace Vm

variable {limit : Nat} {P Q : Frame → Prop} {vm vm' : Vm}

theorem Within.mono (h : vm.Within limit P) (hPQ : ∀ {f : Frame}, P f → Q f) :
    vm.Within limit Q :=
  { h with current := fun f hf => hPQ (h.current f hf) }

theorem Within.leftBy (h : vm.Bounded limit) (o : Option Stop) : vm.Within limit (Frame.LeftBy o) :=
  h.mono fun hf => hf.leftBy o

theorem Within.landed (h : vm.Bounded limit) : vm.Within limit Frame.Landed :=
  h.mono Frame.Bounded.landed

theorem Within.forall_frames (h : vm.Within limit P) {R : Frame → Prop}
    (hcurrent : ∀ {f : Frame}, P f → R f) (hcallers : ∀ {f : Frame}, f.Bounded → R f) :
    ∀ f ∈ vm.frames, R f := by
  intro f hf
  cases hframes : vm.frames with
  | nil => simp [hframes] at hf
  | cons g below =>
      rw [hframes] at hf
      rcases List.mem_cons.mp hf with rfl | hf
      · exact hcurrent (h.current f (by simp [hframes]))
      · exact hcallers (h.callers f (by simpa [hframes] using hf))

theorem Within.frames (h : vm.Bounded limit) : ∀ f ∈ vm.frames, f.Bounded :=
  h.forall_frames id id

theorem Within.resume (h : vm.Within limit P) {frames : List Frame} (hdepth : frames.length ≤ limit)
    (hcurrent : ∀ f ∈ frames.head?, Q f) (hcallers : ∀ f ∈ frames.tail, f.Bounded) :
    { vm with frames }.Within limit Q :=
  ⟨⟨h.coherent, h.entries, h.caches⟩, h.most, hdepth, hcurrent, hcallers, h.returning⟩

theorem Within.replace (h : vm.Within limit P) {f f' : Frame} {below : List Frame}
    (hframes : vm.frames = f :: below) (hf' : Q f') :
    { vm with frames := f' :: below }.Within limit Q := by
  have hdepth := h.depth
  have hcallers := h.callers
  rw [hframes] at hdepth hcallers
  exact h.resume hdepth (by simpa using hf') hcallers

theorem Within.bounded_of_frames (h : vm.Within limit P) {frames : List Frame}
    (hdepth : frames.length ≤ limit) (hframes : ∀ f ∈ frames, f.Bounded) :
    { vm with frames }.Bounded limit :=
  h.resume hdepth (fun f hf => hframes f (List.mem_of_mem_head? hf))
    fun f hf => hframes f (List.mem_of_mem_tail hf)

theorem Within.drop (h : vm.Bounded limit) (n : Nat) :
    { vm with frames := vm.frames.drop n }.Bounded limit :=
  h.bounded_of_frames ((List.drop_sublist n vm.frames).length_le.trans h.depth)
    fun f hf => h.frames f (List.mem_of_mem_drop hf)

theorem Within.of_same (h : vm.Within limit P) (hsource : vm'.source = vm.source)
    (hregistry : vm'.registry = vm.registry) (hsites : vm'.sites = vm.sites)
    (hlimit : vm'.maxFrames = vm.maxFrames) (hframes : vm'.frames = vm.frames)
    (hreturning : vm'.returning = vm.returning) : vm'.Within limit P := by
  refine ⟨⟨?_, ?_, ?_⟩, hlimit.trans h.most, ?_, ?_, ?_, hreturning.trans h.returning⟩
  · rw [hregistry, hsource]
    exact h.coherent
  · rw [hregistry]
    exact h.entries
  · rw [LegalCaches, hsites]
    exact h.caches
  · rw [hframes]
    exact h.depth
  · rw [hframes]
    exact h.current
  · rw [hframes]
    exact h.callers

theorem Within.modifyStatus (h : vm.Within limit P) {id : ClassId} {f : ClassStatus → ClassStatus}
    (hentries : (vm.registry.modifyStatus id f).LegalEntries) :
    { vm with registry := vm.registry.modifyStatus id f }.Within limit P :=
  ⟨⟨h.coherent.modifyStatus id f, hentries, h.caches⟩, h.most, h.depth, h.current, h.callers,
    h.returning⟩

theorem Within.load (h : vm.Within limit P) (name : String) :
    { vm with registry := (load vm.source [] name vm.registry).2 }.Within limit P :=
  ⟨⟨(Registry.load_keeps vm.source [] name vm.registry).coherent h.coherent,
    h.entries.load vm.source [] name, h.caches⟩, h.most, h.depth, h.current, h.callers,
    h.returning⟩

theorem Within.enter (h : vm.Bounded limit) (hroom : vm.frames.length < limit) {f : Frame}
    (hf : f.Bounded) (profiler? : Option (Profiler MethodId)) :
    { vm with frames := f :: vm.frames, profiler? }.Bounded limit :=
  ⟨⟨h.coherent, h.entries, h.caches⟩, h.most, hroom, by simpa using hf, h.frames, h.returning⟩

theorem Within.cut (h : vm.Within limit P) {base : Nat} (hbase : base < vm.frames.length) :
    (Exec.after (Exec.cutTo base) vm).Bounded limit := by
  refine h.bounded_of_frames ?_ fun f hf => ?_
  · exact (List.drop_sublist _ vm.frames).length_le.trans h.depth
  · obtain ⟨k, hk⟩ : ∃ k, vm.frames.length - base = k + 1 := ⟨vm.frames.length - base - 1, by omega⟩
    rw [hk, ← List.drop_tail] at hf
    exact h.callers f (List.mem_of_mem_drop hf)

end Vm

/-! ## Operations -/

/-- From a machine within its bounds an operation comes to one within its bounds. -/
def bounding (limit : Nat) : Effect :=
  fun a o b => a.Bounded limit → b.Within limit (Frame.LeftBy o)

namespace Exec

variable {α β : Type} {limit : Nat}

theorem bounding_trans {a b c : Vm} {o : Option Stop} (hab : bounding limit a none b)
    (hbc : bounding limit b o c) : bounding limit a o c :=
  fun ha => hbc (hab ha)

class Bounding (limit : Nat) (x : Exec α) : Prop where
  has : Has (bounding limit) x

/-- The operation is bounding, and what it gives has a property. -/
structure Supplies (limit : Nat) (x : Exec α) (Q : α → Prop) : Prop where
  has : Has (bounding limit) x
  gives : ∀ {vm : Vm} {a : α} {vm' : Vm}, vm.Bounded limit → x vm = .ok a vm' → Q a

variable {Q : α → Prop} {R : β → Prop}

theorem Bounding.of_supplies {x : Exec α} (hx : Supplies limit x Q) : Bounding limit x := ⟨hx.has⟩

theorem supplies {x : Exec α} [hx : Bounding limit x] : Supplies limit x fun _ => True :=
  ⟨hx.has, fun _ _ => trivial⟩

theorem Supplies.bind {x : Exec α} {g : α → Exec β} (hx : Supplies limit x Q)
    (hg : ∀ {a}, Q a → Supplies limit (g a) R) : Supplies limit (x >>= g) R where
  has := by
    apply has_of_cases
    · intro vm b vm' h hvm
      obtain ⟨a, vm₁, h₁, h₂⟩ := bind_eq_ok h
      exact (hg (hx.gives hvm h₁)).has.ok h₂ (hx.has.ok h₁ hvm)
    · intro vm stop vm' h hvm
      rcases bind_eq_error h with h | ⟨a, vm₁, h₁, h₂⟩
      · exact hx.has.error h hvm
      · exact (hg (hx.gives hvm h₁)).has.error h₂ (hx.has.ok h₁ hvm)
  gives hvm h := by
    obtain ⟨a, vm₁, h₁, h₂⟩ := bind_eq_ok h
    exact (hg (hx.gives hvm h₁)).gives (hx.has.ok h₁ hvm) h₂

theorem supplies_bind {x : Exec α} [Bounding limit x] {g : α → Exec β}
    (hg : ∀ {a}, Supplies limit (g a) R) : Supplies limit (x >>= g) R :=
  supplies.bind fun _ => hg

theorem Supplies.bounding_bind {x : Exec α} (hx : Supplies limit x Q) {g : α → Exec β}
    (hg : ∀ {a}, Q a → Bounding limit (g a)) : Bounding limit (x >>= g) :=
  .of_supplies (hx.bind fun ha => have := hg ha; supplies)

theorem Supplies.attempt {x : Exec α} (hx : Supplies limit x Q) :
    Supplies limit (attempt x) fun outcome => ∀ a, outcome = .ok a → Q a where
  has := (Has.attempt hx.has fun h => h).of_faultless
  gives := by
    rintro vm _ vm' hvm h a rfl
    exact hx.gives hvm (ok_of_attempt h)

theorem supplies_pure {a : α} (ha : Q a) : Supplies limit (pure a : Exec α) Q where
  has _ hvm := hvm
  gives := by
    rintro _ _ _ _ ⟨⟩
    exact ha

theorem supplies_throw (stop : Stop) : Supplies limit (throw stop : Exec α) Q where
  has _ hvm := hvm.leftBy _
  gives _ h := nomatch h

theorem supplies_fault (e : Fault) : Supplies limit (fault e : Exec α) Q := supplies_throw _

theorem supplies_get : Supplies limit (get : Exec Vm) (Vm.Bounded limit) where
  has _ hvm := hvm
  gives := by
    rintro _ _ _ hvm ⟨⟩
    exact hvm

theorem supplies_ofExcept {e : Except Fault α} (he : ∀ a, e = .ok a → Q a) :
    Supplies limit (ofExcept e) Q := by
  cases e with
  | ok a => exact supplies_pure (he a rfl)
  | error e => exact supplies_fault e

theorem bounding_of_after {x : Exec α}
    (h : ∀ {vm : Vm}, vm.Bounded limit → (after x vm).Bounded limit) : Bounding limit x where
  has _ hvm := (h hvm).leftBy _

theorem bounding_of_same {x : Exec α} (h : ∀ vm, (after x vm).source = vm.source ∧
    (after x vm).registry = vm.registry ∧ (after x vm).sites = vm.sites ∧
      (after x vm).maxFrames = vm.maxFrames ∧ (after x vm).frames = vm.frames ∧
        (after x vm).returning = vm.returning) :
    Bounding limit x :=
  bounding_of_after fun {vm} hvm =>
    let ⟨hsource, hregistry, hsites, hlimit, hframes, hreturning⟩ := h vm
    hvm.of_same hsource hregistry hsites hlimit hframes hreturning

theorem Reads.bounding {x : Exec α} (hx : Reads x) : Bounding limit x :=
  bounding_of_after fun {vm} hvm => by
    rw [(hx vm).1]
    exact hvm

instance (a : α) : Bounding limit (pure a : Exec α) := (reads_pure a).bounding

instance (stop : Stop) : Bounding limit (throw stop : Exec α) := bounding_of_after id

instance (e : Fault) : Bounding limit (fault e : Exec α) := bounding_of_after id

instance : Bounding limit (get : Exec Vm) := reads_get.bounding

theorem Bounding.bind {x : Exec α} {g : α → Exec β} (hx : Bounding limit x)
    (hg : ∀ a, Bounding limit (g a)) : Bounding limit (x >>= g) :=
  supplies.bounding_bind fun {a} _ => hg a

instance {x : Exec α} {g : α → Exec β} [hx : Bounding limit x] [hg : ∀ a, Bounding limit (g a)] :
    Bounding limit (x >>= g) :=
  hx.bind hg

instance {c : Prop} [Decidable c] {x y : Exec α} [hx : Bounding limit x] [hy : Bounding limit y] :
    Bounding limit (if c then x else y) := by
  split
  · exact hx
  · exact hy

instance {x : Exec α} [Bounding limit x] : Bounding limit (attempt x) :=
  .of_supplies supplies.attempt

instance (e : Except Fault α) : Bounding limit (ofExcept e) := by
  cases e <;> unfold ofExcept <;> infer_instance

instance (e : Except (Fault ⊕ Defect) α) : Bounding limit (ofChecked e) := by
  unfold ofChecked
  split <;> infer_instance

instance (e : Except ClassFile.PoolError α) : Bounding limit (entry e) := by
  cases e <;> unfold entry <;> infer_instance

instance (e : Event) : Bounding limit (note e) :=
  bounding_of_same fun _ => ⟨rfl, rfl, rfl, rfl, rfl, rfl⟩

instance (heap : Vm → Heap) : Bounding limit (modify fun vm => { vm with heap := heap vm }) :=
  bounding_of_same fun _ => ⟨rfl, rfl, rfl, rfl, rfl, rfl⟩

instance (base : Nat) : Bounding limit (cutTo base) := bounding_of_after fun hvm => hvm.drop _

instance : Bounding limit clearReturn :=
  bounding_of_after fun hvm => hvm.of_same rfl rfl rfl rfl rfl hvm.returning.symm

/-! ## The current frame -/

instance (x : FrameM α) [hx : x.Bounding] : Bounding limit (onFrame x) := by
  refine bounding_of_after fun {vm} hvm => ?_
  cases hframes : vm.frames with
  | nil =>
      rw [after_error (onFrame_of_idle x hframes)]
      exact hvm
  | cons f below =>
      rw [after_onFrame x hframes]
      exact hvm.replace hframes (hx.keeps (hvm.current f (by simp [hframes])))

instance : Bounding limit currentFrame := reads_currentFrame.bounding

instance : Bounding limit currentClass := by
  unfold currentClass
  infer_instance

instance (text : String) : Bounding limit (unsupported text : Exec α) := by
  unfold unsupported
  infer_instance

/-! ## Classes -/

theorem supplies_classAt (id : ClassId) : Supplies limit (classAt id) Class.Legal where
  has := (reads_classAt id).bounding.has
  gives hvm h := hvm.coherent.legal_class (classAt_eq_ok h).1

instance (id : ClassId) : Bounding limit (classAt id) := .of_supplies (supplies_classAt id)

theorem supplies_statusAt (id : ClassId) : Supplies limit (statusAt id) ClassStatus.Legal where
  has := (reads_statusAt id).bounding.has
  gives hvm h := hvm.entries id _ (statusAt_eq_ok h).1

instance (id : ClassId) : Bounding limit (statusAt id) := .of_supplies (supplies_statusAt id)

instance (name : String) : Bounding limit (loadClass name) :=
  bounding_of_after fun hvm => by
    rw [after_loadClass]
    exact hvm.load name

instance (id : ClassId) : Bounding limit (arrayOf id) := by
  unfold arrayOf
  infer_instance

theorem bounding_modifyStatus (id : ClassId) {f : ClassStatus → ClassStatus}
    (hf : ∀ s : ClassStatus, s.Legal → (f s).Legal) : Bounding limit (modifyStatus id f) :=
  bounding_of_after fun hvm => hvm.modifyStatus (hvm.entries.modifyStatus id hf)

instance (id : ClassId) (state : ClassState) : Bounding limit (setState id state) := by
  have hstate : Bounding limit (modifyStatus id fun s => { s with state }) :=
    bounding_modifyStatus id fun _ h => h
  unfold setState
  infer_instance

instance (f : Field) : Bounding limit (getStaticSlot f) := (reads_getStaticSlot f).bounding

instance (f : Field) (v : Value) : Bounding limit (setStaticSlot f v) :=
  bounding_modifyStatus _ fun _ h => h

/-! ## Objects -/

abbrev newObject (alloc : Heap → Ref × Heap) : Exec Ref :=
  modifyGet fun vm =>
    let (r, heap) := alloc vm.heap
    (r, { vm with heap })

instance (alloc : Heap → Ref × Heap) : Bounding limit (newObject alloc) :=
  bounding_of_same fun _ => ⟨rfl, rfl, rfl, rfl, rfl, rfl⟩

instance (id : ClassId) : Bounding limit (allocInstance id) := by
  have hnew (c : Class) : Bounding limit (newObject (·.allocInstance id c)) := inferInstance
  unfold allocInstance
  infer_instance

instance (id : ClassId) (length : Int32) : Bounding limit (allocArray id length) := by
  unfold allocArray
  infer_instance

instance (text : String) : Bounding limit (newString text) := by
  have hnew (id : ClassId) (c : Class) : Bounding limit (newObject (·.newString id c text)) :=
    inferInstance
  unfold newString
  infer_instance

instance (text : String) : Bounding limit (intern text) := by
  have hnew (id : ClassId) (c : Class) : Bounding limit (newObject (·.intern id c text)) :=
    inferInstance
  unfold intern
  infer_instance

theorem bounding_setHeap {s : Vm} (hs : s.Bounded limit) (heap : Heap) :
    Bounding limit (set { s with heap } : Exec Unit) :=
  bounding_of_after fun _ => hs.of_same rfl rfl rfl rfl rfl rfl

instance (r : Ref) (index : Int32) (v : Value) : Bounding limit (storeElement r index v) :=
  supplies_get.bounding_bind fun hs =>
    have := bounding_setHeap hs
    inferInstance

instance (r : Ref) (declaring : ClassId) (name : String) (v : Value) :
    Bounding limit (setField r declaring name v) := by
  have hset (c : Class) : Bounding limit (do
      let vm ← get
      let heap ← ofExcept (vm.heap.setField vm.registry.classes r c name v)
      set { vm with heap } : Exec Unit) :=
    supplies_get.bounding_bind fun hs =>
      have := bounding_setHeap hs
      inferInstance
  unfold setField
  infer_instance

instance (r : Ref) : Bounding limit (classOf r) := (reads_classOf r).bounding

instance (r : Ref) : Bounding limit (classOfObject r) := (reads_classOfObject r).bounding

instance (r : Ref) (index : Int32) : Bounding limit (loadElement r index) :=
  (reads_loadElement r index).bounding

/-! ## Pool entries -/

def LegalResolved (r : Resolved) : Prop := LegalOutcome (.ok r)

theorem supplies_resolve {follow : Exec Resolved} (hfollow : Supplies limit follow LegalResolved)
    (id : ClassId) (index : UInt16) (use : PoolUse) :
    Supplies limit (resolve id index use follow) LegalResolved := by
  refine (supplies_statusAt id).bind fun {s} hs => ?_
  cases hkept : kept s index use with
  | otherUse => exact hfollow
  | outcome o =>
      refine supplies_ofExcept fun r hr => ?_
      subst hr
      exact hs _ _ (kept_outcome hkept)
  | nothing =>
      refine hfollow.attempt.bind fun {outcome} houtcome => ?_
      have hlegal : LegalOutcome outcome := fun m hm => houtcome _ hm m rfl
      have hkeep : Bounding limit (keep id index use outcome) :=
        bounding_modifyStatus id fun s hs => hs.keep index.toNat use hlegal
      exact supplies_bind (supplies_ofExcept houtcome)

theorem supplies_followClass (id : ClassId) (index : UInt16) :
    Supplies limit (followClass id index) LegalResolved := by
  refine supplies_bind (supplies_bind (supplies_bind (supplies_pure ?_)))
  rintro _ ⟨⟩

theorem supplies_followField (id : ClassId) (index : UInt16) :
    Supplies limit (followField id index) LegalResolved := by
  refine supplies_bind (supplies_bind fun {ref} => supplies_bind fun {owner} => ?_)
  refine supplies_bind fun {s} => ?_
  cases s.registry.classes.findField? ref.name ref.descriptor owner with
  | none => exact supplies_fault _
  | some f => exact supplies_pure nofun

theorem supplies_followMethod (id : ClassId) (index : UInt16) (tags : List ClassFile.Tag) :
    Supplies limit (followMethod id index tags) LegalResolved := by
  refine supplies_bind (supplies_bind fun {ref} => supplies_bind fun {owner} => ?_)
  refine supplies_bind fun {c} => ?_
  split
  · exact supplies_fault _
  · refine supplies_get.bind fun {s} hs => ?_
    cases hm : s.registry.classes.findMethod? owner ref.name ref.descriptor with
    | none => exact supplies_fault _
    | some m =>
        apply supplies_pure
        rintro _ ⟨⟩
        exact hs.coherent.legal_of_declares (Classes.declares_of_findMethod? hm)

theorem supplies_followLiteral (id : ClassId) (index : UInt16) :
    Supplies limit (followLiteral id index) LegalResolved := by
  refine supplies_bind (supplies_bind fun {constant} => ?_)
  cases constant with
  | integer | float | long | double => exact supplies_pure nofun
  | string i => exact supplies_bind (supplies_bind (supplies_pure nofun))
  | _ => exact supplies_fault _

instance (id : ClassId) (index : UInt16) : Bounding limit (resolveClass id index) :=
  (supplies_resolve (supplies_followClass id index) id index _).bounding_bind fun {r} _ => by
    cases r <;> infer_instance

instance (id : ClassId) (index : UInt16) : Bounding limit (resolveField id index) :=
  (supplies_resolve (supplies_followField id index) id index _).bounding_bind fun {r} _ => by
    cases r <;> infer_instance

instance (id : ClassId) (index : UInt16) : Bounding limit (literal id index) :=
  (supplies_resolve (supplies_followLiteral id index) id index _).bounding_bind fun {r} _ => by
    cases r <;> infer_instance

theorem supplies_method {x : Exec Resolved} (hx : Supplies limit x LegalResolved) :
    Supplies limit (do
      match ← x with
      | .method m => return m
      | _ => throw .undefined : Exec Method) Method.Legal := by
  refine hx.bind fun {r} hr => ?_
  cases r with
  | method m => exact supplies_pure (hr m rfl)
  | _ => exact supplies_throw _

theorem supplies_resolveMethod (id : ClassId) (index : UInt16) :
    Supplies limit (resolveMethod id index) Method.Legal :=
  supplies_method (supplies_resolve (supplies_followMethod id index _) id index _)

theorem supplies_resolveInterfaceMethod (id : ClassId) (index : UInt16) :
    Supplies limit (resolveInterfaceMethod id index) Method.Legal :=
  supplies_method (supplies_resolve (supplies_followMethod id index _) id index _)

instance (id : ClassId) (index : UInt16) : Bounding limit (resolveMethod id index) :=
  .of_supplies (supplies_resolveMethod id index)

instance (id : ClassId) (index : UInt16) : Bounding limit (resolveInterfaceMethod id index) :=
  .of_supplies (supplies_resolveInterfaceMethod id index)

/-! ## Arrays, fields and objects -/

instance (id : ClassId) : Bounding limit (pushArray id) := by
  unfold pushArray
  infer_instance

instance (a : Ref) (v : Value) : Bounding limit (checkElement a v) := by
  unfold checkElement
  split
  · infer_instance
  · refine supplies.bounding_bind fun {id} _ => supplies.bounding_bind fun {ac} _ => ?_
    refine supplies.bounding_bind fun {vid} _ => ?_
    cases ac.component? <;> dsimp only <;> infer_instance

instance (op : Code.ArrayOp) : Bounding limit (array op) := by
  cases op with
  | create =>
      have hnew (code : UInt8) : Bounding limit
          (match baseArrayName? code with
            | none => onFrame (.defectAt (.arrayType code.toNat))
            | some name => do pushArray (← loadClass name) : Exec Unit) := by
        cases baseArrayName? code <;> dsimp only <;> infer_instance
      unfold array
      infer_instance
  | _ =>
      unfold array
      infer_instance

instance : Bounding limit instanceField := by
  unfold instanceField
  infer_instance

instance (f : Field) (r : Ref) : Bounding limit (fieldHolder f r) := by
  refine supplies_get.bounding_bind fun {s} _ => ?_
  cases s.heap.get? r <;> dsimp only <;> infer_instance

instance (v : Value) (index : UInt16) : Bounding limit (castCheck v index) := by
  unfold castCheck
  infer_instance

instance (v : Value) (target : ClassId) : Bounding limit (isInstance v target) := by
  unfold isInstance
  infer_instance

instance (index : UInt16) : Bounding limit (pushLiteral index) := by
  unfold pushLiteral
  infer_instance

variable {prepare : ClassId → Exec Unit} [hprepare : ∀ id, Bounding limit (prepare id)]

instance : Bounding limit (staticField prepare) := by
  unfold staticField
  infer_instance

instance (op : Code.ObjectOp) : Bounding limit (object prepare op) := by
  cases op with
  | create =>
      have hcreate (id : ClassId) (c : Class) : Bounding limit (do
          if c.isAbstract || c.isArray then fault (.instantiation c.name)
          prepare id
          let r ← allocInstance id
          onFrame (.push (.ref r)) : Exec Unit) := by
        dsimp only
        infer_instance
      unfold object
      infer_instance
  | _ =>
      unfold object
      infer_instance

/-! ## Calls -/

instance : Bounding limit checkDepth := by
  unfold checkDepth
  infer_instance

theorem bounding_fault_bind (e : Fault) {g : α → Exec β} : Bounding limit (fault e >>= g) :=
  bounding_of_after id

theorem bounding_enter {m : Method} {body : ClassFile.Body} (hlegal : body.Legal) :
    Bounding limit (do
      checkDepth
      enter (.enter m body (← onFrame (.takeOperands m body))) : Exec Unit) where
  has vm hvm := by
    refine ends_bind (P := fun o b => b.Within limit (Frame.LeftBy o)) ?_
      fun _ _ hdepth => Bounding.has.error hdepth hvm
    intro _ vm₁ hdepth
    obtain ⟨rfl, hroom⟩ := checkDepth_eq_ok hdepth
    refine ends_bind (P := fun o b => b.Within limit (Frame.LeftBy o)) ?_
      fun _ _ htake => Bounding.has.error htake hvm
    intro locals vm₂ htake
    have hvm₂ : vm₂.Bounded limit := Bounding.has.ok htake hvm
    obtain ⟨f, f', below, hframes, htaken, rfl⟩ := exists_of_onFrame_ok htake
    obtain ⟨args, -, -, -, -, hbind⟩ := FrameM.takeOperands_eq_ok htaken
    refine hvm₂.enter ?_ (bounded_enter hlegal hbind) _
    rw [hframes, hvm.most] at hroom
    exact hroom

theorem bounding_call {m : Method} (hm : m.Legal) : Bounding limit (call m) := by
  unfold call
  dsimp only
  split
  · exact bounding_fault_bind _
  · cases hbody : m.body? with
    | none => infer_instance
    | some body =>
        dsimp only
        split
        · exact bounding_fault_bind _
        · exact bounding_enter (hm body hbody)

instance (m : Method) : Bounding limit (receiver m) := by
  unfold receiver
  infer_instance

instance (m : Method) : Bounding limit (checkInstanceMethod m) := by
  unfold checkInstanceMethod
  infer_instance

theorem supplies_specialTarget {m : Method} (hm : m.Legal) :
    Supplies limit (specialTarget m) Method.Legal := by
  refine supplies_bind fun {caller} => supplies_bind fun {c} => supplies_get.bind fun {s} hs => ?_
  dsimp only
  split
  · cases htarget : c.super?.bind (s.registry.classes.findMethod? · m.name m.descriptor) with
    | none => exact supplies_fault _
    | some target =>
        obtain ⟨super, -, hfound⟩ := Option.bind_eq_some_iff.mp htarget
        exact supplies_pure
          (hs.coherent.legal_of_declares (Classes.declares_of_findMethod? hfound))
  · exact supplies_pure hm

theorem bounding_setSite (site : CallSite) {cache : InlineCache ClassId Method}
    (hcache : ∀ e ∈ cache.entries, e.2.Legal) : Bounding limit (setSite site cache) :=
  bounding_of_after fun hvm =>
    ⟨⟨hvm.coherent, hvm.entries, hvm.caches.setSite hcache⟩, hvm.most, hvm.depth, hvm.current,
      hvm.callers, hvm.returning⟩

theorem supplies_selectMethod (m : Method) (v : Value) :
    Supplies limit (selectMethod m v) Method.Legal := by
  refine supplies_bind fun {rc} => supplies_bind fun {f} => supplies_get.bind fun {s} hs => ?_
  dsimp only
  generalize hlooked : (s.cacheAt ⟨f.method, f.opPc⟩).lookup rc = looked
  obtain ⟨target?, cache⟩ := looked
  have hcache : ∀ e ∈ cache.entries, e.2.Legal := by
    rw [InlineCache.entries_of_lookup hlooked]
    exact fun e he => hs.caches.cacheAt he
  have hset : Bounding limit (setSite ⟨f.method, f.opPc⟩ cache) := bounding_setSite _ hcache
  refine supplies_bind fun {_} => ?_
  cases target? with
  | some target =>
      have hentry := InlineCache.mem_of_entry? (InlineCache.entry?_of_lookup hlooked)
      exact supplies_pure (hs.caches.cacheAt hentry)
  | none =>
      refine (supplies_classAt rc).bind fun {c} hc => ?_
      cases htarget : c.vtable.lookup? m.name m.descriptor with
      | none => exact supplies_fault _
      | some target =>
          have hlegal := hc.table target (VTable.mem_of_lookup? htarget)
          have hupdate : ∀ e ∈ (cache.update rc target).entries, e.2.Legal := by
            intro e he
            rcases InlineCache.mem_update he with he | rfl
            · exact hcache e he
            · exact hlegal
          have hset : Bounding limit (setSite ⟨f.method, f.opPc⟩ (cache.update rc target)) :=
            bounding_setSite _ hupdate
          exact supplies_bind (supplies_pure hlegal)

theorem bounding_dispatch {m : Method} (hm : m.Legal) (v : Value) :
    Bounding limit (dispatch m v) := by
  unfold dispatch
  split
  · exact bounding_call hm
  · exact (supplies_selectMethod m v).bounding_bind bounding_call

instance (op : Code.InvokeOp) : Bounding limit (invoke prepare op) := by
  cases op with
  | static =>
      refine supplies.bounding_bind fun {index} _ => supplies.bounding_bind fun {owner} _ => ?_
      refine (supplies_resolveMethod owner index).bounding_bind fun {m} hm => ?_
      have hcall : Bounding limit (call m) := bounding_call hm
      dsimp only
      split
      · exact bounding_fault_bind _
      · infer_instance
  | special =>
      refine supplies.bounding_bind fun {index} _ => supplies.bounding_bind fun {owner} _ => ?_
      refine (supplies_resolveMethod owner index).bounding_bind fun {m} hm => ?_
      refine supplies.bounding_bind fun _ => ?_
      refine (supplies_specialTarget hm).bounding_bind fun {target} htarget => ?_
      have hcall : Bounding limit (call target) := bounding_call htarget
      infer_instance
  | virtual =>
      refine supplies.bounding_bind fun {index} _ => supplies.bounding_bind fun {owner} _ => ?_
      refine (supplies_resolveMethod owner index).bounding_bind fun {m} hm => ?_
      have hdispatch (v : Value) : Bounding limit (dispatch m v) := bounding_dispatch hm v
      infer_instance
  | interface =>
      refine supplies.bounding_bind fun {index} _ => supplies.bounding_bind fun _ => ?_
      refine supplies.bounding_bind fun _ => supplies.bounding_bind fun {owner} _ => ?_
      refine (supplies_resolveInterfaceMethod owner index).bounding_bind fun {m} hm => ?_
      have hdispatch (v : Value) : Bounding limit (dispatch m v) := bounding_dispatch hm v
      infer_instance
  | dynamic =>
      unfold invoke
      infer_instance

/-! ## Initialization -/

instance (f : Field) : Bounding limit (assignConstant f) := by
  unfold assignConstant
  split
  · refine supplies.bounding_bind fun {outcome} _ => ?_
    cases outcome <;> infer_instance
  · infer_instance

instance {f : α → Exec Unit} [hf : ∀ a, Bounding limit (f a)] (as : List α) :
    Bounding limit (as.forM f) :=
  ⟨has_forM bounding_trans (fun _ hvm => hvm) (fun a => (hf a).has) as⟩

theorem bounding_failing (id : ClassId) {x : Exec Unit} (hx : Bounding limit x) :
    Bounding limit (failing id x) := by
  refine supplies.bounding_bind fun {outcome} _ => ?_
  cases outcome <;> infer_instance

section

variable {runInitializer : Method → Exec Unit}

theorem bounding_initializeOwn (hrun : ∀ {m}, m.Legal → Bounding limit (runInitializer m))
    {c : Class} (hc : c.Legal) : Bounding limit (initializeOwn runInitializer c) := by
  refine supplies.bounding_bind fun _ => ?_
  cases hm : c.declaredMethod? ClassFile.initializerName "()V" with
  | none => infer_instance
  | some m =>
      have := hrun (hc.methods m (Classes.mem_of_declaredMethod? hm))
      refine supplies.bounding_bind fun _ => supplies.bounding_bind fun {outcome} _ => ?_
      cases outcome <;> infer_instance

theorem bounding_ensureInitialized (hrun : ∀ {m}, m.Legal → Bounding limit (runInitializer m))
    (id : ClassId) : Bounding limit (ensureInitialized runInitializer id) := by
  induction id using Nat.strongRecOn with
  | ind id ih =>
      rw [ensureInitialized]
      refine (supplies_classAt id).bounding_bind fun {c} hc => ?_
      refine supplies.bounding_bind fun {s} _ => ?_
      have hown := bounding_initializeOwn hrun hc
      cases s.state with
      | initialized | initializing | failed => infer_instance
      | loaded | linked =>
          refine supplies.bounding_bind fun _ => Bounding.bind ?_ fun _ => inferInstance
          apply bounding_failing
          cases c.super? with
          | none => exact hown
          | some s =>
              dsimp only
              split
              · have := ih s ‹_›
                split <;> infer_instance
              · exact hown

end

/-! ## Exceptions -/

instance (f : Frame) (thrown : ClassId) (h : ClassFile.Handler) :
    Bounding limit (accepts f thrown h) := by
  unfold accepts
  split
  · infer_instance
  · refine supplies.bounding_bind fun {outcome} _ => ?_
    cases outcome <;> infer_instance

theorem sequential_bounding : Sequential (Bounding limit) where
  pure _ := inferInstance
  bind hx hg := hx.bind hg

instance (f : Frame) (thrown : ClassId) (rows : List ClassFile.Handler) :
    Bounding limit (findHandler f thrown rows) :=
  sequential_bounding.findHandler (fun _ => inferInstance) rows

instance (base : Nat) (thrown : ClassId) (frames : List Frame) :
    Bounding limit (seekHandler base thrown frames) :=
  sequential_bounding.seekHandler base (fun _ _ => inferInstance) frames

def GoOn (limit : Nat) (frames : List Frame) : Prop :=
  frames.length ≤ limit ∧ ∀ f ∈ frames, f.Bounded

/-- The innermost frame that goes on is at one of its handlers, the others are as they were. -/
theorem supplies_seekHandler (base : Nat) (thrown : ClassId) {frames : List Frame}
    (hframes : GoOn limit frames) :
    Supplies limit (seekHandler base thrown frames)
      fun frames? => ∀ frames', frames? = some frames' → GoOn limit frames' where
  has := Bounding.has
  gives := by
    rintro vm _ vm' - h frames' rfl
    obtain ⟨f, below, row, hsuffix, -, hrow, rfl⟩ := seekHandler_handler h
    refine ⟨hsuffix.length_le.trans hframes.1, fun g hg => ?_⟩
    rcases List.mem_cons.mp hg with rfl | hg
    · exact (hframes.2 f (hsuffix.subset List.mem_cons_self)).handling hrow
    · exact hframes.2 g (hsuffix.subset (List.mem_cons_of_mem f hg))

instance (r : Ref) : Bounding limit (recordTrace r) := by
  refine bounding_of_same fun vm => ?_
  obtain ⟨traces, h⟩ := recordTrace_apply r vm
  rw [after_ok h]
  exact ⟨rfl, rfl, rfl, rfl, rfl, rfl⟩

instance (r : Ref) : Bounding limit (throwableMessage r) :=
  (looks_throwableMessage r).reads.bounding

instance (r : Ref) : Bounding limit (traceOf r) := (looks_traceOf r).reads.bounding

instance (base : Nat) (r : Ref) : Bounding limit (unwind base r) := by
  refine supplies.bounding_bind fun _ => supplies.bounding_bind fun {id} _ => ?_
  refine supplies_get.bounding_bind fun {s} hs => ?_
  refine (supplies_seekHandler base id ⟨hs.depth, hs.frames⟩).bounding_bind fun {frames?} h => ?_
  cases frames? with
  | none => infer_instance
  | some frames =>
      obtain ⟨hdepth, hframes⟩ := h frames rfl
      have hresume : Bounding limit (modify ({ · with frames }) : Exec Unit) :=
        bounding_of_after fun hvm => hvm.bounded_of_frames hdepth hframes
      infer_instance

instance (className message : String) :
    Bounding limit (newThrowable prepare className message) := by
  unfold newThrowable
  infer_instance

instance (base : Nat) (e : Fault) : Bounding limit (raiseFault prepare base e) := by
  unfold raiseFault
  cases e.guestException? with
  | none => infer_instance
  | some exception =>
      refine supplies.bounding_bind fun {outcome} _ => ?_
      cases outcome <;> infer_instance

/-- A machine that a frame was left on is within its bounds, but for the result that is on its
way. -/
theorem finish_has {vm : Vm} (hvm : { vm with returning := false }.Bounded limit) (base : Nat) :
    (after (finish base) vm).Within limit (Frame.LeftBy (stop? (finish base) vm)) := by
  have hrest : Bounding limit (do
      let vm ← get
      if vm.frames.length = base then return some vm.result
      if vm.hasResult then onFrame (.push vm.result)
      return none : Exec (Option Value)) := by infer_instance
  exact ends_of_eq (P := fun o b => b.Within limit (Frame.LeftBy o))
    (bind_of_ok (rfl : clearReturn vm = .ok () { vm with returning := false })) (hrest.has _ hvm)

end Exec

end ClassEngine.Machine
