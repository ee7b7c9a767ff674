import ClassEngine.Proofs.Machine.FatalFaults
import ClassEngine.Proofs.Machine.FrameInvariants
import ClassEngine.Proofs.Machine.HeapLaw

/-!
# Operations that spare the guest

Most of what an instruction does before it writes its result cannot be seen by the guest: it takes
operands, follows pool entries, loads classes, allocates objects and begins initializations.  Such
an operation spares the variables, the objects and the static fields, however it ends.  Only an
initialization assigns something, the constant fields of its class.
-/

namespace ClassEngine.Machine

/-! ## What is spared -/

/-- The same activation with the same local variables. -/
structure Frame.Keeps (f f' : Frame) : Prop extends f.Continues f' where
  locals : f'.locals = f.locals

theorem Frame.Keeps.refl (f : Frame) : f.Keeps f := ⟨.refl f, rfl⟩

theorem Frame.Keeps.trans {f f' f'' : Frame} (h : f.Keeps f') (h' : f'.Keeps f'') : f.Keeps f'' :=
  ⟨h.toContinues.trans h'.toContinues, h'.locals.trans h.locals⟩

/-- No frame has come or gone; the current one may have moved on and lost operands. -/
inductive KeepsFrames : List Frame → List Frame → Prop
  | none : KeepsFrames [] []
  | current {f f' : Frame} (below : List Frame) (h : f.Keeps f') :
      KeepsFrames (f :: below) (f' :: below)

theorem KeepsFrames.refl (frames : List Frame) : KeepsFrames frames frames := by
  cases frames with
  | nil => exact .none
  | cons f below => exact .current below (.refl f)

theorem KeepsFrames.trans {frames frames' frames'' : List Frame} (h : KeepsFrames frames frames')
    (h' : KeepsFrames frames' frames'') : KeepsFrames frames frames'' := by
  cases h with
  | none => exact h'
  | current below h =>
      cases h' with
      | current _ h' => exact .current below (h.trans h')

/-- Initialization gives the field a constant as its value. -/
def Field.IsConstant (f : Field) : Prop := f.isStatic = true ∧ f.constantIndex ≠ 0

/-- The later machine has the frames, the objects and the static fields of the earlier one,
except that constant fields among `may` may have been assigned. -/
structure Vm.Spares (may : Field → Prop) (a b : Vm) : Prop where
  source : b.source = a.source
  maxFrames : b.maxFrames = a.maxFrames
  traces : b.traces = a.traces
  profiler? : b.profiler? = a.profiler?
  frames : KeepsFrames a.frames b.frames
  objects : ∀ {r : Ref} {o : Object}, a.heap.get? r = some o → b.heap.get? r = some o
  interned : a.heap.interned <:+ b.heap.interned
  classes : ∀ {id : ClassId} {c : Class}, a.registry.classes[id]? = some c →
    b.registry.classes[id]? = some c
  statics : ∀ {id : ClassId} {s : ClassStatus}, a.registry.status? id = some s →
    ∃ s', b.registry.status? id = some s' ∧ ∀ slot, s'.statics[slot]? = s.statics[slot]? ∨
      ∃ f, may f ∧ f.IsConstant ∧ f.id.owner = id ∧ f.slot = slot

namespace Vm.Spares

variable {may may' : Field → Prop} {a b c : Vm}

theorem refl (may : Field → Prop) (vm : Vm) : vm.Spares may vm where
  source := rfl
  maxFrames := rfl
  traces := rfl
  profiler? := rfl
  frames := .refl _
  objects h := h
  interned := List.suffix_rfl
  classes h := h
  statics hs := ⟨_, hs, fun _ => .inl rfl⟩

theorem mono (h : a.Spares may b) (hmay : ∀ f, may f → may' f) : a.Spares may' b where
  source := h.source
  maxFrames := h.maxFrames
  traces := h.traces
  profiler? := h.profiler?
  frames := h.frames
  objects := h.objects
  interned := h.interned
  classes := h.classes
  statics hs := by
    obtain ⟨s', hs', hslots⟩ := h.statics hs
    exact ⟨s', hs', fun slot => (hslots slot).imp_right fun ⟨f, hf, hrest⟩ => ⟨f, hmay f hf, hrest⟩⟩

theorem trans (h : a.Spares may b) (h' : b.Spares may c) : a.Spares may c where
  source := h'.source.trans h.source
  maxFrames := h'.maxFrames.trans h.maxFrames
  traces := h'.traces.trans h.traces
  profiler? := h'.profiler?.trans h.profiler?
  frames := h.frames.trans h'.frames
  objects ho := h'.objects (h.objects ho)
  interned := h.interned.trans h'.interned
  classes hc := h'.classes (h.classes hc)
  statics hs := by
    obtain ⟨s₁, hs₁, hslots₁⟩ := h.statics hs
    obtain ⟨s₂, hs₂, hslots₂⟩ := h'.statics hs₁
    refine ⟨s₂, hs₂, fun slot => ?_⟩
    obtain heq₂ | hconstant := hslots₂ slot
    · obtain heq₁ | hconstant := hslots₁ slot
      · exact .inl (heq₂.trans heq₁)
      · exact .inr hconstant
    · exact .inr hconstant

theorem aside (sites : List (CallSite × InlineCache ClassId Method)) (journal : List Event) :
    a.Spares may { a with sites, journal } :=
  { refl may a with }

theorem heap {heap : Heap} (objects : ∀ {r o}, a.heap.get? r = some o → heap.get? r = some o)
    (interned : a.heap.interned <:+ heap.interned) : a.Spares may { a with heap } :=
  { refl may a with objects, interned }

theorem registry {reg : Registry} (h : a.registry.Extends reg) :
    a.Spares may { a with registry := reg } :=
  { refl may a with
    classes := h.classes
    statics := fun hs => ⟨_, h.statuses hs, fun _ => .inl rfl⟩ }

theorem setFrames {frames : List Frame} (h : KeepsFrames a.frames frames) :
    a.Spares may { a with frames } :=
  { refl may a with frames := h }

theorem modifyStatus (id : ClassId) {f : ClassStatus → ClassStatus}
    (hf : ∀ (s : ClassStatus) slot, (f s).statics[slot]? = s.statics[slot]? ∨
      ∃ field, may field ∧ field.IsConstant ∧ field.id.owner = id ∧ field.slot = slot) :
    a.Spares may { a with registry := a.registry.modifyStatus id f } :=
  { refl may a with
    statics := by
      intro id' s hs
      dsimp only
      rw [Registry.status?_modifyStatus]
      split
      · rename_i hid
        subst hid
        exact ⟨f s, by rw [hs]; rfl, hf s⟩
      · exact ⟨s, hs, fun _ => .inl rfl⟩ }

end Vm.Spares

namespace Heap

variable {h : Heap} {r : Ref} {o : Object}

theorem get?_alloc (h : Heap) (o' : Object) (hr : h.get? r = some o) :
    (h.alloc o').2.get? r = some o := by
  unfold get? at hr ⊢
  split at hr
  · cases hr
  · rename_i hnull
    have hlt := (Array.getElem?_eq_some_iff.mp hr).1
    rw [if_neg hnull, getElem?_alloc, if_neg (Nat.ne_of_lt hlt), hr]

theorem get?_intern (h : Heap) (id : ClassId) (c : Class) (text : String)
    (hr : h.get? r = some o) : (h.intern id c text).2.get? r = some o := by
  obtain ⟨r', -, heq⟩ | ⟨r', h', hnew, heq⟩ := intern_cases h id c text
  · rw [heq]
    exact hr
  · rw [heq]
    cases hnew
    exact get?_alloc h _ hr

theorem interned_intern (h : Heap) (id : ClassId) (c : Class) (text : String) :
    h.interned <:+ (h.intern id c text).2.interned := by
  obtain ⟨r', -, heq⟩ | ⟨r', h', hnew, heq⟩ := intern_cases h id c text
  · simp only [heq, List.suffix_rfl]
  · rw [heq]
    cases hnew
    exact List.suffix_cons _ _

theorem exists_of_allocArray_eq_ok {id : ClassId} {c : Class} {length : Int32} {p : Ref × Heap}
    (hp : h.allocArray id c length = .ok p) : ∃ o', p = h.alloc o' := by
  unfold allocArray at hp
  split at hp
  · cases hp
  · cases hp
    exact ⟨_, rfl⟩

end Heap

/-! ## Work on the current frame -/

namespace FrameM

variable {α : Type} {f : Frame}

theorem keeps_of_locals {x : FrameM α} [Atomic x]
    (h : ∀ {f₁ a f₂}, x f₁ = .ok a f₂ →
      f₂.method = f₁.method ∧ f₂.body = f₁.body ∧ f₂.locals = f₁.locals) : Keeps f.Keeps x :=
  .of_ok fun hf hok => by
    obtain ⟨hmethod, hbody, hlocals⟩ := h hok
    exact hf.trans ⟨⟨hmethod, hbody⟩, hlocals⟩

theorem keeps_forM_push (vs : List Value) : Keeps f.Keeps (vs.forM push) := by
  induction vs with
  | nil => exact inferInstanceAs (Keeps _ (pure ()))
  | cons v vs ih =>
      have hpush : Keeps f.Keeps (push v) := keeps_of_locals fun h => by
        obtain ⟨-, rfl⟩ := push_eq_ok h
        exact ⟨rfl, rfl, rfl⟩
      exact inferInstanceAs (Keeps _ (push v >>= fun _ => vs.forM push))

instance : Placeless f.Keeps where
  push v := keeps_of_locals fun h => by
    obtain ⟨-, rfl⟩ := push_eq_ok h
    exact ⟨rfl, rfl, rfl⟩
  pop := keeps_of_locals fun h => by
    obtain ⟨rest, -, rfl⟩ := pop_eq_ok h
    exact ⟨rfl, rfl, rfl⟩
  peek depth := .of_ok fun hf h => (peek_eq_ok h).2 ▸ hf
  dropSlots count := keeps_of_locals fun h => by
    obtain ⟨n, rfl⟩ := dropSlots_eq_ok h
    exact ⟨rfl, rfl, rfl⟩
  dup count skip := by
    have hentries (stack : List Value) (slots : Nat) : Keeps f.Keeps (entriesFor stack slots) :=
      .of_ok fun hf h => (entriesFor_eq_ok h).2 ▸ hf
    have hroom := keeps_forM_push (f := f)
    have hcopy (depth : Nat) (vs : List Value) : Keeps f.Keeps (overwrite depth vs) :=
      ⟨fun hf => hf.trans ⟨⟨rfl, rfl⟩, rfl⟩⟩
    unfold dup
    infer_instance
  getLocal slot := .of_ok fun hf h => (getLocal_eq_ok h).2 ▸ hf
  fetch width value? _ := keeps_of_locals fun h => by
    obtain ⟨-, rfl⟩ := fetch_eq_ok h
    exact ⟨rfl, rfl, rfl⟩
  place g := keeps_of_locals fun h => by
    cases h
    exact ⟨rfl, rfl, rfl⟩
  branch offset := keeps_of_locals fun h => by
    obtain ⟨-, -, rfl⟩ := branch_eq_ok h
    exact ⟨rfl, rfl, rfl⟩

instance : Keeps f.Keeps beginInstruction :=
  ⟨fun hf => hf.trans ⟨⟨rfl, rfl⟩, rfl⟩⟩

instance (m : Method) (body : ClassFile.Body) : Keeps f.Keeps (takeOperands m body) :=
  keeps_of_locals fun h => by
    obtain ⟨args, rest, -, -, rfl, -⟩ := takeOperands_eq_ok h
    exact ⟨rfl, rfl, rfl⟩

end FrameM

/-! ## Operations -/

/-- The field is declared by a class whose initialization the events tell of. -/
def Vm.Begun (vm : Vm) (events : List Event) (f : Field) : Prop :=
  ∃ id c, .moved id .initializing ∈ events ∧ vm.registry.classes[id]? = some c ∧ f ∈ c.fields

/-- Unless a static initializer has started, the guest is spared but for constant fields: the
`extra` ones, and those of classes whose initialization has begun. -/
def sparing (extra : Field → Prop) : Effect := fun a _ b =>
  ∃ events, b.journal = events ++ a.journal ∧ ((∀ m, .running m ∉ events) →
    a.Spares (fun f => extra f ∨ b.Begun events f) b)

section

variable {extra : Field → Prop} {a b c : Vm} {o o' : Option Stop}

theorem sparing_of_spares (hjournal : b.journal = a.journal) (h : a.Spares extra b) :
    sparing extra a o b :=
  ⟨[], hjournal, fun _ => h.mono fun _ => .inl⟩

theorem sparing_mono {extra' : Field → Prop} (h : sparing extra a o b)
    (hextra : ∀ f, extra f → extra' f) : sparing extra' a o b := by
  obtain ⟨events, hjournal, hspares⟩ := h
  exact ⟨events, hjournal, fun hquiet => (hspares hquiet).mono fun f => .imp_left (hextra f)⟩

theorem sparing_trans (h : sparing extra a o b) (h' : sparing extra b o' c) :
    sparing extra a o' c := by
  obtain ⟨earlier, hb, hearlier⟩ := h
  obtain ⟨later, hc, hlater⟩ := h'
  refine ⟨later ++ earlier, by rw [hc, hb, List.append_assoc], fun hquiet => ?_⟩
  have hab := hearlier fun m hm => hquiet m (List.mem_append_right _ hm)
  have hbc := hlater fun m hm => hquiet m (List.mem_append_left _ hm)
  have hbefore (f : Field) : b.Begun earlier f → c.Begun (later ++ earlier) f :=
    fun ⟨id, k, hmoved, hk, hf⟩ =>
      ⟨id, k, List.mem_append_right _ hmoved, hbc.classes hk, hf⟩
  have hafter (f : Field) : c.Begun later f → c.Begun (later ++ earlier) f :=
    fun ⟨id, k, hmoved, hk, hf⟩ => ⟨id, k, List.mem_append_left _ hmoved, hk, hf⟩
  exact (hab.mono fun f => .imp_right (hbefore f)).trans (hbc.mono fun f => .imp_right (hafter f))

end

namespace Exec

variable {α β : Type}

class Sparing (x : Exec α) : Prop where
  spares : Has (sparing fun _ => False) x

theorem sparing_bind {extra : Field → Prop} {x : Exec α} {g : α → Exec β}
    (hx : Has (sparing extra) x) (hg : ∀ a, Has (sparing extra) (g a)) :
    Has (sparing extra) (x >>= g) :=
  Has.bind_of_trans sparing_trans hx hg

theorem Sparing.has {x : Exec α} [hx : Sparing x] (extra : Field → Prop) : Has (sparing extra) x :=
  fun vm => sparing_mono (hx.spares vm) fun _ => False.elim

theorem sparing_of_after {x : Exec α} (hjournal : ∀ vm, (after x vm).journal = vm.journal)
    (h : ∀ vm : Vm, vm.Spares (fun _ => False) (after x vm)) : Sparing x :=
  ⟨fun vm => sparing_of_spares (hjournal vm) (h vm)⟩

theorem Reads.sparing {x : Exec α} (hx : Reads x) : Sparing x := by
  apply sparing_of_after
  · intro vm
    rw [(hx vm).1]
  · intro vm
    rw [(hx vm).1]
    exact .refl _ vm

instance (a : α) : Sparing (pure a : Exec α) := (reads_pure a).sparing

instance (stop : Stop) : Sparing (throw stop : Exec α) :=
  sparing_of_after (fun _ => rfl) fun vm => .refl _ vm

instance (e : Fault) : Sparing (fault e : Exec α) :=
  sparing_of_after (fun _ => rfl) fun vm => .refl _ vm

instance : Sparing (get : Exec Vm) := reads_get.sparing

theorem Sparing.bind {x : Exec α} {g : α → Exec β} [hx : Sparing x]
    (hg : ∀ a, Sparing (g a)) : Sparing (x >>= g) :=
  ⟨sparing_bind hx.spares fun a => (hg a).spares⟩

instance {x : Exec α} {g : α → Exec β} [Sparing x] [∀ a, Sparing (g a)] : Sparing (x >>= g) :=
  .bind inferInstance

instance {c : Prop} [Decidable c] {x y : Exec α} [hx : Sparing x] [hy : Sparing y] :
    Sparing (if c then x else y) := by
  split
  · exact hx
  · exact hy

theorem sparing_attempt {extra : Field → Prop} {x : Exec α} (hx : Has (sparing extra) x) :
    Has (sparing extra) (attempt x) :=
  (Has.attempt hx fun h => h).of_faultless

instance {x : Exec α} [hx : Sparing x] : Sparing (attempt x) := ⟨sparing_attempt hx.spares⟩

instance (e : Except Fault α) : Sparing (ofExcept e) := by
  cases e <;> unfold ofExcept <;> infer_instance

instance (e : Except (Fault ⊕ Defect) α) : Sparing (ofChecked e) := by
  unfold ofChecked
  split <;> infer_instance

instance (e : Except ClassFile.PoolError α) : Sparing (entry e) := by
  cases e <;> unfold entry <;> infer_instance

instance (x : FrameM α) [hx : ∀ f : Frame, x.Keeps f.Keeps] : Sparing (onFrame x) where
  spares vm := by
    cases hframes : vm.frames with
    | nil =>
        rw [after_error (onFrame_of_idle x hframes)]
        exact sparing_of_spares rfl (.refl _ vm)
    | cons f below =>
        have hkeeps : KeepsFrames vm.frames (x.after f :: below) :=
          hframes ▸ .current below ((hx f).keeps (.refl f))
        rw [after_onFrame x hframes]
        exact sparing_of_spares rfl (.setFrames hkeeps)

instance : Sparing currentFrame := reads_currentFrame.sparing

instance : Sparing currentClass := by
  unfold currentClass
  infer_instance

instance (text : String) : Sparing (unsupported text : Exec α) := by
  unfold unsupported
  infer_instance

instance (e : Event) : Sparing (note e) where
  spares vm := ⟨[e], rfl, fun _ => .aside vm.sites (e :: vm.journal)⟩

instance (site : CallSite) (cache : InlineCache ClassId Method) : Sparing (setSite site cache) :=
  sparing_of_after (fun _ => rfl) fun vm => .aside _ vm.journal

/-! ## Classes -/

instance (id : ClassId) : Sparing (classAt id) := (reads_classAt id).sparing

instance (id : ClassId) : Sparing (statusAt id) := (reads_statusAt id).sparing

instance (name : String) : Sparing (loadClass name) := by
  refine sparing_of_after (fun vm => ?_) fun vm => ?_
  · rw [after_loadClass]
  · rw [after_loadClass]
    exact .registry (Registry.load_loads vm.source [] name vm.registry).nested.extension

instance (id : ClassId) : Sparing (arrayOf id) := by
  unfold arrayOf
  infer_instance

theorem sparing_modifyStatus (id : ClassId) {f : ClassStatus → ClassStatus}
    (hf : ∀ s : ClassStatus, (f s).statics = s.statics) : Sparing (modifyStatus id f) :=
  sparing_of_after (fun _ => rfl) fun _ => .modifyStatus id fun s slot => .inl (by rw [hf])

instance (id : ClassId) (state : ClassState) : Sparing (setState id state) := by
  have hmove := sparing_modifyStatus id (f := fun s => { s with state }) fun _ => rfl
  unfold setState
  infer_instance

instance (f : Field) : Sparing (getStaticSlot f) := (reads_getStaticSlot f).sparing

/-! ## Objects -/

theorem sparing_modifyHeap {f : Vm → α × Heap}
    (objects : ∀ (vm : Vm) {r o}, vm.heap.get? r = some o → (f vm).2.get? r = some o)
    (interned : ∀ vm : Vm, vm.heap.interned <:+ (f vm).2.interned) :
    Sparing (modifyGet fun vm => ((f vm).1, { vm with heap := (f vm).2 }) : Exec α) :=
  sparing_of_after (fun _ => rfl) fun vm => .heap (objects vm) (interned vm)

instance (id : ClassId) : Sparing (allocInstance id) := by
  have halloc (c : Class) : Sparing (modifyGet fun vm =>
      let (r, heap) := vm.heap.allocInstance id c
      (r, { vm with heap }) : Exec Ref) :=
    sparing_modifyHeap (fun vm _ _ => vm.heap.get?_alloc _) fun _ => List.suffix_rfl
  unfold allocInstance
  infer_instance

instance (text : String) : Sparing (intern text) := by
  have hintern (id : ClassId) (c : Class) : Sparing (modifyGet fun vm =>
      let (r, heap) := vm.heap.intern id c text
      (r, { vm with heap }) : Exec Ref) :=
    sparing_modifyHeap (fun vm _ _ => vm.heap.get?_intern id c text)
      fun vm => vm.heap.interned_intern id c text
  unfold intern
  infer_instance

instance (id : ClassId) (length : Int32) : Sparing (allocArray id length) := by
  have halloc (c : Class) : Sparing (do
      let (r, heap) ← ofExcept ((← get).heap.allocArray id c length)
      modify ({ · with heap })
      return r : Exec Ref) := by
    refine ⟨fun vm => ?_⟩
    cases h : vm.heap.allocArray id c length with
    | error e =>
        simp only [stop?, after, bind_apply, get_apply, h]
        exact sparing_of_spares rfl (.refl _ vm)
    | ok p =>
        obtain ⟨o, rfl⟩ := Heap.exists_of_allocArray_eq_ok h
        simp only [stop?, after, bind_apply, get_apply, h]
        exact sparing_of_spares rfl (.heap (vm.heap.get?_alloc o) List.suffix_rfl)
  unfold allocArray
  infer_instance

instance (r : Ref) : Sparing (classOf r) := (reads_classOf r).sparing

instance (r : Ref) : Sparing (classOfObject r) := (reads_classOfObject r).sparing

instance (r : Ref) (index : Int32) : Sparing (loadElement r index) :=
  (reads_loadElement r index).sparing

/-! ## Pool entries -/

instance (id : ClassId) (index : UInt16) (use : PoolUse) (outcome : Except Fault Resolved) :
    Sparing (keep id index use outcome) :=
  sparing_modifyStatus id fun _ => rfl

instance (id : ClassId) (index : UInt16) (use : PoolUse) (follow : Exec Resolved)
    [Sparing follow] : Sparing (resolve id index use follow) := by
  refine .bind fun s => ?_
  cases kept s index use <;> dsimp only <;> infer_instance

instance (id : ClassId) (index : UInt16) : Sparing (followClass id index) := by
  unfold followClass
  infer_instance

instance (id : ClassId) (index : UInt16) : Sparing (followField id index) := by
  refine .bind fun c => .bind fun ref => .bind fun owner => .bind fun vm => ?_
  cases vm.registry.classes.findField? ref.name ref.descriptor owner <;> infer_instance

instance (id : ClassId) (index : UInt16) (tags : List ClassFile.Tag) :
    Sparing (followMethod id index tags) := by
  refine .bind fun c => .bind fun ref => .bind fun owner => .bind fun _ => ?_
  split
  · infer_instance
  · refine .bind fun vm => ?_
    cases vm.registry.classes.findMethod? owner ref.name ref.descriptor <;> infer_instance

instance (id : ClassId) (index : UInt16) : Sparing (followLiteral id index) := by
  refine .bind fun c => .bind fun entry => ?_
  cases entry <;> dsimp only <;> infer_instance

instance (id : ClassId) (index : UInt16) : Sparing (resolveClass id index) := by
  refine .bind fun r => ?_
  cases r <;> dsimp only <;> infer_instance

instance (id : ClassId) (index : UInt16) : Sparing (resolveField id index) := by
  refine .bind fun r => ?_
  cases r <;> dsimp only <;> infer_instance

instance (id : ClassId) (index : UInt16) : Sparing (resolveMethod id index) := by
  refine .bind fun r => ?_
  cases r <;> dsimp only <;> infer_instance

instance (id : ClassId) (index : UInt16) : Sparing (resolveInterfaceMethod id index) := by
  refine .bind fun r => ?_
  cases r <;> dsimp only <;> infer_instance

instance (id : ClassId) (index : UInt16) : Sparing (literal id index) := by
  refine .bind fun r => ?_
  cases r <;> dsimp only <;> infer_instance

/-! ## Initialization -/

def lengthens : Effect := fun a _ b => a.journal <:+ b.journal

theorem sparing_assignConstant {extra : Field → Prop} {f : Field} (hf : extra f) :
    Has (sparing extra) (assignConstant f) := by
  unfold assignConstant
  split
  · rename_i hconstant
    have hconstant : f.isStatic = true ∧ f.constantIndex ≠ 0 := by
      simpa only [Bool.and_eq_true, decide_eq_true_eq] using hconstant
    have hassign (v : Value) : Has (sparing extra) (setStaticSlot f v) := by
      refine fun vm => sparing_of_spares rfl (.modifyStatus f.id.owner fun s slot => ?_)
      dsimp only
      rw [Array.getElem?_setIfInBounds]
      by_cases hslot : f.slot = slot
      · exact .inr ⟨f, hf, hconstant, rfl, hslot⟩
      · exact .inl (if_neg hslot)
    refine sparing_bind (Sparing.has _) fun outcome => ?_
    cases outcome with
    | ok v => exact hassign v
    | error cause => exact Sparing.has _
  · exact Sparing.has _

theorem sparing_forM_assignConstant {extra : Field → Prop} {fs : List Field}
    (hfs : ∀ f ∈ fs, extra f) : Has (sparing extra) (fs.forM assignConstant) := by
  induction fs with
  | nil => exact Sparing.has (x := pure ()) extra
  | cons f fs ih =>
      exact sparing_bind (sparing_assignConstant (hfs f List.mem_cons_self)) fun _ =>
        ih fun g hg => hfs g (List.mem_cons_of_mem f hg)

theorem sparing_of_running {extra : Field → Prop} {m : MethodId} {a b : Vm} {o : Option Stop}
    (h : .running m :: a.journal <:+ b.journal) : sparing extra a o b := by
  obtain ⟨events, h⟩ := h
  refine ⟨events ++ [.running m], by rw [← h, List.append_assoc]; rfl, fun hquiet => ?_⟩
  exact absurd (List.mem_append_right _ (List.mem_singleton_self _)) (hquiet m)

variable {runInitializer : Method → Exec Unit}

theorem sparing_initializeOwn (hrun : ∀ m, Has lengthens (runInitializer m)) (c : Class) :
    Has (sparing (· ∈ c.fields)) (initializeOwn runInitializer c) := by
  refine sparing_bind (sparing_forM_assignConstant fun _ hf => hf) fun _ => ?_
  cases c.declaredMethod? ClassFile.initializerName "()V" with
  | none => exact Sparing.has _
  | some m =>
      intro vm
      have hnote : note (.running m.id) vm =
          .ok () { vm with journal := .running m.id :: vm.journal } := rfl
      refine ends_of_eq (P := sparing _ vm) (bind_of_ok hnote)
        (sparing_of_running (m := m.id) ?_)
      refine Has.bind_of_trans (K := lengthens) List.IsSuffix.trans
        (Has.attempt (hrun m) fun h => h).of_faultless (fun outcome => ?_)
        { vm with journal := .running m.id :: vm.journal }
      cases outcome <;> exact fun vm => List.suffix_rfl

theorem sparing_failing {extra : Field → Prop} (id : ClassId) {x : Exec Unit}
    (hx : Has (sparing extra) x) : Has (sparing extra) (failing id x) := by
  refine sparing_bind (sparing_attempt hx) fun outcome => ?_
  cases outcome with
  | ok u => exact Sparing.has _
  | error e => exact sparing_bind (Sparing.has _) fun _ => Sparing.has _

/-- What is done after the initialization of a class has begun may assign its constants. -/
theorem sparing_of_moved {id : ClassId} {c : Class} {a b : Vm} {o : Option Stop}
    (hc : a.registry.classes[id]? = some c)
    (h : sparing (· ∈ c.fields) (after (setState id .initializing) a) o b) :
    sparing (fun _ => False) a o b := by
  obtain ⟨events, hb, hspares⟩ := h
  refine ⟨events ++ [.moved id .initializing], by rw [hb, List.append_assoc]; rfl, fun hquiet => ?_⟩
  have hmove {may : Field → Prop} : a.Spares may { a with
      registry := a.registry.modifyStatus id fun s => { s with state := .initializing } } :=
    .modifyStatus id fun s slot => .inl rfl
  have hbegin {may : Field → Prop} : a.Spares may (after (setState id .initializing) a) :=
    hmove.trans (.aside a.sites (.moved id .initializing :: a.journal))
  have hrest := hspares fun m hm => hquiet m (List.mem_append_left _ hm)
  have hclass : b.registry.classes[id]? = some c := hrest.classes hc
  refine hbegin.trans (hrest.mono fun f hf => .inr ?_)
  obtain hf | ⟨id', c', hmoved, hc', hf⟩ := hf
  · exact ⟨id, c, List.mem_append_right _ (List.mem_singleton_self _), hclass, hf⟩
  · exact ⟨id', c', List.mem_append_left _ hmoved, hc', hf⟩

theorem sparing_ensureInitialized (hrun : ∀ m, Has lengthens (runInitializer m)) (id : ClassId) :
    Sparing (ensureInitialized runInitializer id) := by
  induction id using Nat.strongRecOn with
  | ind id ih =>
      refine ⟨fun vm => ?_⟩
      rw [ensureInitialized]
      refine ends_bind (P := sparing _ vm) (fun c vm₁ hclass => ?_)
        fun stop vm' h => (Sparing.spares (x := classAt id)).error h
      obtain ⟨hc, rfl⟩ := classAt_eq_ok hclass
      refine ends_bind (P := sparing _ vm₁) (fun s vm₂ hstatus => ?_)
        fun stop vm' h => (Sparing.spares (x := statusAt id)).error h
      obtain ⟨-, rfl⟩ := statusAt_eq_ok hstatus
      have hown := sparing_initializeOwn hrun c
      cases s.state with
      | initialized | initializing => exact Sparing.spares (x := pure ()) vm₂
      | failed => exact Sparing.spares (x := fault _) vm₂
      | loaded | linked =>
          refine ends_of_eq (P := sparing _ vm₂) (bind_of_ok (setState_apply id _ vm₂)) ?_
          have hdone : Has (sparing (· ∈ c.fields)) (setState id .initialized) := Sparing.has _
          refine sparing_of_moved hc (sparing_bind (sparing_failing id ?_) (fun _ => hdone) _)
          cases c.super? with
          | none => exact hown
          | some s =>
              dsimp only
              split
              · split
                · rename_i hlt _
                  have hsuper := ih s hlt
                  exact sparing_bind (Sparing.has _) fun _ => hown
                · exact hown
              · exact hown

instance (fuel : Nat) (id : ClassId) : Sparing (initializeBy (run fuel) id) := by
  refine sparing_ensureInitialized (fun m vm => ?_) id
  have hexecute : Has hidesFatal (executeBy (run fuel) m []) :=
    has_executeBy working_hidesFatal
      (has_run running_hidesFatal (has_ensureInitialized initializing_hidesFatal) fuel)
      (runStops_run fuel) m []
  obtain ⟨events, hjournal, -⟩ := has_discard steady_hidesFatal hexecute vm
  exact ⟨events, hjournal.symm⟩

end Exec

end ClassEngine.Machine
