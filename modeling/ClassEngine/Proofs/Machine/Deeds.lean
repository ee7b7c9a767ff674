import ClassEngine.Proofs.Machine.Advancing
import ClassEngine.Proofs.Machine.HeapLaw
import ClassEngine.Proofs.Machine.KeptEntries
import ClassEngine.Proofs.Machine.LegalCode

/-!
# Single deeds

All that a machine does to its registry and its heap are single deeds: loading a class, entering
a literal into the table, changing other objects, keeping the outcome of a pool entry, and moving
the state or the static fields of a class.  So what every deed keeps is kept by whatever the
machine does, inside an instruction and between the calls of a host.  A fine deed also tells what
it does to the other objects: one is allocated, or an element or a field of one is assigned; and a
reference that it keeps for a pool entry is the object of the literal that the entry holds.
-/

namespace ClassEngine.Machine

/-- The method that is an outcome is declared by one of the classes. -/
def Classes.Finds (cs : Classes) (outcome : Except Fault Resolved) : Prop :=
  ∀ m, outcome = .ok (.method m) → cs.Declares m

inductive Deed : Vm → Vm → Prop
  | aside {a b : Vm} (source : b.source = a.source) (registry : b.registry = a.registry)
      (heap : b.heap = a.heap) : Deed a b
  | objects (vm : Vm) {heap : Heap} (interned : heap.interned = vm.heap.interned) :
      Deed vm { vm with heap }
  | intern (vm : Vm) (id : ClassId) (c : Class) (text : String) :
      Deed vm { vm with heap := (vm.heap.intern id c text).2 }
  | load (vm : Vm) (name : String) :
      Deed vm { vm with registry := (load vm.source [] name vm.registry).2 }
  | status (vm : Vm) (id : ClassId) {f : ClassStatus → ClassStatus}
      (resolutions : ∀ s : ClassStatus, (f s).resolutions = s.resolutions) :
      Deed vm { vm with registry := vm.registry.modifyStatus id f }
  | keep (vm : Vm) (id : ClassId) (index : UInt16) (r : Resolution)
      (unresolved : vm.registry.Unresolved id index) (sound : r.Sound vm.registry)
      (found : vm.registry.classes.Finds r.outcome) :
      Deed vm { vm with
        registry := vm.registry.modifyStatus id fun s =>
          { s with resolutions := s.resolutions.setIfInBounds index.toNat (some r) } }

abbrev Deeds : Vm → Vm → Prop := Relation.ReflTransGen Deed

structure Write where
  ref : Ref
  index : Int32
  value : Value
  deriving DecidableEq, Repr

/-- What a single deed does to the heap, and what it stores as an element. -/
inductive Heap.Step (cs : Classes) (h : Heap) : Option Write → Heap → Prop
  | still : Step cs h none h
  | allocate (id : ClassId) (c : Class) (text : String) :
      Step cs h none (h.newString id c text).2
  | allocateArray {id : ClassId} {c : Class} (hc : cs[id]? = some c) {length : Int32} {r : Ref}
      {h' : Heap} (hok : h.allocArray id c length = .ok (r, h')) : Step cs h none h'
  | intern (id : ClassId) (c : Class) (text : String) : Step cs h none (h.intern id c text).2
  | store {w : Write} {h' : Heap} (hok : h.store cs w.ref w.index w.value = .ok h') :
      Step cs h (some w) h'
  | assign (r : Ref) (slot : Nat) (v : Value) :
      Step cs h none (h.modify r fun o => { o with fields := o.fields.setIfInBounds slot v })

structure FineDeed (a b : Vm) : Prop where
  deed : Deed a b
  heap : ∃ w?, a.heap.Step a.registry.classes w? b.heap
  literals : a.Literate → b.Literate

abbrev FineDeeds : Vm → Vm → Prop := Relation.ReflTransGen FineDeed

theorem FineDeeds.deeds {a b : Vm} (h : FineDeeds a b) : Deeds a b :=
  Relation.ReflTransGen.mono (fun _ _ hdeed => hdeed.deed) a b h

/-- A fine deed that stores no element. -/
structure QuietDeed (a b : Vm) : Prop where
  deed : Deed a b
  heap : a.heap.Step a.registry.classes none b.heap
  literals : a.Literate → b.Literate

abbrev QuietDeeds : Vm → Vm → Prop := Relation.ReflTransGen QuietDeed

theorem QuietDeed.fine {a b : Vm} (h : QuietDeed a b) : FineDeed a b :=
  ⟨h.deed, ⟨none, h.heap⟩, h.literals⟩

theorem QuietDeeds.fineDeeds {a b : Vm} (h : QuietDeeds a b) : FineDeeds a b :=
  Relation.ReflTransGen.mono (fun _ _ => QuietDeed.fine) a b h

namespace QuietDeed

theorem aside {a b : Vm} (source : b.source = a.source) (registry : b.registry = a.registry)
    (heap : b.heap = a.heap) : QuietDeed a b where
  deed := .aside source registry heap
  heap := heap ▸ .still
  literals h := by rwa [Vm.Literate, registry, heap]

theorem objects (vm : Vm) {heap : Heap} (step : vm.heap.Step vm.registry.classes none heap)
    (interned : heap.interned = vm.heap.interned) : QuietDeed vm { vm with heap } where
  deed := .objects vm interned
  heap := step
  literals h := h.heap fun text r hr => by rwa [Heap.Interns, interned]

theorem intern (vm : Vm) (id : ClassId) (c : Class) (text : String) :
    QuietDeed vm { vm with heap := (vm.heap.intern id c text).2 } where
  deed := .intern vm id c text
  heap := .intern id c text
  literals h := h.heap fun _ _ hr => hr.intern id c text

theorem load (vm : Vm) (name : String) :
    QuietDeed vm { vm with registry := (load vm.source [] name vm.registry).2 } where
  deed := .load vm name
  heap := .still
  literals h := Registry.Keeping.load h vm.heap.lasting_spells name

theorem status (vm : Vm) (id : ClassId) {f : ClassStatus → ClassStatus}
    (resolutions : ∀ s : ClassStatus, (f s).resolutions = s.resolutions) :
    QuietDeed vm { vm with registry := vm.registry.modifyStatus id f } where
  deed := .status vm id resolutions
  heap := .still
  literals h := Registry.Keeping.modifyStatus h id fun s _ _ hr => .inl (resolutions s ▸ hr)

theorem keep (vm : Vm) (id : ClassId) (index : UInt16) (r : Resolution)
    (unresolved : vm.registry.Unresolved id index) (sound : r.Sound vm.registry)
    (found : vm.registry.classes.Finds r.outcome)
    (spelled : vm.heap.Spells vm.registry.classes id index.toNat r.outcome) :
    QuietDeed vm { vm with
      registry := vm.registry.modifyStatus id fun s =>
        { s with resolutions := s.resolutions.setIfInBounds index.toNat (some r) } } where
  deed := .keep vm id index r unresolved sound found
  heap := .still
  literals h := Registry.Keeping.keep h id index.toNat spelled

end QuietDeed

theorem FineDeed.store (vm : Vm) {w : Write} {heap : Heap}
    (h : vm.heap.store vm.registry.classes w.ref w.index w.value = .ok heap) :
    FineDeed vm { vm with heap } := by
  have hinterned : heap.interned = vm.heap.interned := by
    obtain ⟨_, _, rfl⟩ := Heap.store_eq_ok h
    rfl
  exact ⟨.objects vm hinterned, ⟨some w, .store h⟩,
    fun hlit => hlit.heap fun text r hr => by rwa [Heap.Interns, hinterned]⟩

namespace Exec

variable {α β : Type}

/-- The operation is made of single deeds that store no element, however it ends. -/
class Quiet (x : Exec α) : Prop where
  deeds : ∀ vm, QuietDeeds vm (after x vm)

theorem Quiet.ok {x : Exec α} [hx : Quiet x] {vm vm' : Vm} {a : α} (h : x vm = .ok a vm') :
    QuietDeeds vm vm' := by
  have hdeeds := hx.deeds vm
  rwa [after_ok h] at hdeeds

theorem Quiet.error {x : Exec α} [hx : Quiet x] {vm vm' : Vm} {stop : Stop}
    (h : x vm = .error stop vm') : QuietDeeds vm vm' := by
  have hdeeds := hx.deeds vm
  rwa [after_error h] at hdeeds

theorem quiet_of_cases {x : Exec α} (hok : ∀ vm a vm', x vm = .ok a vm' → QuietDeeds vm vm')
    (herror : ∀ vm stop vm', x vm = .error stop vm' → QuietDeeds vm vm') : Quiet x := by
  constructor
  intro vm
  cases h : x vm with
  | ok a vm' =>
      rw [after_ok h]
      exact hok vm a vm' h
  | error stop vm' =>
      rw [after_error h]
      exact herror vm stop vm' h

theorem entry_eq_ok {e : Except ClassFile.PoolError α} {a : α} {vm vm' : Vm}
    (h : entry e vm = .ok a vm') : e = .ok a ∧ vm' = vm := by
  cases e <;> cases h
  exact ⟨rfl, rfl⟩

theorem quiet_aside {x : Exec α} (h : ∀ vm, (after x vm).source = vm.source ∧
    (after x vm).registry = vm.registry ∧ (after x vm).heap = vm.heap) : Quiet x := by
  constructor
  intro vm
  obtain ⟨hsource, hregistry, hheap⟩ := h vm
  exact .single (.aside hsource hregistry hheap)

theorem Reads.quiet {x : Exec α} (hx : Reads x) : Quiet x := by
  constructor
  intro vm
  rw [(hx vm).1]

instance (a : α) : Quiet (pure a : Exec α) := ⟨fun _ => .refl⟩

instance (stop : Stop) : Quiet (throw stop : Exec α) := ⟨fun _ => .refl⟩

instance (e : Fault) : Quiet (fault e : Exec α) := ⟨fun _ => .refl⟩

instance : Quiet (get : Exec Vm) := ⟨fun _ => .refl⟩

theorem quiet_bind {x : Exec α} {g : α → Exec β} [hx : Quiet x]
    (hg : ∀ a, Quiet (g a)) : Quiet (x >>= g) := by
  apply quiet_of_cases
  · intro vm b vm' h
    obtain ⟨a, vm₁, h₁, h₂⟩ := bind_eq_ok h
    exact (hx.ok h₁).trans ((hg a).ok h₂)
  · intro vm stop vm' h
    rcases bind_eq_error h with h | ⟨a, vm₁, h₁, h₂⟩
    · exact hx.error h
    · exact (hx.ok h₁).trans ((hg a).error h₂)

instance {x : Exec α} {g : α → Exec β} [Quiet x] [∀ a, Quiet (g a)] :
    Quiet (x >>= g) :=
  quiet_bind inferInstance

instance {c : Prop} [Decidable c] {x y : Exec α} [hx : Quiet x] [hy : Quiet y] :
    Quiet (if c then x else y) := by
  split
  · exact hx
  · exact hy

instance {x : Exec α} [hx : Quiet x] : Quiet (attempt x) := by
  constructor
  intro vm
  rw [after_attempt]
  exact hx.deeds vm

instance (e : Except Fault α) : Quiet (ofExcept e) := by
  cases e <;> unfold ofExcept <;> infer_instance

instance (e : Except ClassFile.PoolError α) : Quiet (entry e) := by
  cases e <;> unfold entry <;> infer_instance

/-! ## Outside the registry and the heap -/

instance (x : FrameM α) : Quiet (onFrame x) := by
  refine quiet_aside fun vm => ?_
  cases hframes : vm.frames with
  | nil =>
      rw [after_error (onFrame_of_idle x hframes)]
      exact ⟨rfl, rfl, rfl⟩
  | cons f below =>
      rw [after_onFrame x hframes]
      exact ⟨rfl, rfl, rfl⟩

instance (e : Event) : Quiet (note e) := quiet_aside fun _ => ⟨rfl, rfl, rfl⟩

instance (f : Profiler MethodId → Profiler MethodId) : Quiet (profile f) :=
  quiet_aside fun _ => ⟨rfl, rfl, rfl⟩

instance (site : CallSite) (cache : InlineCache ClassId Method) : Quiet (setSite site cache) :=
  quiet_aside fun _ => ⟨rfl, rfl, rfl⟩

instance (f : Frame) : Quiet (enter f) := quiet_aside fun _ => ⟨rfl, rfl, rfl⟩

instance (base : Nat) : Quiet (cutTo base) := quiet_aside fun _ => ⟨rfl, rfl, rfl⟩

instance (v? : Option Value) : Quiet (leaveFrame v?) := quiet_aside fun _ => ⟨rfl, rfl, rfl⟩

instance : Quiet clearReturn := quiet_aside fun _ => ⟨rfl, rfl, rfl⟩

instance (frames : List Frame) : Quiet (modify ({ · with frames }) : Exec Unit) :=
  quiet_aside fun _ => ⟨rfl, rfl, rfl⟩

instance (r : Ref) : Quiet (recordTrace r) := by
  refine quiet_aside fun vm => ?_
  obtain ⟨traces, h⟩ := recordTrace_apply r vm
  rw [after_ok h]
  exact ⟨rfl, rfl, rfl⟩

instance : Quiet currentFrame := reads_currentFrame.quiet

instance : Quiet currentClass := by
  unfold currentClass
  infer_instance

instance (text : String) : Quiet (unsupported text : Exec α) := by
  unfold unsupported
  infer_instance

/-! ## Classes -/

instance (id : ClassId) : Quiet (classAt id) := (reads_classAt id).quiet

instance (id : ClassId) : Quiet (statusAt id) := (reads_statusAt id).quiet

instance (name : String) : Quiet (loadClass name) := by
  constructor
  intro vm
  rw [after_loadClass]
  exact .single (.load vm name)

instance (id : ClassId) : Quiet (arrayOf id) := by
  unfold arrayOf
  infer_instance

instance (id : ClassId) (state : ClassState) : Quiet (setState id state) := by
  have hmove : Quiet (modifyStatus id fun s => { s with state }) :=
    ⟨fun vm => .single (.status vm id fun _ => rfl)⟩
  unfold setState
  infer_instance

instance (f : Field) : Quiet (getStaticSlot f) := (reads_getStaticSlot f).quiet

instance (f : Field) (v : Value) : Quiet (setStaticSlot f v) :=
  ⟨fun vm => .single (.status vm f.id.owner fun _ => rfl)⟩

/-! ## Objects -/

instance (id : ClassId) : Quiet (allocInstance id) :=
  quiet_bind fun c => ⟨fun vm => .single (.objects vm (.allocate id c "") rfl)⟩

instance (text : String) : Quiet (newString text) :=
  quiet_bind fun id => quiet_bind fun c =>
    ⟨fun vm => .single (.objects vm (.allocate id c text) rfl)⟩

instance (text : String) : Quiet (intern text) :=
  quiet_bind fun id => quiet_bind fun c =>
    ⟨fun vm => .single (.intern vm id c text)⟩

theorem made_eq_ok {name : String} {f : ClassId → Class → Heap → Ref × Heap} {vm vm' : Vm}
    {r : Ref}
    (h : (do
      let id ← loadClass name
      let c ← classAt id
      modifyGet fun vm => ((f id c vm.heap).1, { vm with heap := (f id c vm.heap).2 })
        : Exec Ref) vm = .ok r vm') :
    ∃ id c, r = (f id c vm.heap).1 ∧ vm'.heap = (f id c vm.heap).2 ∧
      vm.registry.classes.Continues vm'.registry.classes := by
  obtain ⟨id, vm₁, hload, hrest⟩ := bind_eq_ok h
  obtain ⟨c, vm₂, hclass, hmake⟩ := bind_eq_ok hrest
  obtain ⟨-, rfl⟩ := classAt_eq_ok hclass
  have hloaded := after_loadClass name vm
  rw [after_ok hload] at hloaded
  subst hloaded
  cases hmake
  exact ⟨id, c, rfl, rfl, fun _ _ hc =>
    (Registry.load_loads vm.source [] name vm.registry).nested.extension.classes hc⟩

theorem interned_allocArray {h : Heap} {id : ClassId} {c : Class} {length : Int32}
    {p : Ref × Heap} (hp : h.allocArray id c length = .ok p) : p.2.interned = h.interned := by
  unfold Heap.allocArray at hp
  split at hp <;> cases hp
  rfl

instance (id : ClassId) (length : Int32) : Quiet (allocArray id length) := by
  constructor
  intro vm
  unfold allocArray
  cases hc : vm.registry.classes[id]? with
  | none =>
      rw [after_error (bind_of_error (classAt_apply_of_none hc))]
  | some c =>
      rw [after, bind_of_ok (classAt_apply_of_some hc)]
      cases h : vm.heap.allocArray id c length with
      | error e =>
          simp only [bind_apply, get_apply, h]
          exact .refl
      | ok p =>
          simp only [bind_apply, get_apply, h]
          exact .single (.objects vm (.allocateArray hc h) (interned_allocArray h))

theorem quiet_setHeap {heap? : Vm → Exec Heap} (hreads : ∀ vm, Reads (heap? vm))
    (h : ∀ vm heap vm', heap? vm vm = .ok heap vm' → heap.interned = vm.heap.interned ∧
      vm.heap.Step vm.registry.classes none heap) :
    Quiet (do
      let vm ← get
      let heap ← heap? vm
      set { vm with heap } : Exec Unit) := by
  constructor
  intro vm
  have hafter := (hreads vm vm).1
  unfold after at hafter
  simp only [after, bind_apply, get_apply]
  cases hheap : heap? vm vm with
  | ok heap vm' =>
      obtain ⟨hinterned, hstep⟩ := h vm heap vm' hheap
      exact .single (.objects vm hstep hinterned)
  | error stop vm' =>
      simp only [hheap] at hafter ⊢
      rw [hafter]

instance (r : Ref) (declaring : ClassId) (name : String) (v : Value) :
    Quiet (setField r declaring name v) := by
  refine quiet_bind fun c => ?_
  refine quiet_setHeap (fun _ => reads_ofExcept fun _ => Heap.covered_setField) ?_
  intro vm heap vm' h
  cases hset : vm.heap.setField vm.registry.classes r c name v with
  | error e =>
      rw [hset] at h
      cases h
  | ok heap' =>
      rw [hset] at h
      cases h
      obtain ⟨slot, rfl⟩ := Heap.setField_eq_ok hset
      exact ⟨rfl, .assign r slot v⟩

instance (r : Ref) : Quiet (classOf r) := (reads_classOf r).quiet

instance (r : Ref) : Quiet (classOfObject r) := (reads_classOfObject r).quiet

instance (r : Ref) (index : Int32) : Quiet (loadElement r index) :=
  (reads_loadElement r index).quiet

instance (r : Ref) : Quiet (throwableMessage r) := (looks_throwableMessage r).reads.quiet

instance (r : Ref) : Quiet (traceOf r) := (looks_traceOf r).reads.quiet

/-! ## Pool entries -/

/-- A method that is followed is declared, and the machine is left with its class. -/
def Finds (follow : Exec Resolved) : Prop :=
  Returns (fun r vm => vm.registry.classes.Finds (.ok r)) follow

theorem finds_followMethod (id : ClassId) (index : UInt16) (tags : List ClassFile.Tag) :
    Finds (followMethod id index tags) := by
  refine .bind fun c => .bind fun ref => .bind fun owner => .bind fun c => ?_
  split
  · exact returns_fault _
  · intro vm r vm' h
    obtain ⟨s, _, hget, h⟩ := bind_eq_ok h
    cases hget
    cases hm : vm.registry.classes.findMethod? owner ref.name ref.descriptor with
    | none =>
        rw [hm] at h
        cases h
    | some m =>
        rw [hm] at h
        cases h
        rintro _ ⟨⟩
        exact Classes.declares_of_findMethod? hm

theorem finds_of_follows {use : PoolUse} {follow : Exec Resolved} (h : Follows use follow)
    (huse : use ≠ .method ∧ use ≠ .interfaceMethod) : Finds follow := by
  intro vm r vm' hok m hm
  cases hm
  have hsound := h.sound vm (.method m) vm' hok
  cases use with
  | method => exact absurd rfl huse.1
  | interfaceMethod => exact absurd rfl huse.2
  | classRef | field | literal => exact hsound.elim

theorem Finds.attempt {follow : Exec Resolved} (h : Finds follow) {vm vm' : Vm}
    {outcome : Except Fault Resolved} (hfollow : attempt follow vm = .ok outcome vm') :
    vm'.registry.classes.Finds outcome := by
  cases outcome with
  | error e => nofun
  | ok r => exact h vm r vm' (ok_of_attempt hfollow)

/-- A reference that is followed is the object of the literal that the entry holds. -/
def Interning (id : ClassId) (index : UInt16) (follow : Exec Resolved) : Prop :=
  Returns (fun r vm => vm.heap.Spells vm.registry.classes id index.toNat (.ok r)) follow

theorem interning_of_follows {use : PoolUse} {follow : Exec Resolved} (h : Follows use follow)
    (huse : use ≠ .literal) (id : ClassId) (index : UInt16) : Interning id index follow := by
  intro vm r vm' hok ref href
  cases href
  have hsound := h.sound vm _ vm' hok
  cases use with
  | literal => exact absurd rfl huse
  | classRef | field | method | interfaceMethod => exact hsound.elim

theorem interning_followLiteral (id : ClassId) (index : UInt16) :
    Interning id index (followLiteral id index) := by
  intro vm r vm' hok ref href
  cases href
  obtain ⟨c, vm₁, hclass, hfollow⟩ := bind_eq_ok hok
  obtain ⟨hc, rfl⟩ := classAt_eq_ok hclass
  dsimp only at hfollow
  obtain ⟨constant, vm₂, hentry, hread⟩ := bind_eq_ok hfollow
  obtain ⟨-, rfl⟩ := entry_eq_ok hentry
  cases constant with
  | string i =>
      obtain ⟨text, vm₃, hstring, hmade⟩ := bind_eq_ok hread
      obtain ⟨htext, rfl⟩ := entry_eq_ok hstring
      obtain ⟨made, vm₄, hintern, hdone⟩ := bind_eq_ok hmade
      cases hdone
      obtain ⟨id', c', rfl, hheap, hcontinues⟩ :=
        made_eq_ok (f := fun id c h => h.intern id c text) hintern
      refine ⟨c, text, hcontinues id c hc, by simpa using htext, ?_⟩
      rw [hheap]
      exact Heap.interns_intern _ _ _ _
  | _ => cases hread

theorem Interning.attempt {id : ClassId} {index : UInt16} {follow : Exec Resolved}
    (h : Interning id index follow) {vm vm' : Vm} {outcome : Except Fault Resolved}
    (hfollow : attempt follow vm = .ok outcome vm') :
    vm'.heap.Spells vm'.registry.classes id index.toNat outcome := by
  cases outcome with
  | error e => nofun
  | ok r => exact h vm r vm' (ok_of_attempt hfollow)

theorem quiet_resolve (id : ClassId) (index : UInt16) {use : PoolUse} {follow : Exec Resolved}
    [Quiet follow] (hfollow : Follows use follow) (hfinds : Finds follow)
    (hinterning : Interning id index follow) : Quiet (resolve id index use follow) := by
  constructor
  intro vm
  cases hs : vm.registry.status? id with
  | none =>
      have heq : resolve id index use follow vm = .error .undefined vm := by
        rw [resolve_apply, hs]
      rw [after_error heq]
  | some s =>
      cases hkept : kept s index use with
      | outcome o =>
          have heq : resolve id index use follow vm = ofExcept o vm := by
            simp only [resolve_apply, hs, hkept]
          rw [after, heq]
          exact Quiet.deeds (x := ofExcept o) vm
      | otherUse =>
          have heq : resolve id index use follow vm = follow vm := by
            simp only [resolve_apply, hs, hkept]
          rw [after, heq]
          exact Quiet.deeds (x := follow) vm
      | nothing =>
          have heq : resolve id index use follow vm =
              (do
                let outcome ← attempt follow
                keep id index use outcome
                ofExcept outcome : Exec Resolved) vm := by
            simp only [resolve_apply, hs, hkept]
          cases hcase : attempt follow vm with
          | error stop vm₁ =>
              rw [after_error (heq.trans (bind_of_error hcase))]
              exact Quiet.error hcase
          | ok o vm₁ =>
              have hkeep : QuietDeed vm₁ (after (keep id index use o) vm₁) :=
                .keep vm₁ id index ⟨use, o⟩ (hfollow.unresolved hs (kept_nothing hkept) hcase)
                  (hfollow.sound_attempt hcase) (hfinds.attempt hcase) (hinterning.attempt hcase)
              have hdone : after (resolve id index use follow) vm =
                  after (keep id index use o) vm₁ := by
                rw [after, heq, bind_of_ok hcase]
                cases o <;> rfl
              rw [hdone]
              exact (Quiet.ok hcase).tail hkeep

instance (id : ClassId) (index : UInt16) : Quiet (followClass id index) := by
  unfold followClass
  infer_instance

instance (id : ClassId) (index : UInt16) : Quiet (followField id index) := by
  refine quiet_bind fun c => quiet_bind fun ref => quiet_bind fun owner => ?_
  refine quiet_bind fun vm => ?_
  cases vm.registry.classes.findField? ref.name ref.descriptor owner <;> infer_instance

instance (id : ClassId) (index : UInt16) (tags : List ClassFile.Tag) :
    Quiet (followMethod id index tags) := by
  refine quiet_bind fun c => quiet_bind fun ref => quiet_bind fun owner => ?_
  refine quiet_bind fun _ => ?_
  split
  · infer_instance
  · refine quiet_bind fun vm => ?_
    cases vm.registry.classes.findMethod? owner ref.name ref.descriptor <;> infer_instance

instance (id : ClassId) (index : UInt16) : Quiet (followLiteral id index) := by
  refine quiet_bind fun c => quiet_bind fun entry => ?_
  cases entry <;> dsimp only <;> infer_instance

instance (id : ClassId) (index : UInt16) : Quiet (resolveClass id index) := by
  have hfollow := follows_followClass id index
  have hresolve := quiet_resolve id index hfollow
    (finds_of_follows hfollow (by decide)) (interning_of_follows hfollow (by decide) id index)
  refine quiet_bind fun r => ?_
  cases r <;> dsimp only <;> infer_instance

instance (id : ClassId) (index : UInt16) : Quiet (resolveField id index) := by
  have hfollow := follows_followField id index
  have hresolve := quiet_resolve id index hfollow
    (finds_of_follows hfollow (by decide)) (interning_of_follows hfollow (by decide) id index)
  refine quiet_bind fun r => ?_
  cases r <;> dsimp only <;> infer_instance

instance (id : ClassId) (index : UInt16) : Quiet (resolveMethod id index) := by
  have hfollow := follows_followMethod id index [.methodRef, .interfaceMethodRef] (.inl rfl)
  have hresolve := quiet_resolve id index hfollow (finds_followMethod id index _)
    (interning_of_follows hfollow (by decide) id index)
  refine quiet_bind fun r => ?_
  cases r <;> dsimp only <;> infer_instance

instance (id : ClassId) (index : UInt16) : Quiet (resolveInterfaceMethod id index) := by
  have hfollow := follows_followMethod id index [.interfaceMethodRef] (.inr rfl)
  have hresolve := quiet_resolve id index hfollow (finds_followMethod id index _)
    (interning_of_follows hfollow (by decide) id index)
  refine quiet_bind fun r => ?_
  cases r <;> dsimp only <;> infer_instance

instance (id : ClassId) (index : UInt16) : Quiet (literal id index) := by
  have hfollow := follows_followLiteral id index
  have hresolve := quiet_resolve id index hfollow
    (finds_of_follows hfollow (by decide)) (interning_followLiteral id index)
  refine quiet_bind fun r => ?_
  cases r <;> dsimp only <;> infer_instance

end Exec

end ClassEngine.Machine
