import ClassEngine.Proofs.Machine.FrameValues
import ClassEngine.Proofs.Machine.RegistryLaw

/-!
# No dangling references

A machine is intact when all its references are null or lead to objects, and its objects fit
their classes.  An operation that starts on such a machine ends on one, however it ends, and the
objects stay.  The values that it hands on are references of the machine that it leaves.
-/

namespace ClassEngine.Machine

/-! ## The values of the registry -/

/-- What the static fields of a class and the literals of its pool have in common. -/
structure ClassStatus.Holds (P : Value → Prop) (s : ClassStatus) : Prop where
  statics : ∀ v ∈ s.statics, P v
  literals : ∀ {i : Nat} {use : PoolUse} {v : Value},
    s.resolutions[i]? = some (some ⟨use, .ok (.value v)⟩) → P v

def Registry.Holds (P : Value → Prop) (reg : Registry) : Prop :=
  ∀ (id : ClassId) (s : ClassStatus), reg.status? id = some s → s.Holds P

section

variable {P Q : Value → Prop} {reg : Registry}

theorem Registry.Holds.mono (hreg : reg.Holds P) (h : ∀ v, P v → Q v) : reg.Holds Q := by
  intro id s hs
  constructor
  · exact fun v hv => h v ((hreg id s hs).statics v hv)
  · exact fun hr => h _ ((hreg id s hs).literals hr)

theorem Registry.holds_empty : Registry.Holds P {} := by
  intro id s hs
  simp [status?] at hs

theorem Registry.Holds.add (h : reg.Holds P) {c : Class} {state : ClassState}
    {statics : Array Value} (hstatics : ∀ v ∈ statics, P v) :
    (reg.add c state statics).2.Holds P := by
  intro id s hs
  refine ⟨?_, fun hr => (h id s (status?_of_add hs hr)).literals hr⟩
  rw [status?_add] at hs
  split at hs
  · cases hs
    exact hstatics
  · exact (h id s hs).statics

theorem Registry.Holds.modifyStatus (h : reg.Holds P) (id : ClassId)
    {f : ClassStatus → ClassStatus} (hf : ∀ s : ClassStatus, s.Holds P → (f s).Holds P) :
    (reg.modifyStatus id f).Holds P := by
  intro j s hs
  rcases status?_modifyStatus_cases hs with ⟨t, ht, rfl, rfl⟩ | hs
  · exact hf t (h _ t ht)
  · exact h j s hs

theorem harmless_layOut {owner : ClassId} {ownerName : String}
    (fields : List (ClassFile.Field × ClassFile.FieldType)) {l : FieldLayout}
    (hl : ∀ v ∈ l.statics, v.Harmless) :
    ∀ v ∈ (fields.foldl (FieldLayout.add owner ownerName) l).statics, v.Harmless := by
  induction fields generalizing l with
  | nil => exact hl
  | cons f rest ih =>
      apply ih
      unfold FieldLayout.add
      dsimp only
      generalize (if f.1.isStatic then l.statics.size else l.layout.size) = slot
      split
      · intro v hv
        rcases Array.mem_push.mp hv with hv | rfl
        · exact hl v hv
        · unfold Field.zero
          infer_instance
      · exact hl

theorem harmless_statics {src : Search.Source} {cs : Classes} {id : ClassId} {name : String}
    {ids : List ClassId} {c : Class} {statics : Array Value}
    (h : assemble src cs id name ids = .ok (c, statics)) : ∀ v ∈ statics, v.Harmless := by
  unfold assemble at h
  split at h
  · split at h <;> cases h
    simp
  · split at h
    · cases h
    · split at h <;> cases h
      exact harmless_layOut _ (by simp)

theorem Registry.Holds.load (hP : Lenient P) (h : reg.Holds P) (src : Search.Source)
    (underWay : List String) (name : String) : (load src underWay name reg).2.Holds P :=
  Registry.load_invariant (I := fun reg => reg.Holds P)
    (fun hassemble h => h.add fun v hv => hP v (harmless_statics hassemble v hv))
    (fun h => h) underWay name h

end

/-! ## Intact machines -/

/-- Every reference of the machine is null or leads to an object, and every object fits its
class. -/
structure Vm.Intact (vm : Vm) : Prop where
  frames : ∀ f ∈ vm.frames, f.Holds vm.heap.Admits
  result : vm.heap.Admits vm.result
  registry : vm.registry.Holds vm.heap.Admits
  closed : vm.heap.Closed
  fits : vm.heap.Fits vm.registry.classes

/-- The machine is intact, and what its classes were put together from is known. -/
structure Vm.Whole (vm : Vm) : Prop extends vm.Intact where
  coherent : vm.registry.Coherent vm.source

structure Vm.Leads (a b : Vm) : Prop where
  whole : b.Whole
  classes : Classes.Continues a.registry.classes b.registry.classes
  heap : a.heap.Persists b.heap

namespace Vm

variable {a b c : Vm}

theorem Leads.refl (h : a.Whole) : a.Leads a := ⟨h, fun _ _ hc => hc, .refl a.heap⟩

theorem Leads.trans (hab : a.Leads b) (hbc : b.Leads c) : a.Leads c :=
  ⟨hbc.whole, fun id c hc => hbc.classes id c (hab.classes id c hc), hab.heap.trans hbc.heap⟩

theorem Whole.leads_of_frames (h : a.Whole) (hsource : b.source = a.source)
    (hregistry : b.registry = a.registry) (hheap : b.heap = a.heap)
    (hframes : ∀ f ∈ b.frames, f.Holds a.heap.Admits) (hresult : a.heap.Admits b.result) :
    a.Leads b := by
  refine ⟨⟨⟨?_, ?_, ?_, ?_, ?_⟩, ?_⟩, fun id c hc => ?_, ?_⟩
  · rwa [hheap]
  · rwa [hheap]
  · rw [hheap, hregistry]
    exact h.registry
  · rw [hheap]
    exact h.closed
  · rw [hheap, hregistry]
    exact h.fits
  · rw [hregistry, hsource]
    exact h.coherent
  · rwa [hregistry]
  · rw [hheap]
    exact .refl a.heap

theorem Whole.leads_heap (h : a.Whole) {heap : Heap} (hpersists : a.heap.Persists heap)
    (hclosed : heap.Closed) (hfits : heap.Fits a.registry.classes) : a.Leads { a with heap } where
  whole := {
    frames := fun f hf => (h.frames f hf).mono fun _ hv => hv.mono hpersists
    result := h.result.mono hpersists
    registry := h.registry.mono fun _ hv => hv.mono hpersists
    closed := hclosed
    fits := hfits
    coherent := h.coherent }
  classes _ _ hc := hc
  heap := hpersists

theorem Whole.leads_alloc (h : a.Whole) {o : Object} {c : Class}
    (hc : a.registry.classes[o.classId]? = some c)
    (hsize : c.isArray = false → o.fields.size = c.layout.size) (ho : o.Holds a.heap.Admits) :
    a.Leads { a with heap := (a.heap.alloc o).2 } :=
  h.leads_heap (Heap.persists_alloc a.heap o) (h.closed.alloc ho) (h.fits.alloc hc hsize)

theorem Whole.leads_modify (h : a.Whole) (r : Ref) {f : Object → Object}
    (hshape : ∀ o : Object, o.SameShape (f o))
    (hf : ∀ o : Object, o.Holds a.heap.Admits → (f o).Holds a.heap.Admits) :
    a.Leads { a with heap := a.heap.modify r f } :=
  h.leads_heap (Heap.persists_modify a.heap r hshape) (h.closed.modify hshape hf)
    (h.fits.modify hshape)

theorem Whole.leads_modifyStatus (h : a.Whole) (id : ClassId) {f : ClassStatus → ClassStatus}
    (hf : ∀ s : ClassStatus, s.Holds a.heap.Admits → (f s).Holds a.heap.Admits) :
    a.Leads { a with registry := a.registry.modifyStatus id f } where
  whole := {
    frames := h.frames
    result := h.result
    registry := h.registry.modifyStatus id hf
    closed := h.closed
    fits := h.fits
    coherent := h.coherent.modifyStatus id f }
  classes _ _ hc := hc
  heap := .refl a.heap

theorem Whole.leads_load (h : a.Whole) (name : String) :
    a.Leads { a with registry := (load a.source [] name a.registry).2 } := by
  have hkeeps := Registry.load_keeps a.source [] name a.registry
  have hclasses : Classes.Continues a.registry.classes
      (load a.source [] name a.registry).2.classes :=
    fun _ _ hc => hkeeps.nested.extension.grows.classes hc
  exact {
    whole := {
      frames := h.frames
      result := h.result
      registry := h.registry.load a.heap.lenient_admits a.source [] name
      closed := h.closed
      fits := h.fits.mono hclasses
      coherent := hkeeps.coherent h.coherent }
    classes := hclasses
    heap := .refl a.heap }

end Vm

namespace Exec

variable {α β : Type} {vm : Vm}

/-! ## Operations on intact machines -/

/-- From this machine the operation leads to an intact one, and what it gives has a property
there. -/
structure Yields (x : Exec α) (vm : Vm) (Q : α → Vm → Prop) : Prop where
  leads : vm.Leads (after x vm)
  gives : ∀ {a : α} {vm' : Vm}, x vm = .ok a vm' → Q a vm'

abbrev Proceeds (x : Exec α) (vm : Vm) : Prop := Yields x vm fun _ _ => True

/-- From every intact machine the operation leads to an intact one. -/
class Guards (x : Exec α) : Prop where
  leads : ∀ {vm : Vm}, vm.Whole → vm.Leads (after x vm)

def Admitted (v : Value) (vm : Vm) : Prop := vm.heap.Admits v

theorem Admitted.mono {v : Value} {vm' : Vm} (hv : Admitted v vm) (h : vm.Leads vm') :
    Admitted v vm' :=
  Heap.Admits.mono hv h.heap

variable {Q : α → Vm → Prop} {R : β → Vm → Prop}

theorem Yields.ok {x : Exec α} (hx : Yields x vm Q) {a : α} {vm' : Vm} (h : x vm = .ok a vm') :
    vm.Leads vm' := by
  have hleads := hx.leads
  rwa [after_ok h] at hleads

theorem yields_throw (stop : Stop) (h : vm.Whole) : Yields (throw stop : Exec α) vm Q :=
  ⟨.refl h, nofun⟩

theorem Yields.of_eq {x y : Exec α} {vm' : Vm} (hy : Yields y vm' Q) (hleads : vm.Leads vm')
    (heq : x vm = y vm') : Yields x vm Q := by
  constructor
  · have hafter := hleads.trans hy.leads
    unfold after at hafter ⊢
    rwa [heq]
  · intro a vm'' h
    exact hy.gives (heq.symm.trans h)

theorem yields_of_error {x : Exec α} {stop : Stop} {vm' : Vm} (hleads : vm.Leads vm')
    (h : x vm = .error stop vm') : Yields x vm Q :=
  (yields_throw stop hleads.whole).of_eq hleads h

theorem Yields.bind {x : Exec α} {g : α → Exec β} (hx : Yields x vm Q)
    (hg : ∀ {a vm'}, vm.Leads vm' → Q a vm' → Yields (g a) vm' R) : Yields (x >>= g) vm R := by
  cases hcase : x vm with
  | ok a vm' => exact (hg (hx.ok hcase) (hx.gives hcase)).of_eq (hx.ok hcase) (bind_of_ok hcase)
  | error stop vm' =>
      have hleads := hx.leads
      rw [after_error hcase] at hleads
      exact yields_of_error hleads (bind_of_error hcase)

theorem Yields.imp {Q' : α → Vm → Prop} {x : Exec α} (hx : Yields x vm Q)
    (h : ∀ {a vm'}, vm.Leads vm' → Q a vm' → Q' a vm') : Yields x vm Q' :=
  ⟨hx.leads, fun heq => h (hx.ok heq) (hx.gives heq)⟩

theorem Yields.attempt {x : Exec α} (hx : Yields x vm Q) :
    Yields (attempt x) vm fun outcome vm' => ∀ a, outcome = .ok a → Q a vm' where
  leads := by
    rw [after_attempt]
    exact hx.leads
  gives := by
    rintro _ vm' h a rfl
    exact hx.gives (ok_of_attempt h)

theorem Guards.of_yields {x : Exec α} {Q : Vm → α → Vm → Prop}
    (h : ∀ {vm : Vm}, vm.Whole → Yields x vm (Q vm)) : Guards x :=
  ⟨fun hvm => (h hvm).leads⟩

theorem Guards.of_proceeds {x : Exec α} (h : ∀ {vm : Vm}, vm.Whole → Proceeds x vm) : Guards x :=
  .of_yields h

theorem yields_of_guards {x : Exec α} [hx : Guards x] (h : vm.Whole) : Proceeds x vm :=
  ⟨hx.leads h, fun _ => trivial⟩

theorem yields_bind {x : Exec α} [Guards x] {g : α → Exec β} (h : vm.Whole)
    (hg : ∀ {a vm'}, vm.Leads vm' → Yields (g a) vm' R) : Yields (x >>= g) vm R :=
  (yields_of_guards h).bind fun hleads _ => hg hleads

theorem yields_pure {a : α} (h : vm.Whole) (ha : Q a vm) : Yields (pure a) vm Q := by
  refine ⟨.refl h, ?_⟩
  rintro _ _ ⟨⟩
  exact ha

theorem yields_fault (e : Fault) (h : vm.Whole) : Yields (fault e : Exec α) vm Q :=
  yields_throw _ h

theorem yields_fault_bind (e : Fault) {g : α → Exec β} (h : vm.Whole) :
    Yields (fault e >>= g) vm R :=
  (yields_fault (Q := fun _ _ => False) e h).bind fun _ hnever => hnever.elim

theorem yields_get (h : vm.Whole) : Yields get vm fun s vm' => s = vm' := by
  refine ⟨.refl h, ?_⟩
  rintro _ _ ⟨⟩
  rfl

theorem Reads.yields {x : Exec α} (hx : Reads x) (h : vm.Whole)
    (hQ : ∀ {a}, x vm = .ok a vm → Q a vm) : Yields x vm Q where
  leads := by
    rw [(hx vm).1]
    exact .refl h
  gives := by
    intro a vm' heq
    have hsame := (hx vm).1
    rw [after_ok heq] at hsame
    rw [hsame] at heq ⊢
    exact hQ heq

theorem Reads.guards {x : Exec α} (hx : Reads x) : Guards x :=
  .of_proceeds fun h => hx.yields h fun _ => trivial

instance (a : α) : Guards (pure a : Exec α) := (reads_pure a).guards

instance (stop : Stop) : Guards (throw stop : Exec α) := ⟨.refl⟩

instance (e : Fault) : Guards (fault e : Exec α) := ⟨.refl⟩

instance : Guards (get : Exec Vm) := reads_get.guards

instance {x : Exec α} {g : α → Exec β} [Guards x] [∀ a, Guards (g a)] : Guards (x >>= g) :=
  .of_yields fun h => yields_bind h fun hleads => yields_of_guards hleads.whole

instance {c : Prop} [Decidable c] {x y : Exec α} [hx : Guards x] [hy : Guards y] :
    Guards (if c then x else y) := by
  split
  · exact hx
  · exact hy

instance {x : Exec α} [Guards x] : Guards (attempt x) :=
  .of_yields fun h => (yields_of_guards h).attempt

instance (e : Except Fault α) : Guards (ofExcept e) := by
  cases e <;> unfold ofExcept <;> infer_instance

instance (e : Except ClassFile.PoolError α) : Guards (entry e) := by
  cases e <;> unfold entry <;> infer_instance

theorem guards_of_same {x : Exec α} (h : ∀ vm, (after x vm).source = vm.source ∧
    (after x vm).registry = vm.registry ∧ (after x vm).heap = vm.heap ∧
      (after x vm).frames = vm.frames ∧ (after x vm).result = vm.result) : Guards x := by
  constructor
  intro vm hvm
  obtain ⟨hsource, hregistry, hheap, hframes, hresult⟩ := h vm
  apply hvm.leads_of_frames hsource hregistry hheap
  · rw [hframes]
    exact hvm.frames
  · rw [hresult]
    exact hvm.result

instance (e : Event) : Guards (note e) := guards_of_same fun _ => ⟨rfl, rfl, rfl, rfl, rfl⟩

instance (f : Profiler MethodId → Profiler MethodId) : Guards (profile f) :=
  guards_of_same fun _ => ⟨rfl, rfl, rfl, rfl, rfl⟩

instance (site : CallSite) (cache : InlineCache ClassId Method) : Guards (setSite site cache) :=
  guards_of_same fun _ => ⟨rfl, rfl, rfl, rfl, rfl⟩

instance : Guards clearReturn := guards_of_same fun _ => ⟨rfl, rfl, rfl, rfl, rfl⟩

/-! ## The current frame -/

theorem yields_onFrame {x : FrameM α} {P : α → Prop} (h : vm.Whole)
    (hx : ∀ {f : Frame}, f.Holds vm.heap.Admits → (x.after f).Holds vm.heap.Admits)
    (hgiven : ∀ {f f' a}, f.Holds vm.heap.Admits → x f = .ok a f' → P a) :
    Yields (onFrame x) vm fun a vm' => vm'.heap = vm.heap ∧ P a := by
  cases hframes : vm.frames with
  | nil =>
      have hstop : onFrame x vm = .error .undefined vm := by simp only [onFrame, hframes]
      exact yields_of_error (.refl h) hstop
  | cons f below =>
      have hholds := h.frames
      rw [hframes] at hholds
      have hf := hholds f List.mem_cons_self
      constructor
      · rw [after_onFrame x hframes]
        refine h.leads_of_frames rfl rfl rfl (fun g hg => ?_) h.result
        rcases List.mem_cons.mp hg with rfl | hg
        · exact hx hf
        · exact hholds g (List.mem_cons_of_mem f hg)
      · intro a vm' hok
        obtain ⟨f₀, f', below₀, hframes₀, hcase, rfl⟩ := exists_of_onFrame_ok hok
        cases hframes.symm.trans hframes₀
        exact ⟨rfl, hgiven hf hcase⟩

instance (x : FrameM α) [hx : x.Inert] : Guards (onFrame x) :=
  .of_yields fun h => yields_onFrame (P := fun _ => True) h (hx.holds (Heap.lenient_admits _))
    fun _ _ => trivial

theorem yields_given (x : FrameM Value) [hx : x.Gives] (h : vm.Whole) :
    Yields (onFrame x) vm Admitted := by
  refine (yields_onFrame (P := vm.heap.Admits) h (hx.holds vm.heap.lenient_admits)
    hx.given).imp ?_
  rintro v vm' - ⟨hheap, hv⟩
  unfold Admitted
  rwa [hheap]

theorem yields_push {v : Value} (h : vm.Whole) (hv : Admitted v vm) :
    Proceeds (onFrame (.push v)) vm :=
  (yields_onFrame (P := fun _ => True) h (fun hf => FrameM.push_holds hf hv)
    fun _ _ => trivial).imp fun _ _ => trivial

/-! ## Classes -/

instance : Guards currentFrame := reads_currentFrame.guards

instance : Guards currentClass := by
  unfold currentClass
  infer_instance

instance (id : ClassId) : Guards (classAt id) := (reads_classAt id).guards

instance (text : String) : Guards (unsupported text : Exec α) := by
  unfold unsupported
  infer_instance

theorem yields_classAt (id : ClassId) (h : vm.Whole) :
    Yields (classAt id) vm fun c vm' => vm'.registry.classes[id]? = some c :=
  (reads_classAt id).yields h fun hok => (classAt_eq_ok hok).1

theorem yields_statusAt (id : ClassId) (h : vm.Whole) :
    Yields (statusAt id) vm fun s vm' => vm'.registry.status? id = some s :=
  (reads_statusAt id).yields h fun hok => (statusAt_eq_ok hok).1

theorem yields_loadClass (name : String) (h : vm.Whole) :
    Yields (loadClass name) vm fun id vm' =>
      ∃ c, vm'.registry.classes[id]? = some c ∧ c.name = name where
  leads := by
    rw [after_loadClass]
    exact h.leads_load name
  gives := by
    intro id vm' hok
    exact (Registry.find?_eq_some_iff.mp (find?_of_loadClass hok)).1

instance (name : String) : Guards (loadClass name) := .of_yields (yields_loadClass name)

def NamesArray (id : ClassId) (vm : Vm) : Prop :=
  ∃ c, vm.registry.classes[id]? = some c ∧ c.isArray = true

theorem NamesArray.mono {id : ClassId} {vm' : Vm} (h : NamesArray id vm) (hleads : vm.Leads vm') :
    NamesArray id vm' := by
  obtain ⟨c, hc, harray⟩ := h
  exact ⟨c, hleads.classes id c hc, harray⟩

theorem yields_loadArray {name : String} (hname : isArrayName name = true) (h : vm.Whole) :
    Yields (loadClass name) vm NamesArray := by
  refine (yields_loadClass name h).imp fun {id vm'} hleads => ?_
  rintro ⟨c, hc, rfl⟩
  obtain ⟨_, _, _, -, -, hassemble⟩ := hleads.whole.coherent.origin hc
  exact ⟨c, hc, (isArray_of_assemble hassemble).trans hname⟩

theorem yields_arrayOf (id : ClassId) (h : vm.Whole) : Yields (arrayOf id) vm NamesArray :=
  (yields_classAt id h).bind fun {c _} hleads _ =>
    yields_loadArray (Registry.isArrayName_arrayNameOf c) hleads.whole

theorem guards_modifyStatus (id : ClassId) {f : ClassStatus → ClassStatus}
    (hf : ∀ {P : Value → Prop} {s : ClassStatus}, s.Holds P → (f s).Holds P) :
    Guards (modifyStatus id f) :=
  ⟨fun h => h.leads_modifyStatus id fun _ => hf⟩

instance (id : ClassId) (state : ClassState) : Guards (setState id state) := by
  have hstate : Guards (modifyStatus id fun s => { s with state }) :=
    guards_modifyStatus id fun hs => ⟨hs.statics, hs.literals⟩
  unfold setState
  infer_instance

theorem yields_getStaticSlot (f : Field) (h : vm.Whole) :
    Yields (getStaticSlot f) vm Admitted := by
  refine (yields_statusAt f.id.owner h).bind fun {s _} hleads hs => ?_
  cases hv : s.statics[f.slot]? with
  | none => exact yields_throw _ hleads.whole
  | some v =>
      have hstatics := (hleads.whole.registry _ _ hs).statics
      exact yields_pure hleads.whole (hstatics v (Array.mem_of_getElem? hv))

theorem yields_setStaticSlot (f : Field) {v : Value} (h : vm.Whole) (hv : Admitted v vm) :
    Proceeds (setStaticSlot f v) vm where
  leads := h.leads_modifyStatus f.id.owner fun _ hs =>
    ⟨Heap.forall_mem_setIfInBounds hs.statics hv f.slot, hs.literals⟩
  gives _ := trivial

end Exec

end ClassEngine.Machine
