import ClassEngine.Proofs.Machine.Integrity

/-!
# Instructions leave no dangling references

What an instruction puts into a frame, an object or a static field is a number, null, a new
object or a value that the machine had before.  The reference that is thrown need not be any of
these; it is looked up before it is put anywhere.
-/

namespace ClassEngine.Machine

namespace Vm

variable {vm : Vm}

theorem Whole.leads_newString (h : vm.Whole) {id : ClassId} {c : Class}
    (hc : vm.registry.classes[id]? = some c) (text : String) :
    vm.Leads { vm with heap := (vm.heap.newString id c text).2 } :=
  h.leads_alloc hc (fun _ => Heap.size_zeroFields c)
    (Heap.holds_instance vm.heap.lenient_admits id c text)

theorem Whole.leads_interned (h : vm.Whole) {r : Ref} (hr : vm.heap.Admits (.ref r))
    (text : String) :
    vm.Leads { vm with heap := { vm.heap with interned := (text, r) :: vm.heap.interned } } := by
  refine h.leads_heap (fun _ o ho => ⟨o, ho, .refl o⟩) ⟨h.closed.objects, ?_⟩ h.fits
  intro text' r' hmem
  rcases List.mem_cons.mp hmem with heq | hmem
  · cases heq
    exact hr
  · exact h.closed.interned hmem

end Vm

namespace Exec

variable {α : Type} {vm : Vm}

theorem yields_modify {f : Vm → Vm} (h : vm.Leads (f vm)) :
    Yields (modify f) vm fun _ vm' => vm' = f vm := by
  refine ⟨h, ?_⟩
  rintro _ _ ⟨⟩
  rfl

theorem yields_modifyGet {f : Vm → α × Vm} (h : vm.Leads (f vm).2) :
    Yields (modifyGet f) vm fun a vm' => a = (f vm).1 ∧ vm' = (f vm).2 := by
  refine ⟨h, ?_⟩
  rintro _ _ ⟨⟩
  exact ⟨rfl, rfl⟩

theorem yields_set {s : Vm} (h : vm.Leads s) : Yields (set s) vm fun _ vm' => vm' = s := by
  refine ⟨h, ?_⟩
  rintro _ _ ⟨⟩
  rfl

theorem yields_ofExcept (e : Except Fault α) (h : vm.Whole) :
    Yields (ofExcept e) vm fun a vm' => vm' = vm ∧ e = .ok a := by
  cases e with
  | ok a => exact yields_pure h ⟨rfl, rfl⟩
  | error e => exact yields_fault e h

theorem yields_ofChecked (e : Except (Fault ⊕ Defect) α) (h : vm.Whole) :
    Yields (ofChecked e) vm fun a vm' => vm' = vm ∧ e = .ok a := by
  cases e with
  | ok a => exact yields_pure h ⟨rfl, rfl⟩
  | error e =>
      cases e with
      | inl e => exact yields_fault e h
      | inr d => exact yields_throw _ h

/-! ## New objects -/

theorem yields_allocInstance (id : ClassId) (h : vm.Whole) :
    Yields (allocInstance id) vm fun r => Admitted (.ref r) := by
  refine (yields_classAt id h).bind fun {c vm'} hleads hc => ?_
  refine (yields_modifyGet (hleads.whole.leads_newString hc "")).imp fun {_ _} _ hr => ?_
  obtain ⟨rfl, rfl⟩ := hr
  exact Heap.admits_alloc _ _

theorem yields_allocArray {id : ClassId} (length : Int32) (h : vm.Whole)
    (hid : NamesArray id vm) :
    Yields (allocArray id length) vm fun r => Admitted (.ref r) := by
  refine (yields_classAt id h).bind fun {c vm₁} hleads hc => ?_
  refine (yields_get hleads.whole).bind fun {s _} hleads' hs => ?_
  subst hs
  refine (yields_ofExcept _ hleads'.whole).bind fun {p _} _ hp => ?_
  obtain ⟨rfl, hp⟩ := hp
  obtain ⟨r, heap⟩ := p
  obtain ⟨c', hc', harray⟩ := hid.mono (hleads.trans hleads')
  unfold Heap.allocArray at hp
  split at hp
  · contradiction
  · cases hp
    have hnew := hleads'.whole.leads_alloc hc' (by simp [harray])
      (Heap.holds_array (Heap.lenient_admits _) id (Heap.elementKind c) length.toInt.toNat)
    refine (yields_modify hnew).bind fun hleads'' hs => ?_
    subst hs
    exact yields_pure hleads''.whole (Heap.admits_alloc _ _)

theorem yields_newString (text : String) (h : vm.Whole) :
    Yields (newString text) vm fun r => Admitted (.ref r) := by
  refine yields_bind h fun {id _} hleads => ?_
  refine (yields_classAt id hleads.whole).bind fun {c vm'} hleads' hc => ?_
  refine (yields_modifyGet (hleads'.whole.leads_newString hc text)).imp fun {_ _} _ hr => ?_
  obtain ⟨rfl, rfl⟩ := hr
  exact Heap.admits_alloc _ _

theorem yields_intern (text : String) (h : vm.Whole) :
    Yields (intern text) vm fun r => Admitted (.ref r) := by
  refine yields_bind h fun {id _} hleads => ?_
  refine (yields_classAt id hleads.whole).bind fun {c vm'} hleads' hc => ?_
  rcases Heap.intern_cases vm'.heap id c text with ⟨r, hmem, heq⟩ | ⟨r, heap, hnew, heq⟩
  · have hsame : vm'.Leads { vm' with heap := (vm'.heap.intern id c text).2 } := by
      rw [heq]
      exact .refl hleads'.whole
    refine (yields_modifyGet hsame).imp fun {_ _} _ hr => ?_
    obtain ⟨rfl, rfl⟩ := hr
    rw [heq]
    exact hleads'.whole.closed.interned hmem
  · have halloc := hleads'.whole.leads_newString hc text
    have hadmits : (vm'.heap.newString id c text).2.Admits
        (.ref (vm'.heap.newString id c text).1) := Heap.admits_alloc _ _
    rw [hnew] at halloc hadmits
    have hinterned : vm'.Leads { vm' with heap := (vm'.heap.intern id c text).2 } := by
      rw [heq]
      exact halloc.trans (halloc.whole.leads_interned hadmits text)
    refine (yields_modifyGet hinterned).imp fun {_ _} _ hr => ?_
    obtain ⟨rfl, rfl⟩ := hr
    rw [heq]
    exact hadmits

/-! ## Elements and fields -/

theorem yields_loadElement (r : Ref) (index : Int32) (h : vm.Whole) :
    Yields (loadElement r index) vm Admitted := by
  refine (yields_get h).bind fun {s _} hleads hs => ?_
  subst hs
  refine (yields_ofChecked _ hleads.whole).imp fun {v _} _ hv => ?_
  obtain ⟨rfl, hv⟩ := hv
  exact hleads.whole.closed.load hv

theorem yields_storeElement (r : Ref) (index : Int32) {v : Value} (h : vm.Whole)
    (hv : Admitted v vm) : Proceeds (storeElement r index v) vm := by
  refine (yields_get h).bind fun {s _} hleads hs => ?_
  subst hs
  refine (yields_ofChecked _ hleads.whole).bind fun {heap _} _ hstore => ?_
  obtain ⟨rfl, hstore⟩ := hstore
  obtain ⟨element, i, rfl⟩ := Heap.store_eq_ok hstore
  have hv' := Heap.Admits.narrowed (hv.mono hleads) element
  exact (yields_set (hleads.whole.leads_modify r
    (fun o => Heap.sameShape_setElement o i _)
    fun _ ho => Heap.Holds.setElement ho hv' i)).imp fun _ _ => trivial

theorem yields_setField (r : Ref) (declaring : ClassId) (name : String) {v : Value}
    (h : vm.Whole) (hv : Admitted v vm) :
    Proceeds (setField r declaring name v) vm := by
  refine yields_bind h fun hleads => ?_
  refine (yields_get hleads.whole).bind fun {s _} hleads' hs => ?_
  subst hs
  refine (yields_ofExcept _ hleads'.whole).bind fun {heap _} _ hset => ?_
  obtain ⟨rfl, hset⟩ := hset
  obtain ⟨slot, rfl⟩ := Heap.setField_eq_ok hset
  have hv' := hv.mono (hleads.trans hleads')
  exact (yields_set (hleads'.whole.leads_modify r
    (fun o => Heap.sameShape_setField o slot _)
    fun _ ho => Heap.Holds.setField ho hv' slot)).imp fun _ _ => trivial

instance (r : Ref) : Guards (classOf r) := (reads_classOf r).guards

instance (r : Ref) : Guards (classOfObject r) := (reads_classOfObject r).guards

instance (r : Ref) (index : Int32) : Guards (loadElement r index) :=
  (reads_loadElement r index).guards

/-! ## Pool entries -/

/-- If the entry is a literal, the machine admits its value. -/
def Carried (r : Resolved) (vm : Vm) : Prop := ∀ v, r = .value v → Admitted v vm

theorem yields_resolve {follow : Exec Resolved}
    (hfollow : ∀ {vm : Vm}, vm.Whole → Yields follow vm Carried) (id : ClassId)
    (index : UInt16) (use : PoolUse) (h : vm.Whole) :
    Yields (resolve id index use follow) vm Carried := by
  have hkeep (outcome : Except Fault Resolved) {vm : Vm} (hvm : vm.Whole)
      (houtcome : ∀ r, outcome = .ok r → Carried r vm) :
      Proceeds (keep id index use outcome) vm := by
    refine ⟨hvm.leads_modifyStatus id fun s hs => ⟨hs.statics, ?_⟩, fun _ => trivial⟩
    intro i use' v hr
    rw [Array.getElem?_setIfInBounds] at hr
    split at hr
    · split at hr <;> cases hr
      exact houtcome _ rfl v rfl
    · exact hs.literals hr
  refine (yields_statusAt id h).bind fun {s _} hleads hs => ?_
  cases hkept : kept s index use with
  | otherUse => exact hfollow hleads.whole
  | nothing =>
      refine (hfollow hleads.whole).attempt.bind fun {outcome _} hleads' houtcome => ?_
      refine (hkeep outcome hleads'.whole houtcome).bind fun hleads'' _ => ?_
      refine (yields_ofExcept _ hleads''.whole).imp fun {r _} _ hr v hv => ?_
      obtain ⟨rfl, hr⟩ := hr
      exact (houtcome r hr v hv).mono hleads''
  | outcome o =>
      refine (yields_ofExcept _ hleads.whole).imp fun {r _} _ hr v hv => ?_
      obtain ⟨rfl, rfl⟩ := hr
      subst hv
      unfold kept at hkept
      split at hkept
      · contradiction
      · contradiction
      · rename_i resolution hresolution
        split at hkept
        · obtain ⟨use', outcome⟩ := resolution
          cases hkept
          exact (hleads.whole.registry _ _ hs).literals hresolution
        · contradiction

theorem yields_followClass (id : ClassId) (index : UInt16) (h : vm.Whole) :
    Yields (followClass id index) vm Carried := by
  refine yields_bind h fun hleads => ?_
  refine yields_bind hleads.whole fun hleads' => ?_
  refine yields_bind hleads'.whole fun hleads'' => ?_
  exact yields_pure hleads''.whole nofun

theorem yields_followField (id : ClassId) (index : UInt16) (h : vm.Whole) :
    Yields (followField id index) vm Carried := by
  refine yields_bind h fun hleads => ?_
  refine yields_bind hleads.whole fun {ref _} hleads' => ?_
  refine yields_bind hleads'.whole fun {owner _} hleads'' => ?_
  refine yields_bind hleads''.whole fun {s _} hleads₃ => ?_
  cases s.registry.classes.findField? ref.name ref.descriptor owner with
  | none => exact yields_fault _ hleads₃.whole
  | some f => exact yields_pure hleads₃.whole nofun

theorem yields_followMethod (id : ClassId) (index : UInt16) (tags : List ClassFile.Tag)
    (h : vm.Whole) : Yields (followMethod id index tags) vm Carried := by
  refine yields_bind h fun hleads => ?_
  refine yields_bind hleads.whole fun {ref _} hleads' => ?_
  refine yields_bind hleads'.whole fun {owner _} hleads'' => ?_
  refine yields_bind hleads''.whole fun {c _} hleads₃ => ?_
  split
  · exact yields_fault _ hleads₃.whole
  · refine yields_bind hleads₃.whole fun {s _} hleads₄ => ?_
    cases s.registry.classes.findMethod? owner ref.name ref.descriptor with
    | none => exact yields_fault _ hleads₄.whole
    | some m => exact yields_pure hleads₄.whole nofun

theorem carried_of_harmless (v : Value) [v.Harmless] (vm : Vm) : Carried (.value v) vm := by
  rintro _ ⟨⟩
  exact vm.heap.admits_of_harmless v

theorem yields_followLiteral (id : ClassId) (index : UInt16) (h : vm.Whole) :
    Yields (followLiteral id index) vm Carried := by
  refine yields_bind h fun hleads => ?_
  refine yields_bind hleads.whole fun {constant _} hleads' => ?_
  cases constant with
  | integer | float | long | double =>
      exact yields_pure hleads'.whole (carried_of_harmless _ _)
  | string i =>
      refine yields_bind hleads'.whole fun {text _} hleads'' => ?_
      refine (yields_intern text hleads''.whole).bind fun hleads₃ hr => ?_
      apply yields_pure hleads₃.whole
      rintro _ ⟨⟩
      exact hr
  | _ => exact yields_fault _ hleads'.whole

theorem guards_resolved {follow : Exec Resolved}
    (hfollow : ∀ {vm : Vm}, vm.Whole → Yields follow vm Carried) (id : ClassId)
    (index : UInt16) (use : PoolUse) {g : Resolved → Exec α} (hg : ∀ r, Guards (g r)) :
    Guards (resolve id index use follow >>= g) :=
  .of_proceeds fun h => (yields_resolve hfollow id index use h).bind fun {r _} hleads _ =>
    have := hg r
    yields_of_guards hleads.whole

instance (id : ClassId) (index : UInt16) : Guards (resolveClass id index) := by
  refine guards_resolved (yields_followClass id index) id index _ fun r => ?_
  cases r <;> infer_instance

instance (id : ClassId) (index : UInt16) : Guards (resolveField id index) := by
  refine guards_resolved (yields_followField id index) id index _ fun r => ?_
  cases r <;> infer_instance

instance (id : ClassId) (index : UInt16) : Guards (resolveMethod id index) := by
  refine guards_resolved (yields_followMethod id index _) id index _ fun r => ?_
  cases r <;> infer_instance

instance (id : ClassId) (index : UInt16) : Guards (resolveInterfaceMethod id index) := by
  refine guards_resolved (yields_followMethod id index _) id index _ fun r => ?_
  cases r <;> infer_instance

theorem yields_literal (id : ClassId) (index : UInt16) (h : vm.Whole) :
    Yields (literal id index) vm Admitted := by
  refine (yields_resolve (yields_followLiteral id index) id index _ h).bind
    fun {r _} hleads hr => ?_
  cases r with
  | value v => exact yields_pure hleads.whole (hr v rfl)
  | _ => exact yields_throw _ hleads.whole

theorem yields_unsupported (text : String) {Q : α → Vm → Prop} (h : vm.Whole) :
    Yields (unsupported text) vm Q :=
  yields_bind h fun hleads => yields_fault _ hleads.whole

/-! ## Arrays -/

theorem yields_pushArray {id : ClassId} (h : vm.Whole) (hid : NamesArray id vm) :
    Proceeds (pushArray id) vm := by
  refine yields_bind h fun hleads => ?_
  refine (yields_allocArray _ hleads.whole (hid.mono hleads)).bind fun hleads' hr => ?_
  exact yields_push hleads'.whole hr

theorem isArrayName_of_baseArrayName? {code : UInt8} {name : String}
    (h : baseArrayName? code = some name) : isArrayName name = true := by
  unfold baseArrayName? at h
  split at h <;> cases h <;> rfl

instance (a : Ref) (v : Value) : Guards (checkElement a v) := by
  unfold checkElement
  have hcheck (ac : Class) (vid : ClassId) : Guards
      (match ac.component? with
        | none => return
        | some component => do
          if (← get).registry.classes.isAssignable vid component then return
          else fault (.arrayStore (← classAt vid).name ac.name) : Exec Unit) := by
    cases ac.component? <;> dsimp only <;> infer_instance
  infer_instance

instance (op : Code.ArrayOp) : Guards (array op) := by
  refine .of_proceeds fun {vm} h => ?_
  cases op with
  | load =>
      refine yields_bind h fun {index _} hleads => ?_
      refine yields_bind hleads.whole fun {r _} hleads' => ?_
      refine (yields_loadElement r index hleads'.whole).bind fun hleads'' hv => ?_
      exact yields_push hleads''.whole hv
  | store =>
      refine (yields_given _ h).bind fun {v _} hleads hv => ?_
      refine yields_bind hleads.whole fun {index _} hleads' => ?_
      refine yields_bind hleads'.whole fun {r _} hleads'' => ?_
      exact yields_storeElement r index hleads''.whole (hv.mono (hleads'.trans hleads''))
  | storeRef =>
      refine (yields_given _ h).bind fun {v _} hleads hv => ?_
      refine yields_bind hleads.whole fun {index _} hleads' => ?_
      refine yields_bind hleads'.whole fun {r _} hleads'' => ?_
      refine yields_bind hleads''.whole fun hleads₃ => ?_
      refine yields_bind hleads₃.whole fun hleads₄ => ?_
      have hkept := ((hleads'.trans hleads'').trans hleads₃).trans hleads₄
      exact yields_storeElement r index hleads₄.whole (hv.mono hkept)
  | length =>
      unfold array
      exact yields_of_guards h
  | create =>
      refine yields_bind h fun {code _} hleads => ?_
      cases hname : baseArrayName? code with
      | none => exact yields_of_guards hleads.whole
      | some name =>
          have harray := isArrayName_of_baseArrayName? hname
          refine (yields_loadArray harray hleads.whole).bind fun hleads' hid => ?_
          exact yields_pushArray hleads'.whole hid
  | createRefs =>
      refine yields_bind h fun {index _} hleads => ?_
      refine yields_bind hleads.whole fun {owner _} hleads' => ?_
      refine yields_bind hleads'.whole fun {element _} hleads'' => ?_
      refine (yields_arrayOf element hleads''.whole).bind fun hleads₃ hid => ?_
      exact yields_pushArray hleads₃.whole hid
  | createNested => exact yields_unsupported _ h

/-! ## Fields and objects -/

instance : Guards instanceField := by
  unfold instanceField
  infer_instance

theorem yields_fieldHolder (f : Field) (r : Ref) (h : vm.Whole) :
    Yields (fieldHolder f r) vm fun o vm' => o.Holds vm'.heap.Admits := by
  refine (yields_get h).bind fun {s _} hleads hs => ?_
  subst hs
  cases hget : s.heap.get? r with
  | none => exact yields_fault _ hleads.whole
  | some o =>
      dsimp only
      refine yields_bind hleads.whole fun hleads' => ?_
      split
      · have ho := hleads.whole.closed.get? hget
        exact yields_pure hleads'.whole (Heap.Holds.mono ho fun _ hv => hv.mono hleads'.heap)
      · exact yields_fault _ hleads'.whole

instance (f : Field) (r : Ref) : Guards (fieldHolder f r) := .of_yields (yields_fieldHolder f r)

instance (v : Value) (index : UInt16) : Guards (castCheck v index) := by
  unfold castCheck
  infer_instance

instance (v : Value) (target : ClassId) : Guards (isInstance v target) := by
  unfold isInstance
  infer_instance

instance (index : UInt16) : Guards (pushLiteral index) := by
  refine .of_proceeds fun h => ?_
  refine yields_bind h fun {id _} hleads => ?_
  refine (yields_literal id index hleads.whole).bind fun hleads' hv => ?_
  exact yields_push hleads'.whole hv

variable {prepare : ClassId → Exec Unit} [hprepare : ∀ id, Guards (prepare id)]

instance : Guards (staticField prepare) := by
  unfold staticField
  infer_instance

instance (op : Code.ObjectOp) : Guards (object prepare op) := by
  refine .of_proceeds fun {vm} h => ?_
  cases op with
  | getStatic =>
      refine yields_bind h fun {f _} hleads => ?_
      refine (yields_getStaticSlot f hleads.whole).bind fun hleads' hv => ?_
      exact yields_push hleads'.whole hv
  | putStatic =>
      refine yields_bind h fun {f _} hleads => ?_
      refine (yields_given _ hleads.whole).bind fun {v _} hleads' hv => ?_
      exact yields_setStaticSlot f hleads'.whole hv
  | getField =>
      refine yields_bind h fun {f _} hleads => ?_
      refine yields_bind hleads.whole fun {r _} hleads' => ?_
      refine (yields_fieldHolder f r hleads'.whole).bind fun hleads'' ho => ?_
      exact yields_push hleads''.whole (Heap.admits_getD ho.1 f.slot)
  | putField =>
      refine yields_bind h fun {f _} hleads => ?_
      refine (yields_given _ hleads.whole).bind fun {v _} hleads' hv => ?_
      refine yields_bind hleads'.whole fun {r _} hleads'' => ?_
      refine yields_bind hleads''.whole fun hleads₃ => ?_
      have hv' := hv.mono (hleads''.trans hleads₃)
      exact (yields_modify (hleads₃.whole.leads_modify r
        (fun o => Heap.sameShape_setField o f.slot _)
        fun _ ho => Heap.Holds.setField ho hv' f.slot)).imp fun _ _ => trivial
  | create =>
      refine yields_bind h fun {index _} hleads => ?_
      refine yields_bind hleads.whole fun {owner _} hleads' => ?_
      refine yields_bind hleads'.whole fun {id _} hleads'' => ?_
      refine yields_bind hleads''.whole fun {c _} hleads₃ => ?_
      dsimp only
      split
      · exact yields_fault_bind _ hleads₃.whole
      · refine yields_bind hleads₃.whole fun hleads₄ => ?_
        refine (yields_allocInstance id hleads₄.whole).bind fun hleads₅ hr => ?_
        exact yields_push hleads₅.whole hr
  | _ =>
      unfold object
      exact yields_of_guards h

/-! ## Calls -/

theorem yields_enter {f : Frame} (h : vm.Whole) (hf : f.Holds vm.heap.Admits) :
    Proceeds (enter f) vm := by
  refine ⟨?_, fun _ => trivial⟩
  refine h.leads_of_frames (b := after (enter f) vm) rfl rfl rfl (fun g hg => ?_) h.result
  rcases List.mem_cons.mp hg with rfl | hg
  · exact hf
  · exact h.frames g hg

instance : Guards checkDepth := by
  unfold checkDepth
  infer_instance

theorem yields_takeOperands (m : Method) (body : ClassFile.Body) (h : vm.Whole) :
    Yields (onFrame (.takeOperands m body)) vm fun locals vm' =>
      (Frame.enter m body locals).Holds vm'.heap.Admits := by
  have hP := vm.heap.lenient_admits
  refine (yields_onFrame (P := fun locals => (Frame.enter m body locals).Holds vm.heap.Admits) h
    (fun hf => FrameM.Atomic.after (x := .takeOperands m body) hf fun _ _ hok =>
      (takeOperands_holds hP hf hok).1)
    fun hf hok => (takeOperands_holds hP hf hok).2).imp ?_
  rintro locals vm' - ⟨hheap, hlocals⟩
  rwa [hheap]

instance (m : Method) : Guards (call m) := by
  refine .of_proceeds fun {vm} h => ?_
  unfold call
  dsimp only
  split
  · exact yields_fault_bind _ h
  · cases m.body? with
    | none => exact yields_fault _ h
    | some body =>
        dsimp only
        split
        · exact yields_fault_bind _ h
        · refine yields_bind h fun hleads => ?_
          refine (yields_takeOperands m body hleads.whole).bind fun hleads' hlocals => ?_
          exact yields_enter hleads'.whole hlocals

instance (m : Method) : Guards (receiver m) := by
  unfold receiver
  infer_instance

instance (m : Method) : Guards (checkInstanceMethod m) := by
  unfold checkInstanceMethod
  infer_instance

instance (m : Method) : Guards (specialTarget m) := by
  have htarget (target? : Option Method) : Guards
      (match target? with
        | some target => return target
        | none => fault (.noSuchMethod m.render) : Exec Method) := by
    cases target? <;> dsimp only <;> infer_instance
  unfold specialTarget
  infer_instance

instance (m : Method) (v : Value) : Guards (selectMethod m v) := by
  refine .of_proceeds fun h => ?_
  refine yields_bind h fun {rc _} hleads => ?_
  refine yields_bind hleads.whole fun {f _} hleads' => ?_
  refine yields_bind hleads'.whole fun {s _} hleads'' => ?_
  refine yields_bind hleads''.whole fun hleads₃ => ?_
  split
  · exact yields_of_guards hleads₃.whole
  · refine yields_bind hleads₃.whole fun {c _} hleads₄ => ?_
    cases c.vtable.lookup? m.name m.descriptor <;> exact yields_of_guards hleads₄.whole

instance (m : Method) (v : Value) : Guards (dispatch m v) := by
  unfold dispatch
  infer_instance

instance (op : Code.InvokeOp) : Guards (invoke prepare op) := by
  cases op with
  | interface =>
      refine .of_proceeds fun h => ?_
      refine yields_bind h fun {index _} hleads => ?_
      refine yields_bind hleads.whole fun hleads' => ?_
      refine yields_bind hleads'.whole fun hleads'' => ?_
      exact yields_of_guards hleads''.whole
  | _ =>
      unfold invoke
      infer_instance

/-! ## One instruction -/

theorem yields_leaveFrame {v? : Option Value} (h : vm.Whole)
    (hv : ∀ v, v? = some v → Admitted v vm) : Proceeds (leaveFrame v?) vm := by
  refine ⟨?_, fun _ => trivial⟩
  refine h.leads_of_frames (b := after (leaveFrame v?) vm) rfl rfl rfl
    (fun f hf => h.frames f (List.mem_of_mem_drop hf)) ?_
  cases v? with
  | none => exact Heap.admits_of_harmless _ .top
  | some v => exact hv v rfl

instance (op : Code.Operation) : Guards (perform prepare op) := by
  refine .of_proceeds fun {vm} h => ?_
  cases op with
  | data op => exact yields_of_guards (x := onFrame (.data op)) h
  | jump op => exact yields_of_guards (x := onFrame (.jump op)) h
  | wide => exact yields_of_guards (x := onFrame .widened) h
  | array op => exact yields_of_guards (x := array op) h
  | object op => exact yields_of_guards (x := object prepare op) h
  | invoke op => exact yields_of_guards (x := invoke prepare op) h
  | returnValue =>
      refine (yields_given _ h).bind fun {v _} hleads hv => ?_
      exact yields_leaveFrame hleads.whole (by rintro _ ⟨⟩; exact hv)
  | returnVoid => exact yields_leaveFrame h nofun

instance : Guards (step prepare) := by
  refine .of_proceeds fun {vm} h => ?_
  refine yields_bind h fun hleads => ?_
  refine yields_bind hleads.whole fun {byte _} hleads' => ?_
  dsimp only
  cases hop : (⟨byte⟩ : Code.Opcode).operation? with
  | none => exact yields_unsupported _ hleads'.whole
  | some op => exact yields_of_guards hleads'.whole

end Exec

end ClassEngine.Machine
