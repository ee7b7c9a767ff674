import ClassEngine.Proofs.Machine.Entries
import ClassEngine.Proofs.Machine.LoadOrder
import ClassEngine.Proofs.Machine.PlainRoot
import ClassEngine.Proofs.Machine.RegistryLaw

/-!
# The search for a field

The search visits a class and all its supertypes, and of each it only looks at the first
field of the name.  So it finds a field of the name and the descriptor exactly if one of
these classes has it as the first of its name.  What is found for a pool entry stays the
same when classes are added.
-/

namespace ClassEngine.Machine

/-- The field of the name that the class is asked for has the descriptor. -/
def Class.Offers (c : Class) (name descriptor : String) : Prop :=
  ∃ f, c.declaredField? name = some f ∧ f.descriptor = descriptor

theorem Class.offers_of_first {c : Class} {f : Field} {before after : List Field}
    (hfields : c.fields = before ++ f :: after) (hfirst : ∀ g ∈ before, g.name ≠ f.name) :
    c.Offers f.name f.descriptor := by
  refine ⟨f, ?_, rfl⟩
  rw [declaredField?, hfields, List.find?_append]
  have hbefore : before.find? (·.name = f.name) = none := by simpa using hfirst
  simp [hbefore]

namespace Classes

def DirectSupertype (cs : Classes) (id k : ClassId) : Prop :=
  cs.super? id = some k ∨ k ∈ cs.interfaces id

/-- The class itself, its superclasses, and the superinterfaces of these. -/
abbrev Supertype (cs : Classes) : ClassId → ClassId → Prop :=
  Relation.ReflTransGen cs.DirectSupertype

def Downward (cs : Classes) : Prop := ∀ {id k : ClassId}, cs.DirectSupertype id k → k < id

variable {cs cs' : Classes} {id k : ClassId} {c : Class} {f : Field} {name descriptor : String}

theorem lt_of_directSupertype (h : cs.DirectSupertype id k) : id < cs.size := by
  rcases h with hs | hi
  · cases hc : cs[id]? with
    | none => simp [super?, hc] at hs
    | some c => exact (Array.getElem?_eq_some_iff.mp hc).1
  · exact lt_of_mem_interfaces hi

theorem Continues.directSupertype_iff (h : Continues cs cs') (hid : id < cs.size) :
    cs'.DirectSupertype id k ↔ cs.DirectSupertype id k := by
  unfold DirectSupertype
  rw [h.super? hid, h.interfaces hid]

def ownField? (c : Class) (name descriptor : String) : Option Field :=
  (c.declaredField? name).filter fun f => descriptor = "" || f.descriptor = descriptor

theorem findField?_eq (hdown : ∀ {k : ClassId}, cs.DirectSupertype id k → k < id)
    (hc : cs[id]? = some c) :
    cs.findField? name descriptor id =
      (ownField? c name descriptor).or
        (((cs.interfaces id).findSome? (cs.findField? name descriptor)).or
          ((cs.super? id).bind (cs.findField? name descriptor))) := by
  have hinterfaces : cs.interfaces id = c.interfaces := by simp [interfaces, hc]
  have hsuper : cs.super? id = c.super? := by simp [super?, hc]
  have hvisit : (c.interfaces.findSome? fun i =>
      if i < id then cs.findField? name descriptor i else none) =
      c.interfaces.findSome? (cs.findField? name descriptor) := by
    refine findSome?_congr fun i hi => ?_
    rw [if_pos (hdown (.inr (hinterfaces ▸ hi)))]
  rw [hinterfaces, hsuper, findField?, hc]
  dsimp only
  rw [hvisit, ← ownField?]
  cases ownField? c name descriptor with
  | some f => rfl
  | none =>
      cases c.interfaces.findSome? (cs.findField? name descriptor) with
      | some f => rfl
      | none =>
          cases hs : c.super? with
          | none => rfl
          | some s =>
              have hlt : s < id := hdown (.inl (hsuper.trans hs))
              simp [hlt]

theorem findField?_of_out_of_range (hc : cs[id]? = none) :
    cs.findField? name descriptor id = none := by
  rw [findField?, hc]

theorem findField?_sound (hdown : cs.Downward) (hf : cs.findField? name descriptor id = some f) :
    f.name = name ∧ (descriptor = "" ∨ f.descriptor = descriptor) := by
  induction id using Nat.strongRecOn with
  | ind id ih =>
      cases hc : cs[id]? with
      | none =>
          rw [findField?_of_out_of_range hc] at hf
          cases hf
      | some c =>
          rw [findField?_eq hdown hc] at hf
          rcases Option.or_eq_some_iff.mp hf with hown | ⟨-, hf⟩
          · obtain ⟨hdeclared, hdescriptor⟩ := Option.filter_eq_some_iff.mp hown
            have hname := List.find?_some hdeclared
            exact ⟨by simpa using hname, by simpa using hdescriptor⟩
          · rcases Option.or_eq_some_iff.mp hf with hinterface | ⟨-, hsuper⟩
            · obtain ⟨i, hi, hfound⟩ := List.exists_of_findSome?_eq_some hinterface
              exact ih i (hdown (.inr hi)) hfound
            · obtain ⟨s, hs, hfound⟩ := Option.bind_eq_some_iff.mp hsuper
              exact ih s (hdown (.inl hs)) hfound

theorem findField?_complete (hdown : cs.Downward) (hk : cs.Supertype id k)
    (hc : cs[k]? = some c) (hoffers : c.Offers name descriptor) :
    (cs.findField? name descriptor id).isSome := by
  induction hk using Relation.ReflTransGen.head_induction_on with
  | refl =>
      obtain ⟨f, hdeclared, rfl⟩ := hoffers
      rw [findField?_eq hdown hc, ownField?, hdeclared]
      simp
  | @head id j hstep _ ih =>
      rw [findField?_eq hdown (Array.getElem?_eq_getElem (lt_of_directSupertype hstep))]
      rcases hstep with hs | hi
      · simp [hs, ih]
      · have hfound : ((cs.interfaces id).findSome? (cs.findField? name descriptor)).isSome :=
          List.findSome?_isSome_iff.mpr ⟨j, hi, ih⟩
        simp [hfound]

theorem Continues.findField? (h : Continues cs cs') (hdown : cs.Downward) (hid : id < cs.size) :
    cs'.findField? name descriptor id = cs.findField? name descriptor id := by
  induction id using Nat.strongRecOn with
  | ind id ih =>
      have hc : cs[id]? = some cs[id] := Array.getElem?_eq_getElem hid
      have hdown' {j : ClassId} (hj : cs'.DirectSupertype id j) : j < id :=
        hdown ((h.directSupertype_iff hid).mp hj)
      have hbelow {j : ClassId} (hj : cs.DirectSupertype id j) :
          cs'.findField? name descriptor j = cs.findField? name descriptor j :=
        ih j (hdown hj) (Nat.lt_trans (hdown hj) hid)
      rw [findField?_eq hdown' (h id _ hc), findField?_eq hdown hc, h.interfaces hid, h.super? hid]
      congr 2
      · exact findSome?_congr fun i hi => hbelow (.inr hi)
      · exact Option.bind_congr fun s hs => hbelow (.inl hs)

end Classes

theorem Registry.Coherent.downward {src : Search.Source} {reg : Registry} (h : reg.Coherent src) :
    reg.classes.Downward := by
  rintro id k (hs | hi)
  · exact h.super?_lt id k hs
  · exact h.descending hi

/-! ## Entries for fields -/

namespace Exec

variable {vm vm' vm'' : Vm} {id owner : ClassId} {index : UInt16} {c : Class}
  {ref : ClassFile.Member} {s : ClassStatus} {f : Field}

theorem lasting_downward : Lasting fun reg => reg.classes.Downward := by
  intro reg reg' hgrows hdown id k hk
  have hid := Classes.lt_of_directSupertype hk
  exact hdown ((hgrows.continues.directSupertype_iff hid).mpr hk)

/-- Searching the class `className` for a field, under the text `text`. -/
def searchField (className name descriptor text : String) : Exec Resolved := do
  let owner ← loadClass className
  match (← get).registry.classes.findField? name descriptor owner with
  | some f => return .field f
  | none => fault (.noSuchField text)

theorem searchField_of_loaded {className name descriptor text : String}
    (hload : loadClass className vm = .ok owner vm') :
    searchField className name descriptor text vm =
      match vm'.registry.classes.findField? name descriptor owner with
      | some f => .ok (.field f) vm'
      | none => .error (.fault (.noSuchField text)) vm' := by
  rw [searchField, bind_of_ok hload, bind_of_ok (get_apply vm')]
  cases vm'.registry.classes.findField? name descriptor owner <;> rfl

theorem repeatable_searchField (className name descriptor text : String) :
    Repeatable (fun reg => reg.classes.Downward)
      (searchField className name descriptor text) := by
  constructor
  · refine (local_loadClass className).bind fun owner => local_get.bind fun vm => ?_
    cases vm.registry.classes.findField? name descriptor owner with
    | some f => exact local_pure _
    | none => exact local_fault _ rfl
  · intro vm vm' vm'' outcome hdown h hgrows
    have hrepeat := repeatable_loadClass (P := fun _ => True) className
    cases hload : loadClass className vm with
    | error stop vm₁ =>
        rw [searchField, attempt_bind_of_error hload] at h
        cases stop with
        | fault e =>
            cases h
            have hfirst : attempt (loadClass className) vm = .ok (.error e) vm' := by
              rw [attempt_apply, hload]
            have hagain := fault_of_attempt (hrepeat.again trivial hfirst hgrows)
            rw [searchField, attempt_bind_of_error hagain]
            rfl
        | _ => cases h
    | ok owner vm₁ =>
        have howner : owner < vm₁.registry.classes.size := loadClass_lt className _ _ _ hload
        have hfirst : attempt (loadClass className) vm = .ok (.ok owner) vm₁ := by
          rw [attempt_apply, hload]
        rw [attempt_apply, searchField_of_loaded hload] at h
        cases hf : vm₁.registry.classes.findField? name descriptor owner with
        | some f | none =>
            rw [hf] at h
            cases h
            have hagain := ok_of_attempt (hrepeat.again trivial hfirst hgrows)
            rw [attempt_apply, searchField_of_loaded hagain,
              hgrows.continues.findField? hdown howner, hf]

theorem followField_eq (id : ClassId) (index : UInt16) :
    followField id index = (do
      let c ← classAt id
      let ref ← entry (c.pool.member index [.fieldRef])
      searchField ref.owner ref.name ref.descriptor ref.render : Exec Resolved) := rfl

theorem repeatable_resolveField (id : ClassId) (index : UInt16) :
    Repeatable (fun reg => reg.classes.Downward) (resolveField id index) := by
  have hfollow : Repeatable (fun reg => reg.classes.Downward) (followField id index) := by
    rw [followField_eq]
    exact .bind lasting_downward (repeatable_classAt id) fun _ =>
      .bind lasting_downward (repeatable_entry _) fun ref =>
        repeatable_searchField ref.owner ref.name ref.descriptor ref.render
  refine .bind lasting_downward (resolve_again (follows_followField id index) hfollow) fun r => ?_
  cases r with
  | field f => exact repeatable_pure f
  | _ => exact repeatable_undefined

theorem followField_of_found (hc : vm.registry.classes[id]? = some c)
    (hentry : c.pool.member index [.fieldRef] = .ok ref)
    (hload : loadClass ref.owner vm = .ok owner vm')
    (hf : vm'.registry.classes.findField? ref.name ref.descriptor owner = some f) :
    followField id index vm = .ok (.field f) vm' := by
  have hmember : entry (c.pool.member index [.fieldRef]) vm = .ok ref vm := by
    rw [hentry]
    rfl
  rw [followField_eq, bind_of_ok (classAt_apply_of_some hc), bind_of_ok hmember,
    searchField_of_loaded hload, hf]

theorem resolveField_of_follow (hs : vm.registry.status? id = some s)
    (hkept : ∀ o, kept s index .field ≠ .outcome o)
    (hfollow : followField id index vm = .ok (.field f) vm') :
    ∃ vm'', resolveField id index vm = .ok f vm'' := by
  obtain ⟨vm'', hresolve⟩ : ∃ vm'',
      resolve id index .field (followField id index) vm = .ok (.field f) vm'' := by
    rw [resolve_apply, hs]
    dsimp only
    cases hcase : kept s index .field with
    | outcome o => exact absurd hcase (hkept o)
    | otherUse => exact ⟨vm', hfollow⟩
    | nothing =>
        have hattempt : attempt (followField id index) vm = .ok (.ok (.field f)) vm' := by
          rw [attempt_apply, hfollow]
        exact ⟨_, bind_of_ok hattempt⟩
  refine ⟨vm'', ?_⟩
  rw [resolveField, bind_of_ok hresolve]
  rfl

/-- A use of an entry that has no outcome yet gives a field with the name and the descriptor if a
supertype of the class that it names offers one, and so does every later use. -/
theorem resolveField_complete (hcoherent : vm.registry.Coherent vm.source)
    (hc : vm.registry.classes[id]? = some c) (hs : vm.registry.status? id = some s)
    (hkept : ∀ o, kept s index .field ≠ .outcome o)
    (hentry : c.pool.member index [.fieldRef] = .ok ref) (hdescriptor : ref.descriptor ≠ "")
    (hload : loadClass ref.owner vm = .ok owner vm') {k : ClassId} {d : Class}
    (hk : vm'.registry.classes.Supertype owner k) (hd : vm'.registry.classes[k]? = some d)
    (hoffers : d.Offers ref.name ref.descriptor) :
    ∃ f vm'', resolveField id index vm = .ok f vm'' ∧ f.name = ref.name ∧
      f.descriptor = ref.descriptor ∧
        ∀ later : Vm, vm''.registry.Grows later.registry →
          resolveField id index later = .ok f later := by
  have hloaded : vm'.registry.Coherent vm'.source :=
    ((fetches_loadClass _).isLocal.has steady_keepsRegistry).ok hload |>.2.2 hcoherent
  obtain ⟨f, hf⟩ := Option.isSome_iff_exists.mp
    (Classes.findField?_complete hloaded.downward hk hd hoffers)
  obtain ⟨hname, hfdescriptor⟩ := Classes.findField?_sound hloaded.downward hf
  obtain ⟨vm'', hresolve⟩ :=
    resolveField_of_follow hs hkept (followField_of_found hc hentry hload hf)
  refine ⟨f, vm'', hresolve, hname, hfdescriptor.resolve_left hdescriptor, ?_⟩
  intro later hgrows
  have hcoherent'' : vm''.registry.Coherent vm''.source :=
    ((local_resolveField id index).has steady_keepsRegistry).ok hresolve |>.2.2 hcoherent
  have hfirst : attempt (resolveField id index) vm = .ok (.ok f) vm'' := by
    rw [attempt_apply, hresolve]
  exact ok_of_attempt
    ((repeatable_resolveField id index).again hcoherent''.downward hfirst hgrows)

end Exec

/-! ## Sessions -/

/-- Of the classes of any session, the search finds a field with the name and the descriptor if
the class or one of its supertypes offers one.  Then resolving an entry that refers to it also
gives such a field. -/
theorem field_search_complete (source? : Option Search.Source) (maxFrames : Int)
    (profiler? : Option (Profiler MethodId)) (calls : List HostCall) :
    let cs := ((Vm.start source? maxFrames profiler?).answer calls).registry.classes
    (∀ (id k : ClassId) (d : Class) (name descriptor : String), descriptor ≠ "" →
      cs.Supertype id k → cs[k]? = some d → d.Offers name descriptor →
        ∃ f, cs.findField? name descriptor id = some f ∧ f.name = name ∧
          f.descriptor = descriptor) ∧
    ∀ (vm vm' : Vm) (id owner k : ClassId) (c d : Class) (s : ClassStatus) (index : UInt16)
      (ref : ClassFile.Member), vm.registry.Coherent vm.source →
        vm.registry.classes[id]? = some c → vm.registry.status? id = some s →
        (∀ o, Exec.kept s index .field ≠ .outcome o) →
        c.pool.member index [.fieldRef] = .ok ref → ref.descriptor ≠ "" →
        Exec.loadClass ref.owner vm = .ok owner vm' → vm'.registry.classes.Supertype owner k →
        vm'.registry.classes[k]? = some d → d.Offers ref.name ref.descriptor →
          ∃ f vm'', Exec.resolveField id index vm = .ok f vm'' ∧ f.name = ref.name ∧
            f.descriptor = ref.descriptor ∧
              ∀ later : Vm, vm''.registry.Grows later.registry →
                Exec.resolveField id index later = .ok f later := by
  intro cs
  have hcoherent := Vm.coherent_start source? maxFrames profiler? calls
  constructor
  · intro id k d name descriptor hdescriptor hk hd hoffers
    obtain ⟨f, hf⟩ := Option.isSome_iff_exists.mp
      (Classes.findField?_complete hcoherent.downward hk hd hoffers)
    obtain ⟨hname, hfdescriptor⟩ := Classes.findField?_sound hcoherent.downward hf
    exact ⟨f, hf, hname, hfdescriptor.resolve_left hdescriptor⟩
  · intro vm vm' id owner k c d s index ref hvm hc hs hkept hentry hdescriptor hload hk hd hoffers
    exact Exec.resolveField_complete hvm hc hs hkept hentry hdescriptor hload hk hd hoffers

/-! ## Two fields of one name -/

namespace TwoFields

def rootFile : List UInt8 := [
  0xca, 0xfe, 0xba, 0xbe, 0x00, 0x00, 0x00, 0x34, 0x00, 0x06, 0x01, 0x00, 0x10, 0x6a, 0x61, 0x76,
  0x61, 0x2f, 0x6c, 0x61, 0x6e, 0x67, 0x2f, 0x4f, 0x62, 0x6a, 0x65, 0x63, 0x74, 0x07, 0x00, 0x01,
  0x01, 0x00, 0x01, 0x78, 0x01, 0x00, 0x01, 0x49, 0x01, 0x00, 0x01, 0x4a, 0x00, 0x21, 0x00, 0x02,
  0x00, 0x00, 0x00, 0x00, 0x00, 0x02, 0x00, 0x01, 0x00, 0x03, 0x00, 0x04, 0x00, 0x00, 0x00, 0x01,
  0x00, 0x03, 0x00, 0x05, 0x00, 0x00, 0x00, 0x00, 0x00, 0x00]

def heirFile : List UInt8 := [
  0xca, 0xfe, 0xba, 0xbe, 0x00, 0x00, 0x00, 0x34, 0x00, 0x09, 0x01, 0x00, 0x01, 0x41, 0x07, 0x00,
  0x01, 0x01, 0x00, 0x10, 0x6a, 0x61, 0x76, 0x61, 0x2f, 0x6c, 0x61, 0x6e, 0x67, 0x2f, 0x4f, 0x62,
  0x6a, 0x65, 0x63, 0x74, 0x07, 0x00, 0x03, 0x01, 0x00, 0x01, 0x78, 0x01, 0x00, 0x01, 0x49, 0x0c,
  0x00, 0x05, 0x00, 0x06, 0x09, 0x00, 0x02, 0x00, 0x07, 0x00, 0x21, 0x00, 0x02, 0x00, 0x04, 0x00,
  0x00, 0x00, 0x00, 0x00, 0x00, 0x00, 0x00]

def files : Search.Memory :=
  ⟨[(ClassFile.rootClassName, .ok rootFile), ("A", .ok heirFile)]⟩

def vm : Vm := Vm.start (some files.source) 0 none

def narrow : Field :=
  ⟨⟨0, 0⟩, ClassFile.rootClassName, "x", "I", 0x0001, .base .int "I", 0, 0⟩

def wide : Field :=
  ⟨⟨0, 1⟩, ClassFile.rootClassName, "x", "J", 0x0001, .base .long "J", 1, 0⟩

def root : Class :=
  { PlainRoot.root with
    fields := [narrow, wide]
    layout := #[narrow, wide]
    pool := ⟨#[none, some (.utf8 ClassFile.rootClassName), some (.classRef 1), some (.utf8 "x"),
      some (.utf8 "I"), some (.utf8 "J")]⟩ }

def heir : Class :=
  { PlainRoot.root with
    name := "A"
    super? := some 0
    layout := #[narrow, wide]
    pool := ⟨#[none, some (.utf8 "A"), some (.classRef 1), some (.utf8 ClassFile.rootClassName),
      some (.classRef 3), some (.utf8 "x"), some (.utf8 "I"), some (.nameAndType 5 6),
      some (.member .field 2 7)]⟩ }

def withRoot : Registry := (({} : Registry).add root .linked #[]).2

def withHeir : Registry := (withRoot.add heir .linked #[]).2

def loaded : Vm := { vm with registry := withHeir }

theorem load_root : load vm.source ["A"] ClassFile.rootClassName {} = (.ok 0, withRoot) :=
  Registry.load_alone root (by decide) (by decide) (by decide)

theorem load_heir : load vm.source [] "A" {} = (.ok 1, withHeir) := by
  have hgather : gather (load vm.source ["A"]) "A" [⟨.superclass, ClassFile.rootClassName⟩] {} =
      (.ok [0], withRoot) :=
    Registry.gather_cons load_root (by decide) rfl
  exact Registry.load_of_gathered withRoot heir (by with_unfolding_all decide) (by decide)
    (by decide) (by decide) hgather (by with_unfolding_all decide)

theorem answer_load : vm.answer [.request 0 (.load "A")] = loaded :=
  Vm.answer_load 0 load_heir

theorem coherent_loaded : loaded.registry.Coherent loaded.source := by
  have hcoherent := Vm.coherent_start (some files.source) 0 none [.request 0 (.load "A")]
  rwa [show (Vm.start (some files.source) 0 none).answer _ = loaded from answer_load] at hcoherent

theorem supertype_root : loaded.registry.classes.Supertype 1 0 := .single (.inl rfl)

/-- The first of the two fields is inherited. -/
theorem field_search_complete_narrow :
    let cs := (vm.answer [.request 0 (.load "A")]).registry.classes
    (∃ f, cs.findField? "x" "I" 1 = some f ∧ f.name = "x" ∧ f.descriptor = "I") ∧
      ∃ f vm', Exec.resolveField 1 8 loaded = .ok f vm' ∧ f.name = "x" ∧ f.descriptor = "I" := by
  have hcs : (vm.answer [.request 0 (.load "A")]).registry.classes = loaded.registry.classes :=
    congrArg (·.registry.classes) answer_load
  obtain ⟨hsearch, hresolve⟩ :=
    field_search_complete (some files.source) 0 none [.request 0 (.load "A")]
  have hroot : loaded.registry.classes[0]? = some root := rfl
  have hoffers : root.Offers "x" "I" := @Class.offers_of_first root narrow [] [wide] rfl nofun
  have hload : Exec.loadClass "A" loaded = .ok 1 loaded :=
    Exec.loadClass_of_found (by with_unfolding_all decide)
  refine ⟨hsearch 1 0 root "x" "I" (by decide) ?_ ?_ hoffers, ?_⟩
  · exact hcs.symm ▸ supertype_root
  · exact hcs.symm ▸ hroot
  · obtain ⟨f, vm', hf, hname, hdescriptor, -⟩ := hresolve loaded loaded 1 1 0 heir root
      ⟨.linked, #[], Array.replicate 9 none⟩ 8 ⟨.field, "A", "x", "I"⟩ coherent_loaded rfl
      rfl nofun rfl (by decide) hload supertype_root hroot hoffers
    exact ⟨f, vm', hf, hname, hdescriptor⟩

/-- The second one is missed. -/
theorem misses_wide :
    let cs := (vm.answer [.request 0 (.load "A")]).registry.classes
    cs.Supertype 1 0 ∧ cs[0]? = some root ∧ wide ∈ root.fields ∧ wide.name = "x" ∧
      wide.descriptor = "J" ∧ cs.findField? "x" "J" 1 = none := by
  have hdown : loaded.registry.classes.Downward := coherent_loaded.downward
  have hroot : loaded.registry.classes.findField? "x" "J" 0 = none := by
    rw [Classes.findField?_eq hdown (rfl : loaded.registry.classes[0]? = some root)]
    decide
  rw [answer_load]
  refine ⟨supertype_root, rfl, by decide, rfl, rfl, ?_⟩
  rw [Classes.findField?_eq hdown (rfl : loaded.registry.classes[1]? = some heir)]
  exact hroot

end TwoFields

end ClassEngine.Machine
