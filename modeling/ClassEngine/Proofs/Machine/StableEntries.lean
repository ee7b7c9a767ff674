import ClassEngine.Proofs.Machine.Activity
import ClassEngine.Proofs.Machine.FieldSearch

/-!
# Pool entries are stable

A pool entry of a class has an outcome for each use, and it has the same one for that use ever
after.  The outcome of the first use is kept; for another use the entry is followed anew, and then
what was loaded or interned before is found again.
-/

namespace ClassEngine.Machine

namespace Exec

variable {α β : Type}

/-! ## Operations that are stable -/

/-- Done again, whatever the machine has done since, the operation has the same outcome and
changes nothing. -/
structure Stable (x : Exec α) : Prop where
  quiet : Quiet x
  again : ∀ {vm vm' vm'' : Vm} {outcome : Except Fault α}, vm.registry.Coherent vm.source →
    attempt x vm = .ok outcome vm' → Deeds vm' vm'' → attempt x vm'' = .ok outcome vm''

theorem Quiet.coherent {x : Exec α} [Quiet x] {vm vm' : Vm} {a : α}
    (hvm : vm.registry.Coherent vm.source) (h : x vm = .ok a vm') :
    vm'.registry.Coherent vm'.source :=
  coherent_of_deeds (Quiet.ok h).fineDeeds.deeds hvm

theorem Repeatable.stable {P : Registry → Prop} {x : Exec α} [Quiet x] (hx : Repeatable P x)
    (hP : ∀ {reg : Registry} {src : Search.Source}, reg.Coherent src → P reg) : Stable x where
  quiet := inferInstance
  again hvm h hdeeds := hx.again (hP (Quiet.coherent hvm h)) h (grows_of_deeds hdeeds)

theorem Stable.bind {x : Exec α} {f : α → Exec β} (hx : Stable x) (hf : ∀ a, Stable (f a)) :
    Stable (x >>= f) where
  quiet :=
    have := hx.quiet
    quiet_bind fun a => (hf a).quiet
  again := by
    intro vm vm' vm'' outcome hvm h hdeeds
    refine attempt_bind_again (fun {a vm₁} hfirst hnext => ?_)
      (fun hfirst => hx.again hvm hfirst hdeeds) h
    have := hx.quiet
    have := (hf a).quiet
    exact ⟨hx.again hvm hfirst ((Quiet.ok hnext).fineDeeds.deeds.trans hdeeds),
      (hf a).again (Quiet.coherent hvm (ok_of_attempt hfirst)) hnext hdeeds⟩

theorem stable_pure (a : α) : Stable (pure a : Exec α) :=
  (repeatable_pure (P := fun _ => True) a).stable fun _ => trivial

theorem stable_fault (e : Fault) (he : e.isCovered = true) : Stable (fault e : Exec α) :=
  (repeatable_fault (P := fun _ => True) e he).stable fun _ => trivial

theorem stable_entry (e : Except ClassFile.PoolError α) : Stable (entry e) :=
  (repeatable_entry (P := fun _ => True) e).stable fun _ => trivial

theorem stable_classAt (id : ClassId) : Stable (classAt id) :=
  (repeatable_classAt (P := fun _ => True) id).stable fun _ => trivial

theorem stable_loadClass (name : String) : Stable (loadClass name) :=
  (repeatable_loadClass (P := fun _ => True) name).stable fun _ => trivial

/-! ## Literals -/

theorem attempt_intern_apply (id : ClassId) (c : Class) (text : String) (vm : Vm) :
    attempt (modifyGet fun vm =>
        let (r, heap) := vm.heap.intern id c text
        (r, { vm with heap }) : Exec Ref) vm =
      .ok (.ok (vm.heap.intern id c text).1)
        { vm with heap := (vm.heap.intern id c text).2 } := rfl

theorem stable_intern (text : String) : Stable (intern text) := by
  refine (stable_loadClass _).bind fun id => (stable_classAt id).bind fun c => ?_
  constructor
  · exact ⟨fun vm => .single (.intern vm id c text)⟩
  · intro vm vm' vm'' outcome _ h hdeeds
    rw [attempt_intern_apply] at h
    cases h
    have hinterns := interns_of_deeds hdeeds (vm.heap.interns_intern id c text)
    rw [attempt_intern_apply, hinterns.intern_eq id c]

theorem stable_followLiteral (id : ClassId) (index : UInt16) : Stable (followLiteral id index) := by
  refine (stable_classAt id).bind fun c => (stable_entry _).bind fun constant => ?_
  cases constant with
  | integer v | float v | long v | double v => exact stable_pure _
  | string i =>
      refine (stable_entry _).bind fun text => (stable_intern text).bind fun r => ?_
      exact stable_pure _
  | _ => exact stable_fault _ rfl

theorem stable_literal (id : ClassId) (index : UInt16) : Stable (literal id index) := by
  have hfollow := follows_followLiteral id index
  have hresolve : Stable (resolve id index .literal (followLiteral id index)) :=
    { quiet := quiet_resolve id index hfollow (finds_of_follows hfollow (by decide))
        (interning_followLiteral id index)
      again := fun hvm h hdeeds =>
        resolve_again_of hfollow
          (fun hfirst => (stable_followLiteral id index).again hvm hfirst hdeeds) h
          (grows_of_deeds hdeeds) }
  refine hresolve.bind fun r => ?_
  cases r with
  | value v => exact stable_pure v
  | _ => exact (repeatable_undefined (P := fun _ => True)).stable fun _ => trivial

/-! ## Entries have an outcome -/

/-- The operation succeeds or has a fault. -/
def Answers (x : Exec α) (vm : Vm) : Prop := ∃ outcome vm', attempt x vm = .ok outcome vm'

variable {vm vm' : Vm} {id : ClassId} {index : UInt16}

theorem answers_of_ok {x : Exec α} {a : α} (h : x vm = .ok a vm') : Answers x vm :=
  ⟨.ok a, vm', by rw [attempt_apply, h]⟩

theorem answers_of_fault {x : Exec α} {e : Fault} (h : x vm = .error (.fault e) vm') :
    Answers x vm :=
  ⟨.error e, vm', by rw [attempt_apply, h]⟩

theorem Answers.bind {x : Exec α} {f : α → Exec β} (hx : Answers x vm)
    (hf : ∀ a vm', x vm = .ok a vm' → Answers (f a) vm') : Answers (x >>= f) vm := by
  obtain ⟨outcome, vm', h⟩ := hx
  cases outcome with
  | ok a =>
      have hok := ok_of_attempt h
      obtain ⟨outcome, vm'', h'⟩ := hf a vm' hok
      exact ⟨outcome, vm'', by rw [attempt_bind_of_ok hok, h']⟩
  | error e => exact answers_of_fault (bind_of_error (fault_of_attempt h))

theorem answers_entry (e : Except ClassFile.PoolError α) : Answers (entry e) vm := by
  cases e with
  | ok a => exact answers_of_ok rfl
  | error cause => exact answers_of_fault rfl

theorem answers_loadClass (name : String) : Answers (loadClass name) vm := by
  have happly := loadClass_apply name vm
  cases hload : load vm.source [] name vm.registry with
  | mk outcome registry =>
      rw [hload] at happly
      cases outcome with
      | ok id => exact answers_of_ok happly
      | error e => exact answers_of_fault happly

theorem answers_classAt (hid : id < vm.registry.classes.size) :
    Answers (classAt id) vm :=
  answers_of_ok (classAt_apply_of_some (Array.getElem?_eq_getElem hid))

theorem answers_followField (hid : id < vm.registry.classes.size) (index : UInt16) :
    Answers (followField id index) vm := by
  refine (answers_classAt hid).bind fun c vm' _ => (answers_entry _).bind fun ref vm'' _ => ?_
  refine (answers_loadClass ref.owner).bind fun owner vm₁ _ => ?_
  refine (answers_of_ok (get_apply vm₁)).bind fun s vm₂ _ => ?_
  cases s.registry.classes.findField? ref.name ref.descriptor owner with
  | some f => exact answers_of_ok rfl
  | none => exact answers_of_fault rfl

theorem answers_followMethod (hid : id < vm.registry.classes.size) (index : UInt16)
    (tags : List ClassFile.Tag) : Answers (followMethod id index tags) vm := by
  refine (answers_classAt hid).bind fun c vm' _ => (answers_entry _).bind fun ref vm'' _ => ?_
  refine (answers_loadClass ref.owner).bind fun owner vm₁ howner => ?_
  refine (answers_classAt (loadClass_lt _ _ _ _ howner)).bind fun c vm₂ _ => ?_
  split
  · exact answers_of_fault rfl
  · refine (answers_of_ok (get_apply vm₂)).bind fun s vm₃ _ => ?_
    cases s.registry.classes.findMethod? owner ref.name ref.descriptor with
    | some m => exact answers_of_ok rfl
    | none => exact answers_of_fault rfl

theorem answers_intern (text : String) : Answers (intern text) vm := by
  refine (answers_loadClass _).bind fun string vm₁ hstring => ?_
  refine (answers_classAt (loadClass_lt _ _ _ _ hstring)).bind fun c vm₂ _ => ?_
  exact answers_of_ok rfl

theorem answers_followLiteral (hid : id < vm.registry.classes.size) (index : UInt16) :
    Answers (followLiteral id index) vm := by
  refine (answers_classAt hid).bind fun c vm' _ => (answers_entry _).bind fun constant vm'' _ => ?_
  cases constant with
  | integer v | float v | long v | double v => exact answers_of_ok rfl
  | string i =>
      refine (answers_entry _).bind fun text vm₁ _ => (answers_intern text).bind fun r vm₂ _ => ?_
      exact answers_of_ok rfl
  | _ => exact answers_of_fault rfl

/-- What an entry has been resolved to fits the use. -/
theorem sound_of_resolve {use : PoolUse} {follow : Exec Resolved} (hfollow : Follows use follow)
    (hw : vm.registry.WellFormed) {r : Resolved}
    (h : resolve id index use follow vm = .ok r vm') :
    (Resolution.mk use (.ok r)).Sound vm'.registry := by
  rcases resolve_eq_ok h with ⟨s, hs, hkept, rfl⟩ | ⟨vm₁, hfollowed, hclasses, -⟩
  · exact hw.kept hs hkept
  · have hsound := hfollow.sound _ _ _ hfollowed
    unfold Resolution.Sound at hsound ⊢
    rwa [hclasses]

theorem answers_resolve {use : PoolUse} {follow : Exec Resolved} (hw : vm.registry.WellFormed)
    (hid : id < vm.registry.classes.size) (hanswers : Answers follow vm) :
    Answers (resolve id index use follow) vm := by
  obtain ⟨s, hs⟩ := hw.status_of_lt hid
  cases hkept : kept s index use with
  | outcome o =>
      have happly : resolve id index use follow vm = ofExcept o vm := by
        simp only [resolve_apply, hs, hkept]
      exact ⟨o, vm, by rw [attempt_congr happly, attempt_ofExcept]⟩
  | otherUse =>
      have happly : resolve id index use follow vm = follow vm := by
        simp only [resolve_apply, hs, hkept]
      obtain ⟨outcome, vm', h⟩ := hanswers
      exact ⟨outcome, vm', by rw [attempt_congr happly, h]⟩
  | nothing =>
      have happly : resolve id index use follow vm =
          (do
            let outcome ← attempt follow
            keep id index use outcome
            ofExcept outcome : Exec Resolved) vm := by
        simp only [resolve_apply, hs, hkept]
      obtain ⟨outcome, vm', h⟩ := hanswers
      have hkeep : keep id index use outcome vm' = .ok () (after (keep id index use outcome) vm') :=
        rfl
      exact ⟨outcome, _, by
        rw [attempt_congr happly, attempt_bind_of_ok h, attempt_bind_of_ok hkeep,
          attempt_ofExcept]⟩

theorem answers_resolveClass (hw : vm.registry.WellFormed) (hid : id < vm.registry.classes.size)
    (index : UInt16) : Answers (resolveClass id index) vm := by
  obtain ⟨outcome, registry, h, -⟩ := resolveClass_total hw hid index
  exact ⟨outcome, _, h⟩

theorem answers_resolveField (hw : vm.registry.WellFormed) (hid : id < vm.registry.classes.size)
    (index : UInt16) : Answers (resolveField id index) vm := by
  have hfollow := follows_followField id index
  refine (answers_resolve hw hid (answers_followField hid index)).bind fun r vm' h => ?_
  have hsound := sound_of_resolve hfollow hw h
  cases r with
  | field f => exact answers_of_ok rfl
  | _ => exact hsound.elim

theorem answers_resolveMethod (hw : vm.registry.WellFormed) (hid : id < vm.registry.classes.size)
    (index : UInt16) : Answers (resolveMethod id index) vm := by
  have hfollow := follows_followMethod id index [.methodRef, .interfaceMethodRef] (.inl rfl)
  refine (answers_resolve hw hid (answers_followMethod hid index _)).bind fun r vm' h => ?_
  have hsound := sound_of_resolve hfollow hw h
  cases r with
  | method m => exact answers_of_ok rfl
  | _ => exact hsound.elim

theorem answers_resolveInterfaceMethod (hw : vm.registry.WellFormed)
    (hid : id < vm.registry.classes.size) (index : UInt16) :
    Answers (resolveInterfaceMethod id index) vm := by
  have hfollow := follows_followMethod id index [.interfaceMethodRef] (.inr rfl)
  refine (answers_resolve hw hid (answers_followMethod hid index _)).bind fun r vm' h => ?_
  have hsound := sound_of_resolve hfollow hw h
  cases r with
  | method m => exact answers_of_ok rfl
  | _ => exact hsound.elim

theorem answers_literal (hw : vm.registry.WellFormed) (hid : id < vm.registry.classes.size)
    (index : UInt16) : Answers (literal id index) vm := by
  have hfollow := follows_followLiteral id index
  refine (answers_resolve hw hid (answers_followLiteral hid index)).bind fun r vm' h => ?_
  have hsound := sound_of_resolve hfollow hw h
  cases r with
  | value v => exact answers_of_ok rfl
  | _ => exact hsound.elim

/-! ## Sessions -/

/-- The operation has an outcome, and the same outcome whenever it is done again. -/
def Settled (x : Exec α) (vm : Vm) : Prop :=
  ∃ outcome vm', attempt x vm = .ok outcome vm' ∧
    ∀ later : Vm, vm'.Activity later → attempt x later = .ok outcome later

theorem Stable.settled {x : Exec α} (hx : Stable x) (hvm : vm.registry.Coherent vm.source)
    (hanswers : Answers x vm) : Settled x vm := by
  obtain ⟨outcome, vm', h⟩ := hanswers
  exact ⟨outcome, vm', h, fun later hlater => hx.again hvm h hlater.deeds⟩

end Exec

open Exec in
/-- Whatever a machine has done since its start, each way to resolve an entry of the pool of a
class, inside or outside of that pool, has an outcome.  It has the same one, a fault included,
after whatever the machine does then. -/
theorem resolution_stable {source? : Option Search.Source} {maxFrames : Int}
    {profiler? : Option (Profiler MethodId)} {vm : Vm}
    (hvm : (Vm.start source? maxFrames profiler?).Activity vm) {id : ClassId}
    (hid : id < vm.registry.classes.size) (index : UInt16) :
    Settled (resolveClass id index) vm ∧ Settled (resolveField id index) vm ∧
      Settled (resolveMethod id index) vm ∧ Settled (resolveInterfaceMethod id index) vm ∧
        Settled (literal id index) vm := by
  have hcoherent : vm.registry.Coherent vm.source :=
    coherent_of_deeds hvm.deeds (Registry.coherent_empty _)
  have hw : vm.registry.WellFormed := wellFormed_of_deeds hvm.deeds Registry.wellFormed_empty
  have hclass : Stable (resolveClass id index) :=
    { quiet := inferInstance
      again := fun _ h hdeeds => resolveClass_again h (grows_of_deeds hdeeds) }
  have hfield := (repeatable_resolveField id index).stable fun h => h.downward
  have hmethod := (repeatable_resolveMethod id index).stable fun h => h.descending
  have hinterface := (repeatable_resolveInterfaceMethod id index).stable fun h => h.descending
  exact ⟨hclass.settled hcoherent (answers_resolveClass hw hid index),
    hfield.settled hcoherent (answers_resolveField hw hid index),
    hmethod.settled hcoherent (answers_resolveMethod hw hid index),
    hinterface.settled hcoherent (answers_resolveInterfaceMethod hw hid index),
    (stable_literal id index).settled hcoherent (answers_literal hw hid index)⟩

namespace TwoFields

theorem activity_loaded : vm.Activity loaded := by
  have hload : Exec.after (Exec.answer (.request 0 (.load "A"))) vm = loaded := answer_load
  exact .single (.act (hload ▸ .answer _))

open Exec in
/-- An entry that refers to a field is resolved for all uses. -/
theorem resolution_stable_field :
    Settled (resolveClass 1 8) loaded ∧ Settled (resolveField 1 8) loaded ∧
      Settled (resolveMethod 1 8) loaded ∧ Settled (resolveInterfaceMethod 1 8) loaded ∧
        Settled (literal 1 8) loaded :=
  resolution_stable activity_loaded (by decide) 8

end TwoFields

end ClassEngine.Machine
