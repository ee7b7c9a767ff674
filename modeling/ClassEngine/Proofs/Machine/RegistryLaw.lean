import ClassEngine.Proofs.Machine.Coherence
import ClassEngine.Proofs.Machine.Session

/-!
# The law of the registry

Whatever a host asks for, the registry stays coherent and only grows.  A name has at
most one class, it keeps that class or the fault it failed with for good, and the
classes rest on each other without circles.
-/

namespace ClassEngine.Machine

open Search (Source)

/-! ## Every operation keeps the registry coherent -/

def keepsRegistry : Effect := fun a _ b =>
  b.source = a.source ∧ a.registry.Grows b.registry ∧
    (a.registry.Coherent a.source → b.registry.Coherent b.source)

variable {a b c : Vm} {o o' : Option Stop}

theorem keepsRegistry_refl (o : Option Stop) (vm : Vm) : keepsRegistry vm o vm :=
  ⟨rfl, .refl _, id⟩

theorem keepsRegistry_trans (hab : keepsRegistry a o b) (hbc : keepsRegistry b o' c) :
    keepsRegistry a o' c :=
  ⟨hbc.1.trans hab.1, hab.2.1.trans hbc.2.1, fun h => hbc.2.2 (hab.2.2 h)⟩

theorem Registry.Coherent.modifyStatus {src : Source} {reg : Registry} (h : reg.Coherent src)
    (id : ClassId) (f : ClassStatus → ClassStatus) : (reg.modifyStatus id f).Coherent src :=
  ⟨h.unique, h.exclusive, h.origin⟩

theorem keepsRegistry_of_change (h : Change a b) : keepsRegistry a o b := by
  refine ⟨?_, grows_of_change h, fun ha => ?_⟩
  · cases h <;> rfl
  · cases h with
    | heap | profiler | frame | enter => exact ha
    | load name => exact (Registry.load_keeps a.source [] name a.registry).coherent ha
    | keep | assign => exact ha.modifyStatus _ _

theorem steady_keepsRegistry : keepsRegistry.Steady where
  small := by
    rintro a b o ⟨h, -⟩
    induction h with
    | refl => exact keepsRegistry_refl o a
    | tail _ hchange ih => exact keepsRegistry_trans ih (keepsRegistry_of_change hchange)
  trans := keepsRegistry_trans

theorem keepsRegistry_setState (id : ClassId) (state : ClassState) (vm : Vm) :
    keepsRegistry vm o (Exec.after (Exec.setState id state) vm) :=
  ⟨rfl, Registry.grows_modifyStatus _ _ _ fun s _ => .refl s, fun h => h.modifyStatus _ _⟩

theorem initializing_keepsRegistry : keepsRegistry.Initializing where
  toSteady := steady_keepsRegistry
  moved := keepsRegistry_setState
  running _ vm := keepsRegistry_refl none vm
  failed id h := keepsRegistry_trans h (keepsRegistry_setState id .failed _)
  renamed _ h := h

theorem working_keepsRegistry : keepsRegistry.Working where
  toSteady := steady_keepsRegistry
  bare _ _ h := h
  raise vm _ := keepsRegistry_refl _ vm
  returns vm _ _ _ := keepsRegistry_refl none vm
  escaped _ vm := keepsRegistry_refl _ vm
  thrown := keepsRegistry_trans
  overlooked _ := keepsRegistry_trans
  raised _ := keepsRegistry_trans
  caught _ vm := keepsRegistry_refl none vm
  uncreated _ _ h := h
  contained h := h
  ended _ _ h := h

theorem running_keepsRegistry : keepsRegistry.Running where
  toWorking := working_keepsRegistry
  step := Exec.has_step working_keepsRegistry fun _ _ => ⟨rfl, .refl _, id⟩

theorem Vm.keepsRegistry_answer (vm : Vm) (calls : List HostCall) :
    keepsRegistry vm none (vm.answer calls) :=
  Vm.answer_induction (R := fun a b => keepsRegistry a none b) (keepsRegistry_refl none)
    keepsRegistry_trans
    (fun call vm =>
      Exec.has_answer running_keepsRegistry initializing_keepsRegistry call vm) vm calls

theorem Vm.coherent_start (source? : Option Source) (maxFrames : Int)
    (profiler? : Option (Profiler MethodId)) (calls : List HostCall) :
    let vm := (Vm.start source? maxFrames profiler?).answer calls
    vm.registry.Coherent vm.source :=
  (Vm.keepsRegistry_answer (Vm.start source? maxFrames profiler?) calls).2.2
    (Registry.coherent_empty _)

/-! ## Classes and their names -/

namespace Registry

variable {src : Source} {reg : Registry} {id k : ClassId} {c : Class}

theorem Coherent.named (h : reg.Coherent src) (hc : reg.classes[id]? = some c)
    (hk : c.RestsOn k) : ∃ d, reg.classes[k]? = some d ∧ reg.find? d.name = some k := by
  have hlt : k < reg.classes.size :=
    Nat.lt_trans ((h.origin hc).lt hk) (Array.getElem?_eq_some_iff.mp hc).1
  have hd := Array.getElem?_eq_getElem hlt
  exact ⟨_, hd, h.find?_name hd⟩

def Below (reg : Registry) (k id : ClassId) : Prop :=
  ∃ c, reg.classes[id]? = some c ∧ c.RestsOn k

theorem Coherent.wellFounded (h : reg.Coherent src) : WellFounded reg.Below := by
  have hlt : Subrelation reg.Below (· < · : ClassId → ClassId → Prop) := by
    rintro k id ⟨c, hc, hk⟩
    exact (h.origin hc).lt hk
  exact hlt.wf Nat.lt_wfRel.wf

theorem componentName?_arrayNameOf (hc : c.isArray = isArrayName c.name) :
    componentName? (arrayNameOf c) = some c.name := by
  unfold arrayNameOf
  cases harray : c.isArray with
  | true =>
      rw [harray] at hc
      unfold isArrayName at hc
      cases hname : c.name.toList with
      | nil => simp [hname] at hc
      | cons first rest =>
          have hfirst : first = '[' := by simpa [hname] using hc.symm
          subst hfirst
          have hlist : ("[" ++ c.name).toList = '[' :: '[' :: rest := by simp [hname]
          simp only [if_true, componentName?, hlist]
          rw [← hname, String.ofList_toList]
  | false =>
      have hlist : ("[L" ++ c.name ++ ";").toList = '[' :: 'L' :: (c.name.toList ++ [';']) := by
        simp
      simp only [Bool.false_eq_true, if_false, componentName?, hlist, List.dropLast_concat,
        String.ofList_toList]

theorem isArrayName_arrayNameOf (c : Class) : isArrayName (arrayNameOf c) = true := by
  unfold arrayNameOf isArrayName
  split <;> simp

theorem Coherent.component?_of_arrayName (h : reg.Coherent src) (hc : reg.classes[id]? = some c)
    {a : ClassId} (ha : reg.find? (arrayNameOf c) = some a) :
    ∃ array, reg.classes[a]? = some array ∧ array.component? = some id := by
  obtain ⟨⟨array, harray, hname⟩, -⟩ := find?_eq_some_iff.mp ha
  refine ⟨array, harray, ?_⟩
  have hcname : c.isArray = isArrayName c.name := by
    obtain ⟨_, _, _, -, -, hassemble⟩ := h.origin hc
    exact isArray_of_assemble hassemble
  obtain ⟨needs, ids, statics, hneeds, hfills, hassemble⟩ := h.origin harray
  rw [hname] at hneeds hassemble
  have hisArray := isArrayName_arrayNameOf c
  obtain ⟨element, root, rest, helement, rfl, rfl⟩ := assemble_array hisArray hassemble
  simp only [requirements, hisArray, helement, componentName?_arrayNameOf hcname, if_true,
    Option.toList_some, List.map_cons, List.map_nil, Except.ok.injEq] at hneeds
  subst hneeds
  cases hfills with
  | cons _ hfills =>
      cases hfills with
      | cons hcomponent hfills =>
          cases hfills
          obtain ⟨-, d, hd, hdname, -⟩ := hcomponent
          exact congrArg some (h.unique hd hc hdname)

structure Lawful (reg : Registry) : Prop where
  named : ∀ (id : ClassId) (c : Class), reg.classes[id]? = some c → reg.find? c.name = some id
  exclusive : ∀ name e, reg.failure? name = some e → reg.find? name = none
  resting : ∀ (id : ClassId) (c : Class) (k : ClassId), reg.classes[id]? = some c → c.RestsOn k →
    ∃ d, reg.classes[k]? = some d ∧ reg.find? d.name = some k
  wellFounded : WellFounded reg.Below

theorem Coherent.lawful (h : reg.Coherent src) : reg.Lawful where
  named _ _ hc := h.find?_name hc
  exclusive _ _ he := h.exclusive he
  resting _ _ _ hc hk := h.named hc hk
  wellFounded := h.wellFounded

end Registry

/-! ## The law -/

namespace Vm

/-- What a machine leaves to itself later: the classes, with all that was fixed when they
were linked, and the faults of the names that failed. -/
structure Settles (vm vm' : Vm) : Prop where
  classes : ∀ (id : ClassId) (c : Class), vm.registry.classes[id]? = some c →
    vm'.registry.classes[id]? = some c ∧ Exec.loadClass c.name vm' = .ok id vm'
  failures : ∀ name e, vm.registry.failure? name = some e →
    vm'.registry.failure? name = some e ∧
      Exec.loadClass name vm' = .error (.fault e) vm'

structure Registers (vm : Vm) : Prop where
  loaded : ∀ name id vm', Exec.loadClass name vm = .ok id vm' →
    vm'.registry.find? name = some id
  refused : ∀ name e vm', Exec.loadClass name vm = .error (.fault e) vm' →
    vm'.registry.failure? name = some e
  arrays : ∀ id a vm', Exec.arrayOf id vm = .ok a vm' →
    ∃ array, vm'.registry.classes[a]? = some array ∧ array.component? = some id

variable {vm vm' : Vm}

theorem settles_of_grows (hgrows : vm.registry.Grows vm'.registry)
    (h : vm.registry.Coherent vm.source) : vm.Settles vm' where
  classes id c hc := by
    have hfind := hgrows.find? (h.find?_name hc)
    exact ⟨hgrows.classes hc, Exec.loadClass_of_found hfind⟩
  failures name e he := by
    obtain ⟨hfind, hfailure⟩ := hgrows.failures (h.exclusive he) he
    exact ⟨hfailure, Exec.loadClass_of_failure hfind hfailure⟩

theorem registers_of_coherent (h : vm.registry.Coherent vm.source) : vm.Registers where
  loaded name id vm' hload := Exec.find?_of_loadClass hload
  refused name e vm' hload := by
    have hloads := Registry.load_loads vm.source [] name vm.registry
    rw [Exec.loadClass_apply] at hload
    generalize load vm.source [] name vm.registry = result at hloads hload
    obtain ⟨outcome, registry⟩ := result
    cases outcome <;> cases hload
    exact (hloads.refused rfl List.not_mem_nil).2
  arrays id a vm' harray := by
    obtain ⟨c, vm₁, hclass, hload⟩ := Exec.bind_eq_ok harray
    obtain ⟨hc, rfl⟩ := Exec.classAt_eq_ok hclass
    have hkeeps := Registry.load_keeps vm₁.source [] (arrayNameOf c) vm₁.registry
    have hafter := (Exec.after_ok hload).symm.trans (Exec.after_loadClass _ _)
    have hfind := Exec.find?_of_loadClass hload
    rw [hafter] at hfind ⊢
    exact (hkeeps.coherent h).component?_of_arrayName (hkeeps.nested.extension.classes hc) hfind

end Vm

/-- The registry is lawful whatever a host asked for before, it is settled for whatever the
host asks for later, and it registers what is loaded next. -/
theorem registry_lawful (source? : Option Source) (maxFrames : Int)
    (profiler? : Option (Profiler MethodId)) (calls later : List HostCall) :
    let vm := (Vm.start source? maxFrames profiler?).answer calls
    vm.registry.Lawful ∧ vm.Settles (vm.answer later) ∧ vm.Registers := by
  intro vm
  have hcoherent : vm.registry.Coherent vm.source :=
    Vm.coherent_start source? maxFrames profiler? calls
  exact ⟨hcoherent.lawful, Vm.settles_of_grows (vm.keepsRegistry_answer later).2.1 hcoherent,
    Vm.registers_of_coherent hcoherent⟩

end ClassEngine.Machine
