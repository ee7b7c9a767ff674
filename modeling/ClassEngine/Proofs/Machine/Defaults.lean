import ClassEngine.Proofs.Machine.Dispatch
import ClassEngine.Proofs.Machine.PlainRoot

/-!
# Default methods

A method that no class declares comes from the superinterfaces.  They are gone through in
the order in which they are reached, superclasses first, and the first default method stays:
whether a later interface is more specific makes no difference.
-/

namespace ClassEngine.Machine

/-! ## Offers of superinterfaces -/

namespace Method

/-- An instance method with a body that classes can inherit. -/
def isDefault (m : Method) (name descriptor : String) : Bool :=
  m.isVirtual && m.hasKey name descriptor && !m.isAbstract

theorem isAbstract_of_isOpen {m : Method} (h : m.isOpen = true) : m.isAbstract = true :=
  (Bool.and_eq_true_iff.mp h).1

end Method

theorem VTable.default_of_lookup?_foldl_inherit {t : VTable} (ht : t.Indexed)
    {methods : List Method} {m : Method} {name descriptor : String}
    (h : (methods.foldl inherit t).lookup? name descriptor = some m)
    (hconcrete : m.isAbstract = false) :
    t.lookup? name descriptor = some m ∨
      (∀ old, t.lookup? name descriptor = some old → old.isOpen = true) ∧
        methods.find? (·.isDefault name descriptor) = some m := by
  induction methods generalizing t with
  | nil => exact .inl h
  | cons m' rest ih =>
      have hstep := lookup?_inherit ht m' name descriptor
      have ih := ih (ht.inherit m')
      rw [List.find?_cons, Method.isDefault]
      cases hoffers : m'.isVirtual && m'.hasKey name descriptor with
      | false =>
          rw [hoffers, if_neg Bool.false_ne_true] at hstep
          rw [Bool.false_and, ← hstep]
          exact ih h
      | true =>
          rw [hoffers, if_pos rfl] at hstep
          rw [Bool.true_and]
          cases hold : t.lookup? name descriptor with
          | none =>
              have hnothing : ∀ old : Method, none = some old → old.isOpen = true := by
                rintro _ ⟨⟩
              rw [hold, VTable.offer] at hstep
              rcases ih h with hm | ⟨hopen, hfirst⟩
              · cases hstep.symm.trans hm
                exact .inr ⟨hnothing, by rw [hconcrete]; rfl⟩
              · rw [Method.isAbstract_of_isOpen (hopen m' hstep)]
                exact .inr ⟨hnothing, hfirst⟩
          | some old =>
              rw [hold, VTable.offer] at hstep
              cases hdefault : !m'.isAbstract && old.isOpen with
              | true =>
                  rw [hdefault, if_pos rfl] at hstep
                  obtain ⟨hbody, hopen⟩ := Bool.and_eq_true_iff.mp hdefault
                  have holds : ∀ old', some old = some old' → old'.isOpen = true := by
                    rintro old' ⟨⟩
                    exact hopen
                  rw [hbody]
                  rcases ih h with hm | ⟨hopen', -⟩
                  · cases hstep.symm.trans hm
                    exact .inr ⟨holds, rfl⟩
                  · rw [Method.isAbstract_of_isOpen (hopen' m' hstep)] at hbody
                    cases hbody
              | false =>
                  rw [hdefault, if_neg Bool.false_ne_true] at hstep
                  rcases ih h with hm | ⟨hopen, hfirst⟩
                  · exact .inl (hstep.symm.trans hm)
                  · have hopen' := hopen old hstep
                    rw [hopen', Bool.and_true] at hdefault
                    rw [hdefault]
                    refine .inr ⟨?_, hfirst⟩
                    rintro old' ⟨⟩
                    exact hopen'

/-! ## Where a default method comes from -/

namespace Classes

def default? (cs : Classes) (name descriptor : String) (id : ClassId) : Option Method :=
  (cs[id]?).bind fun c => c.methods.find? (·.isDefault name descriptor)

/-- Nothing that an instance of the class could run is in its table. -/
def Lacks (cs : Classes) (id : ClassId) (name descriptor : String) : Prop :=
  ∀ c m, cs[id]? = some c → c.vtable.lookup? name descriptor = some m → m.isAbstract = true

/-- The class with the number `k` takes the default method `m` from its superinterfaces, as its
superclass has none: of these in their order, the first that declares one is the owner. -/
structure TakesDefault (cs : Classes) (k : ClassId) (name descriptor : String) (m : Method) :
    Prop where
  offered : ∃ c before after, cs[k]? = some c ∧
    cs.superinterfaces c = before ++ m.id.owner :: after ∧
      cs.default? name descriptor m.id.owner = some m ∧
        ∀ j ∈ before, cs.default? name descriptor j = none
  lacking : ∀ s, cs.super? k = some s → cs.Lacks s name descriptor

theorem mem_chain_of_super {cs : Classes} {id s k : ClassId} (hs : cs.super? id = some s)
    (hlt : s < id) (hk : k ∈ cs.chain s) : k ∈ cs.chain id := by
  rw [chain, hs]
  exact List.mem_cons_of_mem id (by simpa [hlt] using hk)

end Classes

namespace Registry.Coherent

variable {src : Search.Source} {reg : Registry} {id : ClassId} {c : Class} {m : Method}
  {name descriptor : String}

theorem owner_of_default (h : reg.Coherent src)
    (hm : reg.classes.default? name descriptor id = some m) : m.id.owner = id := by
  obtain ⟨c, hc, hfound⟩ := Option.bind_eq_some_iff.mp hm
  exact (h.origin hc).owner (List.mem_of_find?_eq_some hfound)

/-- What a class has besides its own methods it has from its superclass, or it takes it from
its superinterfaces. -/
theorem inherited_or_taken (h : reg.Coherent src) (hc : reg.classes[id]? = some c)
    (hnone : c.declaredVirtual? name descriptor = none)
    (hm : c.vtable.lookup? name descriptor = some m) (hconcrete : m.isAbstract = false) :
    (reg.classes.inheritedTable c).lookup? name descriptor = some m ∨
      reg.classes.TakesDefault id name descriptor m := by
  rw [(h.origin hc).vtable, buildVTable] at hm
  have hown : (c.methods.foldl VTable.declare (reg.classes.inheritedTable c)).lookup?
      name descriptor = (reg.classes.inheritedTable c).lookup? name descriptor := by
    rw [VTable.lookup?_foldl_declare (h.indexed_inheritedTable c), ← Class.declaredVirtual?, hnone,
      Option.none_or]
  have hindexed := (h.indexed_inheritedTable c).foldl_declare c.methods
  rcases VTable.default_of_lookup?_foldl_inherit hindexed hm hconcrete with hm | ⟨hopen, hfirst⟩
  · exact .inl (hown ▸ hm)
  · rw [hown, h.inheritedTable_lookup? hc] at hopen
    right
    rw [List.find?_flatMap] at hfirst
    obtain ⟨before, i, after, horder, hi, hbefore⟩ := List.findSome?_eq_some_iff.mp hfirst
    have hdefault (j : ClassId) : reg.classes.default? name descriptor j =
        (((reg.classes[j]?).map (·.methods)).getD []).find? (·.isDefault name descriptor) := by
      cases hj : reg.classes[j]? <;> simp [Classes.default?, hj]
    rw [← hdefault] at hi
    have howner := h.owner_of_default hi
    constructor
    · exact ⟨c, before, after, hc, howner ▸ horder, howner ▸ hi,
        fun j hj => (hdefault j).trans (hbefore j hj)⟩
    · intro s hs p m' hp hm'
      have hsuper : c.super? = some s := by simpa [Classes.super?, hc] using hs
      refine Method.isAbstract_of_isOpen (hopen m' ?_)
      rw [hsuper, Option.bind_some, hp, Option.bind_some, hm']

theorem takesDefault_of_lookup? (h : reg.Coherent src) (hc : reg.classes[id]? = some c)
    (hnone : reg.classes.nearest? id name descriptor = none)
    (hm : c.vtable.lookup? name descriptor = some m) (hconcrete : m.isAbstract = false) :
    ∃ k ∈ reg.classes.chain id, reg.classes.TakesDefault k name descriptor m := by
  induction id using Nat.strongRecOn generalizing c with
  | ind id ih =>
      have hlt (s : ClassId) (hs : s ∈ c.super?) : s < id := (h.origin hc).lt (.inl hs)
      have hdeclared : c.declaredMethod? name descriptor = none := by
        cases hdeclared : c.declaredMethod? name descriptor with
        | none => rfl
        | some m' =>
            rw [Classes.nearest?_of_declared hc hdeclared] at hnone
            cases hnone
      rw [Classes.nearest?_of_not_declared hc hdeclared hlt] at hnone
      rcases h.inherited_or_taken hc (declaredVirtual?_of_not_declared hdeclared) hm hconcrete with
        hm | htaken
      · rw [h.inheritedTable_lookup? hc] at hm
        obtain ⟨s, hs, hm⟩ := Option.bind_eq_some_iff.mp hm
        obtain ⟨p, hp, hm⟩ := Option.bind_eq_some_iff.mp hm
        rw [hs, Option.bind_some] at hnone
        obtain ⟨k, hk, htaken⟩ := ih s (hlt s hs) hp hnone hm
        have hsuper : reg.classes.super? id = some s := by simpa [Classes.super?, hc] using hs
        exact ⟨k, Classes.mem_chain_of_super hsuper (hlt s hs) hk, htaken⟩
      · refine ⟨id, ?_, htaken⟩
        rw [Classes.chain]
        exact List.mem_cons_self

end Registry.Coherent

/-- If no class declares the method and the table has one with a body, then a class on the chain
of superclasses has taken it: the class is the first one to have a superinterface with such a
default method, and no superinterface that it reaches before the selected one declares one. -/
theorem first_default_selected (source? : Option Search.Source) (maxFrames : Int)
    (profiler? : Option (Profiler MethodId)) (calls : List HostCall) (id : ClassId) (c : Class)
    (name descriptor : String) (m : Method) :
    let cs := ((Vm.start source? maxFrames profiler?).answer calls).registry.classes
    cs[id]? = some c → cs.nearest? id name descriptor = none →
      c.vtable.lookup? name descriptor = some m → m.isAbstract = false →
      ∃ k ∈ cs.chain id, cs.TakesDefault k name descriptor m := by
  intro cs hc hnone hm hconcrete
  have hcoherent := Vm.coherent_start source? maxFrames profiler? calls
  exact hcoherent.takesDefault_of_lookup? hc hnone hm hconcrete

/-! ## A class with two related defaults -/

namespace TwoDefaults

def generalFile : List UInt8 := [
  0xca, 0xfe, 0xba, 0xbe, 0x00, 0x00, 0x00, 0x34, 0x00, 0x08, 0x01, 0x00, 0x01, 0x49, 0x07, 0x00,
  0x01, 0x01, 0x00, 0x10, 0x6a, 0x61, 0x76, 0x61, 0x2f, 0x6c, 0x61, 0x6e, 0x67, 0x2f, 0x4f, 0x62,
  0x6a, 0x65, 0x63, 0x74, 0x07, 0x00, 0x03, 0x01, 0x00, 0x03, 0x66, 0x6f, 0x6f, 0x01, 0x00, 0x03,
  0x28, 0x29, 0x49, 0x01, 0x00, 0x04, 0x43, 0x6f, 0x64, 0x65, 0x06, 0x01, 0x00, 0x02, 0x00, 0x04,
  0x00, 0x00, 0x00, 0x00, 0x00, 0x01, 0x00, 0x01, 0x00, 0x05, 0x00, 0x06, 0x00, 0x01, 0x00, 0x07,
  0x00, 0x00, 0x00, 0x0e, 0x00, 0x01, 0x00, 0x01, 0x00, 0x00, 0x00, 0x02, 0x04, 0xac, 0x00, 0x00,
  0x00, 0x00, 0x00, 0x00]

def specificFile : List UInt8 := [
  0xca, 0xfe, 0xba, 0xbe, 0x00, 0x00, 0x00, 0x34, 0x00, 0x0a, 0x01, 0x00, 0x01, 0x4a, 0x07, 0x00,
  0x01, 0x01, 0x00, 0x10, 0x6a, 0x61, 0x76, 0x61, 0x2f, 0x6c, 0x61, 0x6e, 0x67, 0x2f, 0x4f, 0x62,
  0x6a, 0x65, 0x63, 0x74, 0x07, 0x00, 0x03, 0x01, 0x00, 0x01, 0x49, 0x07, 0x00, 0x05, 0x01, 0x00,
  0x03, 0x66, 0x6f, 0x6f, 0x01, 0x00, 0x03, 0x28, 0x29, 0x49, 0x01, 0x00, 0x04, 0x43, 0x6f, 0x64,
  0x65, 0x06, 0x01, 0x00, 0x02, 0x00, 0x04, 0x00, 0x01, 0x00, 0x06, 0x00, 0x00, 0x00, 0x01, 0x00,
  0x01, 0x00, 0x07, 0x00, 0x08, 0x00, 0x01, 0x00, 0x09, 0x00, 0x00, 0x00, 0x0e, 0x00, 0x01, 0x00,
  0x01, 0x00, 0x00, 0x00, 0x02, 0x05, 0xac, 0x00, 0x00, 0x00, 0x00, 0x00, 0x00]

def classFile : List UInt8 := [
  0xca, 0xfe, 0xba, 0xbe, 0x00, 0x00, 0x00, 0x34, 0x00, 0x0a, 0x01, 0x00, 0x01, 0x43, 0x07, 0x00,
  0x01, 0x01, 0x00, 0x10, 0x6a, 0x61, 0x76, 0x61, 0x2f, 0x6c, 0x61, 0x6e, 0x67, 0x2f, 0x4f, 0x62,
  0x6a, 0x65, 0x63, 0x74, 0x07, 0x00, 0x03, 0x01, 0x00, 0x01, 0x49, 0x07, 0x00, 0x05, 0x01, 0x00,
  0x01, 0x4a, 0x07, 0x00, 0x07, 0x01, 0x00, 0x04, 0x43, 0x6f, 0x64, 0x65, 0x00, 0x21, 0x00, 0x02,
  0x00, 0x04, 0x00, 0x02, 0x00, 0x06, 0x00, 0x08, 0x00, 0x00, 0x00, 0x00, 0x00, 0x00]

def files : Search.Memory :=
  ⟨[(ClassFile.rootClassName, .ok PlainRoot.file), ("I", .ok generalFile), ("J", .ok specificFile),
    ("C", .ok classFile)]⟩

def vm : Vm := Vm.start (some files.source) 0 none

def defaultOf (id : Nat) (className : String) (result : UInt8) : Method :=
  ⟨⟨id, 0⟩, className, 0x0601, "foo", "()I", 0x0001, ⟨[], some (.base .int "I"), "()I"⟩,
    some ⟨1, 1, #[result, 0xac], [], []⟩⟩

def generalFoo : Method := defaultOf 1 "I" 0x04

def specificFoo : Method := defaultOf 2 "J" 0x05

def general : Class :=
  { PlainRoot.root with
    name := "I"
    flags := 0x0601
    super? := some 0
    methods := [generalFoo]
    vtable := ⟨#[generalFoo], [(⟨"foo", "()I"⟩, 0)]⟩
    pool := ⟨#[none, some (.utf8 "I"), some (.classRef 1), some (.utf8 ClassFile.rootClassName),
      some (.classRef 3), some (.utf8 "foo"), some (.utf8 "()I"), some (.utf8 "Code")]⟩ }

def specific : Class :=
  { PlainRoot.root with
    name := "J"
    flags := 0x0601
    super? := some 0
    interfaces := [1]
    methods := [specificFoo]
    vtable := ⟨#[specificFoo], [(⟨"foo", "()I"⟩, 0)]⟩
    pool := ⟨#[none, some (.utf8 "J"), some (.classRef 1), some (.utf8 ClassFile.rootClassName),
      some (.classRef 3), some (.utf8 "I"), some (.classRef 5), some (.utf8 "foo"),
      some (.utf8 "()I"), some (.utf8 "Code")]⟩ }

def implementer : Class :=
  { PlainRoot.root with
    name := "C"
    super? := some 0
    interfaces := [1, 2]
    vtable := ⟨#[generalFoo], [(⟨"foo", "()I"⟩, 0)]⟩
    pool := ⟨#[none, some (.utf8 "C"), some (.classRef 1), some (.utf8 ClassFile.rootClassName),
      some (.classRef 3), some (.utf8 "I"), some (.classRef 5), some (.utf8 "J"),
      some (.classRef 7), some (.utf8 "Code")]⟩ }

def withGeneral : Registry := (PlainRoot.registry.add general .linked #[]).2

def withSpecific : Registry := (withGeneral.add specific .linked #[]).2

def withImplementer : Registry := (withSpecific.add implementer .linked #[]).2

theorem load_general : load vm.source ["C"] "I" PlainRoot.registry = (.ok 1, withGeneral) := by
  have hgather : gather (load vm.source ["I", "C"]) "I" [⟨.superclass, ClassFile.rootClassName⟩]
      PlainRoot.registry = (.ok [0], PlainRoot.registry) :=
    Registry.gather_cons (Registry.load_of_found PlainRoot.find?_registry) (by decide) rfl
  exact Registry.load_of_gathered PlainRoot.registry general (by with_unfolding_all decide)
    (by decide)
    (by decide) (by with_unfolding_all decide) hgather (by with_unfolding_all decide)

theorem load_specific : load vm.source ["C"] "J" withGeneral = (.ok 2, withSpecific) := by
  have hroot : withGeneral.find? ClassFile.rootClassName = some 0 := by with_unfolding_all decide
  have hgeneral : withGeneral.find? "I" = some 1 := by with_unfolding_all decide
  have hgather : gather (load vm.source ["J", "C"]) "J"
      [⟨.superclass, ClassFile.rootClassName⟩, ⟨.superinterface, "I"⟩] withGeneral =
        (.ok [0, 1], withGeneral) :=
    Registry.gather_cons (Registry.load_of_found hroot) (by decide)
      (Registry.gather_cons (Registry.load_of_found hgeneral) (by decide) rfl)
  exact Registry.load_of_gathered withGeneral specific (by with_unfolding_all decide) (by decide)
    (by decide) (by with_unfolding_all decide) hgather (by with_unfolding_all decide)

theorem load_implementer : load vm.source [] "C" {} = (.ok 3, withImplementer) := by
  have hgather : gather (load vm.source ["C"]) "C"
      [⟨.superclass, ClassFile.rootClassName⟩, ⟨.superinterface, "I"⟩, ⟨.superinterface, "J"⟩]
        {} = (.ok [0, 1, 2], withSpecific) :=
    Registry.gather_cons (PlainRoot.load_root rfl (by decide)) (by decide)
      (Registry.gather_cons load_general (by decide)
        (Registry.gather_cons load_specific (by decide) rfl))
  exact Registry.load_of_gathered withSpecific implementer (by with_unfolding_all decide)
    (by decide) (by decide) (by decide) hgather (by with_unfolding_all decide)

theorem nearest?_implementer : withImplementer.classes.nearest? 3 "foo" "()I" = none := by
  with_unfolding_all decide

theorem first_default_selected_general :
    let cs := (vm.answer [.request 0 (.load "C")]).registry.classes
    cs[3]? = some implementer ∧ implementer.vtable.lookup? "foo" "()I" = some generalFoo ∧
      ∃ k ∈ cs.chain 3, cs.TakesDefault k "foo" "()I" generalFoo := by
  have hclass : (vm.answer [.request 0 (.load "C")]).registry.classes[3]? = some implementer := by
    rw [Vm.answer_load 0 load_implementer]
    rfl
  have hnearest : (vm.answer [.request 0 (.load "C")]).registry.classes.nearest? 3 "foo" "()I" =
      none := by
    rw [Vm.answer_load 0 load_implementer]
    exact nearest?_implementer
  have hlookup : implementer.vtable.lookup? "foo" "()I" = some generalFoo := by decide +kernel
  exact ⟨hclass, hlookup, first_default_selected (some files.source) 0 none
    [.request 0 (.load "C")] 3 implementer "foo" "()I" generalFoo hclass hnearest hlookup
    (by decide)⟩

/-- The selected default method is not the most specific one. -/
theorem selects_general :
    let cs := (vm.answer [.request 0 (.load "C")]).registry.classes
    cs[3]? = some implementer ∧ implementer.isInterface = false ∧
      cs.nearest? 3 "foo" "()I" = none ∧
      implementer.vtable.lookup? "foo" "()I" = some generalFoo ∧
      generalFoo.ofInterface = true ∧ generalFoo.isAbstract = false ∧
      cs.implements 3 2 = true ∧ cs.implements 2 generalFoo.id.owner = true ∧
      cs[2]? = some specific ∧ specific.declaredMethod? "foo" "()I" = some specificFoo ∧
      specificFoo.isStatic = false ∧ specificFoo.isAbstract = false := by
  rw [Vm.answer_load 0 load_implementer]
  exact ⟨rfl, by decide, nearest?_implementer, by decide +kernel, by decide, by decide,
    by decide +kernel, by decide +kernel, rfl, by decide +kernel, by decide, by decide⟩

end TwoDefaults

end ClassEngine.Machine
