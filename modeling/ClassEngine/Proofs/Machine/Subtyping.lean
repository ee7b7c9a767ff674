import ClassEngine.Proofs.Machine.Caches
import ClassEngine.Proofs.Machine.Defaults
import ClassEngine.Proofs.Machine.FieldSearch
import ClassEngine.Proofs.Machine.RootClass

/-!
# Subtypes

The test of assignability goes one of three ways: over the components of arrays, over the
superinterfaces, or along the superclasses.  Where the root class is the superclass of every
interface and the end of every chain of superclasses, the three together say that the one class
is a supertype of the other or that this holds of the components, and so they make a preorder.
-/

namespace ClassEngine.Machine

/-! ## The supertypes that a class is put together from -/

section

variable {src : Search.Source} {cs : Classes} {id : ClassId} {c : Class}

theorem interface_of_fills {className : String} {needs : List Need} {ids : List ClassId}
    (h : List.Forall₂ (Fills cs id className) needs ids)
    (hroles : ∀ need ∈ needs, need.role = .superinterface) :
    ∀ i ∈ ids, ∃ d, cs[i]? = some d ∧ d.isInterface = true := by
  induction h with
  | nil => nofun
  | @cons need k needs ids hfirst _ ih =>
      intro i hi
      rcases List.mem_cons.mp hi with rfl | hi
      · obtain ⟨-, d, hd, -, hobjection⟩ := hfirst
        rw [hroles need List.mem_cons_self] at hobjection
        exact ⟨d, hd, by simpa [Role.objection?] using hobjection⟩
      · exact ih (fun need hneed => hroles need (List.mem_cons_of_mem _ hneed)) i hi

theorem Origin.interface_of_mem (h : Origin src cs id c) {i : ClassId} (hi : i ∈ c.interfaces) :
    ∃ d, cs[i]? = some d ∧ d.isInterface = true := by
  obtain ⟨needs, ids, statics, hneeds, hfills, hassemble⟩ := h
  cases harray : isArrayName c.name with
  | true =>
      obtain ⟨element, root, rest, -, -, hlink⟩ := assemble_array harray hassemble
      rw [← hlink] at hi
      cases hi
  | false =>
      obtain ⟨file, fields, methods, hread, -, -, hlink⟩ := assemble_file harray hassemble
      simp only [requirements, harray, hread, Bool.false_eq_true, if_false, Except.map,
        Except.ok.injEq] at hneeds
      have hmem : i ∈ (declaration file ids fields methods).interfaces := by
        rw [← hlink] at hi
        exact hi
      subst hneeds
      by_cases hsuper : file.superName = ""
      · simp only [superNeeds, hsuper, if_true, List.nil_append] at hfills
        simp only [declaration, hsuper, if_true] at hmem
        exact interface_of_fills hfills (by simp) i hmem
      · simp only [superNeeds, hsuper, if_false, List.singleton_append] at hfills
        simp only [declaration, hsuper, if_false] at hmem
        exact interface_of_fills (forall₂_tail hfills) (by simp) i hmem

theorem Registry.Coherent.interface_of_mem {reg : Registry} (h : reg.Coherent src)
    {i : ClassId} (hi : i ∈ reg.classes.interfaces id) :
    ∃ d, reg.classes[i]? = some d ∧ d.isInterface = true := by
  cases hc : reg.classes[id]? with
  | none => simp [Classes.interfaces, hc] at hi
  | some c =>
      simp only [Classes.interfaces, hc, Option.map_some, Option.getD_some] at hi
      exact (h.origin hc).interface_of_mem hi

theorem isInterface_linkArray {name : String} {root : ClassId} {shape : ArrayShape} :
    (linkArray cs name root shape).isInterface = false := by
  show ClassFile.Access.has (ClassFile.Access.isPublic ||| ClassFile.Access.isFinal)
    ClassFile.Access.isInterface = false
  decide

theorem Origin.array (h : Origin src cs id c) (harray : c.isArray = true) :
    c.isInterface = false ∧ c.interfaces = [] ∧
      ∃ r d, c.super? = some r ∧ cs[r]? = some d ∧ d.name = ClassFile.rootClassName := by
  obtain ⟨needs, ids, statics, hneeds, hfills, hassemble⟩ := h
  rw [isArray_of_assemble hassemble] at harray
  obtain ⟨element, root, rest, helement, rfl, hlink⟩ := assemble_array harray hassemble
  simp only [requirements, harray, helement, if_true, Except.ok.injEq] at hneeds
  subst hneeds
  cases hfills with
  | cons hfirst _ =>
      obtain ⟨-, d, hd, hname, -⟩ := hfirst
      rw [← hlink]
      exact ⟨isInterface_linkArray, rfl, root, d, rfl, hd, hname⟩

end

namespace Classes

variable {cs : Classes} {id target root k : ClassId} {c t : Class}

/-! ## Rooted hierarchies -/

/-- The root class is the superclass of every interface and the end of every chain of
superclasses. -/
structure Rooted (cs : Classes) : Prop where
  interfaces : ∀ (id : ClassId) (c : Class), cs[id]? = some c → c.isInterface = true →
    ∃ r d, c.super? = some r ∧ cs[r]? = some d ∧ d.name = ClassFile.rootClassName
  chains : ∀ (id : ClassId) (c : Class), cs[id]? = some c →
    ∃ r d, (cs.chain id).getLast? = some r ∧ cs[r]? = some d ∧ d.name = ClassFile.rootClassName

structure Stratified (cs : Classes) (root : ClassId) : Prop where
  downward : cs.Downward
  component_lt : ∀ {id x : ClassId} {c : Class}, cs[id]? = some c → c.component? = some x → x < id
  top : ∀ k, ¬ cs.DirectSupertype root k
  reaches : ∀ {id : ClassId}, id < cs.size → root ∈ cs.chain id
  interface_of_mem : ∀ {id i : ClassId}, i ∈ cs.interfaces id →
    ∃ d, cs[i]? = some d ∧ d.isInterface = true
  interface : ∀ {id : ClassId} {c : Class}, cs[id]? = some c → c.isInterface = true →
    cs.super? id = some root
  array : ∀ {id k : ClassId} {c : Class}, cs[id]? = some c → c.isArray = true →
    (cs.DirectSupertype id k ↔ k = root)
  array_plain : ∀ {id : ClassId} {c : Class}, cs[id]? = some c → c.isArray = true →
    c.isInterface = false
  /-- No superclass is an interface or an array class. -/
  super_plain : ∀ {id s : ClassId}, cs.super? id = some s →
    ∃ d, cs[s]? = some d ∧ d.isInterface = false ∧ d.isArray = false

theorem supertype_of_mem_chain (hk : k ∈ cs.chain id) : cs.Supertype id k := by
  induction id using Nat.strongRecOn with
  | ind id ih =>
      rw [chain] at hk
      rcases List.mem_cons.mp hk with rfl | hk
      · exact .refl
      · split at hk
        · split at hk
          · rename_i s hs hlt
            exact .head (.inl hs) (ih s hlt hk)
          · cases hk
        · cases hk

theorem supertype_of_implements (h : cs.implements id target = true) :
    cs.Supertype id target := by
  induction id using Nat.strongRecOn with
  | ind id ih =>
      rw [implements] at h
      obtain ⟨k, hk, h⟩ := List.any_eq_true.mp h
      obtain ⟨i, hi, h⟩ := List.any_eq_true.mp h
      refine (supertype_of_mem_chain hk).trans (.head (.inr hi) ?_)
      rcases Bool.or_eq_true_iff.mp h with heq | h
      · rw [of_decide_eq_true heq]
      · split at h
        · exact ih i ‹_› h
        · cases h

theorem supertype_of_isSubclass (h : cs.isSubclass id target = true) :
    cs.Supertype id target :=
  supertype_of_mem_chain (of_decide_eq_true h)

/-! ## The walks reach all supertypes -/

theorem implements_of_mem_chain {j i : ClassId} (hdown : cs.Downward) (hj : j ∈ cs.chain id)
    (hi : i ∈ cs.interfaces j) (h : i = target ∨ cs.implements i target = true) :
    cs.implements id target = true := by
  have hlt : i < id := Nat.lt_of_lt_of_le (hdown (.inr hi)) (le_of_mem_chain hj)
  rw [implements]
  refine List.any_eq_true.mpr ⟨j, hj, List.any_eq_true.mpr ⟨i, hi, ?_⟩⟩
  simpa [hlt] using h

theorem implements_of_super {s : ClassId} (hdown : cs.Downward) (hs : cs.super? id = some s)
    (h : cs.implements s target = true) : cs.implements id target = true := by
  have hlt : s < id := hdown (.inl hs)
  rw [implements] at h
  obtain ⟨j, hj, h⟩ := List.any_eq_true.mp h
  obtain ⟨i, hi, h⟩ := List.any_eq_true.mp h
  refine implements_of_mem_chain hdown (mem_chain_of_super hs hlt hj) hi ?_
  rcases Bool.or_eq_true_iff.mp h with heq | h
  · exact .inl (of_decide_eq_true heq)
  · split at h
    · exact .inr h
    · cases h

namespace Stratified

/-- A superinterface is reached from a class over the interfaces of its superclasses. -/
theorem implements_of_supertype (h : cs.Stratified root) (ht : cs[target]? = some t)
    (hinterface : t.isInterface = true) (hsupertype : cs.Supertype id target)
    (hne : id ≠ target) : cs.implements id target = true := by
  induction hsupertype using Relation.ReflTransGen.head_induction_on with
  | refl => exact absurd rfl hne
  | @head id j hstep _ ih =>
      rcases hstep with hs | hi
      · have hother : j ≠ target := by
          rintro rfl
          obtain ⟨d, hd, hplain, -⟩ := h.super_plain hs
          rw [ht] at hd
          cases hd
          rw [hinterface] at hplain
          cases hplain
        exact implements_of_super h.downward hs (ih hother)
      · have hself : id ∈ cs.chain id := by
          rw [chain]
          exact List.mem_cons_self
        refine implements_of_mem_chain h.downward hself hi ?_
        by_cases heq : j = target
        · exact .inl heq
        · exact .inr (ih heq)

theorem chain_interface (h : cs.Stratified root) (hc : cs[id]? = some c)
    (hinterface : c.isInterface = true) : cs.chain id = [id, root] := by
  have hs := h.interface hc hinterface
  have hsuper (id s : ClassId) (hs : s ∈ cs.super? id) : s < id := h.downward (.inl hs)
  have hnone : cs.super? root = none := by
    cases hr : cs.super? root with
    | none => rfl
    | some s => exact absurd (.inl hr) (h.top s)
  rw [chain_eq (hsuper id), hs, Option.toList_some, List.flatMap_singleton,
    chain_eq (hsuper root), hnone]
  rfl

theorem mem_chain_of_supertype (h : cs.Stratified root) (ht : cs[target]? = some t)
    (hplain : t.isInterface = false) (hsupertype : cs.Supertype id target) :
    target ∈ cs.chain id := by
  induction hsupertype using Relation.ReflTransGen.head_induction_on with
  | refl =>
      rw [chain]
      exact List.mem_cons_self
  | @head id j hstep _ ih =>
      rcases hstep with hs | hi
      · exact mem_chain_of_super hs (h.downward (.inl hs)) ih
      · obtain ⟨d, hd, hinterface⟩ := h.interface_of_mem hi
        rw [h.chain_interface hd hinterface, List.mem_pair] at ih
        rcases ih with rfl | rfl
        · rw [ht] at hd
          cases hd
          rw [hinterface] at hplain
          cases hplain
        · exact h.reaches (lt_of_mem_interfaces hi)

theorem supertype_array_iff (h : cs.Stratified root) (hc : cs[id]? = some c)
    (harray : c.isArray = true) : cs.Supertype id target ↔ target = id ∨ target = root := by
  constructor
  · intro hsupertype
    rcases hsupertype.cases_head with heq | ⟨k, hk, hrest⟩
    · exact .inl heq.symm
    · rw [(h.array hc harray).mp hk] at hrest
      rcases hrest.cases_head with heq | ⟨j, hj, -⟩
      · exact .inr heq.symm
      · exact absurd hj (h.top j)
  · rintro (rfl | rfl)
    · exact .refl
    · exact .single ((h.array hc harray).mpr rfl)

theorem eq_of_supertype_array (h : cs.Stratified root) (ht : cs[target]? = some t)
    (harray : t.isArray = true) (hsupertype : cs.Supertype id target) : id = target := by
  rcases hsupertype.cases_tail with heq | ⟨k, -, hs | hi⟩
  · exact heq.symm
  · obtain ⟨d, hd, -, hplain⟩ := h.super_plain hs
    rw [ht] at hd
    cases hd
    rw [harray] at hplain
    cases hplain
  · obtain ⟨d, hd, hinterface⟩ := h.interface_of_mem hi
    rw [ht] at hd
    cases hd
    rw [h.array_plain ht harray] at hinterface
    cases hinterface

end Stratified

/-! ## The test -/

/-- Both are array classes with components that are classes, and the one component is
assignable to the other. -/
def Covariant (cs : Classes) (id target : ClassId) : Prop :=
  ∃ c t x y, cs[id]? = some c ∧ cs[target]? = some t ∧ c.component? = some x ∧
    t.component? = some y ∧ cs.isAssignable x y = true

theorem isAssignable_self (cs : Classes) (id : ClassId) : cs.isAssignable id id = true := by
  rw [isAssignable, if_pos rfl]

theorem isArray_of_component? {x : ClassId} (hx : c.component? = some x) : c.isArray = true := by
  obtain ⟨shape, hshape, -⟩ := Option.bind_eq_some_iff.mp hx
  simp [Class.isArray, hshape]

theorem Covariant.isArray (h : cs.Covariant id target) (hc : cs[id]? = some c)
    (ht : cs[target]? = some t) : c.isArray = true ∧ t.isArray = true := by
  obtain ⟨c', t', x, y, hc', ht', hx, hy, -⟩ := h
  rw [hc] at hc'
  rw [ht] at ht'
  cases hc'
  cases ht'
  exact ⟨isArray_of_component? hx, isArray_of_component? hy⟩

theorem covariant_iff (hc : cs[id]? = some c) (ht : cs[target]? = some t)
    (hne : id ≠ target) (harray : c.isArray = true) (htarget : t.isArray = true)
    (hcomponent : ∀ x, c.component? = some x → x < id) :
    cs.isAssignable id target = true ↔ cs.Covariant id target := by
  rw [isAssignable, if_neg hne, hc, ht]
  simp only [harray, htarget, if_true]
  constructor
  · intro h
    split at h
    · rename_i x y hx hy
      rw [if_pos (hcomponent x hx)] at h
      exact ⟨c, t, x, y, hc, ht, hx, hy, h⟩
    · cases h
  · rintro ⟨c', t', x, y, hc', ht', hx, hy, h⟩
    rw [hc] at hc'
    rw [ht] at ht'
    cases hc'
    cases ht'
    simp only [hx, hy, hcomponent x hx, if_true, h]

namespace Stratified

theorem super?_eq_none_iff (h : cs.Stratified root) (ht : cs[target]? = some t) :
    t.super? = none ↔ target = root := by
  have hsuper : cs.super? target = t.super? := by simp [super?, ht]
  constructor
  · intro hnone
    have hreaches := h.reaches (Array.getElem?_eq_some_iff.mp ht).1
    rw [chain, hsuper, hnone, List.mem_singleton] at hreaches
    exact hreaches.symm
  · rintro rfl
    rw [← hsuper, Option.eq_none_iff_forall_ne_some]
    exact fun s hs => h.top s (.inl hs)

theorem not_isInterface_of_super? (h : cs.Stratified root) (ht : cs[target]? = some t)
    (hnone : t.super? = none) : t.isInterface = false := by
  rw [Bool.eq_false_iff]
  intro hinterface
  have hsuper := h.interface ht hinterface
  rw [super?, ht, Option.bind_some, hnone] at hsuper
  cases hsuper

theorem isAssignable_array_iff (h : cs.Stratified root) (hc : cs[id]? = some c)
    (ht : cs[target]? = some t) (hne : id ≠ target) (harray : c.isArray = true)
    (hplain : t.isArray = false) :
    cs.isAssignable id target = true ↔ cs.Supertype id target := by
  rw [isAssignable, if_neg hne, hc, ht]
  simp only [harray, hplain, if_true, Bool.false_eq_true, if_false, Bool.and_eq_true,
    Option.isNone_iff_eq_none, Bool.not_eq_true']
  rw [h.supertype_array_iff hc harray, or_iff_right (Ne.symm hne), ← h.super?_eq_none_iff ht]
  exact and_iff_left_of_imp (h.not_isInterface_of_super? ht)

theorem isAssignable_plain_iff (h : cs.Stratified root) (hc : cs[id]? = some c)
    (ht : cs[target]? = some t) (hne : id ≠ target) (hplain : c.isArray = false) :
    cs.isAssignable id target = true ↔ cs.Supertype id target := by
  rw [isAssignable, if_neg hne, hc, ht]
  simp only [hplain, Bool.false_eq_true, if_false]
  cases hinterface : t.isInterface with
  | true =>
      rw [if_pos rfl]
      exact ⟨supertype_of_implements, fun hs => h.implements_of_supertype ht hinterface hs hne⟩
  | false =>
      rw [if_neg Bool.false_ne_true]
      refine ⟨supertype_of_isSubclass, fun hs => ?_⟩
      exact decide_eq_true (h.mem_chain_of_supertype ht hinterface hs)

theorem isAssignable_iff (h : cs.Stratified root) (hc : cs[id]? = some c)
    (ht : cs[target]? = some t) :
    cs.isAssignable id target = true ↔ cs.Supertype id target ∨ cs.Covariant id target := by
  by_cases hne : id = target
  · subst hne
    exact iff_of_true (cs.isAssignable_self id) (.inl .refl)
  cases harray : c.isArray with
  | true =>
      cases htarget : t.isArray with
      | true =>
          have hapart : ¬ cs.Supertype id target :=
            fun hs => hne (h.eq_of_supertype_array ht htarget hs)
          rw [or_iff_right hapart]
          exact covariant_iff hc ht hne harray htarget fun x hx => h.component_lt hc hx
      | false =>
          have hapart : ¬ cs.Covariant id target := fun hv => by
            simp [(hv.isArray hc ht).2] at htarget
          rw [or_iff_left hapart]
          exact h.isAssignable_array_iff hc ht hne harray htarget
  | false =>
      have hapart : ¬ cs.Covariant id target := fun hv => by
        simp [(hv.isArray hc ht).1] at harray
      rw [or_iff_left hapart]
      exact h.isAssignable_plain_iff hc ht hne harray

theorem isAssignable_trans (h : cs.Stratified root) {a b d : ClassId} (ha : a < cs.size)
    (hb : b < cs.size) (hd : d < cs.size) (hab : cs.isAssignable a b = true)
    (hbd : cs.isAssignable b d = true) : cs.isAssignable a d = true := by
  induction a using Nat.strongRecOn generalizing b d with
  | ind a ih =>
      have hclass {id : ClassId} (hid : id < cs.size) : ∃ c, cs[id]? = some c :=
        ⟨_, Array.getElem?_eq_getElem hid⟩
      obtain ⟨ca, hca⟩ := hclass ha
      obtain ⟨cb, hcb⟩ := hclass hb
      obtain ⟨cd, hcd⟩ := hclass hd
      rw [h.isAssignable_iff hca hcd]
      rcases (h.isAssignable_iff hca hcb).mp hab with hab | hab
      · rcases (h.isAssignable_iff hcb hcd).mp hbd with hbd | hbd
        · exact .inl (hab.trans hbd)
        · rw [h.eq_of_supertype_array hcb (hbd.isArray hcb hcd).1 hab]
          exact .inr hbd
      · have harrays := hab.isArray hca hcb
        rcases (h.isAssignable_iff hcb hcd).mp hbd with hbd | hbd
        · rcases (h.supertype_array_iff hcb harrays.2).mp hbd with rfl | rfl
          · exact .inr hab
          · exact .inl ((h.supertype_array_iff hca harrays.1).mpr (.inr rfl))
        · obtain ⟨ca', cb', x, y, hca', hcb', hx, hy, hxy⟩ := hab
          obtain ⟨cb'', cd', y', z, hcb'', hcd', hy', hz, hyz⟩ := hbd
          rw [hcb'] at hcb''
          cases hcb''
          rw [hy] at hy'
          cases hy'
          have hxlt := h.component_lt hca' hx
          have hylt := h.component_lt hcb' hy
          have hzlt := h.component_lt hcd' hz
          exact .inr ⟨ca', cd', x, z, hca', hcd', hx, hz,
            ih x hxlt (Nat.lt_trans hxlt ha) (Nat.lt_trans hylt hb) (Nat.lt_trans hzlt hd)
              hxy hyz⟩

end Stratified

end Classes

namespace Registry

open Classes (Rooted Stratified)

variable {src : Search.Source} {reg : Registry} {root id : ClassId} {c rootClass : Class}

structure HasRoot (reg : Registry) (root : ClassId) (rootClass : Class) : Prop where
  found : reg.classes[root]? = some rootClass
  super : rootClass.super? = none
  interfaces : rootClass.interfaces = []
  reaches : ∀ {id : ClassId} {c : Class}, reg.classes[id]? = some c →
    (reg.classes.chain id).getLast? = some root
  unique : ∀ {r : ClassId} {d : Class}, reg.classes[r]? = some d →
    d.name = ClassFile.rootClassName → r = root
  interface : ∀ {id : ClassId} {c : Class}, reg.classes[id]? = some c → c.isInterface = true →
    c.super? = some root

theorem Coherent.hasRoot (h : reg.Coherent src) (hrooted : reg.classes.Rooted)
    (hc : reg.classes[id]? = some c) : ∃ root rootClass, reg.HasRoot root rootClass := by
  obtain ⟨root, rootClass, -, hroot, hname⟩ := hrooted.chains id c hc
  have hunique {r : ClassId} {d : Class} (hd : reg.classes[r]? = some d)
      (hdname : d.name = ClassFile.rootClassName) : r = root :=
    h.unique hd hroot (hdname.trans hname.symm)
  have hreaches {id : ClassId} {c : Class} (hc : reg.classes[id]? = some c) :
      (reg.classes.chain id).getLast? = some root := by
    obtain ⟨r, d, hlast, hd, hdname⟩ := hrooted.chains id c hc
    rw [hlast, hunique hd hdname]
  have hinterface {id : ClassId} {c : Class} (hc : reg.classes[id]? = some c)
      (hinterface : c.isInterface = true) : c.super? = some root := by
    obtain ⟨r, d, hsuper, hd, hdname⟩ := hrooted.interfaces id c hc hinterface
    rw [hsuper, hunique hd hdname]
  have hsuper : rootClass.super? = none := by
    obtain ⟨k, d, hlast, hd, hsuper⟩ := h.exists_getLast?_chain hroot
    rw [hreaches hroot] at hlast
    cases hlast
    rw [hroot] at hd
    cases hd
    exact hsuper
  have hinterfaces : rootClass.interfaces = [] := by
    rw [List.eq_nil_iff_forall_not_mem]
    intro i hi
    obtain ⟨d, hd, hdi⟩ := (h.origin hroot).interface_of_mem hi
    have hbelow : i < root := (h.origin hroot).lt (.inr (.inl hi))
    have habove : root < i := (h.origin hd).lt (.inl (hinterface hd hdi))
    exact Nat.lt_asymm hbelow habove
  exact ⟨root, rootClass, hroot, hsuper, hinterfaces, hreaches, hunique, hinterface⟩

theorem HasRoot.not_isInterface (h : reg.HasRoot root rootClass) :
    rootClass.isInterface = false := by
  rw [Bool.eq_false_iff]
  intro hinterface
  have hsuper := h.interface h.found hinterface
  rw [h.super] at hsuper
  cases hsuper

theorem HasRoot.not_isArray (h : reg.HasRoot root rootClass) (hcoherent : reg.Coherent src) :
    rootClass.isArray = false := by
  rw [Bool.eq_false_iff]
  intro harray
  obtain ⟨-, -, r, d, hsuper, -⟩ := (hcoherent.origin h.found).array harray
  rw [h.super] at hsuper
  cases hsuper

theorem HasRoot.stratified (h : reg.HasRoot root rootClass) (hcoherent : reg.Coherent src) :
    reg.classes.Stratified root where
  downward := hcoherent.downward
  component_lt hc hx := (hcoherent.origin hc).lt (.inr (.inr hx))
  top k hk := by
    rcases hk with hk | hk
    · simp [Classes.super?, h.found, h.super] at hk
    · simp [Classes.interfaces, h.found, h.interfaces] at hk
  reaches hid := List.mem_of_getLast? (h.reaches (Array.getElem?_eq_getElem hid))
  interface_of_mem hi := hcoherent.interface_of_mem hi
  interface hc hinterface := by
    rw [Classes.super?, hc, Option.bind_some, h.interface hc hinterface]
  array {id k c} hc harray := by
    obtain ⟨-, hnone, r, d, hsuper, hd, hname⟩ := (hcoherent.origin hc).array harray
    rw [Classes.DirectSupertype, Classes.super?, Classes.interfaces, hc, Option.bind_some,
      Option.map_some, Option.getD_some, hnone, hsuper, h.unique hd hname]
    simp [eq_comm]
  array_plain hc harray := ((hcoherent.origin hc).array harray).1
  super_plain {id s} hs := by
    obtain ⟨c, hc⟩ : ∃ c, reg.classes[id]? = some c :=
      ⟨_, Array.getElem?_eq_getElem (Classes.lt_of_directSupertype (.inl hs))⟩
    rw [Classes.super?, hc, Option.bind_some] at hs
    cases harray : c.isArray with
    | false => exact (hcoherent.origin hc).super_plain harray hs
    | true =>
        obtain ⟨-, -, r, d, hsuper, hd, hname⟩ := (hcoherent.origin hc).array harray
        rw [hs] at hsuper
        cases hsuper
        rw [h.unique hd hname]
        exact ⟨rootClass, h.found, h.not_isInterface, h.not_isArray hcoherent⟩

end Registry

/-- The registry of a machine at any time: if its hierarchy is rooted, one class is assignable to
another exactly if that is a supertype of it, or both are arrays and their components are so
related; this is a preorder. -/
theorem assignable_iff_subtype {vm : Vm} (hvm : vm.Reachable)
    (hrooted : vm.registry.classes.Rooted) :
    let cs := vm.registry.classes
    (∀ id target : ClassId, id < cs.size → target < cs.size →
      (cs.isAssignable id target = true ↔ cs.Supertype id target ∨ cs.Covariant id target)) ∧
    (∀ id : ClassId, cs.isAssignable id id = true) ∧
    (∀ a b d : ClassId, a < cs.size → b < cs.size → d < cs.size →
      cs.isAssignable a b = true → cs.isAssignable b d = true →
        cs.isAssignable a d = true) := by
  intro cs
  have hcoherent : vm.registry.Coherent vm.source := hvm.sound.coherent
  have hstratified {id : ClassId} (hid : id < cs.size) : ∃ root, cs.Stratified root := by
    obtain ⟨root, rootClass, hroot⟩ :=
      hcoherent.hasRoot hrooted (Array.getElem?_eq_getElem hid)
    exact ⟨root, hroot.stratified hcoherent⟩
  refine ⟨fun id target hid htarget => ?_, cs.isAssignable_self, ?_⟩
  · obtain ⟨root, hroot⟩ := hstratified hid
    exact hroot.isAssignable_iff (Array.getElem?_eq_getElem hid)
      (Array.getElem?_eq_getElem htarget)
  · intro a b d ha hb hd hab hbd
    obtain ⟨root, hroot⟩ := hstratified ha
    exact hroot.isAssignable_trans ha hb hd hab hbd

/-! ## Arrays of two interfaces -/

namespace TwoDefaults

def generals : Class := linkArray withImplementer.classes "[LI;" 0 ⟨'L', some 1⟩

def specifics : Class := linkArray withImplementer.classes "[LJ;" 0 ⟨'L', some 2⟩

def withGenerals : Registry := (withImplementer.add generals .initialized #[]).2

def withSpecifics : Registry := (withGenerals.add specifics .initialized #[]).2

theorem load_generals : load vm.source [] "[LI;" withImplementer = (.ok 4, withGenerals) := by
  have hroot : withImplementer.find? ClassFile.rootClassName = some 0 := by
    with_unfolding_all decide
  have hgeneral : withImplementer.find? "I" = some 1 := by with_unfolding_all decide
  have hgather : gather (load vm.source ["[LI;"]) "[LI;"
      [⟨.part, ClassFile.rootClassName⟩, ⟨.part, "I"⟩] withImplementer =
        (.ok [0, 1], withImplementer) :=
    Registry.gather_cons (Registry.load_of_found hroot) (by decide)
      (Registry.gather_cons (Registry.load_of_found hgeneral) (by decide) rfl)
  exact Registry.load_of_gathered withImplementer generals (by with_unfolding_all decide)
    (by decide) (by decide) (by decide) hgather (by decide)

theorem load_specifics : load vm.source [] "[LJ;" withGenerals = (.ok 5, withSpecifics) := by
  have hroot : withGenerals.find? ClassFile.rootClassName = some 0 := by with_unfolding_all decide
  have hspecific : withGenerals.find? "J" = some 2 := by with_unfolding_all decide
  have hgather : gather (load vm.source ["[LJ;"]) "[LJ;"
      [⟨.part, ClassFile.rootClassName⟩, ⟨.part, "J"⟩] withGenerals =
        (.ok [0, 2], withGenerals) :=
    Registry.gather_cons (Registry.load_of_found hroot) (by decide)
      (Registry.gather_cons (Registry.load_of_found hspecific) (by decide) rfl)
  exact Registry.load_of_gathered withGenerals specifics (by with_unfolding_all decide)
    (by decide) (by decide) (by decide) hgather (by decide)

def arrays : Vm := { vm with registry := withSpecifics }

theorem reachable_loaded {reg reg' : Registry} {name : String} {id : ClassId}
    (h : { vm with registry := reg }.Reachable)
    (hload : load vm.source [] name reg = (.ok id, reg')) :
    { vm with registry := reg' }.Reachable := by
  have hregistry : (load vm.source [] name reg).2 = reg' := congrArg Prod.snd hload
  exact hregistry ▸ h.change (.load { vm with registry := reg } name)

theorem reachable_arrays : arrays.Reachable := by
  have hstart : vm.Reachable := .start (some files.source) 0 none
  have himplementer : { vm with registry := withImplementer }.Reachable :=
    reachable_loaded hstart load_implementer
  exact reachable_loaded (reachable_loaded himplementer load_generals) load_specifics

theorem rooted_arrays : arrays.registry.classes.Rooted where
  interfaces id c hc hinterface := by
    have hroot : arrays.registry.classes[0]? = some PlainRoot.root := rfl
    refine ⟨0, PlainRoot.root, ?_, hroot, rfl⟩
    match id with
    | 0 => cases hc; exact absurd hinterface (by decide)
    | 1 | 2 | 3 | 4 | 5 => cases hc; rfl
    | id + 6 => cases hc
  chains id c hc := by
    refine ⟨0, PlainRoot.root, ?_, rfl, rfl⟩
    match id with
    | 0 | 1 | 2 | 3 | 4 | 5 => with_unfolding_all decide
    | id + 6 => cases hc

/-- The arrays of the specific interface are assignable to those of the general one, and both
to the root class. -/
theorem assignable_arrays :
    arrays.Reachable ∧ arrays.registry.classes.Rooted ∧
      arrays.registry.classes.isAssignable 5 4 = true ∧
      arrays.registry.classes.isAssignable 5 0 = true := by
  obtain ⟨hiff, -, htrans⟩ := assignable_iff_subtype reachable_arrays rooted_arrays
  have hinterfaces : arrays.registry.classes.isAssignable 2 1 = true :=
    (hiff 2 1 (by decide) (by decide)).mpr (.inl (.single (.inr (by decide))))
  have hcovariant : arrays.registry.classes.Covariant 5 4 :=
    ⟨specifics, generals, 2, 1, rfl, rfl, rfl, rfl, hinterfaces⟩
  have hspecifics : arrays.registry.classes.isAssignable 5 4 = true :=
    (hiff 5 4 (by decide) (by decide)).mpr (.inr hcovariant)
  have hgenerals : arrays.registry.classes.isAssignable 4 0 = true :=
    (hiff 4 0 (by decide) (by decide)).mpr (.inl (.single (.inl rfl)))
  exact ⟨reachable_arrays, rooted_arrays, hspecifics,
    htrans 5 4 0 (by decide) (by decide) (by decide) hspecifics hgenerals⟩

end TwoDefaults

end ClassEngine.Machine
