import ClassEngine.Machine.Hierarchy
import ClassEngine.Proofs.Machine.Registry
import Mathlib.Data.List.Basic

/-!
# The hierarchy of a growing registry

The walks over the hierarchy only go to smaller numbers, so what they find for a
class stays the same when classes are added.
-/

namespace ClassEngine.Machine

namespace Classes

/-- The classes of `cs` have the same numbers in `cs'`. -/
def Continues (cs cs' : Classes) : Prop :=
  ∀ (id : ClassId) (c : Class), cs[id]? = some c → cs'[id]? = some c

variable {cs cs' : Classes}

theorem Continues.getElem? (h : Continues cs cs') {id : ClassId} (hid : id < cs.size) :
    cs'[id]? = cs[id]? := by
  rw [Array.getElem?_eq_getElem hid]
  exact h id _ (Array.getElem?_eq_getElem hid)

theorem Continues.super? (h : Continues cs cs') {id : ClassId} (hid : id < cs.size) :
    cs'.super? id = cs.super? id := by
  simp only [Classes.super?, h.getElem? hid]

theorem Continues.interfaces (h : Continues cs cs') {id : ClassId} (hid : id < cs.size) :
    cs'.interfaces id = cs.interfaces id := by
  simp only [Classes.interfaces, h.getElem? hid]

theorem le_of_mem_chain {id k : ClassId} (h : k ∈ cs.chain id) : k ≤ id := by
  induction id using Nat.strongRecOn with
  | ind id ih =>
      rw [chain] at h
      rcases List.mem_cons.mp h with rfl | h
      · exact Nat.le_refl k
      · split at h
        · split at h
          · exact Nat.le_of_lt (Nat.lt_of_le_of_lt (ih _ ‹_› h) ‹_›)
          · cases h
        · cases h

theorem Continues.chain (h : Continues cs cs') {id : ClassId} (hid : id < cs.size) :
    cs'.chain id = cs.chain id := by
  induction id using Nat.strongRecOn with
  | ind id ih =>
      rw [Classes.chain, Classes.chain, h.super? hid]
      cases cs.super? id with
      | none => rfl
      | some s =>
          by_cases hs : s < id
          · simp only [hs, if_true]
            rw [ih s hs (Nat.lt_trans hs hid)]
          · simp only [hs, if_false]

theorem Continues.isSubclass (h : Continues cs cs') {id : ClassId} (hid : id < cs.size)
    (other : ClassId) : cs'.isSubclass id other = cs.isSubclass id other := by
  simp only [Classes.isSubclass, h.chain hid]

theorem Continues.implements (h : Continues cs cs') {id : ClassId} (hid : id < cs.size)
    (target : ClassId) : cs'.implements id target = cs.implements id target := by
  induction id using Nat.strongRecOn with
  | ind id ih =>
      rw [Classes.implements, Classes.implements, h.chain hid]
      rw [Bool.eq_iff_iff, List.any_eq_true, List.any_eq_true]
      refine exists_congr fun k => and_congr_right fun hk => ?_
      have hklt : k < cs.size := Nat.lt_of_le_of_lt (le_of_mem_chain hk) hid
      rw [h.interfaces hklt, List.any_eq_true, List.any_eq_true]
      refine exists_congr fun i => and_congr_right fun _ => ?_
      by_cases hi : i < id
      · simp only [hi, if_true]
        rw [ih i hi (Nat.lt_trans hi hid)]
      · simp only [hi, if_false]

/-! ## Superinterfaces -/

def Descending (cs : Classes) : Prop :=
  ∀ {id i : ClassId}, i ∈ cs.interfaces id → i < id

theorem lt_of_mem_interfaces {id i : ClassId} (h : i ∈ cs.interfaces id) : id < cs.size := by
  cases hc : cs[id]? with
  | none => simp [Classes.interfaces, hc] at h
  | some c => exact (Array.getElem?_eq_some_iff.mp hc).1

theorem lt_of_mem_foldl {f : List ClassId → ClassId → List ClassId} {n : Nat}
    {interfaces seen : List ClassId}
    (hf : ∀ seen, (∀ k ∈ seen, k < n) → ∀ i ∈ interfaces, ∀ k ∈ f seen i, k < n)
    (hseen : ∀ k ∈ seen, k < n) : ∀ k ∈ interfaces.foldl f seen, k < n := by
  induction interfaces generalizing seen with
  | nil => exact hseen
  | cons i rest ih =>
      refine ih (fun seen hseen j hj => ?_) (hf seen hseen i List.mem_cons_self)
      exact hf seen hseen j (List.mem_cons_of_mem _ hj)

theorem lt_of_mem_visitInterfaces {n id : ClassId} {seen : List ClassId} (hid : id < n)
    (hseen : ∀ k ∈ seen, k < n) : ∀ k ∈ cs.visitInterfaces seen id, k < n := by
  induction id using Nat.strongRecOn generalizing seen with
  | ind id ih =>
      rw [visitInterfaces]
      split
      · exact hseen
      · refine lt_of_mem_foldl (fun seen hseen i _ => ?_) fun k hk => ?_
        · split
          · exact ih i ‹_› (Nat.lt_trans ‹_› hid) hseen
          · exact hseen
        · rcases List.mem_append.mp hk with hk | hk
          · exact hseen k hk
          · rw [List.mem_singleton.mp hk]
            exact hid

theorem Continues.visitInterfaces (h : Continues cs cs') {id : ClassId} (hid : id < cs.size)
    (seen : List ClassId) : cs'.visitInterfaces seen id = cs.visitInterfaces seen id := by
  induction id using Nat.strongRecOn generalizing seen with
  | ind id ih =>
      rw [Classes.visitInterfaces, Classes.visitInterfaces, h.interfaces hid]
      congr 1
      refine List.foldl_ext _ _ _ fun seen i _ => ?_
      by_cases hi : i < id
      · simp only [hi, if_true]
        exact ih i hi (Nat.lt_trans hi hid) seen
      · simp only [hi, if_false]

def interfaceRoots (cs : Classes) (interfaces : List ClassId) (super? : Option ClassId) :
    List ClassId :=
  interfaces ++ (super?.toList.flatMap cs.chain).flatMap cs.interfaces

theorem allInterfaces_eq (cs : Classes) (interfaces : List ClassId) (super? : Option ClassId) :
    cs.allInterfaces interfaces super? =
      (cs.interfaceRoots interfaces super?).foldl cs.visitInterfaces [] := by
  cases super? <;> simp [allInterfaces, interfaceRoots]

theorem lt_of_mem_interfaceRoots (hdescending : Descending cs) {interfaces : List ClassId}
    {super? : Option ClassId} (hinterfaces : ∀ i ∈ interfaces, i < cs.size) :
    ∀ i ∈ cs.interfaceRoots interfaces super?, i < cs.size := by
  intro i hi
  rcases List.mem_append.mp hi with hi | hi
  · exact hinterfaces i hi
  · obtain ⟨k, -, hi⟩ := List.mem_flatMap.mp hi
    exact Nat.lt_trans (hdescending hi) (lt_of_mem_interfaces hi)

theorem lt_of_mem_allInterfaces (hdescending : Descending cs) {interfaces : List ClassId}
    {super? : Option ClassId} (hinterfaces : ∀ i ∈ interfaces, i < cs.size) :
    ∀ i ∈ cs.allInterfaces interfaces super?, i < cs.size := by
  rw [allInterfaces_eq]
  have hroots : ∀ i ∈ cs.interfaceRoots interfaces super?, i < cs.size :=
    lt_of_mem_interfaceRoots hdescending hinterfaces
  exact lt_of_mem_foldl (fun _ hseen i hi => lt_of_mem_visitInterfaces (hroots i hi) hseen) nofun

theorem Continues.allInterfaces (h : Continues cs cs') (hdescending : Descending cs)
    {interfaces : List ClassId} {super? : Option ClassId}
    (hinterfaces : ∀ i ∈ interfaces, i < cs.size) (hsuper : ∀ s ∈ super?, s < cs.size) :
    cs'.allInterfaces interfaces super? = cs.allInterfaces interfaces super? := by
  have hroots : cs'.interfaceRoots interfaces super? = cs.interfaceRoots interfaces super? := by
    have hchain : super?.toList.flatMap cs'.chain = super?.toList.flatMap cs.chain :=
      List.flatMap_congr fun s hs => h.chain (hsuper s (Option.mem_toList.mp hs))
    unfold interfaceRoots
    rw [hchain]
    congr 1
    refine List.flatMap_congr fun k hk => ?_
    obtain ⟨s, hs, hk⟩ := List.mem_flatMap.mp hk
    have hslt := hsuper s (Option.mem_toList.mp hs)
    exact h.interfaces (Nat.lt_of_le_of_lt (le_of_mem_chain hk) hslt)
  rw [allInterfaces_eq, allInterfaces_eq, hroots]
  refine List.foldl_ext _ _ _ fun seen i hi => ?_
  exact h.visitInterfaces (lt_of_mem_interfaceRoots hdescending hinterfaces i hi) seen

/-! ## Methods -/

theorem findSome?_congr {α β : Type} {f g : α → Option β} {l : List α}
    (h : ∀ a ∈ l, f a = g a) : l.findSome? f = l.findSome? g := by
  induction l with
  | nil => rfl
  | cons a rest ih =>
      rw [List.findSome?_cons, List.findSome?_cons, h a List.mem_cons_self,
        ih fun a' ha' => h a' (List.mem_cons_of_mem a ha')]

theorem Continues.declaredMethod? (h : Continues cs cs') {id : ClassId} (hid : id < cs.size)
    (name descriptor : String) :
    cs'.declaredMethod? id name descriptor = cs.declaredMethod? id name descriptor := by
  simp only [Classes.declaredMethod?, h.getElem? hid]

theorem Continues.findInterfaceMethod? (h : Continues cs cs') {id : ClassId} (hid : id < cs.size)
    (name descriptor : String) :
    cs'.findInterfaceMethod? name descriptor id = cs.findInterfaceMethod? name descriptor id := by
  induction id using Nat.strongRecOn with
  | ind id ih =>
      rw [Classes.findInterfaceMethod?, Classes.findInterfaceMethod?, h.declaredMethod? hid,
        h.interfaces hid]
      have hinterfaces (i : ClassId) :
          (if i < id then cs'.findInterfaceMethod? name descriptor i else none) =
            if i < id then cs.findInterfaceMethod? name descriptor i else none := by
        split
        · exact ih i ‹_› (Nat.lt_trans ‹_› hid)
        · rfl
      simp only [hinterfaces]

theorem Continues.findMethod? (h : Continues cs cs') (hdescending : Descending cs) {id : ClassId}
    (hid : id < cs.size) (name descriptor : String) :
    cs'.findMethod? id name descriptor = cs.findMethod? id name descriptor := by
  have hlt {k : ClassId} (hk : k ∈ cs.chain id) : k < cs.size :=
    Nat.lt_of_le_of_lt (le_of_mem_chain hk) hid
  have hdeclared : (cs.chain id).findSome? (cs'.declaredMethod? · name descriptor) =
      (cs.chain id).findSome? (cs.declaredMethod? · name descriptor) :=
    findSome?_congr fun k hk => h.declaredMethod? (hlt hk) name descriptor
  have hroots : (cs.chain id).flatMap cs'.interfaces = (cs.chain id).flatMap cs.interfaces :=
    List.flatMap_congr fun k hk => h.interfaces (hlt hk)
  have hinherited :
      ((cs.chain id).flatMap cs.interfaces).filterMap (cs'.findInterfaceMethod? name descriptor) =
        ((cs.chain id).flatMap cs.interfaces).filterMap
          (cs.findInterfaceMethod? name descriptor) := by
    refine List.filterMap_congr fun i hi => ?_
    obtain ⟨k, hk, hi⟩ := List.mem_flatMap.mp hi
    exact h.findInterfaceMethod? (Nat.lt_trans (hdescending hi) (hlt hk)) name descriptor
  unfold Classes.findMethod?
  rw [h.chain hid, hdeclared, hroots, hinherited]

end Classes

namespace Registry

theorem Grows.continues {reg reg' : Registry} (h : reg.Grows reg') :
    Classes.Continues reg.classes reg'.classes :=
  fun _ _ hc => h.classes hc

theorem Grows.isAssignable {reg reg' : Registry} (h : reg.Grows reg') (hw : reg.WellFormed)
    {id target : ClassId} (hid : id < reg.classes.size) (htarget : target < reg.classes.size) :
    reg'.classes.isAssignable id target = reg.classes.isAssignable id target := by
  induction id using Nat.strongRecOn generalizing target with
  | ind id ih =>
      have hcontinues := h.continues
      rw [Classes.isAssignable, Classes.isAssignable, hcontinues.getElem? hid,
        hcontinues.getElem? htarget, hcontinues.implements hid, hcontinues.isSubclass hid]
      obtain ⟨c, hc⟩ : ∃ c, reg.classes[id]? = some c := ⟨_, Array.getElem?_eq_getElem hid⟩
      obtain ⟨t, ht⟩ : ∃ t, reg.classes[target]? = some t := ⟨_, Array.getElem?_eq_getElem htarget⟩
      simp only [hc, ht]
      cases hx : c.component? with
      | none => rfl
      | some x =>
          cases hy : t.component? with
          | none => rfl
          | some y =>
              have hxlt := hw.components hc hx
              have hylt := hw.components ht hy
              simp only [hxlt, if_true]
              rw [ih x hxlt (Nat.lt_trans hxlt hid) (Nat.lt_trans hylt htarget)]

end Registry

end ClassEngine.Machine
