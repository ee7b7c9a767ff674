import ClassEngine.Machine.State
import ClassEngine.Proofs.Machine.Coherence

/-!
# What is kept for pool entries

The outcomes that are kept for pool entries stay as they are while classes are added, so a
property of each of them is kept as well if it is kept by adding classes.  A reference that
is kept is the object of the literal that the entry holds, and this object stays the same.
-/

namespace ClassEngine.Machine

namespace Registry

/-- Each outcome that is kept for a pool entry has the property, given the classes, the
number of the class, and the index of the entry. -/
def Keeping (P : Classes → ClassId → Nat → Except Fault Resolved → Prop) (reg : Registry) :
    Prop :=
  ∀ ⦃id : ClassId⦄ ⦃s : ClassStatus⦄ ⦃i : Nat⦄ ⦃r : Resolution⦄, reg.status? id = some s →
    s.resolutions[i]? = some (some r) → P reg.classes id i r.outcome

def Lasting (P : Classes → ClassId → Nat → Except Fault Resolved → Prop) : Prop :=
  ∀ ⦃cs cs' : Classes⦄, cs.Continues cs' → ∀ id i outcome, P cs id i outcome → P cs' id i outcome

variable {P Q : Classes → ClassId → Nat → Except Fault Resolved → Prop} {reg : Registry}
  {src : Search.Source}

theorem Keeping.mono (h : reg.Keeping P)
    (hPQ : ∀ cs id i outcome, P cs id i outcome → Q cs id i outcome) : reg.Keeping Q :=
  fun _ _ _ _ hs hr => hPQ _ _ _ _ (h hs hr)

theorem Keeping.add (h : reg.Keeping P) (hP : Lasting P) {c : Class} {state : ClassState}
    {statics : Array Value} : (reg.add c state statics).2.Keeping P := by
  intro id s i r hs hr
  exact hP continues_add _ _ _ (h (status?_of_add hs hr) hr)

theorem Keeping.load (h : reg.Keeping P) (hP : Lasting P) (name : String) :
    (load src [] name reg).2.Keeping P :=
  load_invariant (I := fun reg => reg.Keeping P) (fun _ h => h.add hP) (fun h => h) [] name h

theorem Keeping.modifyStatus (h : reg.Keeping P) (id : ClassId) {f : ClassStatus → ClassStatus}
    (hf : ∀ ⦃s : ClassStatus⦄ ⦃i : Nat⦄ ⦃r : Resolution⦄,
      (f s).resolutions[i]? = some (some r) →
        s.resolutions[i]? = some (some r) ∨ P reg.classes id i r.outcome) :
    (reg.modifyStatus id f).Keeping P := by
  intro j s i r hs hr
  rcases status?_modifyStatus_cases hs with ⟨t, ht, rfl, rfl⟩ | hs
  · rcases hf hr with hold | hnew
    · exact h ht hold
    · exact hnew
  · exact h hs hr

theorem Keeping.keep (h : reg.Keeping P) (id : ClassId) (i : Nat) {r : Resolution}
    (hr : P reg.classes id i r.outcome) :
    (reg.modifyStatus id fun s =>
      { s with resolutions := s.resolutions.setIfInBounds i (some r) }).Keeping P := by
  refine h.modifyStatus id fun s j r' hr' => ?_
  rw [Array.getElem?_setIfInBounds] at hr'
  split at hr'
  · rename_i hj
    subst hj
    split at hr' <;> cases hr'
    exact .inr hr
  · exact .inl hr'

end Registry

/-! ## Literals -/

namespace Heap

variable {h : Heap} {text : String} {r : Ref}

/-- The literal has this object. -/
def Interns (h : Heap) (text : String) (r : Ref) : Prop :=
  ∃ key, h.interned.find? (·.1 = text) = some (key, r)

theorem Interns.intern_eq (hr : h.Interns text r) (id : ClassId) (c : Class) :
    h.intern id c text = (r, h) := by
  obtain ⟨key, hfind⟩ := hr
  simp only [Heap.intern, hfind]

theorem interns_intern (h : Heap) (id : ClassId) (c : Class) (text : String) :
    (h.intern id c text).2.Interns text (h.intern id c text).1 := by
  unfold Heap.intern
  split
  · rename_i key r hfind
    exact ⟨key, hfind⟩
  · exact ⟨text, by simp⟩

theorem Interns.intern (hr : h.Interns text r) (id : ClassId) (c : Class) (other : String) :
    (h.intern id c other).2.Interns text r := by
  obtain ⟨key, hfind⟩ := hr
  unfold Heap.intern
  split
  · exact ⟨key, hfind⟩
  · rename_i hother
    have hne : other ≠ text := by
      rintro rfl
      rw [hfind] at hother
      contradiction
    exact ⟨key, by simpa [hne, Heap.newString, Heap.alloc] using hfind⟩

/-- If the outcome is a reference, it is the object of the literal at an index of the pool
of a class. -/
def Spells (h : Heap) (cs : Classes) (id : ClassId) (i : Nat)
    (outcome : Except Fault Resolved) : Prop :=
  ∀ r, outcome = .ok (.value (.ref r)) → ∃ c text, cs[id]? = some c ∧
    c.pool.stringValue (.ofNat i) = .ok text ∧ h.Interns text r

theorem lasting_spells (h : Heap) : Registry.Lasting h.Spells :=
  fun _ _ hcs id _ _ hspells r hr =>
    let ⟨c, text, hc, hrest⟩ := hspells r hr
    ⟨c, text, hcs id c hc, hrest⟩

end Heap

/-- The references that are kept for pool entries are the objects of literals. -/
def Vm.Literate (vm : Vm) : Prop := vm.registry.Keeping vm.heap.Spells

theorem Vm.Literate.heap {vm : Vm} (h : vm.Literate) {heap : Heap}
    (hinterns : ∀ text r, vm.heap.Interns text r → heap.Interns text r) :
    Vm.Literate { vm with heap } :=
  Registry.Keeping.mono h fun _ _ _ _ hspells r hr =>
    let ⟨c, text, hc, htext, hinterned⟩ := hspells r hr
    ⟨c, text, hc, htext, hinterns text r hinterned⟩

end ClassEngine.Machine
