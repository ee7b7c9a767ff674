import ClassEngine.Proofs.ClassFile.Building
import ClassEngine.Proofs.ClassFile.Guarantees
import ClassEngine.Proofs.Machine.Caches
import ClassEngine.Proofs.Machine.Dispatch

/-!
# Legal code

The code that is read from a class file is legal: its handlers lie inside of it.  Every method
that a machine comes by, in a class or a dispatch table, in a pool entry or a cache, was declared
in a class file, and so its code is legal.
-/

namespace ClassEngine.Machine

open Search (Source)

/-- The code of the method, if it has any, is legal. -/
def Method.Legal (m : Method) : Prop := ∀ b, m.body? = some b → b.Legal

def Classes.Declares (cs : Classes) (m : Method) : Prop :=
  ∃ (id : ClassId) (c : Class), cs[id]? = some c ∧ m ∈ c.methods

/-! ## Methods of a table -/

namespace VTable

variable {t : VTable} {m x : Method}

theorem mem_of_set {slot : Nat} (h : x ∈ (t.set slot m).slots) : x ∈ t.slots ∨ x = m :=
  Array.mem_or_eq_of_mem_setIfInBounds h

theorem mem_of_add (h : x ∈ (t.add m).slots) : x ∈ t.slots ∨ x = m := Array.mem_push.mp h

theorem mem_of_declare (h : x ∈ (t.declare m).slots) : x ∈ t.slots ∨ x = m := by
  unfold declare at h
  split at h
  · split at h
    · split at h
      · exact mem_of_set h
      · exact mem_of_add h
    · exact mem_of_add h
  · exact .inl h

theorem mem_of_inherit (h : x ∈ (t.inherit m).slots) : x ∈ t.slots ∨ x = m := by
  unfold inherit at h
  split at h
  · split at h
    · split at h
      · exact mem_of_set h
      · exact .inl h
    · exact mem_of_add h
  · exact .inl h

theorem mem_of_foldl {add : VTable → Method → VTable}
    (hadd : ∀ {t m}, x ∈ (add t m).slots → x ∈ t.slots ∨ x = m) {methods : List Method}
    (h : x ∈ (methods.foldl add t).slots) : x ∈ t.slots ∨ x ∈ methods := by
  induction methods generalizing t with
  | nil => exact .inl h
  | cons m rest ih =>
      rcases ih h with hfirst | hrest
      · exact (hadd hfirst).imp_right (by rintro rfl; exact List.mem_cons_self)
      · exact .inr (List.mem_cons_of_mem m hrest)

/-- Besides what it starts from, a table has methods of the class and of its superinterfaces. -/
theorem mem_of_buildVTable {cs : Classes} {methods : List Method} {superinterfaces : List ClassId}
    (h : x ∈ (buildVTable cs t methods superinterfaces).slots) :
    x ∈ t.slots ∨ x ∈ methods ∨ cs.Declares x := by
  rcases mem_of_foldl mem_of_inherit h with hown | hinherited
  · exact (mem_of_foldl mem_of_declare hown).imp_right .inl
  · obtain ⟨i, -, c, hc, hx⟩ := Classes.exists_of_mem_methodsOf hinherited
    exact .inr (.inr ⟨i, c, hc, hx⟩)

theorem mem_of_lookup? {name descriptor : String} (h : t.lookup? name descriptor = some x) :
    x ∈ t.slots := by
  obtain ⟨i, -, hx⟩ := Option.bind_eq_some_iff.mp h
  exact Array.mem_of_getElem? hx

end VTable

/-! ## Methods that are found -/

namespace Classes

variable {cs : Classes} {id : ClassId} {m : Method} {name descriptor : String}

theorem mem_of_preferConcrete {ms : List Method} (h : preferConcrete ms = some m) : m ∈ ms := by
  unfold preferConcrete at h
  split at h
  · rename_i hm
    cases h
    exact List.mem_of_find?_eq_some hm
  · exact List.mem_of_mem_head? h

theorem mem_of_declaredMethod? {c : Class} (h : c.declaredMethod? name descriptor = some m) :
    m ∈ c.methods :=
  List.mem_reverse.mp (List.mem_of_find?_eq_some h)

theorem declares_of_declaredMethod? (h : cs.declaredMethod? id name descriptor = some m) :
    cs.Declares m := by
  obtain ⟨c, hc, hm⟩ := Option.bind_eq_some_iff.mp h
  exact ⟨id, c, hc, mem_of_declaredMethod? hm⟩

theorem declared_of_findInterfaceMethod? (h : cs.findInterfaceMethod? name descriptor id = some m) :
    ∃ k, cs.declaredMethod? k name descriptor = some m := by
  induction id using Nat.strongRecOn generalizing m with
  | ind id ih =>
      rw [findInterfaceMethod?] at h
      split at h
      · rename_i hm
        cases h
        exact ⟨id, hm⟩
      · obtain ⟨i, -, hi⟩ := List.mem_filterMap.mp (mem_of_preferConcrete h)
        split at hi
        · exact ih i ‹_› hi
        · contradiction

theorem declared_of_findMethod? (h : cs.findMethod? id name descriptor = some m) :
    ∃ k, cs.declaredMethod? k name descriptor = some m := by
  unfold findMethod? at h
  split at h
  · rename_i hm
    cases h
    obtain ⟨k, -, hk⟩ := List.exists_of_findSome?_eq_some hm
    exact ⟨k, hk⟩
  · obtain ⟨i, -, hi⟩ := List.mem_filterMap.mp (mem_of_preferConcrete h)
    exact declared_of_findInterfaceMethod? hi

theorem declares_of_findMethod? (h : cs.findMethod? id name descriptor = some m) :
    cs.Declares m :=
  let ⟨_, hk⟩ := declared_of_findMethod? h
  declares_of_declaredMethod? hk

end Classes

/-! ## Methods of classes -/

theorem legal_of_readClass {src : Source} {name : String} {file : ClassFile}
    (h : readClass src name = .ok file) {m : ClassFile.Method} (hm : m ∈ file.methods) :
    m.Legal := by
  unfold readClass at h
  split at h
  · contradiction
  · contradiction
  · split at h
    · contradiction
    · rename_i hparse
      split at h <;> cases h
      exact (ClassFile.takes_classFile.of_runOn hparse).legal m hm

theorem legal_of_linkMethods {src : Source} {name : String} {file : ClassFile}
    (hread : readClass src name = .ok file) {d : Declaration}
    (hmethods : methodTypes file = .ok d.methods) {id : ClassId} {m : Method}
    (hm : m ∈ d.linkMethods id) : m.Legal := by
  obtain ⟨i, hi, rfl⟩ := List.mem_mapIdx.mp hm
  obtain ⟨m, hfile, htypes⟩ :=
    ClassFile.forall₂_exists (ClassFile.forall₂_of_mapM hmethods).flip (List.getElem_mem hi)
  have hsame : d.methods[i].1 = m := by
    split at htypes
    · exact congrArg Prod.fst (Except.ok.inj htypes).symm
    · contradiction
  intro b hb
  have hlegal := legal_of_readClass hread hfile
  rw [ClassFile.Method.Legal, ← hsame, show d.methods[i].1.body? = some b from hb] at hlegal
  exact hlegal

namespace Registry

variable {src : Source} {reg : Registry} {id : ClassId} {c : Class} {m : Method}

theorem Coherent.legal_of_declares (h : reg.Coherent src) (hm : reg.classes.Declares m) :
    m.Legal := by
  obtain ⟨id, c, hc, hm⟩ := hm
  obtain ⟨file, d, hread, hmethods, -, hm⟩ := (h.origin hc).linked_of_mem hm
  exact legal_of_linkMethods hread hmethods hm

theorem Coherent.declares_of_table (h : reg.Coherent src) (hc : reg.classes[id]? = some c)
    (hm : m ∈ c.vtable.slots) : reg.classes.Declares m := by
  induction id using Nat.strongRecOn generalizing c with
  | ind id ih =>
      have horigin := h.origin hc
      rw [horigin.vtable] at hm
      rcases VTable.mem_of_buildVTable hm with hinherited | hown | hdeclared
      · cases hs : c.super? with
        | none => simp [Classes.inheritedTable, hs, VTable.empty] at hinherited
        | some s =>
            cases hp : reg.classes[s]? with
            | none => simp [Classes.inheritedTable, hs, hp, VTable.empty] at hinherited
            | some p =>
                simp only [Classes.inheritedTable, hs, hp, Option.bind_some, Option.map_some,
                  Option.getD_some] at hinherited
                exact ih s (horigin.lt (.inl hs)) hp hinherited
      · exact ⟨id, c, hc, hown⟩
      · exact hdeclared

end Registry

/-- What the class declares and what its table holds has legal code. -/
structure Class.Legal (c : Class) : Prop where
  methods : ∀ m ∈ c.methods, m.Legal
  table : ∀ m ∈ c.vtable.slots, m.Legal

theorem Registry.Coherent.legal_class {src : Source} {reg : Registry} (h : reg.Coherent src)
    {id : ClassId} {c : Class} (hc : reg.classes[id]? = some c) : c.Legal where
  methods _ hm := h.legal_of_declares ⟨id, c, hc, hm⟩
  table _ hm := h.legal_of_declares (h.declares_of_table hc hm)

/-! ## Methods in pool entries -/

def LegalOutcome (outcome : Except Fault Resolved) : Prop :=
  ∀ m, outcome = .ok (.method m) → m.Legal

/-- The methods that pool entries of the class have been resolved to have legal code. -/
def ClassStatus.Legal (s : ClassStatus) : Prop :=
  ∀ (i : Nat) (r : Resolution), s.resolutions[i]? = some (some r) → LegalOutcome r.outcome

theorem ClassStatus.Legal.keep {s : ClassStatus} (h : s.Legal) (i : Nat) (use : PoolUse)
    {outcome : Except Fault Resolved} (houtcome : LegalOutcome outcome) :
    ClassStatus.Legal
      { s with resolutions := s.resolutions.setIfInBounds i (some ⟨use, outcome⟩) } := by
  intro j r hr
  rw [Array.getElem?_setIfInBounds] at hr
  split at hr
  · split at hr <;> cases hr
    exact houtcome
  · exact h j r hr

namespace Registry

variable {reg : Registry}

def LegalEntries (reg : Registry) : Prop :=
  ∀ (id : ClassId) (s : ClassStatus), reg.status? id = some s → s.Legal

theorem LegalEntries.add (h : reg.LegalEntries) {c : Class} {state : ClassState}
    {statics : Array Value} : (reg.add c state statics).2.LegalEntries := by
  intro id s hs i r hr
  exact h id s (status?_of_add hs hr) i r hr

theorem LegalEntries.load (h : reg.LegalEntries) (src : Source) (underWay : List String)
    (name : String) : (load src underWay name reg).2.LegalEntries :=
  load_invariant (I := fun reg => reg.LegalEntries) (fun _ h => h.add) (fun h => h)
    underWay name h

theorem LegalEntries.modifyStatus (h : reg.LegalEntries) (id : ClassId)
    {f : ClassStatus → ClassStatus} (hf : ∀ s : ClassStatus, s.Legal → (f s).Legal) :
    (reg.modifyStatus id f).LegalEntries := by
  intro j s hs
  rcases status?_modifyStatus_cases hs with ⟨t, ht, rfl, rfl⟩ | hs
  · exact hf t (h _ t ht)
  · exact h j s hs

end Registry

/-! ## Methods in caches -/

def Vm.LegalCaches (vm : Vm) : Prop :=
  ∀ s ∈ vm.sites, ∀ e ∈ s.2.entries, e.2.Legal

namespace Vm

variable {vm : Vm} {site : CallSite}

theorem LegalCaches.cacheAt (h : vm.LegalCaches) {e : ClassId × Method}
    (he : e ∈ (vm.cacheAt site).entries) : e.2.Legal := by
  unfold Vm.cacheAt at he
  cases hs : vm.sites.find? (·.1 = site) with
  | none =>
      rw [hs] at he
      contradiction
  | some s =>
      rw [hs] at he
      exact h s (List.mem_of_find?_eq_some hs) e he

theorem LegalCaches.setSite (h : vm.LegalCaches) {cache : InlineCache ClassId Method}
    (hcache : ∀ e ∈ cache.entries, e.2.Legal) :
    (Exec.after (Exec.setSite site cache) vm).LegalCaches := by
  intro s hs e he
  rcases List.mem_cons.mp hs with rfl | hs
  · exact hcache e he
  · exact h s (List.mem_of_mem_filter hs) e he

end Vm

end ClassEngine.Machine
