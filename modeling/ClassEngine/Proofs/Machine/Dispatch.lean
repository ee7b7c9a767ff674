import ClassEngine.Proofs.Machine.PlainRoot
import ClassEngine.Proofs.Machine.RegistryLaw
import ClassEngine.Proofs.Machine.Tables

/-!
# Dispatch tables

A dispatch table is read as a function from names and descriptors to methods.  The
methods of a class go over those of its superclass, the last one of a key first; the
methods of its superinterfaces only fill what is missing or what an interface left
abstract.  So the table of a class agrees with the search along its superclasses.
-/

namespace ClassEngine.Machine

namespace Method

variable {m m' : Method} {name descriptor : String}

theorem hasKey_iff :
    m.hasKey name descriptor = true ↔ m.name = name ∧ m.descriptor = descriptor := by
  simp [hasKey]

/-- An abstract method of an interface, whose slot a default method may take. -/
def isOpen (m : Method) : Bool := m.isAbstract && m.ofInterface

end Method

/-! ## Tables as functions -/

namespace VTable

variable {t : VTable} {m old : Method} {name descriptor : String} {i : Nat}

theorem lookup?_add (ht : t.Indexed) (m : Method) (name descriptor : String) :
    (t.add m).lookup? name descriptor =
      if m.hasKey name descriptor then some m else t.lookup? name descriptor := by
  unfold lookup?
  rw [slotOf?_add]
  split
  · simp [add]
  · cases hslot : t.slotOf? name descriptor with
    | none => rfl
    | some i =>
        obtain ⟨old, hold, -⟩ := ht.slot hslot
        have hne : i ≠ t.slots.size := Nat.ne_of_lt (Array.getElem?_eq_some_iff.mp hold).1
        simp [add, Array.getElem?_push, hne]

theorem lookup?_set (ht : t.Indexed) (h : t.slotOf? m.name m.descriptor = some i)
    (name descriptor : String) :
    (t.set i m).lookup? name descriptor =
      if m.hasKey name descriptor then some m else t.lookup? name descriptor := by
  obtain ⟨old, hold, hkey⟩ := ht.slot h
  have hlt := (Array.getElem?_eq_some_iff.mp hold).1
  have hset (j : Nat) : (t.set i m).slots[j]? = if i = j then some m else t.slots[j]? := by
    simp only [set, Array.getElem?_setIfInBounds, hlt, if_true]
  have hslot : (t.set i m).slotOf? name descriptor = t.slotOf? name descriptor := rfl
  unfold lookup?
  rw [hslot]
  cases hmkey : m.hasKey name descriptor with
  | true =>
      obtain ⟨rfl, rfl⟩ := Method.hasKey_iff.mp hmkey
      simp [h, hset]
  | false =>
      cases hother : t.slotOf? name descriptor with
      | none => rfl
      | some j =>
          obtain ⟨other, hj, hotherKey⟩ := ht.slot hother
          have hne : i ≠ j := by
            rintro rfl
            cases hold.symm.trans hj
            have hsame : m.key = ⟨name, descriptor⟩ := hkey.symm.trans hotherKey
            rw [Method.key_eq_iff, hmkey] at hsame
            cases hsame
          simp [hset, hne]

theorem lookup?_declare (ht : t.Indexed) (m : Method) (name descriptor : String) :
    (t.declare m).lookup? name descriptor =
      if m.isVirtual && m.hasKey name descriptor then some m else t.lookup? name descriptor := by
  unfold declare
  cases m.isVirtual with
  | false => simp
  | true =>
      simp only [if_true, Bool.true_and]
      cases hslot : t.slotOf? m.name m.descriptor with
      | none => exact lookup?_add ht m name descriptor
      | some i =>
          dsimp only
          split
          · exact lookup?_set ht hslot name descriptor
          · exact lookup?_add ht m name descriptor

theorem lookup?_foldl_declare (ht : t.Indexed) (methods : List Method)
    (name descriptor : String) :
    (methods.foldl declare t).lookup? name descriptor =
      (methods.reverse.find? fun m => m.isVirtual && m.hasKey name descriptor).or
        (t.lookup? name descriptor) := by
  induction methods generalizing t with
  | nil => simp
  | cons m rest ih =>
      rw [List.foldl_cons, ih (ht.declare m), lookup?_declare ht, List.reverse_cons,
        List.find?_append, Option.or_assoc]
      congr 1
      cases hm : m.isVirtual && m.hasKey name descriptor with
      | true => simp [hm]
      | false => simp [hm]

/-- What the table has for the key of a method of a superinterface. -/
def offer (m : Method) (old? : Option Method) : Option Method :=
  match old? with
  | none => some m
  | some old => if !m.isAbstract && old.isOpen then some m else some old

theorem lookup?_inherit (ht : t.Indexed) (m : Method) (name descriptor : String) :
    (t.inherit m).lookup? name descriptor =
      if m.isVirtual && m.hasKey name descriptor then offer m (t.lookup? name descriptor)
      else t.lookup? name descriptor := by
  unfold inherit
  cases m.isVirtual with
  | false => simp
  | true =>
      simp only [if_true, Bool.true_and]
      cases hslot : t.slotOf? m.name m.descriptor with
      | none =>
          dsimp only
          rw [lookup?_add ht]
          split
          · rename_i hkey
            obtain ⟨rfl, rfl⟩ := Method.hasKey_iff.mp hkey
            simp [lookup?, hslot, offer]
          · rfl
      | some i =>
          obtain ⟨old, hold, -⟩ := ht.slot hslot
          have hlookup : t.lookup? m.name m.descriptor = some old := by simp [lookup?, hslot, hold]
          have hopen : (t.slots[i]?).any (fun old => old.isAbstract && old.ofInterface) =
              old.isOpen := by rw [hold]; rfl
          dsimp only
          rw [hopen]
          by_cases hkey : m.hasKey name descriptor = true
          · obtain ⟨rfl, rfl⟩ := Method.hasKey_iff.mp hkey
            rw [if_pos hkey, hlookup, offer]
            split
            · rw [lookup?_set ht hslot, if_pos hkey]
            · exact hlookup
          · rw [if_neg hkey]
            split
            · rw [lookup?_set ht hslot, if_neg hkey]
            · rfl

theorem lookup?_foldl_inherit (ht : t.Indexed) {methods : List Method}
    (h : t.lookup? name descriptor = some old) (hopen : old.isOpen = false) :
    (methods.foldl inherit t).lookup? name descriptor = some old := by
  induction methods generalizing t with
  | nil => exact h
  | cons m rest ih =>
      refine ih (ht.inherit m) ?_
      rw [lookup?_inherit ht, h]
      split
      · simp [offer, hopen]
      · rfl

end VTable

/-! ## The table of a class -/

/-- Of several virtual methods with one name and descriptor, the last. -/
def Class.declaredVirtual? (c : Class) (name descriptor : String) : Option Method :=
  c.methods.reverse.find? fun m => m.isVirtual && m.hasKey name descriptor

namespace Classes

/-- The method that a class or the nearest of its superclasses declares. -/
def nearest? (cs : Classes) (id : ClassId) (name descriptor : String) : Option Method :=
  (cs.chain id).findSome? fun k => cs.declaredMethod? k name descriptor

variable {cs : Classes} {id : ClassId} {c : Class} {m : Method} {name descriptor : String}

theorem nearest?_of_declared (hc : cs[id]? = some c)
    (hm : c.declaredMethod? name descriptor = some m) :
    cs.nearest? id name descriptor = some m := by
  rw [nearest?, chain, List.findSome?_cons]
  simp [declaredMethod?, hc, hm]

theorem nearest?_of_not_declared (hc : cs[id]? = some c)
    (hm : c.declaredMethod? name descriptor = none) (hlt : ∀ s ∈ c.super?, s < id) :
    cs.nearest? id name descriptor =
      c.super?.bind fun s => cs.nearest? s name descriptor := by
  have hdeclared : cs.declaredMethod? id name descriptor = none := by
    simp [declaredMethod?, hc, hm]
  have hsuper : cs.super? id = c.super? := by simp [super?, hc]
  rw [nearest?, chain, List.findSome?_cons, hdeclared, hsuper]
  cases hs : c.super? with
  | none => rfl
  | some s =>
      simp only [hlt s hs, if_true, Option.bind_some]
      rfl

theorem findMethod?_of_nearest? (h : cs.nearest? id name descriptor = some m) :
    cs.findMethod? id name descriptor = some m := by
  unfold nearest? at h
  unfold findMethod?
  rw [h]

/-- The virtual method that a class or the nearest of its superclasses declares. -/
def nearestVirtual? (cs : Classes) (id : ClassId) (name descriptor : String) : Option Method :=
  (cs.chain id).findSome? fun k => (cs[k]?).bind (·.declaredVirtual? name descriptor)

theorem nearestVirtual?_eq (hc : cs[id]? = some c) (hlt : ∀ s ∈ c.super?, s < id) :
    cs.nearestVirtual? id name descriptor =
      (c.declaredVirtual? name descriptor).or
        (c.super?.bind fun s => cs.nearestVirtual? s name descriptor) := by
  have hsuper : cs.super? id = c.super? := by simp [super?, hc]
  rw [nearestVirtual?, chain, List.findSome?_cons, hc, Option.bind_some, hsuper]
  cases c.declaredVirtual? name descriptor with
  | some m => rfl
  | none =>
      cases hs : c.super? with
      | none => rfl
      | some s =>
          simp only [hlt s hs, if_true, Option.bind_some, Option.none_or]
          rfl

def inheritedTable (cs : Classes) (c : Class) : VTable :=
  ((c.super?.bind (cs[·]?)).map (·.vtable)).getD .empty

/-- The interfaces whose methods go into the table of a class, in their order. -/
def superinterfaces (cs : Classes) (c : Class) : List ClassId :=
  if c.isArray then [] else cs.allInterfaces c.interfaces c.super?

end Classes

section

variable {src : Search.Source} {cs : Classes} {id : ClassId} {c : Class} {m : Method}
  {name descriptor : String}

theorem Origin.vtable (h : Origin src cs id c) :
    c.vtable =
      buildVTable cs (cs.inheritedTable c) c.methods (cs.superinterfaces c) := by
  obtain ⟨needs, ids, statics, -, -, hassemble⟩ := h
  generalize hname : c.name = name at hassemble
  cases harray : isArrayName name with
  | true =>
      obtain ⟨element, root, rest, -, -, rfl⟩ := assemble_array harray hassemble
      rfl
  | false =>
      obtain ⟨file, fields, methods, -, -, -, rfl⟩ := assemble_file harray hassemble
      rfl

theorem Classes.indexed_inheritedTable
    (h : ∀ (s : ClassId) (p : Class), s ∈ c.super? → cs[s]? = some p → p.vtable.Indexed) :
    (cs.inheritedTable c).Indexed := by
  unfold inheritedTable
  cases hp : c.super?.bind (cs[·]?) with
  | none => exact VTable.indexed_empty
  | some p =>
      obtain ⟨s, hs, hp⟩ := Option.bind_eq_some_iff.mp hp
      exact h s p hs hp

theorem Origin.owner (h : Origin src cs id c) (hm : m ∈ c.methods) : m.id.owner = id := by
  obtain ⟨file, d, -, -, -, hm⟩ := h.linked_of_mem hm
  exact Registry.linkMethods_owner hm

theorem Origin.ofInterface (h : Origin src cs id c) (hm : m ∈ c.methods) :
    m.ofInterface = c.isInterface := by
  obtain ⟨file, d, -, -, rfl, hm⟩ := h.linked_of_mem hm
  obtain ⟨i, hi, rfl⟩ := List.mem_mapIdx.mp hm
  rfl

theorem Origin.super_plain (h : Origin src cs id c) (harray : c.isArray = false) {s : ClassId}
    (hs : c.super? = some s) :
    ∃ p, cs[s]? = some p ∧ p.isInterface = false ∧ p.isArray = false := by
  obtain ⟨needs, ids, statics, hneeds, hfills, hassemble⟩ := h
  rw [isArray_of_assemble hassemble] at harray
  obtain ⟨file, fields, methods, hread, -, -, hlink⟩ := assemble_file harray hassemble
  simp only [requirements, harray, hread, Bool.false_eq_true, if_false, Except.map,
    Except.ok.injEq] at hneeds
  have hhead : (declaration file ids fields methods).super? = some s := by
    rw [← hs, ← hlink]
    rfl
  simp only [declaration] at hhead
  split at hhead
  · cases hhead
  · rename_i hsuper
    simp only [superNeeds, hsuper, if_false, List.singleton_append] at hneeds
    subst hneeds
    cases hfills with
    | cons hfirst _ =>
        cases hhead
        obtain ⟨-, p, hp, -, hobjection⟩ := hfirst
        simp only [Role.objection?] at hobjection
        split at hobjection
        · cases hobjection
        · rename_i hplain
          simp only [Bool.or_eq_true, not_or, Bool.not_eq_true] at hplain
          exact ⟨p, hp, hplain.1.1, hplain.2⟩

theorem declaredVirtual?_of_declared (hm : c.declaredMethod? name descriptor = some m)
    (hvirtual : m.isVirtual = true) : c.declaredVirtual? name descriptor = some m := by
  rw [Class.declaredMethod?, List.find?_eq_some_iff_append] at hm
  obtain ⟨hkey, before, after, hmethods, hbefore⟩ := hm
  rw [Class.declaredVirtual?, List.find?_eq_some_iff_append]
  refine ⟨by simp [hvirtual, hkey], before, after, hmethods, fun m' hm' => ?_⟩
  have hother : m'.hasKey name descriptor = false := by simpa using hbefore m' hm'
  simp [hother]

theorem declaredVirtual?_of_not_declared (hm : c.declaredMethod? name descriptor = none) :
    c.declaredVirtual? name descriptor = none := by
  rw [Class.declaredMethod?, List.find?_eq_none] at hm
  rw [Class.declaredVirtual?, List.find?_eq_none]
  intro m' hm'
  have hother : m'.hasKey name descriptor = false := by simpa using hm m' hm'
  simp [hother]

theorem Classes.nearestVirtual?_of_nearest? (hm : cs.nearest? id name descriptor = some m)
    (hvirtual : m.isVirtual = true) : cs.nearestVirtual? id name descriptor = some m := by
  obtain ⟨before, k, after, hchain, hk, hbefore⟩ := List.findSome?_eq_some_iff.mp hm
  refine List.findSome?_eq_some_iff.mpr ⟨before, k, after, hchain, ?_, fun j hj => ?_⟩
  · obtain ⟨d, hd, hdeclared⟩ := Option.bind_eq_some_iff.mp hk
    rw [hd, Option.bind_some]
    exact declaredVirtual?_of_declared hdeclared hvirtual
  · have hnone := hbefore j hj
    cases hd : cs[j]? with
    | none => rfl
    | some d =>
        rw [Classes.declaredMethod?, hd, Option.bind_some] at hnone
        exact declaredVirtual?_of_not_declared hnone

theorem Origin.lookup? (h : Origin src cs id c) (hinherited : (cs.inheritedTable c).Indexed)
    (hopen : m.isOpen = false)
    (hm : ((c.declaredVirtual? name descriptor).or
      ((cs.inheritedTable c).lookup? name descriptor)) = some m) :
    c.vtable.lookup? name descriptor = some m := by
  rw [h.vtable, buildVTable]
  rw [Class.declaredVirtual?, ← VTable.lookup?_foldl_declare hinherited] at hm
  exact VTable.lookup?_foldl_inherit (hinherited.foldl_declare _) hm hopen

end

namespace Registry

variable {src : Search.Source} {reg : Registry} {id : ClassId} {c : Class} {m : Method}
  {name descriptor : String}

theorem Coherent.indexed (h : reg.Coherent src) (hc : reg.classes[id]? = some c) :
    c.vtable.Indexed := by
  induction id using Nat.strongRecOn generalizing c with
  | ind id ih =>
      have horigin := h.origin hc
      have hinherited : (reg.classes.inheritedTable c).Indexed :=
        Classes.indexed_inheritedTable fun s p hs hp => ih s (horigin.lt (.inl hs)) hp
      rw [horigin.vtable]
      exact (VTable.build_step hinherited _ _ _).1

theorem Coherent.indexed_inheritedTable (h : reg.Coherent src) (c : Class) :
    (reg.classes.inheritedTable c).Indexed :=
  Classes.indexed_inheritedTable fun _ _ _ hp => h.indexed hp

theorem Coherent.inheritedTable_lookup? (h : reg.Coherent src)
    (hc : reg.classes[id]? = some c) (name descriptor : String) :
    (reg.classes.inheritedTable c).lookup? name descriptor =
      c.super?.bind fun s => (reg.classes[s]?).bind (·.vtable.lookup? name descriptor) := by
  cases hs : c.super? with
  | none =>
      simp only [Classes.inheritedTable, hs, Option.bind_none, Option.map_none, Option.getD_none]
      rfl
  | some s =>
      obtain ⟨p, hp, -⟩ := h.named hc (.inl hs)
      simp [Classes.inheritedTable, hs, hp]

/-- A method on the chain of superclasses is found in the table unless it is open. -/
theorem Coherent.lookup?_of_nearestVirtual? (h : reg.Coherent src)
    (hc : reg.classes[id]? = some c)
    (hm : reg.classes.nearestVirtual? id name descriptor = some m) (hopen : m.isOpen = false) :
    c.vtable.lookup? name descriptor = some m := by
  induction id using Nat.strongRecOn generalizing c with
  | ind id ih =>
      have horigin := h.origin hc
      have hlt (s : ClassId) (hs : s ∈ c.super?) : s < id := horigin.lt (.inl hs)
      rw [Classes.nearestVirtual?_eq hc hlt] at hm
      refine horigin.lookup? (h.indexed_inheritedTable c) hopen ?_
      rw [h.inheritedTable_lookup? hc]
      cases hdeclared : c.declaredVirtual? name descriptor with
      | some m' =>
          rw [hdeclared, Option.some_or] at hm
          rw [Option.some_or, hm]
      | none =>
          rw [hdeclared, Option.none_or] at hm
          obtain ⟨s, hs, hm⟩ := Option.bind_eq_some_iff.mp hm
          obtain ⟨p, hp, -⟩ := h.named hc (.inl hs)
          rw [Option.none_or, hs, Option.bind_some, hp, Option.bind_some]
          exact ih s (hlt s hs) hp hm

theorem Coherent.ofInterface_nearest? (h : reg.Coherent src) (hc : reg.classes[id]? = some c)
    (harray : c.isArray = false) (hinterface : c.isInterface = false)
    (hm : reg.classes.nearest? id name descriptor = some m) : m.ofInterface = false := by
  induction id using Nat.strongRecOn generalizing c with
  | ind id ih =>
      have horigin := h.origin hc
      cases hdeclared : c.declaredMethod? name descriptor with
      | some m' =>
          rw [Classes.nearest?_of_declared hc hdeclared] at hm
          cases hm
          have hmem : m ∈ c.methods := List.mem_reverse.mp (List.mem_of_find?_eq_some hdeclared)
          exact (horigin.ofInterface hmem).trans hinterface
      | none =>
          have hlt (s : ClassId) (hs : s ∈ c.super?) : s < id := horigin.lt (.inl hs)
          rw [Classes.nearest?_of_not_declared hc hdeclared hlt] at hm
          cases hs : c.super? with
          | none => simp [hs] at hm
          | some s =>
              rw [hs, Option.bind_some] at hm
              obtain ⟨p, hp, hplain, hparray⟩ := horigin.super_plain harray hs
              exact ih s (hlt s hs) hp hparray hplain hm

end Registry

/-! ## Sessions -/

/-- The table of a class leads to the method of the nearest declaration, as the search
does.  Only an array class may differ, for a method that an interface left abstract. -/
theorem dispatch_most_derived (source? : Option Search.Source) (maxFrames : Int)
    (profiler? : Option (Profiler MethodId)) (calls : List HostCall) (id : ClassId) (c : Class)
    (name descriptor : String) (m : Method) :
    let reg := ((Vm.start source? maxFrames profiler?).answer calls).registry
    reg.classes[id]? = some c → c.isInterface = false →
      reg.classes.nearest? id name descriptor = some m → m.isVirtual = true →
      (c.isArray = true → m.isOpen = false) →
      c.vtable.lookup? name descriptor = some m ∧
        reg.classes.findMethod? id name descriptor = some m := by
  intro reg hc hinterface hm hvirtual harray
  have hcoherent : reg.Coherent _ := Vm.coherent_start source? maxFrames profiler? calls
  refine ⟨hcoherent.lookup?_of_nearestVirtual? hc
    (Classes.nearestVirtual?_of_nearest? hm hvirtual) ?_, Classes.findMethod?_of_nearest? hm⟩
  cases hcarray : c.isArray with
  | true => exact harray hcarray
  | false =>
      have hclass := hcoherent.ofInterface_nearest? hc hcarray hinterface hm
      simp [Method.isOpen, hclass]

/-! ## A root class that is an interface -/

namespace InterfaceRoot

/-- An interface with an abstract method `foo` and a default method `bar`, and with the
superinterface `J`. -/
def rootFile : List UInt8 := [
  0xca, 0xfe, 0xba, 0xbe, 0x00, 0x00, 0x00, 0x34, 0x00, 0x09, 0x01, 0x00, 0x10, 0x6a, 0x61, 0x76,
  0x61, 0x2f, 0x6c, 0x61, 0x6e, 0x67, 0x2f, 0x4f, 0x62, 0x6a, 0x65, 0x63, 0x74, 0x07, 0x00, 0x01,
  0x01, 0x00, 0x01, 0x4a, 0x07, 0x00, 0x03, 0x01, 0x00, 0x03, 0x66, 0x6f, 0x6f, 0x01, 0x00, 0x03,
  0x28, 0x29, 0x56, 0x01, 0x00, 0x04, 0x43, 0x6f, 0x64, 0x65, 0x01, 0x00, 0x03, 0x62, 0x61, 0x72,
  0x06, 0x01, 0x00, 0x02, 0x00, 0x00, 0x00, 0x01, 0x00, 0x04, 0x00, 0x00, 0x00, 0x02, 0x04, 0x01,
  0x00, 0x05, 0x00, 0x06, 0x00, 0x00, 0x00, 0x01, 0x00, 0x08, 0x00, 0x06, 0x00, 0x01, 0x00, 0x07,
  0x00, 0x00, 0x00, 0x0d, 0x00, 0x00, 0x00, 0x01, 0x00, 0x00, 0x00, 0x01, 0xb1, 0x00, 0x00, 0x00,
  0x00, 0x00, 0x00]

/-- An interface with a default method `foo`; its superclass entry names the empty text. -/
def extensionFile : List UInt8 := [
  0xca, 0xfe, 0xba, 0xbe, 0x00, 0x00, 0x00, 0x34, 0x00, 0x08, 0x01, 0x00, 0x01, 0x4a, 0x07, 0x00,
  0x01, 0x01, 0x00, 0x00, 0x07, 0x00, 0x03, 0x01, 0x00, 0x03, 0x66, 0x6f, 0x6f, 0x01, 0x00, 0x03,
  0x28, 0x29, 0x56, 0x01, 0x00, 0x04, 0x43, 0x6f, 0x64, 0x65, 0x06, 0x01, 0x00, 0x02, 0x00, 0x04,
  0x00, 0x00, 0x00, 0x00, 0x00, 0x01, 0x00, 0x01, 0x00, 0x05, 0x00, 0x06, 0x00, 0x01, 0x00, 0x07,
  0x00, 0x00, 0x00, 0x0d, 0x00, 0x00, 0x00, 0x01, 0x00, 0x00, 0x00, 0x01, 0xb1, 0x00, 0x00, 0x00,
  0x00, 0x00, 0x00]

def files : Search.Memory :=
  ⟨[(ClassFile.rootClassName, .ok rootFile), ("J", .ok extensionFile)]⟩

def vm : Vm := Vm.start (some files.source) 0 none

def methodOf (id index : Nat) (className name : String) (flags : UInt16)
    (body? : Option ClassFile.Body) : Method :=
  ⟨⟨id, index⟩, className, 0x0601, name, "()V", flags, ⟨[], none, "()V"⟩, body?⟩

def body : ClassFile.Body := ⟨0, 1, #[0xb1], [], []⟩

def defaultFoo : Method := methodOf 0 0 "J" "foo" 0x0001 (some body)

def foo : Method := methodOf 1 0 ClassFile.rootClassName "foo" 0x0401 none

def bar : Method := methodOf 1 1 ClassFile.rootClassName "bar" 0x0001 (some body)

def extension : Class :=
  { PlainRoot.root with
    name := "J"
    flags := 0x0601
    methods := [defaultFoo]
    vtable := ⟨#[defaultFoo], [(⟨"foo", "()V"⟩, 0)]⟩
    pool := ⟨#[none, some (.utf8 "J"), some (.classRef 1), some (.utf8 ""), some (.classRef 3),
      some (.utf8 "foo"), some (.utf8 "()V"), some (.utf8 "Code")]⟩ }

def root : Class :=
  { PlainRoot.root with
    flags := 0x0601
    interfaces := [0]
    methods := [foo, bar]
    vtable := ⟨#[defaultFoo, bar], [(⟨"bar", "()V"⟩, 1), (⟨"foo", "()V"⟩, 0)]⟩
    pool := ⟨#[none, some (.utf8 ClassFile.rootClassName), some (.classRef 1), some (.utf8 "J"),
      some (.classRef 3), some (.utf8 "foo"), some (.utf8 "()V"), some (.utf8 "Code"),
      some (.utf8 "bar")]⟩ }

def ints : Class := linkArray #[extension, root] "[I" 1 ⟨'I', none⟩

def withExtension : Registry := (({} : Registry).add extension .linked #[]).2

def withRoot : Registry := (withExtension.add root .linked #[]).2

def withInts : Registry := (withRoot.add ints .initialized #[]).2

theorem load_extension :
    load vm.source [ClassFile.rootClassName, "[I"] "J" {} = (.ok 0, withExtension) :=
  Registry.load_alone extension (by decide) (by with_unfolding_all decide)
    (by with_unfolding_all decide)

theorem load_root : load vm.source ["[I"] ClassFile.rootClassName {} = (.ok 1, withRoot) := by
  have hgather : gather (load vm.source [ClassFile.rootClassName, "[I"]) ClassFile.rootClassName
      [⟨.superinterface, "J"⟩] {} = (.ok [0], withExtension) :=
    Registry.gather_cons load_extension (by decide) rfl
  exact Registry.load_of_gathered withExtension root (by with_unfolding_all decide) (by decide)
    (by decide) (by with_unfolding_all decide) hgather (by with_unfolding_all decide)

theorem load_ints : load vm.source [] "[I" {} = (.ok 2, withInts) := by
  have hgather : gather (load vm.source ["[I"]) "[I" [⟨.part, ClassFile.rootClassName⟩] {} =
      (.ok [1], withRoot) :=
    Registry.gather_cons load_root (by decide) rfl
  exact Registry.load_of_gathered withRoot ints (by with_unfolding_all decide) (by decide)
    (by decide) (by decide) hgather (by decide)

theorem nearest?_root (name descriptor : String) :
    withInts.classes.nearest? 2 name descriptor = root.declaredMethod? name descriptor := by
  have hints : ints.declaredMethod? name descriptor = none := rfl
  rw [Classes.nearest?_of_not_declared (rfl : withInts.classes[2]? = some ints) hints (by decide)]
  show withInts.classes.nearest? 1 name descriptor = _
  cases hm : root.declaredMethod? name descriptor with
  | some m => exact Classes.nearest?_of_declared rfl hm
  | none =>
      rw [Classes.nearest?_of_not_declared (rfl : withInts.classes[1]? = some root) hm nofun]
      rfl

theorem dispatches_bar :
    let reg := (vm.answer [.request 0 (.load "[I")]).registry
    reg.classes[2]? = some ints ∧ ints.vtable.lookup? "bar" "()V" = some bar ∧
      reg.classes.findMethod? 2 "bar" "()V" = some bar := by
  have hints : (vm.answer [.request 0 (.load "[I")]).registry.classes[2]? = some ints := by
    rw [Vm.answer_load 0 load_ints]
    rfl
  have hnearest : (vm.answer [.request 0 (.load "[I")]).registry.classes.nearest? 2 "bar" "()V" =
      some bar := by
    rw [Vm.answer_load 0 load_ints, nearest?_root]
    decide +kernel
  exact ⟨hints, dispatch_most_derived (some files.source) 0 none [.request 0 (.load "[I")] 2 ints
    "bar" "()V" bar hints (by decide) hnearest (by decide +kernel) (by decide)⟩

/-- The arrays have a default method in their table in place of the one that the root
class declares. -/
theorem selects_default :
    let reg := (vm.answer [.request 0 (.load "[I")]).registry
    reg.classes[2]? = some ints ∧ ints.isInterface = false ∧
      reg.classes.nearest? 2 "foo" "()V" = some foo ∧ foo.isVirtual = true ∧
      reg.classes.findMethod? 2 "foo" "()V" = some foo ∧
      ints.vtable.lookup? "foo" "()V" = some defaultFoo ∧ defaultFoo ≠ foo := by
  have hnearest : withInts.classes.nearest? 2 "foo" "()V" = some foo := by
    rw [nearest?_root]
    decide +kernel
  rw [Vm.answer_load 0 load_ints]
  exact ⟨rfl, by decide, hnearest, by decide +kernel, Classes.findMethod?_of_nearest? hnearest,
    by decide +kernel, by decide⟩

end InterfaceRoot

end ClassEngine.Machine
