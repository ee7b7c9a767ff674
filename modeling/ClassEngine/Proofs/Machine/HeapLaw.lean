import ClassEngine.Machine.Heap
import ClassEngine.Proofs.Machine.Hierarchy

/-!
# The law of the heap

Objects are only added to a heap, and each keeps its class and its numbers of fields and
elements.  A heap is closed when the references in it are null or lead to its objects.
Allocation and assignment keep a heap closed.
-/

namespace ClassEngine.Machine

/-! ## Values that refer to no object -/

/-- The value is no reference to an object, whatever the heap. -/
class Value.Harmless (v : Value) : Prop where
  null : ∀ r, v = .ref r → r = .null

namespace Value

instance : Harmless .top := ⟨nofun⟩

instance : Harmless .null := ⟨by rintro _ ⟨⟩; rfl⟩

instance (v : Int32) : Harmless (.int v) := ⟨nofun⟩

instance (v : Int64) : Harmless (.long v) := ⟨nofun⟩

instance (bits : UInt32) : Harmless (.float bits) := ⟨nofun⟩

instance (bits : UInt64) : Harmless (.double bits) := ⟨nofun⟩

instance (pc : UInt64) : Harmless (.returnAddress pc) := ⟨nofun⟩

instance (b : Bool) : Harmless (.ofBool b) := ⟨nofun⟩

instance (kind : Char) : Harmless (.zero kind) := by
  unfold zero
  split <;> infer_instance

end Value

instance (c : Code.Conversion) (v : Value) : (convert c v).Harmless := by
  cases c <;> exact ⟨nofun⟩

/-- The property says nothing of values that refer to no object. -/
def Lenient (P : Value → Prop) : Prop := ∀ v : Value, v.Harmless → P v

/-! ## Shapes -/

structure Object.SameShape (o o' : Object) : Prop where
  classId : o'.classId = o.classId
  fields : o'.fields.size = o.fields.size
  elements : o'.elements.size = o.elements.size

theorem Object.SameShape.refl (o : Object) : o.SameShape o := ⟨rfl, rfl, rfl⟩

theorem Object.SameShape.trans {o o' o'' : Object} (h : o.SameShape o') (h' : o'.SameShape o'') :
    o.SameShape o'' :=
  ⟨h'.classId.trans h.classId, h'.fields.trans h.fields, h'.elements.trans h.elements⟩

/-- What the fields and the elements of an object have in common. -/
def Object.Holds (P : Value → Prop) (o : Object) : Prop :=
  (∀ v ∈ o.fields, P v) ∧ ∀ v ∈ o.elements, P v

namespace Heap

/-- Every object stays in its place and keeps its shape. -/
def Persists (h h' : Heap) : Prop :=
  ∀ (i : Nat) (o : Object), h.objects[i]? = some o →
    ∃ o', h'.objects[i]? = some o' ∧ o.SameShape o'

/-- If the value is a reference, it is null or addresses an object. -/
def Admits (h : Heap) (v : Value) : Prop :=
  ∀ r, v = .ref r → r = .null ∨ (h.get? r).isSome

structure Closed (h : Heap) : Prop where
  objects : ∀ {i : Nat} {o : Object}, h.objects[i]? = some o → o.Holds h.Admits
  interned : ∀ {text : String} {r : Ref}, (text, r) ∈ h.interned → h.Admits (.ref r)

/-- Every object is of a class, and one that is no array has exactly its instance fields. -/
def Fits (h : Heap) (cs : Classes) : Prop :=
  ∀ (i : Nat) (o : Object), h.objects[i]? = some o →
    ∃ c, cs[o.classId]? = some c ∧ (c.isArray = false → o.fields.size = c.layout.size)

variable {h h' h'' : Heap} {v : Value} {r : Ref} {o : Object} {cs cs' : Classes}

theorem Persists.refl (h : Heap) : h.Persists h := fun _ o ho => ⟨o, ho, .refl o⟩

theorem Persists.trans (hab : h.Persists h') (hbc : h'.Persists h'') : h.Persists h'' := by
  intro i o ho
  obtain ⟨o', ho', hshape⟩ := hab i o ho
  obtain ⟨o'', ho'', hshape'⟩ := hbc i o' ho'
  exact ⟨o'', ho'', hshape.trans hshape'⟩

theorem admits_of_harmless (h : Heap) (v : Value) [hv : v.Harmless] : h.Admits v :=
  fun r hr => .inl (hv.null r hr)

theorem lenient_admits (h : Heap) : Lenient h.Admits := fun v _ => h.admits_of_harmless v

theorem admits_of_get? (hr : h.get? r = some o) : h.Admits (.ref r) := by
  rintro _ ⟨⟩
  exact .inr (by simp [hr])

theorem Admits.mono (hv : h.Admits v) (hp : h.Persists h') : h'.Admits v := by
  intro r hr
  rcases hv r hr with hnull | hsome
  · exact .inl hnull
  · right
    obtain ⟨o, ho⟩ := Option.isSome_iff_exists.mp hsome
    unfold get? at ho ⊢
    split at ho
    · contradiction
    · rename_i hne
      obtain ⟨o', ho', -⟩ := hp _ o ho
      rw [if_neg hne, ho']
      rfl

theorem Holds.mono {P Q : Value → Prop} (ho : o.Holds P) (h : ∀ v, P v → Q v) : o.Holds Q :=
  ⟨fun v hv => h v (ho.1 v hv), fun v hv => h v (ho.2 v hv)⟩

theorem Fits.mono (hf : h.Fits cs) (hcs : Classes.Continues cs cs') : h.Fits cs' := by
  intro i o ho
  obtain ⟨c, hc, hsize⟩ := hf i o ho
  exact ⟨c, hcs o.classId c hc, hsize⟩

theorem Closed.get? (hc : h.Closed) (hr : h.get? r = some o) : o.Holds h.Admits := by
  unfold Heap.get? at hr
  split at hr
  · contradiction
  · exact hc.objects hr

/-! ## Allocation -/

theorem getElem?_alloc (h : Heap) (o : Object) (i : Nat) :
    (h.alloc o).2.objects[i]? = if i = h.objects.size then some o else h.objects[i]? := by
  simp [alloc, Array.getElem?_push]

theorem persists_alloc (h : Heap) (o : Object) : h.Persists (h.alloc o).2 := by
  intro i o' ho'
  have hlt := (Array.getElem?_eq_some_iff.mp ho').1
  refine ⟨o', ?_, .refl o'⟩
  rw [getElem?_alloc, if_neg (by omega), ho']

theorem admits_alloc (h : Heap) (o : Object) : (h.alloc o).2.Admits (.ref (h.alloc o).1) := by
  rintro _ ⟨⟩
  -- Should the addresses run out, a new object gets the address null or an old address.
  by_cases hnull : (h.alloc o).1 = .null
  · exact .inl hnull
  · right
    have hle : (h.alloc o).1.address.toNat ≤ h.objects.size + 1 := by
      simp only [alloc, UInt32.toNat_ofNat']
      exact Nat.mod_le _ _
    have hpos : (h.alloc o).1.address.toNat ≠ 0 := by
      intro hzero
      apply hnull
      have haddress : (h.alloc o).1.address = 0 := UInt32.toNat_inj.mp hzero
      exact congrArg Ref.mk haddress
    have hsize : (h.alloc o).2.objects.size = h.objects.size + 1 := by simp [alloc]
    unfold Heap.get?
    rw [if_neg hnull, Array.getElem?_eq_getElem (by omega)]
    rfl

theorem Closed.alloc (hc : h.Closed) (ho : o.Holds h.Admits) : (h.alloc o).2.Closed := by
  have hmono {v : Value} (hv : h.Admits v) : (h.alloc o).2.Admits v :=
    hv.mono (persists_alloc h o)
  constructor
  · intro i o' ho'
    rw [getElem?_alloc] at ho'
    split at ho'
    · cases ho'
      exact Holds.mono ho fun _ => hmono
    · exact Holds.mono (hc.objects ho') fun _ => hmono
  · exact fun hr => hmono (hc.interned hr)

theorem Fits.alloc {c : Class} (hf : h.Fits cs) (hc : cs[o.classId]? = some c)
    (hsize : c.isArray = false → o.fields.size = c.layout.size) : (h.alloc o).2.Fits cs := by
  intro i o' ho'
  rw [getElem?_alloc] at ho'
  split at ho'
  · cases ho'
    exact ⟨c, hc, hsize⟩
  · exact hf i o' ho'

theorem harmless_zeroFields {c : Class} (hv : v ∈ c.zeroFields) : v.Harmless := by
  obtain ⟨f, -, rfl⟩ := Array.mem_map.mp hv
  unfold Field.zero
  infer_instance

theorem size_zeroFields (c : Class) : c.zeroFields.size = c.layout.size := by
  simp [Class.zeroFields]

theorem holds_instance {P : Value → Prop} (hP : Lenient P) (id : ClassId) (c : Class)
    (text : String) : Object.Holds P { classId := id, fields := c.zeroFields, text } :=
  ⟨fun v hv => hP v (harmless_zeroFields hv), nofun⟩

theorem holds_array {P : Value → Prop} (hP : Lenient P) (id : ClassId) (kind : Char)
    (length : Nat) :
    Object.Holds P { classId := id, elements := Array.replicate length (.zero kind) } := by
  refine ⟨nofun, fun v hv => ?_⟩
  rw [(Array.mem_replicate.mp hv).2]
  exact hP _ inferInstance

theorem intern_cases (h : Heap) (id : ClassId) (c : Class) (text : String) :
    (∃ r, (text, r) ∈ h.interned ∧ h.intern id c text = (r, h)) ∨
      ∃ r h', h.newString id c text = (r, h') ∧
        h.intern id c text = (r, { h' with interned := (text, r) :: h'.interned }) := by
  unfold intern
  cases hfind : h.interned.find? (·.1 = text) with
  | some entry =>
      have htext : entry.1 = text := by simpa using List.find?_some hfind
      have hmem := List.mem_of_find?_eq_some hfind
      rw [← htext]
      exact .inl ⟨entry.2, hmem, rfl⟩
  | none => exact .inr ⟨_, _, rfl, rfl⟩

/-! ## Assignment -/

theorem getElem?_modify (h : Heap) (r : Ref) (f : Object → Object) (i : Nat) :
    (h.modify r f).objects[i]? =
      if r.address.toNat - 1 = i then (h.objects[i]?).map f else h.objects[i]? := by
  simp [modify, Array.getElem?_modify]

theorem persists_modify (h : Heap) (r : Ref) {f : Object → Object}
    (hf : ∀ o : Object, o.SameShape (f o)) : h.Persists (h.modify r f) := by
  intro i o ho
  rw [getElem?_modify]
  split
  · exact ⟨f o, by rw [ho]; rfl, hf o⟩
  · exact ⟨o, ho, .refl o⟩

theorem Closed.modify (hc : h.Closed) {f : Object → Object}
    (hshape : ∀ o : Object, o.SameShape (f o))
    (hf : ∀ o : Object, o.Holds h.Admits → (f o).Holds h.Admits) : (h.modify r f).Closed := by
  have hmono {v : Value} (hv : h.Admits v) : (h.modify r f).Admits v :=
    hv.mono (persists_modify h r hshape)
  constructor
  · intro i o ho
    rw [getElem?_modify] at ho
    split at ho
    · obtain ⟨o', ho', rfl⟩ := Option.map_eq_some_iff.mp ho
      exact Holds.mono (hf o' (hc.objects ho')) fun _ => hmono
    · exact Holds.mono (hc.objects ho) fun _ => hmono
  · exact fun hr => hmono (hc.interned hr)

theorem Fits.modify (hfits : h.Fits cs) {f : Object → Object}
    (hf : ∀ o : Object, o.SameShape (f o)) : (h.modify r f).Fits cs := by
  intro i o ho
  rw [getElem?_modify] at ho
  split at ho
  · obtain ⟨o', ho', rfl⟩ := Option.map_eq_some_iff.mp ho
    obtain ⟨c, hc, hsize⟩ := hfits i o' ho'
    rw [(hf o').classId, (hf o').fields]
    exact ⟨c, hc, hsize⟩
  · exact hfits i o ho

theorem sameShape_setField (o : Object) (slot : Nat) (v : Value) :
    o.SameShape { o with fields := o.fields.setIfInBounds slot v } :=
  ⟨rfl, Array.size_setIfInBounds, rfl⟩

theorem sameShape_setElement (o : Object) (i : Nat) (v : Value) :
    o.SameShape { o with elements := o.elements.setIfInBounds i v } :=
  ⟨rfl, rfl, Array.size_setIfInBounds⟩

theorem forall_mem_setIfInBounds {α : Type} {P : α → Prop} {as : Array α} {a : α}
    (has : ∀ x ∈ as, P x) (ha : P a) (i : Nat) : ∀ x ∈ as.setIfInBounds i a, P x := by
  intro x hx
  obtain ⟨j, hj⟩ := Array.getElem?_of_mem hx
  rw [Array.getElem?_setIfInBounds] at hj
  split at hj
  · split at hj <;> cases hj
    exact ha
  · exact has x (Array.mem_of_getElem? hj)

theorem Holds.setField {P : Value → Prop} (ho : o.Holds P) (hv : P v) (slot : Nat) :
    Object.Holds P { o with fields := o.fields.setIfInBounds slot v } :=
  ⟨forall_mem_setIfInBounds ho.1 hv slot, ho.2⟩

theorem Holds.setElement {P : Value → Prop} (ho : o.Holds P) (hv : P v) (i : Nat) :
    Object.Holds P { o with elements := o.elements.setIfInBounds i v } :=
  ⟨ho.1, forall_mem_setIfInBounds ho.2 hv i⟩

/-! ## Access -/

theorem admits_getD {vs : Array Value} (hvs : ∀ v ∈ vs, h.Admits v) (i : Nat) :
    h.Admits (vs[i]?.getD .top) := by
  cases hv : vs[i]? with
  | none => exact admits_of_harmless h .top
  | some v => exact hvs v (Array.mem_of_getElem? hv)

theorem get?_of_arrayAt {index : Int32} {c : Class} {i : Nat}
    (hok : h.arrayAt cs r index = .ok (o, c, i)) : h.get? r = some o := by
  unfold arrayAt at hok
  split at hok
  · contradiction
  · split at hok
    · contradiction
    · split at hok
      · contradiction
      · split at hok <;> cases hok
        assumption

theorem Closed.load (hc : h.Closed) {index : Int32} (hok : h.load cs r index = .ok v) :
    h.Admits v := by
  unfold Heap.load at hok
  cases harray : h.arrayAt cs r index with
  | error e =>
      rw [harray] at hok
      contradiction
  | ok found =>
      obtain ⟨o, c, i⟩ := found
      rw [harray] at hok
      cases hok
      exact admits_getD (hc.get? (get?_of_arrayAt harray)).2 i

theorem store_eq_ok {index : Int32} (hok : h.store cs r index v = .ok h') :
    ∃ element i, h' = h.modify r fun o =>
      { o with elements := o.elements.setIfInBounds i (Machine.narrowed element v) } := by
  unfold store at hok
  cases harray : h.arrayAt cs r index with
  | error e =>
      rw [harray] at hok
      contradiction
  | ok found =>
      obtain ⟨o, c, i⟩ := found
      rw [harray] at hok
      cases hok
      exact ⟨_, i, rfl⟩

theorem setField_eq_ok {declaring : Class} {name : String}
    (hok : h.setField cs r declaring name v = .ok h') :
    ∃ slot, h' = h.modify r fun o => { o with fields := o.fields.setIfInBounds slot v } := by
  unfold setField at hok
  cases hslot : h.fieldSlot cs r declaring name with
  | error e =>
      rw [hslot] at hok
      contradiction
  | ok found =>
      obtain ⟨o, slot⟩ := found
      rw [hslot] at hok
      cases hok
      exact ⟨slot, rfl⟩

theorem Admits.narrowed (hv : h.Admits v) (element : Char) : h.Admits (narrowed element v) := by
  unfold Machine.narrowed
  split
  · exact admits_of_harmless h _
  · exact admits_of_harmless h _
  · exact admits_of_harmless h _
  · exact admits_of_harmless h _
  · exact hv

end Heap

end ClassEngine.Machine
