import ClassEngine.Proofs.Machine.Dispatch
import ClassEngine.Proofs.Machine.HeapLaw
import ClassEngine.Proofs.Machine.LoadOrder
import ClassEngine.Proofs.Machine.PlainRoot

/-!
# The layout of instances

Linking puts the instance fields of a class behind those of its superclass, so the layout of
a superclass begins the layout of every subclass, and a field keeps its slot in all of them.
A slot belongs to one declared field.  An assignment to a field of an object therefore
changes what is read of this field, and nothing else, also where fields hide each other.
-/

namespace ClassEngine.Machine

/-! ## Laying out -/

/-- The fields of `owner` stand in their slots, behind what is inherited, and are numbered
in the order of their declaration. -/
structure FieldLayout.Places (owner : ClassId) (inherited : Array Field) (l : FieldLayout) :
    Prop where
  extends_inherited : inherited.toList <+: l.layout.toList
  placed : ∀ f ∈ l.fields, f.isStatic = false → l.layout[f.slot]? = some f
  numbered : ∀ {i : Nat} {f : Field}, l.fields[i]? = some f → f.id = ⟨owner, i⟩

namespace FieldLayout

variable {owner : ClassId} {inherited : Array Field} {l : FieldLayout}

theorem places_start (owner : ClassId) (inherited : Array Field) :
    Places owner inherited ⟨[], inherited, #[]⟩ where
  extends_inherited := List.prefix_rfl
  placed := nofun
  numbered := nofun

theorem add_cases (l : FieldLayout) (owner : ClassId) (ownerName : String)
    (f : ClassFile.Field × ClassFile.FieldType) :
    ∃ field : Field, field.id = ⟨owner, l.fields.length⟩ ∧
      (l.add owner ownerName f).fields = l.fields ++ [field] ∧
        (field.isStatic = true ∧ (l.add owner ownerName f).layout = l.layout ∨
          field.slot = l.layout.size ∧
            (l.add owner ownerName f).layout = l.layout.push field) := by
  let field (slot : Nat) : Field :=
    ⟨⟨owner, l.fields.length⟩, ownerName, f.1.name, f.1.descriptor, f.1.flags, f.2, slot,
      f.1.constantIndex⟩
  have hsame (slot : Nat) : (field slot).isStatic = f.1.isStatic := rfl
  unfold FieldLayout.add
  cases hstatic : f.1.isStatic with
  | true =>
      rw [if_pos ((hsame _).trans hstatic)]
      exact ⟨field l.statics.size, rfl, rfl, .inl ⟨(hsame _).trans hstatic, rfl⟩⟩
  | false =>
      rw [if_neg (by rw [hsame, hstatic]; nofun)]
      exact ⟨field l.layout.size, rfl, rfl, .inr ⟨rfl, rfl⟩⟩

theorem Places.add (h : Places owner inherited l) (ownerName : String)
    (f : ClassFile.Field × ClassFile.FieldType) :
    Places owner inherited (l.add owner ownerName f) := by
  obtain ⟨field, hid, hfields, hlayout⟩ := l.add_cases owner ownerName f
  constructor
  · rcases hlayout with ⟨-, hlayout⟩ | ⟨-, hlayout⟩
    · rw [hlayout]
      exact h.extends_inherited
    · rw [hlayout, Array.toList_push]
      exact h.extends_inherited.trans (List.prefix_append _ _)
  · intro g hg hinstance
    rw [hfields] at hg
    rcases hlayout with ⟨hstatic, hlayout⟩ | ⟨hslot, hlayout⟩ <;> rw [hlayout] <;>
      rcases List.mem_append.mp hg with hg | hg
    · exact h.placed g hg hinstance
    · rw [List.mem_singleton.mp hg, hstatic] at hinstance
      cases hinstance
    · have hplaced := h.placed g hg hinstance
      have hne : g.slot ≠ l.layout.size := Nat.ne_of_lt (Array.getElem?_eq_some_iff.mp hplaced).1
      rw [Array.getElem?_push, if_neg hne]
      exact hplaced
    · rw [List.mem_singleton.mp hg, hslot]
      exact Array.getElem?_push_size
  · intro i g hg
    rw [hfields] at hg
    rcases Nat.lt_trichotomy i l.fields.length with hlt | rfl | hgt
    · rw [List.getElem?_append_left hlt] at hg
      exact h.numbered hg
    · rw [List.getElem?_concat_length] at hg
      cases hg
      exact hid
    · rw [List.getElem?_eq_none (by simp; omega)] at hg
      cases hg

theorem places_layOut (d : Declaration) (id : ClassId) (inherited : Array Field) :
    Places id inherited (d.layOut id inherited) := by
  unfold Declaration.layOut
  have hstart := places_start id inherited
  generalize (⟨[], inherited, #[]⟩ : FieldLayout) = l at hstart
  induction d.fields generalizing l with
  | nil => exact hstart
  | cons f rest ih => exact ih _ (hstart.add d.name f)

end FieldLayout

/-! ## The layout of a class -/

def Classes.inheritedLayout (cs : Classes) (c : Class) : Array Field :=
  ((c.super?.bind (cs[·]?)).map (·.layout)).getD #[]

section

variable {src : Search.Source} {cs : Classes} {id : ClassId} {c : Class}

theorem Origin.places (h : Origin src cs id c) (harray : c.isArray = false) :
    FieldLayout.Places id (cs.inheritedLayout c) ⟨c.fields, c.layout, #[]⟩ := by
  obtain ⟨needs, ids, statics, -, -, hassemble⟩ := h
  rw [isArray_of_assemble hassemble] at harray
  obtain ⟨file, fields, methods, -, -, -, rfl⟩ := assemble_file harray hassemble
  have hplaces := FieldLayout.places_layOut (declaration file ids fields methods) id
    (cs.inheritedLayout ((declaration file ids fields methods).link cs id).1)
  exact ⟨hplaces.extends_inherited, hplaces.placed, hplaces.numbered⟩

theorem Origin.fields_of_isArray (h : Origin src cs id c) (harray : c.isArray = true) :
    c.fields = [] ∧ c.layout = #[] := by
  obtain ⟨needs, ids, statics, -, -, hassemble⟩ := h
  rw [isArray_of_assemble hassemble] at harray
  obtain ⟨element, root, rest, -, -, hlink⟩ := assemble_array harray hassemble
  rw [← hlink]
  exact ⟨rfl, rfl⟩

theorem Origin.numbered (h : Origin src cs id c) {i : Nat} {f : Field}
    (hf : c.fields[i]? = some f) : f.id = ⟨id, i⟩ := by
  cases harray : c.isArray with
  | true =>
      rw [(h.fields_of_isArray harray).1] at hf
      cases hf
  | false => exact (h.places harray).numbered hf

end

namespace Registry

variable {src : Search.Source} {reg : Registry} {id k : ClassId} {c a : Class}

theorem Coherent.eq_of_field_id (h : reg.Coherent src) (hc : reg.classes[id]? = some c)
    (ha : reg.classes[k]? = some a) {f g : Field} (hf : f ∈ c.fields) (hg : g ∈ a.fields)
    (hid : f.id = g.id) : f = g := by
  obtain ⟨i, hi⟩ := List.getElem?_of_mem hf
  obtain ⟨j, hj⟩ := List.getElem?_of_mem hg
  rw [(h.origin hc).numbered hi, (h.origin ha).numbered hj] at hid
  cases hid
  rw [hc] at ha
  cases ha
  exact Option.some.inj (hi.symm.trans hj)

/-- The layout of a superclass begins the layout of a class, and its instance fields keep
their slots. -/
theorem Coherent.layout_of_mem_chain (h : reg.Coherent src) (hc : reg.classes[id]? = some c)
    (harray : c.isArray = false) (hk : k ∈ reg.classes.chain id) :
    ∃ a, reg.classes[k]? = some a ∧ a.layout.toList <+: c.layout.toList ∧
      ∀ f ∈ a.fields, f.isStatic = false → c.layout[f.slot]? = some f := by
  induction id using Nat.strongRecOn generalizing c with
  | ind id ih =>
      have horigin := h.origin hc
      have hplaces := horigin.places harray
      rw [Classes.chain_eq (h.super?_lt id)] at hk
      rcases List.mem_cons.mp hk with rfl | hk
      · exact ⟨c, hc, List.prefix_rfl, hplaces.placed⟩
      · obtain ⟨s, hs, hk⟩ := List.mem_flatMap.mp hk
        have hs : c.super? = some s := by simpa [Classes.super?, hc] using hs
        obtain ⟨p, hp, -, hplain⟩ := horigin.super_plain harray hs
        obtain ⟨a, ha, hprefix, hslots⟩ := ih s (horigin.lt (.inl hs)) hp hplain hk
        have hinherited : p.layout.toList <+: c.layout.toList := by
          simpa [Classes.inheritedLayout, hs, hp] using hplaces.extends_inherited
        refine ⟨a, ha, hprefix.trans hinherited, fun f hf hinstance => ?_⟩
        have hslot := hslots f hf hinstance
        rw [← Array.getElem?_toList] at hslot ⊢
        obtain ⟨hlt, heq⟩ := List.getElem?_eq_some_iff.mp hslot
        rw [List.prefix_iff_getElem?.mp hinherited _ hlt, heq]

end Registry

/-! ## Access to fields -/

theorem Class.fieldSlot?_eq_some {c declaring : Class} {name : String} {slot : Nat}
    (h : c.fieldSlot? declaring name = some slot) :
    ∃ f g, declaring.declaredField? name = some f ∧ c.layout[slot]? = some g ∧ g.id = f.id := by
  unfold fieldSlot? at h
  split at h
  · cases h
  · rename_i f hf
    split at h
    · cases h
    · split at h
      · rename_i hany
        cases h
        obtain ⟨g, hg, hid⟩ := (Option.any_eq_true _ _).mp hany
        exact ⟨f, g, hf, hg, by simpa using hid⟩
      · cases h

theorem Class.fieldSlot?_congr {c declaring declaring' : Class} {name name' : String}
    (h : declaring'.declaredField? name' = declaring.declaredField? name) :
    c.fieldSlot? declaring' name' = c.fieldSlot? declaring name := by
  simp only [fieldSlot?, h]

/-- The place of a field in the instances of a class, or why it has none. -/
def Classes.place (cs : Classes) (id : ClassId) (declaring : Class) (name : String) :
    Except Fault Nat :=
  match cs[id]? with
  | none => .error (.nullPointer none)
  | some c =>
    match c.fieldSlot? declaring name with
    | some slot => .ok slot
    | none => .error (.noSuchField s!"{declaring.name}.{name} on {c.name}")

theorem Classes.place_eq_ok {cs : Classes} {id : ClassId} {declaring : Class} {name : String}
    {slot : Nat} :
    cs.place id declaring name = .ok slot ↔
      ∃ c, cs[id]? = some c ∧ c.fieldSlot? declaring name = some slot := by
  unfold place
  cases cs[id]? with
  | none => simp
  | some c => cases hslot : c.fieldSlot? declaring name <;> simp [hslot]

namespace Heap

variable {h h' : Heap} {cs : Classes} {r r' : Ref} {declaring : Class} {name : String} {v : Value}
  {o : Object} {slot : Nat}

theorem fieldSlot_eq (h : Heap) (cs : Classes) (r : Ref) (declaring : Class) (name : String) :
    h.fieldSlot cs r declaring name =
      match h.get? r with
      | none => .error (.nullPointer none)
      | some o => (cs.place o.classId declaring name).map (o, ·) := by
  unfold fieldSlot deref Classes.place
  cases h.get? r with
  | none => rfl
  | some o =>
      simp only [bind, Except.bind]
      cases cs[o.classId]? with
      | none => rfl
      | some c => cases hslot : c.fieldSlot? declaring name <;> simp only [hslot] <;> rfl

theorem getField_eq (h : Heap) (cs : Classes) (r : Ref) (declaring : Class) (name : String) :
    h.getField cs r declaring name =
      match h.get? r with
      | none => .error (.nullPointer none)
      | some o => (cs.place o.classId declaring name).map (o.fields[·]?.getD .top) := by
  unfold getField
  rw [fieldSlot_eq]
  cases h.get? r with
  | none => rfl
  | some o => cases hplace : cs.place o.classId declaring name <;> simp only [hplace] <;> rfl

theorem setField_eq_ok_iff :
    h.setField cs r declaring name v = .ok h' ↔
      ∃ o slot, h.get? r = some o ∧ cs.place o.classId declaring name = .ok slot ∧
        h' = h.modify r fun o => { o with fields := o.fields.setIfInBounds slot v } := by
  unfold setField
  rw [fieldSlot_eq]
  cases ho : h.get? r with
  | none => simp [bind, Except.bind]
  | some o =>
      cases hplace : cs.place o.classId declaring name <;>
        simp [bind, Except.bind, Except.map, hplace, pure, Except.pure, eq_comm]

theorem get?_eq_some (ho : h.get? r = some o) :
    r ≠ .null ∧ h.objects[r.address.toNat - 1]? = some o := by
  unfold Heap.get? at ho
  split at ho
  · cases ho
  · exact ⟨‹_›, ho⟩

theorem toNat_address_pos (hr : r ≠ .null) : 0 < r.address.toNat := by
  refine Nat.pos_of_ne_zero fun hzero => hr ?_
  have haddress : r.address = 0 := UInt32.toNat_inj.mp hzero
  exact congrArg Ref.mk haddress

theorem get?_modify (hr : r ≠ .null) (f : Object → Object) (r' : Ref) :
    (h.modify r f).get? r' = if r' = r then (h.get? r').map f else h.get? r' := by
  unfold Heap.get?
  by_cases hr' : r' = .null
  · simp [hr']
  · have hpos := toNat_address_pos hr
    have hpos' := toNat_address_pos hr'
    have hplace : r.address.toNat - 1 = r'.address.toNat - 1 ↔ r' = r := by
      constructor
      · intro heq
        have haddress : r'.address = r.address := UInt32.toNat_inj.mp (by omega)
        exact congrArg Ref.mk haddress
      · rintro rfl
        rfl
    rw [if_neg hr', if_neg hr', getElem?_modify]
    simp only [hplace]

/-- The place of a field is a place of the object, and no other field has it. -/
theorem place_spec {src : Search.Source} {reg : Registry} (hreg : reg.Coherent src)
    (hfits : h.Fits reg.classes) {d : ClassId} (hd : reg.classes[d]? = some declaring)
    (ho : h.get? r = some o) (hplace : reg.classes.place o.classId declaring name = .ok slot) :
    slot < o.fields.size ∧
      ∀ {d' : ClassId} {declaring' : Class} {name' : String},
        reg.classes[d']? = some declaring' →
          reg.classes.place o.classId declaring' name' = .ok slot →
            declaring'.declaredField? name' = declaring.declaredField? name := by
  obtain ⟨c, hc, hslot⟩ := Classes.place_eq_ok.mp hplace
  obtain ⟨f, g, hf, hg, hid⟩ := Class.fieldSlot?_eq_some hslot
  constructor
  · obtain ⟨c', hc', hsize⟩ := hfits _ o (get?_eq_some ho).2
    rw [hc] at hc'
    cases hc'
    cases harray : c.isArray with
    | true =>
        rw [((hreg.origin hc).fields_of_isArray harray).2] at hg
        cases hg
    | false =>
        rw [hsize harray]
        exact (Array.getElem?_eq_some_iff.mp hg).1
  · intro d' declaring' name' hd' hplace'
    obtain ⟨c', hc', hslot'⟩ := Classes.place_eq_ok.mp hplace'
    rw [hc] at hc'
    cases hc'
    obtain ⟨f', g', hf', hg', hid'⟩ := Class.fieldSlot?_eq_some hslot'
    rw [hg] at hg'
    cases hg'
    have hsame : f' = f := hreg.eq_of_field_id hd' hd (List.mem_of_find?_eq_some hf')
      (List.mem_of_find?_eq_some hf) (hid'.symm.trans hid)
    rw [hf, hf', hsame]

theorem getField_setField {src : Search.Source} {reg : Registry} (hreg : reg.Coherent src)
    (hfits : h.Fits reg.classes) {d d' : ClassId} {declaring' : Class} {name' : String}
    (hd : reg.classes[d]? = some declaring) (hd' : reg.classes[d']? = some declaring')
    (hset : h.setField reg.classes r declaring name v = .ok h') :
    h'.getField reg.classes r' declaring' name' =
      if r' = r ∧ declaring'.declaredField? name' = declaring.declaredField? name then .ok v
      else h.getField reg.classes r' declaring' name' := by
  obtain ⟨o, slot, ho, hplace, rfl⟩ := setField_eq_ok_iff.mp hset
  obtain ⟨hlt, honly⟩ := place_spec hreg hfits hd ho hplace
  rw [getField_eq, getField_eq, get?_modify (get?_eq_some ho).1]
  by_cases hr : r' = r
  · subst hr
    simp only [if_true, ho, Option.map_some, true_and]
    by_cases hfield : declaring'.declaredField? name' = declaring.declaredField? name
    · obtain ⟨c, hc, hslot⟩ := Classes.place_eq_ok.mp hplace
      have hplace' : reg.classes.place o.classId declaring' name' = .ok slot :=
        Classes.place_eq_ok.mpr ⟨c, hc, (Class.fieldSlot?_congr hfield).trans hslot⟩
      simp [hplace', hfield, hlt, Except.map]
    · cases hplace' : reg.classes.place o.classId declaring' name' with
      | error e => simp [hfield, Except.map]
      | ok slot' =>
          have hne : slot ≠ slot' := by
            rintro rfl
            exact hfield (honly hd' hplace')
          simp [hfield, hne, Except.map]
  · simp [hr]

/-! ## Heaps built from classes -/

/-- What allocations and assignments make of the empty heap, with the classes `cs`. -/
inductive BuiltFrom (cs : Classes) : Heap → Prop
  | empty : BuiltFrom cs {}
  | allocInstance {h : Heap} {id : ClassId} {c : Class} (hh : BuiltFrom cs h)
      (hc : cs[id]? = some c) : BuiltFrom cs (h.allocInstance id c).2
  | newString {h : Heap} {id : ClassId} {c : Class} (hh : BuiltFrom cs h)
      (hc : cs[id]? = some c) (text : String) : BuiltFrom cs (h.newString id c text).2
  | intern {h : Heap} {id : ClassId} {c : Class} (hh : BuiltFrom cs h)
      (hc : cs[id]? = some c) (text : String) : BuiltFrom cs (h.intern id c text).2
  | allocArray {h h' : Heap} {id : ClassId} {c : Class} {length : Int32} {r : Ref}
      (hh : BuiltFrom cs h) (hc : cs[id]? = some c) (harray : c.isArray = true)
      (hok : h.allocArray id c length = .ok (r, h')) : BuiltFrom cs h'
  | store {h h' : Heap} {r : Ref} {index : Int32} {v : Value} (hh : BuiltFrom cs h)
      (hok : h.store cs r index v = .ok h') : BuiltFrom cs h'
  | setField {h h' : Heap} {r : Ref} {declaring : Class} {name : String} {v : Value}
      (hh : BuiltFrom cs h) (hok : h.setField cs r declaring name v = .ok h') : BuiltFrom cs h'

theorem BuiltFrom.fits (hbuilt : h.BuiltFrom cs) : h.Fits cs := by
  induction hbuilt with
  | empty => intro i o ho; simp at ho
  | allocInstance hh hc ih => exact ih.alloc hc fun _ => size_zeroFields _
  | newString hh hc text ih => exact ih.alloc hc fun _ => size_zeroFields _
  | @intern h id c hh hc text ih =>
      rcases h.intern_cases id c text with ⟨r, -, heq⟩ | ⟨r, h', hnew, heq⟩
      · rw [heq]
        exact ih
      · have hfits : (h.newString id c text).2.Fits cs := ih.alloc hc fun _ => size_zeroFields _
        rw [hnew] at hfits
        rw [heq]
        exact hfits
  | allocArray hh hc harray hok ih =>
      unfold Heap.allocArray at hok
      split at hok <;> cases hok
      exact ih.alloc hc fun hplain => absurd (harray.symm.trans hplain) nofun
  | store hh hok ih =>
      obtain ⟨element, i, rfl⟩ := store_eq_ok hok
      exact ih.modify fun o => sameShape_setElement o i _
  | setField hh hok ih =>
      obtain ⟨slot, rfl⟩ := setField_eq_ok hok
      exact ih.modify fun o => sameShape_setField o slot _

end Heap

/-! ## Sessions -/

/-- Whatever was loaded, the layout of a superclass begins the layout of a class and its
instance fields keep their slots.  On a heap of these classes an assignment to a field changes
what is read of this field of this object, and nothing else. -/
theorem fields_never_alias (source? : Option Search.Source) (maxFrames : Int)
    (profiler? : Option (Profiler MethodId)) (calls : List HostCall) :
    let cs := ((Vm.start source? maxFrames profiler?).answer calls).registry.classes
    (∀ (id : ClassId) (c : Class), cs[id]? = some c → c.isArray = false → ∀ k ∈ cs.chain id,
      ∃ a, cs[k]? = some a ∧ a.layout.toList <+: c.layout.toList ∧
        ∀ f ∈ a.fields, f.isStatic = false → c.layout[f.slot]? = some f) ∧
    (∀ h : Heap, h.BuiltFrom cs → h.Fits cs) ∧
    ∀ (h h' : Heap) (r r' : Ref) (d d' : ClassId) (declaring declaring' : Class)
      (name name' : String) (v : Value), h.Fits cs → cs[d]? = some declaring →
        cs[d']? = some declaring' → h.setField cs r declaring name v = .ok h' →
          h'.getField cs r' declaring' name' =
            if r' = r ∧ declaring'.declaredField? name' = declaring.declaredField? name then .ok v
            else h.getField cs r' declaring' name' := by
  intro cs
  have hcoherent := Vm.coherent_start source? maxFrames profiler? calls
  refine ⟨fun id c hc harray k hk => hcoherent.layout_of_mem_chain hc harray hk,
    fun h hbuilt => hbuilt.fits, ?_⟩
  intro h h' r r' d d' declaring declaring' name name' v hfits hd hd' hset
  exact Heap.getField_setField hcoherent hfits hd hd' hset

/-! ## A hidden field -/

namespace HiddenField

def rootFile : List UInt8 := [
  0xca, 0xfe, 0xba, 0xbe, 0x00, 0x00, 0x00, 0x34, 0x00, 0x05, 0x01, 0x00, 0x10, 0x6a, 0x61, 0x76,
  0x61, 0x2f, 0x6c, 0x61, 0x6e, 0x67, 0x2f, 0x4f, 0x62, 0x6a, 0x65, 0x63, 0x74, 0x07, 0x00, 0x01,
  0x01, 0x00, 0x01, 0x78, 0x01, 0x00, 0x01, 0x49, 0x00, 0x21, 0x00, 0x02, 0x00, 0x00, 0x00, 0x00,
  0x00, 0x01, 0x00, 0x01, 0x00, 0x03, 0x00, 0x04, 0x00, 0x00, 0x00, 0x00, 0x00, 0x00]

def derivedFile : List UInt8 := [
  0xca, 0xfe, 0xba, 0xbe, 0x00, 0x00, 0x00, 0x34, 0x00, 0x07, 0x01, 0x00, 0x01, 0x41, 0x07, 0x00,
  0x01, 0x01, 0x00, 0x10, 0x6a, 0x61, 0x76, 0x61, 0x2f, 0x6c, 0x61, 0x6e, 0x67, 0x2f, 0x4f, 0x62,
  0x6a, 0x65, 0x63, 0x74, 0x07, 0x00, 0x03, 0x01, 0x00, 0x01, 0x78, 0x01, 0x00, 0x01, 0x49, 0x00,
  0x21, 0x00, 0x02, 0x00, 0x04, 0x00, 0x00, 0x00, 0x01, 0x00, 0x01, 0x00, 0x05, 0x00, 0x06, 0x00,
  0x00, 0x00, 0x00, 0x00, 0x00]

def files : Search.Memory :=
  ⟨[(ClassFile.rootClassName, .ok rootFile), ("A", .ok derivedFile)]⟩

def vm : Vm := Vm.start (some files.source) 0 none

def fieldOf (id slot : Nat) (className : String) : Field :=
  ⟨⟨id, 0⟩, className, "x", "I", 0x0001, .base .int "I", slot, 0⟩

def root : Class :=
  { PlainRoot.root with
    fields := [fieldOf 0 0 ClassFile.rootClassName]
    layout := #[fieldOf 0 0 ClassFile.rootClassName]
    pool := ⟨#[none, some (.utf8 ClassFile.rootClassName), some (.classRef 1), some (.utf8 "x"),
      some (.utf8 "I")]⟩ }

def derived : Class :=
  { PlainRoot.root with
    name := "A"
    super? := some 0
    fields := [fieldOf 1 1 "A"]
    layout := #[fieldOf 0 0 ClassFile.rootClassName, fieldOf 1 1 "A"]
    pool := ⟨#[none, some (.utf8 "A"), some (.classRef 1), some (.utf8 ClassFile.rootClassName),
      some (.classRef 3), some (.utf8 "x"), some (.utf8 "I")]⟩ }

def withRoot : Registry := (({} : Registry).add root .linked #[]).2

def withDerived : Registry := (withRoot.add derived .linked #[]).2

theorem load_root : load vm.source ["A"] ClassFile.rootClassName {} = (.ok 0, withRoot) :=
  Registry.load_alone root (by decide) (by decide) (by decide)

theorem load_derived : load vm.source [] "A" {} = (.ok 1, withDerived) := by
  have hgather : gather (load vm.source ["A"]) "A" [⟨.superclass, ClassFile.rootClassName⟩] {} =
      (.ok [0], withRoot) :=
    Registry.gather_cons load_root (by decide) rfl
  exact Registry.load_of_gathered withRoot derived (by with_unfolding_all decide) (by decide)
    (by decide) (by decide) hgather (by with_unfolding_all decide)

/-- An instance of the derived class has both fields.  Assigning the one of the root class
leaves the one that hides it. -/
theorem fields_never_alias_hidden :
    let cs := (vm.answer [.request 0 (.load "A")]).registry.classes
    let new := ({} : Heap).allocInstance 1 derived
    ∃ h', new.2.setField cs new.1 root "x" (.int 5) = .ok h' ∧
      h'.getField cs new.1 root "x" = .ok (.int 5) ∧
        h'.getField cs new.1 derived "x" = .ok (.int 0) := by
  intro cs new
  have hcs : cs = #[root, derived] := by
    show (vm.answer [.request 0 (.load "A")]).registry.classes = _
    rw [Vm.answer_load 0 load_derived]
    rfl
  have hroot : cs[0]? = some root := by rw [hcs]; rfl
  have hderived : cs[1]? = some derived := by rw [hcs]; rfl
  obtain ⟨-, hbuilt, hfields⟩ :=
    fields_never_alias (some files.source) 0 none [.request 0 (.load "A")]
  have hfits : new.2.Fits cs := hbuilt _ (.allocInstance .empty hderived)
  obtain ⟨h', hset⟩ : ∃ h', new.2.setField cs new.1 root "x" (.int 5) = .ok h' :=
    ⟨_, Heap.setField_eq_ok_iff.mpr ⟨_, 0, rfl, by rw [hcs]; rfl, rfl⟩⟩
  have hold : new.2.getField cs new.1 derived "x" = .ok (.int 0) := by
    rw [hcs]
    exact Registry.eq_ok_of_toOption (by with_unfolding_all decide)
  refine ⟨h', hset, ?_, ?_⟩
  · refine (hfields _ h' _ _ 0 0 root root "x" "x" _ hfits hroot hroot hset).trans ?_
    rw [if_pos ⟨rfl, rfl⟩]
  · refine (hfields _ h' _ _ 0 1 root derived "x" "x" _ hfits hroot hderived hset).trans ?_
    rw [if_neg (by decide)]
    exact hold

end HiddenField

end ClassEngine.Machine
