import ClassEngine.Proofs.ClassFile.Prefixes
import ClassEngine.Proofs.ClassFile.Writing

/-!
# How class files are laid out

A file is the bytes of its pool, its members and its tables of attributes, one after the other.
Every file that is read has such a layout, and so has every code in it.
-/

namespace ClassEngine.ClassFile

open BigEndian
open ClassFile.Parser

/-! ## Layouts -/

/-- A table of items that are written one after the other, with their count before them. -/
def encodeTable {ι : Type} (encode : ι → List UInt8) (items : List ι) : List UInt8 :=
  MethodDraft.count16 items ++ items.flatMap encode

/-- A table of attributes that is read as it was written. -/
structure Attribute.Table (p : Pool) (as : List Attribute) : Prop where
  count : as.length < 65536
  fits : ∀ a ∈ as, a.Fits p

structure MemberLayout where
  flags : UInt16
  name : UInt16
  descriptor : UInt16
  attributes : List Attribute

def MemberLayout.encode (m : MemberLayout) : List UInt8 :=
  bytes16 m.flags ++ (bytes16 m.name ++ (bytes16 m.descriptor ++
    encodeTable Attribute.encode m.attributes))

structure CodeLayout where
  maxStack : UInt16
  maxLocals : UInt16
  code : List UInt8
  handlers : List Handler
  attributes : List Attribute

def CodeLayout.encode (c : CodeLayout) : List UInt8 :=
  bytes16 c.maxStack ++ (bytes16 c.maxLocals ++ (MethodDraft.count32 c.code.length ++ (c.code ++
    (encodeTable MethodDraft.encodeHandler c.handlers ++
      encodeTable Attribute.encode c.attributes))))

/-- The counts can be told, and the attributes are read as they were written. -/
structure CodeLayout.Fits (p : Pool) (c : CodeLayout) : Prop where
  short : c.code.length < 4294967296
  handlers : c.handlers.length < 65536
  attributes : Attribute.Table p c.attributes

/-- A whole file.  The pool is given by its bytes, which may write one text in several ways. -/
structure Layout where
  minor : UInt16
  major : UInt16
  poolBytes : List UInt8
  pool : Pool
  flags : UInt16
  thisClass : UInt16
  superClass : UInt16
  interfaces : List UInt16
  fields : List MemberLayout
  methods : List MemberLayout
  attributes : List Attribute

def Layout.encode (l : Layout) : List UInt8 :=
  bytes32 magic ++ (bytes16 l.minor ++ (bytes16 l.major ++ (l.poolBytes ++ (bytes16 l.flags ++
    (bytes16 l.thisClass ++ (bytes16 l.superClass ++ (encodeTable bytes16 l.interfaces ++
      (encodeTable MemberLayout.encode l.fields ++ (encodeTable MemberLayout.encode l.methods ++
        encodeTable Attribute.encode l.attributes)))))))))

/-- The pool is that of its bytes, the counts can be told, and the attributes are read as they
were written. -/
structure Layout.Fits (l : Layout) : Prop where
  pool : Reads Parser.pool l.poolBytes (some l.pool)
  interfaces : l.interfaces.length < 65536
  fieldCount : l.fields.length < 65536
  methodCount : l.methods.length < 65536
  fields : ∀ f ∈ l.fields, Attribute.Table l.pool f.attributes
  methods : ∀ m ∈ l.methods, Attribute.Table l.pool m.attributes
  attributes : Attribute.Table l.pool l.attributes

/-! ## Tables that are read -/

variable {α ι σ : Type} {p : Pool}

theorem takes_encodeTable {parse : Nat → Parser α} {encode : ι → List UInt8} {Fits : ι → Prop}
    (h : ∀ i, Takes (parse i) fun used _ => ∃ item, Fits item ∧ used = encode item) :
    Takes (table parse) fun used _ => ∃ items : List ι, items.length < 65536 ∧
      (∀ item ∈ items, Fits item) ∧ used = encodeTable encode items := by
  refine (takes_table h).mono fun used as ⟨hcount, parts, hparts, hused⟩ => ?_
  have hitems : ∃ items : List ι, items.length = as.length ∧ (∀ item ∈ items, Fits item) ∧
      parts.flatten = items.flatMap encode := by
    clear * - hparts
    induction hparts with
    | nil => exact ⟨[], rfl, nofun, rfl⟩
    | cons hhead _ ih =>
        obtain ⟨item, hitem, rfl⟩ := hhead
        obtain ⟨items, hlength, hitems, hflatten⟩ := ih
        refine ⟨item :: items, by rw [List.length_cons, List.length_cons, hlength],
          List.forall_mem_cons.mpr ⟨hitem, hitems⟩, ?_⟩
        rw [List.flatten_cons, List.flatMap_cons, hflatten]
  obtain ⟨items, hlength, hitems, hflatten⟩ := hitems
  refine ⟨items, hlength ▸ hcount, hitems, ?_⟩
  rw [hused, encodeTable, MethodDraft.count16, hlength, hflatten]

theorem exists_of_foldlM {interpret : String → List UInt8 → σ → Except ParseError σ}
    {as : List Attribute} {s s' : σ}
    (h : as.foldlM (fun s a => interpret a.name a.body s) s = .ok s') :
    ∀ a ∈ as, ∃ t t', interpret a.name a.body t = .ok t' := by
  induction as generalizing s with
  | nil => nofun
  | cons a as ih =>
      rw [List.foldlM_cons] at h
      obtain ⟨t, ht, h⟩ := ok_of_bind h
      exact List.forall_mem_cons.mpr ⟨⟨s, t, ht⟩, ih h⟩

theorem takes_interpreted {interpret : String → List UInt8 → σ → Except ParseError σ} (s : σ) :
    Takes (attributes p interpret s) fun used _ => ∃ as, Attribute.Table p as ∧
      (∀ a ∈ as, ∃ t t', interpret a.name a.body t = .ok t') ∧
        used = encodeTable Attribute.encode as :=
  (takes_attributes s).mono fun _ _ ⟨as, hcount, hfits, hused, hfold⟩ =>
    ⟨as, ⟨hcount, hfits⟩, exists_of_foldlM hfold, hused⟩

/-! ## Layouts of what is read -/

theorem takes_memberHeader : Takes (memberHeader p) fun used _ =>
    ∃ flags name descriptor, used = bytes16 flags ++ (bytes16 name ++ bytes16 descriptor) := by
  refine takes_u2.bind fun _ flags hflags => takes_u2.bind fun _ name hname => takes_u2.bind
    fun _ descriptor hdescriptor => ?_
  refine (takes_fromPool (Q := fun used _ => used = []) fun _ _ => rfl).bind fun _ _ hfirst =>
    (takes_fromPool (Q := fun used _ => used = []) fun _ _ => rfl).bind fun _ _ hsecond =>
      takes_pure ⟨flags, name, descriptor, ?_⟩
  rw [hflags, hname, hdescriptor, hfirst, hsecond]
  rfl

theorem takes_fieldLayout (index : Nat) : Takes (field p index) fun used _ =>
    ∃ f : MemberLayout, Attribute.Table p f.attributes ∧ used = f.encode := by
  refine takes_memberHeader.within.bind ?_
  rintro _ ⟨flags, name, descriptor⟩ ⟨flags', nameIndex, descriptorIndex, rfl⟩
  refine Takes.within ((takes_lift (Q := fun used _ => used = []) fun _ _ => rfl).bind ?_)
  rintro _ _ rfl
  refine (takes_interpreted _).mono ?_
  rintro _ _ ⟨as, htable, _, rfl⟩
  exact ⟨⟨flags', nameIndex, descriptorIndex, as⟩, htable, by
    rw [MemberLayout.encode, List.nil_append, List.append_assoc, List.append_assoc]⟩

theorem takes_handlerLayout (length index : Nat) : Takes (handler length index) fun used _ =>
    ∃ h : Handler, True ∧ used = MethodDraft.encodeHandler h := by
  refine takes_u2.bind fun _ start hstart => takes_u2.bind fun _ stop hstop => takes_u2.bind
    fun _ target htarget => takes_u2.bind fun _ catchType hcatch => Takes.ite (fun _ => ⟨nofun⟩)
      fun _ => takes_pure ⟨⟨start, stop, target, catchType⟩, trivial, ?_⟩
  rw [hstart, hstop, htarget, hcatch, MethodDraft.encodeHandler]
  simp only [List.append_assoc, List.append_nil]

theorem takes_codeLayout : Takes (body p) fun used _ =>
    ∃ c : CodeLayout, c.Fits p ∧ used = c.encode := by
  refine takes_u2.bind fun _ maxStack hstack => takes_u2.bind fun _ maxLocals hlocals =>
    takes_u4.bind fun _ length hlength => Takes.ite (fun _ => ⟨nofun⟩) fun _ => ?_
  refine (takes_bytes length.toNat).bind ?_
  rintro code _ ⟨rfl, hcode⟩
  refine (takes_encodeTable (takes_handlerLayout length.toNat)).bind ?_
  rintro _ _ ⟨rows, hrows, _, rfl⟩
  refine (takes_interpreted _).bind ?_
  rintro _ lines ⟨as, htable, _, rfl⟩
  refine takes_pure ⟨⟨maxStack, maxLocals, code, rows, as⟩,
    ⟨hcode ▸ length.toNat_lt, hrows, htable⟩, ?_⟩
  rw [hstack, hlocals, hlength, CodeLayout.encode, MethodDraft.count32, hcode,
    UInt32.ofNat_toNat, List.append_nil]

def MemberLayout.CodeFits (p : Pool) (m : MemberLayout) : Prop :=
  ∀ a ∈ m.attributes, a.name = "Code" → ∃ c : CodeLayout, c.Fits p ∧ a.body = c.encode

theorem codeLayout_of_methodAttribute {bs : List UInt8} {m m' : Method}
    (h : methodAttribute p "Code" bs m = .ok m') :
    ∃ c : CodeLayout, c.Fits p ∧ bs = c.encode := by
  rw [methodAttribute, if_pos rfl] at h
  obtain ⟨b, hb, _⟩ := ok_of_bind h
  exact takes_codeLayout.of_runOn hb

theorem takes_methodLayout (index : Nat) : Takes (method p index) fun used _ =>
    ∃ m : MemberLayout, (Attribute.Table p m.attributes ∧ m.CodeFits p) ∧ used = m.encode := by
  refine takes_memberHeader.within.bind ?_
  rintro _ ⟨flags, name, descriptor⟩ ⟨flags', nameIndex, descriptorIndex, rfl⟩
  refine (Takes.within (takes_lift (Q := fun used _ => used = []) fun _ _ => rfl)).bind ?_
  rintro _ _ rfl
  refine (takes_interpreted _).within.bind ?_
  rintro _ m ⟨as, htable, hinterpreted, rfl⟩
  refine Takes.ite (fun _ => ⟨nofun⟩) fun _ => takes_pure
    ⟨⟨flags', nameIndex, descriptorIndex, as⟩, ⟨htable, fun a ha hname => ?_⟩, ?_⟩
  · obtain ⟨t, t', ht⟩ := hinterpreted a ha
    rw [hname] at ht
    exact codeLayout_of_methodAttribute ht
  · rw [MemberLayout.encode, List.nil_append, List.append_nil, List.append_assoc,
      List.append_assoc]

theorem takes_superName (name : String) : Takes (Parser.superName p name) fun used _ =>
    ∃ index, used = bytes16 index := by
  refine takes_u2.bind fun _ index hindex => Takes.ite (fun _ => Takes.ite (fun _ => ?_)
    fun _ => takes_fail _) fun _ => Takes.within (takes_fromPool fun _ _ => ?_)
  · exact takes_pure ⟨index, by rw [hindex, List.append_nil]⟩
  · exact ⟨index, by rw [hindex, List.append_nil]⟩

theorem takes_interfaceName (index : Nat) : Takes (interfaceName p index) fun used _ =>
    ∃ entry, True ∧ used = bytes16 entry :=
  takes_u2.bind fun _ entry hentry => Takes.within <| takes_fromPool fun _ _ =>
    ⟨entry, trivial, by rw [hentry, List.append_nil]⟩

theorem takes_classLayout : Takes classFile fun used _ => ∃ l : Layout, l.Fits ∧
    (∀ m ∈ l.methods, m.CodeFits l.pool) ∧ used = l.encode := by
  refine takes_u4.bind fun _ word hword => Takes.ite (fun _ => ⟨nofun⟩) fun hmagic => ?_
  refine takes_u2.bind fun _ minor hminor => takes_u2.bind fun _ major hmajor =>
    Takes.ite (fun _ => ⟨nofun⟩) fun _ => ?_
  refine Definite.takes.bind fun poolBytes pool hpool => ?_
  refine takes_u2.bind fun _ flags hflags => takes_u2.bind fun _ this hthis => ?_
  refine (Takes.within (takes_fromPool (Q := fun used _ => used = []) fun _ _ => rfl)).bind
    fun _ name hname => (takes_superName name).bind ?_
  rintro _ _ ⟨super, rfl⟩
  refine (takes_encodeTable takes_interfaceName).bind ?_
  rintro _ _ ⟨interfaces, hinterfaces, _, rfl⟩
  refine (takes_encodeTable takes_fieldLayout).bind ?_
  rintro _ _ ⟨fields, hfieldCount, hfields, rfl⟩
  refine (takes_encodeTable takes_methodLayout).bind ?_
  rintro _ _ ⟨methods, hmethodCount, hmethods, rfl⟩
  refine (takes_interpreted _).bind ?_
  rintro _ _ ⟨as, htable, _, rfl⟩
  refine takes_pure ⟨⟨minor, major, poolBytes, pool, flags, this, super, interfaces, fields,
    methods, as⟩, ⟨hpool.reads, hinterfaces, hfieldCount, hmethodCount, hfields,
      fun m hm => (hmethods m hm).1, htable⟩, fun m hm => (hmethods m hm).2, ?_⟩
  rw [hword, not_not.mp hmagic, hminor, hmajor, hflags, hthis, hname, Layout.encode,
    List.append_nil, List.nil_append]

/-- Every file that is read is laid out. -/
theorem exists_layout {bs : List UInt8} {file : ClassFile} (h : parse bs = .ok file) :
    ∃ l : Layout, l.Fits ∧ (∀ m ∈ l.methods, m.CodeFits l.pool) ∧ bs = l.encode :=
  takes_classLayout.of_runOn h

end ClassEngine.ClassFile
