import ClassEngine.Proofs.Machine.Loadability
import ClassEngine.Proofs.Machine.Tables

/-!
# The order of loading

Two registries over one source number their classes in the order of loading, and that is
all they differ in.  Classes of one name are twins: they have twins for supertypes, and
their members, layouts and dispatch tables are equal once the numbers are erased.
-/

namespace ClassEngine.Machine

open Search (Source)

/-! ## Without numbers -/

def Method.unnumbered (m : Method) : Method := { m with id := ⟨0, m.id.index⟩ }

def Field.unnumbered (f : Field) : Field := { f with id := ⟨0, f.id.index⟩ }

def VTable.unnumbered (t : VTable) : VTable := { t with slots := t.slots.map Method.unnumbered }

def FieldLayout.unnumbered (l : FieldLayout) : FieldLayout :=
  { l with fields := l.fields.map Field.unnumbered, layout := l.layout.map Field.unnumbered }

namespace VTable

variable {t : VTable} {m : Method}

theorem slotOf?_unnumbered (t : VTable) (name descriptor : String) :
    t.unnumbered.slotOf? name descriptor = t.slotOf? name descriptor := rfl

theorem unnumbered_set (t : VTable) (i : Nat) (m : Method) :
    (t.set i m).unnumbered = t.unnumbered.set i m.unnumbered := by
  simp [set, unnumbered, Array.map_setIfInBounds]

theorem unnumbered_add (t : VTable) (m : Method) :
    (t.add m).unnumbered = t.unnumbered.add m.unnumbered := by
  have hkey : m.unnumbered.key = m.key := rfl
  simp [add, unnumbered, hkey]

theorem unnumbered_declare (t : VTable) (m : Method) :
    (t.declare m).unnumbered = t.unnumbered.declare m.unnumbered := by
  have hslot : t.unnumbered.slotOf? m.unnumbered.name m.unnumbered.descriptor =
      t.slotOf? m.name m.descriptor := slotOf?_unnumbered t _ _
  have hvirtual : m.unnumbered.isVirtual = m.isVirtual := rfl
  unfold declare
  rw [hslot, hvirtual]
  split
  · cases t.slotOf? m.name m.descriptor with
    | none => exact unnumbered_add t m
    | some i =>
        have hoverrides : (t.unnumbered.slots[i]?).any m.unnumbered.overrides =
            (t.slots[i]?).any m.overrides := by
          simp only [unnumbered, Array.getElem?_map, Option.any_map]
          rfl
        dsimp only
        rw [hoverrides]
        split
        · exact unnumbered_set t i m
        · exact unnumbered_add t m
  · rfl

theorem unnumbered_inherit (t : VTable) (m : Method) :
    (t.inherit m).unnumbered = t.unnumbered.inherit m.unnumbered := by
  have hslot : t.unnumbered.slotOf? m.unnumbered.name m.unnumbered.descriptor =
      t.slotOf? m.name m.descriptor := slotOf?_unnumbered t _ _
  have hvirtual : m.unnumbered.isVirtual = m.isVirtual := rfl
  have habstract : m.unnumbered.isAbstract = m.isAbstract := rfl
  unfold inherit
  rw [hslot, hvirtual, habstract]
  split
  · cases t.slotOf? m.name m.descriptor with
    | none => exact unnumbered_add t m
    | some i =>
        have hopen : (t.unnumbered.slots[i]?).any (fun old => old.isAbstract && old.ofInterface) =
            (t.slots[i]?).any fun old => old.isAbstract && old.ofInterface := by
          simp only [unnumbered, Array.getElem?_map, Option.any_map]
          rfl
        dsimp only
        rw [hopen]
        split
        · exact unnumbered_set t i m
        · rfl
  · rfl

theorem unnumbered_foldl {f : VTable → Method → VTable}
    (hf : ∀ t m, (f t m).unnumbered = f t.unnumbered m.unnumbered) (t : VTable)
    (ms : List Method) :
    (ms.foldl f t).unnumbered = (ms.map Method.unnumbered).foldl f t.unnumbered := by
  induction ms generalizing t with
  | nil => rfl
  | cons m rest ih => rw [List.foldl_cons, ih, hf, List.map_cons, List.foldl_cons]

end VTable

theorem unnumbered_buildVTable (cs : Classes) (inherited : VTable) (methods : List Method)
    (superinterfaces : List ClassId) :
    (buildVTable cs inherited methods superinterfaces).unnumbered =
      ((cs.methodsOf superinterfaces).map Method.unnumbered).foldl VTable.inherit
        ((methods.map Method.unnumbered).foldl VTable.declare inherited.unnumbered) := by
  unfold buildVTable Classes.methodsOf
  rw [VTable.unnumbered_foldl VTable.unnumbered_inherit,
    VTable.unnumbered_foldl VTable.unnumbered_declare]

theorem unnumbered_linkMethods (d : Declaration) (id : ClassId) :
    (d.linkMethods id).map Method.unnumbered = d.linkMethods 0 := by
  apply List.ext_getElem?
  intro i
  simp only [Declaration.linkMethods, List.getElem?_map, List.getElem?_mapIdx, Option.map_map]
  rfl

theorem unnumbered_add (l : FieldLayout) (owner : ClassId) (ownerName : String)
    (f : ClassFile.Field × ClassFile.FieldType) :
    (l.add owner ownerName f).unnumbered = l.unnumbered.add 0 ownerName f := by
  cases hstatic : ClassFile.Access.has f.1.flags ClassFile.Access.isStatic <;>
    simp [FieldLayout.add, FieldLayout.unnumbered, Field.unnumbered, Field.isStatic, Field.zero,
      ClassFile.Field.isStatic, hstatic]

theorem unnumbered_layOut (d : Declaration) (id : ClassId) (inherited : Array Field) :
    (d.layOut id inherited).unnumbered = d.layOut 0 (inherited.map Field.unnumbered) := by
  unfold Declaration.layOut
  have hstart : (⟨[], inherited, #[]⟩ : FieldLayout).unnumbered =
      ⟨[], inherited.map Field.unnumbered, #[]⟩ := rfl
  rw [← hstart]
  generalize (⟨[], inherited, #[]⟩ : FieldLayout) = l
  induction d.fields generalizing l with
  | nil => rfl
  | cons f rest ih => rw [List.foldl_cons, ih, unnumbered_add, List.foldl_cons]

/-! ## Twins -/

namespace Classes

/-- Classes of two registries that have the same name. -/
def Twin (cs cs' : Classes) (i i' : ClassId) : Prop :=
  ∃ c c', cs[i]? = some c ∧ cs'[i']? = some c' ∧ c.name = c'.name

theorem chain_eq {cs : Classes} {id : ClassId} (hsuper : ∀ s ∈ cs.super? id, s < id) :
    cs.chain id = id :: (cs.super? id).toList.flatMap cs.chain := by
  rw [chain]
  cases hs : cs.super? id with
  | none => rfl
  | some s => simp [hsuper s hs]

theorem visitInterfaces_eq {cs : Classes} (hdescending : cs.Descending) (seen : List ClassId)
    (id : ClassId) :
    cs.visitInterfaces seen id =
      if id ∈ seen then seen
      else (cs.interfaces id).foldl cs.visitInterfaces (seen ++ [id]) := by
  rw [visitInterfaces]
  congr 1
  refine List.foldl_ext _ _ _ fun seen i hi => ?_
  rw [if_pos (hdescending hi)]

end Classes

theorem forall₂_foldl {α β γ δ : Type} {r : α → β → Prop} {s : γ → δ → Prop} {f : γ → α → γ}
    {g : δ → β → δ} {as : List α} {bs : List β} (h : List.Forall₂ r as bs)
    (hf : ∀ a ∈ as, ∀ b, r a b → ∀ c d, s c d → s (f c a) (g d b)) {c : γ} {d : δ} (hcd : s c d) :
    s (as.foldl f c) (bs.foldl g d) := by
  induction h generalizing c d with
  | nil => exact hcd
  | cons hfirst _ ih =>
      exact ih (fun a ha => hf a (List.mem_cons_of_mem _ ha))
        (hf _ List.mem_cons_self _ hfirst c d hcd)

theorem forall₂_toList {α β : Type} {r : α → β → Prop} {a? : Option α} {b? : Option β}
    (h : Option.Rel r a? b?) : List.Forall₂ r a?.toList b?.toList := by
  cases h with
  | some h => exact .cons h .nil
  | none => exact .nil

theorem rel_head? {α β : Type} {r : α → β → Prop} {as : List α} {bs : List β}
    (h : List.Forall₂ r as bs) : Option.Rel r as.head? bs.head? := by
  cases h with
  | nil => exact .none
  | cons h _ => exact .some h

theorem forall₂_tail {α β : Type} {r : α → β → Prop} {as : List α} {bs : List β}
    (h : List.Forall₂ r as bs) : List.Forall₂ r as.tail bs.tail := by
  cases h with
  | nil => exact .nil
  | cons _ h => exact h

section

variable {src : Source} {cs cs' : Classes} {className className' : String} {needs : List Need}
  {ids ids' : List ClassId} {id id' : ClassId} {c c' : Class}

theorem twins_of_fills (h : List.Forall₂ (Fills cs id className) needs ids)
    (h' : List.Forall₂ (Fills cs' id' className') needs ids') :
    List.Forall₂ (Classes.Twin cs cs') ids ids' := by
  induction h generalizing ids' with
  | nil =>
      cases h'
      exact .nil
  | cons hfirst _ ih =>
      cases h' with
      | cons hfirst' hrest' =>
          obtain ⟨-, c, hc, hname, -⟩ := hfirst
          obtain ⟨-, c', hc', hname', -⟩ := hfirst'
          exact .cons ⟨c, c', hc, hc', hname.trans hname'.symm⟩ (ih hrest')

theorem Origin.twins (h : Origin src cs id c) (h' : Origin src cs' id' c')
    (hname : c.name = c'.name) :
    (∃ name shape shape' root root', Classes.Twin cs cs' root root' ∧
        shape.element = shape'.element ∧
        Option.Rel (Classes.Twin cs cs') shape.component? shape'.component? ∧
        c = linkArray cs name root shape ∧ c' = linkArray cs' name root' shape') ∨
      ∃ file fields methods ids ids', List.Forall₂ (Classes.Twin cs cs') ids ids' ∧
        c = ((declaration file ids fields methods).link cs id).1 ∧
        c' = ((declaration file ids' fields methods).link cs' id').1 := by
  obtain ⟨needs, ids, statics, hneeds, hfills, hassemble⟩ := h
  obtain ⟨needs', ids', statics', hneeds', hfills', hassemble'⟩ := h'
  rw [← hname] at hneeds' hassemble'
  rw [hneeds] at hneeds'
  cases hneeds'
  have htwins := twins_of_fills hfills hfills'
  generalize c.name = name at hassemble hassemble'
  cases harray : isArrayName name with
  | true =>
      obtain ⟨element, root, rest, helement, rfl, rfl⟩ := assemble_array harray hassemble
      obtain ⟨element', root', rest', helement', rfl, rfl⟩ := assemble_array harray hassemble'
      rw [helement] at helement'
      cases helement'
      cases htwins with
      | cons hroot hrest =>
          exact .inl ⟨name, ⟨element.kind, rest.head?⟩, ⟨element.kind, rest'.head?⟩, root, root',
            hroot, rfl, rel_head? hrest, rfl, rfl⟩
  | false =>
      obtain ⟨file, fields, methods, hread, hfields, hmethods, rfl⟩ :=
        assemble_file harray hassemble
      obtain ⟨file', fields', methods', hread', hfields', hmethods', rfl⟩ :=
        assemble_file harray hassemble'
      rw [hread] at hread'
      cases hread'
      rw [hfields] at hfields'
      cases hfields'
      rw [hmethods] at hmethods'
      cases hmethods'
      exact .inr ⟨file, fields, methods, ids, ids', htwins, rfl, rfl⟩

theorem rel_super (file : ClassFile) (fields : List (ClassFile.Field × ClassFile.FieldType))
    (methods : List (ClassFile.Method × ClassFile.MethodDescriptor))
    (h : List.Forall₂ (Classes.Twin cs cs') ids ids') :
    Option.Rel (Classes.Twin cs cs') (declaration file ids fields methods).super?
      (declaration file ids' fields methods).super? := by
  simp only [declaration]
  split
  · exact .none
  · exact rel_head? h

theorem rel_interfaces (file : ClassFile) (fields : List (ClassFile.Field × ClassFile.FieldType))
    (methods : List (ClassFile.Method × ClassFile.MethodDescriptor))
    (h : List.Forall₂ (Classes.Twin cs cs') ids ids') :
    List.Forall₂ (Classes.Twin cs cs') (declaration file ids fields methods).interfaces
      (declaration file ids' fields methods).interfaces := by
  simp only [declaration]
  split
  · exact h
  · exact forall₂_tail h

end

namespace Registry

open Classes (Twin)

variable {src : Source} {reg reg' : Registry} {i i' k k' : ClassId} {c c' : Class}

theorem Coherent.super?_lt (h : reg.Coherent src) (i : ClassId) :
    ∀ s ∈ reg.classes.super? i, s < i := by
  intro s hs
  cases hc : reg.classes[i]? with
  | none => simp [Classes.super?, hc] at hs
  | some c =>
      simp only [Classes.super?, hc, Option.bind_some] at hs
      exact (h.origin hc).lt (.inl hs)

theorem Coherent.twin_eq_iff (h : reg.Coherent src) (h' : reg'.Coherent src)
    (hi : Twin reg.classes reg'.classes i i') (hk : Twin reg.classes reg'.classes k k') :
    i = k ↔ i' = k' := by
  obtain ⟨c, c', hc, hc', hname⟩ := hi
  obtain ⟨d, d', hd, hd', hname'⟩ := hk
  constructor
  · rintro rfl
    rw [hc] at hd
    cases hd
    exact h'.unique hc' hd' (hname.symm.trans hname')
  · rintro rfl
    rw [hc'] at hd'
    cases hd'
    exact h.unique hc hd (hname.trans hname'.symm)

theorem Coherent.twin_mem_iff (h : reg.Coherent src) (h' : reg'.Coherent src)
    {seen seen' : List ClassId} (hseen : List.Forall₂ (Twin reg.classes reg'.classes) seen seen')
    (hi : Twin reg.classes reg'.classes i i') : i ∈ seen ↔ i' ∈ seen' := by
  induction hseen with
  | nil => simp
  | cons hfirst _ ih => rw [List.mem_cons, List.mem_cons, ih, h.twin_eq_iff h' hi hfirst]

theorem Coherent.twin_super (h : reg.Coherent src) (h' : reg'.Coherent src)
    (hi : Twin reg.classes reg'.classes i i') :
    Option.Rel (Twin reg.classes reg'.classes) (reg.classes.super? i) (reg'.classes.super? i') := by
  obtain ⟨c, c', hc, hc', hname⟩ := hi
  simp only [Classes.super?, hc, hc', Option.bind_some]
  rcases (h.origin hc).twins (h'.origin hc') hname with
    ⟨name, shape, shape', root, root', hroot, -, -, rfl, rfl⟩ |
    ⟨file, fields, methods, ids, ids', hids, rfl, rfl⟩
  · exact .some hroot
  · exact rel_super file fields methods hids

theorem Coherent.twin_interfaces (h : reg.Coherent src) (h' : reg'.Coherent src)
    (hi : Twin reg.classes reg'.classes i i') :
    List.Forall₂ (Twin reg.classes reg'.classes) (reg.classes.interfaces i)
      (reg'.classes.interfaces i') := by
  obtain ⟨c, c', hc, hc', hname⟩ := hi
  simp only [Classes.interfaces, hc, hc', Option.map_some, Option.getD_some]
  rcases (h.origin hc).twins (h'.origin hc') hname with
    ⟨name, shape, shape', root, root', -, -, -, rfl, rfl⟩ |
    ⟨file, fields, methods, ids, ids', hids, rfl, rfl⟩
  · exact .nil
  · exact rel_interfaces file fields methods hids

theorem Coherent.twin_chain (h : reg.Coherent src) (h' : reg'.Coherent src)
    (hi : Twin reg.classes reg'.classes i i') :
    List.Forall₂ (Twin reg.classes reg'.classes) (reg.classes.chain i) (reg'.classes.chain i') := by
  induction i using Nat.strongRecOn generalizing i' with
  | ind i ih =>
      have hsuper := h.twin_super h' hi
      have hlt := h.super?_lt i
      rw [Classes.chain_eq hlt, Classes.chain_eq (h'.super?_lt i')]
      refine .cons hi ?_
      generalize reg.classes.super? i = super? at hsuper hlt
      generalize reg'.classes.super? i' = super?' at hsuper
      cases hsuper with
      | none => exact .nil
      | some hs => simpa using ih _ (hlt _ rfl) hs

theorem Coherent.twin_visitInterfaces (h : reg.Coherent src) (h' : reg'.Coherent src)
    {seen seen' : List ClassId} (hi : Twin reg.classes reg'.classes i i')
    (hseen : List.Forall₂ (Twin reg.classes reg'.classes) seen seen') :
    List.Forall₂ (Twin reg.classes reg'.classes) (reg.classes.visitInterfaces seen i)
      (reg'.classes.visitInterfaces seen' i') := by
  induction i using Nat.strongRecOn generalizing i' seen seen' with
  | ind i ih =>
      rw [Classes.visitInterfaces_eq h.descending, Classes.visitInterfaces_eq h'.descending]
      have hmem := h.twin_mem_iff h' hseen hi
      by_cases hmet : i ∈ seen
      · rw [if_pos hmet, if_pos (hmem.mp hmet)]
        exact hseen
      · rw [if_neg hmet, if_neg (mt hmem.mpr hmet)]
        refine forall₂_foldl (h.twin_interfaces h' hi) (fun k hk k' htwin seen seen' hseen => ?_)
          (List.rel_append hseen (.cons hi .nil))
        exact ih k (h.descending hk) htwin hseen

theorem Coherent.twin_allInterfaces (h : reg.Coherent src) (h' : reg'.Coherent src)
    {interfaces interfaces' : List ClassId} {super? super?' : Option ClassId}
    (hinterfaces : List.Forall₂ (Twin reg.classes reg'.classes) interfaces interfaces')
    (hsuper : Option.Rel (Twin reg.classes reg'.classes) super? super?') :
    List.Forall₂ (Twin reg.classes reg'.classes) (reg.classes.allInterfaces interfaces super?)
      (reg'.classes.allInterfaces interfaces' super?') := by
  have hchains : List.Forall₂ (Twin reg.classes reg'.classes)
      (super?.toList.flatMap reg.classes.chain) (super?'.toList.flatMap reg'.classes.chain) :=
    List.rel_flatMap (forall₂_toList hsuper) fun _ _ hi => h.twin_chain h' hi
  have hroots : List.Forall₂ (Twin reg.classes reg'.classes)
      (reg.classes.interfaceRoots interfaces super?)
      (reg'.classes.interfaceRoots interfaces' super?') :=
    List.rel_append hinterfaces
      (List.rel_flatMap hchains fun _ _ hi => h.twin_interfaces h' hi)
  rw [Classes.allInterfaces_eq, Classes.allInterfaces_eq]
  exact forall₂_foldl hroots
    (fun _ _ _ hi _ _ hseen => h.twin_visitInterfaces h' hi hseen) .nil

theorem Coherent.twin_methods (h : reg.Coherent src) (h' : reg'.Coherent src)
    (hc : reg.classes[i]? = some c) (hc' : reg'.classes[i']? = some c')
    (hname : c.name = c'.name) :
    c.methods.map Method.unnumbered = c'.methods.map Method.unnumbered := by
  rcases (h.origin hc).twins (h'.origin hc') hname with
    ⟨name, shape, shape', root, root', -, -, -, rfl, rfl⟩ |
    ⟨file, fields, methods, ids, ids', -, rfl, rfl⟩
  · rfl
  · exact (unnumbered_linkMethods _ i).trans (unnumbered_linkMethods _ i').symm

theorem Coherent.twin_methodsOf (h : reg.Coherent src) (h' : reg'.Coherent src)
    {ids ids' : List ClassId} (hids : List.Forall₂ (Twin reg.classes reg'.classes) ids ids') :
    (reg.classes.methodsOf ids).map Method.unnumbered =
      (reg'.classes.methodsOf ids').map Method.unnumbered := by
  induction hids with
  | nil => rfl
  | cons hfirst _ ih =>
      obtain ⟨c, c', hc, hc', hname⟩ := hfirst
      unfold Classes.methodsOf at ih ⊢
      rw [List.flatMap_cons, List.flatMap_cons, List.map_append, List.map_append, ih, hc, hc']
      exact congrArg (· ++ _) (h.twin_methods h' hc hc' hname)

/-- What twins inherit is equal without numbers if it is for their superclasses. -/
theorem inherited_eq {α β : Type} (f : Class → α) (g : α → β) (start : α)
    {super? super?' : Option ClassId}
    (hsuper : Option.Rel (Twin reg.classes reg'.classes) super? super?')
    (heq : ∀ {s s' : ClassId} {c c' : Class}, super? = some s → reg.classes[s]? = some c →
      reg'.classes[s']? = some c' → c.name = c'.name → g (f c) = g (f c')) :
    g (((super?.bind (reg.classes[·]?)).map f).getD start) =
      g (((super?'.bind (reg'.classes[·]?)).map f).getD start) := by
  cases hsuper with
  | none => rfl
  | some hs =>
      obtain ⟨c, c', hc, hc', hname⟩ := id hs
      simp only [Option.bind_some, hc, hc', Option.map_some, Option.getD_some]
      exact heq rfl hc hc' hname

theorem Coherent.twin_vtable (h : reg.Coherent src) (h' : reg'.Coherent src)
    (hc : reg.classes[i]? = some c) (hc' : reg'.classes[i']? = some c')
    (hname : c.name = c'.name) : c.vtable.unnumbered = c'.vtable.unnumbered := by
  induction i using Nat.strongRecOn generalizing i' c c' with
  | ind i ih =>
      have hlt {s : ClassId} (hs : c.super? = some s) : s < i := (h.origin hc).lt (.inl hs)
      rcases (h.origin hc).twins (h'.origin hc') hname with
        ⟨name, shape, shape', root, root', hroot, -, -, rfl, rfl⟩ |
        ⟨file, fields, methods, ids, ids', hids, rfl, rfl⟩
      · exact inherited_eq (·.vtable) VTable.unnumbered .empty (.some hroot)
          fun hs hd hd' hdname => ih _ (hlt hs) hd hd' hdname
      · have hsuper := rel_super file fields methods hids
        have hinherited := inherited_eq (·.vtable) VTable.unnumbered .empty hsuper
          fun hs hd hd' hdname => ih _ (hlt hs) hd hd' hdname
        have hinterfaces := h.twin_allInterfaces h' (rel_interfaces file fields methods hids) hsuper
        show (buildVTable _ _ _ _).unnumbered = (buildVTable _ _ _ _).unnumbered
        rw [unnumbered_buildVTable, unnumbered_buildVTable, unnumbered_linkMethods,
          unnumbered_linkMethods, hinherited, h.twin_methodsOf h' hinterfaces]
        rfl

theorem Coherent.twin_layout (h : reg.Coherent src) (h' : reg'.Coherent src)
    (hc : reg.classes[i]? = some c) (hc' : reg'.classes[i']? = some c')
    (hname : c.name = c'.name) :
    c.layout.map Field.unnumbered = c'.layout.map Field.unnumbered := by
  induction i using Nat.strongRecOn generalizing i' c c' with
  | ind i ih =>
      have hlt {s : ClassId} (hs : c.super? = some s) : s < i := (h.origin hc).lt (.inl hs)
      rcases (h.origin hc).twins (h'.origin hc') hname with
        ⟨name, shape, shape', root, root', -, -, -, rfl, rfl⟩ |
        ⟨file, fields, methods, ids, ids', hids, rfl, rfl⟩
      · rfl
      · have hinherited := inherited_eq (·.layout) (Array.map Field.unnumbered) #[]
          (rel_super file fields methods hids) fun hs hd hd' hdname => ih _ (hlt hs) hd hd' hdname
        show (Declaration.layOut _ _ _).unnumbered.layout =
          (Declaration.layOut _ _ _).unnumbered.layout
        rw [unnumbered_layOut, unnumbered_layOut, hinherited]
        rfl

/-! ## Two orders -/

/-- Two classes of different registries are the same but for the numbers. -/
structure Alike (cs cs' : Classes) (c c' : Class) : Prop where
  name : c.name = c'.name
  super : Option.Rel (Twin cs cs') c.super? c'.super?
  interfaces : List.Forall₂ (Twin cs cs') c.interfaces c'.interfaces
  layout : c.layout.map Field.unnumbered = c'.layout.map Field.unnumbered
  vtable : c.vtable.unnumbered = c'.vtable.unnumbered

theorem Coherent.alike (h : reg.Coherent src) (h' : reg'.Coherent src)
    (hc : reg.classes[i]? = some c) (hc' : reg'.classes[i']? = some c')
    (hname : c.name = c'.name) : Alike reg.classes reg'.classes c c' := by
  have htwin : Twin reg.classes reg'.classes i i' := ⟨c, c', hc, hc', hname⟩
  have hsuper := h.twin_super h' htwin
  have hinterfaces := h.twin_interfaces h' htwin
  simp only [Classes.super?, Classes.interfaces, hc, hc', Option.bind_some, Option.map_some,
    Option.getD_some] at hsuper hinterfaces
  exact ⟨hname, hsuper, hinterfaces, h.twin_layout h' hc hc' hname, h.twin_vtable h' hc hc' hname⟩

/-- The registry after loading some names, however each of them ends. -/
def loadAll (src : Source) (names : List String) : Registry :=
  names.foldl (fun reg name => (load src [] name reg).2) {}

theorem loadAll_coherent (src : Source) (names : List String) :
    (loadAll src names).Coherent src ∧ Honest src (loadAll src names) := by
  unfold loadAll
  have hstart : Coherent src {} ∧ Honest src {} :=
    ⟨coherent_empty src, fun name e he => by simp [failure?] at he⟩
  generalize ({} : Registry) = reg at hstart
  induction names generalizing reg with
  | nil => exact hstart
  | cons name rest ih =>
      obtain ⟨hcoherent, hhonest⟩ := hstart
      exact ih _ ⟨(load_keeps src [] name reg).coherent hcoherent,
        (load_reports src [] name reg (.singleton name) hcoherent hhonest).1⟩

/-- Two attempts to load a name agree: both give a class of the name, and the two classes
are alike, or both give a fault, and the faults are of the same kind. -/
def Agree (name : String) : Except Fault ClassId × Registry → Except Fault ClassId × Registry → Prop
  | (.ok i, reg), (.ok i', reg') =>
    ∃ c c', reg.classes[i]? = some c ∧ reg'.classes[i']? = some c' ∧ c.name = name ∧
      Alike reg.classes reg'.classes c c'
  | (.error e, _), (.error e', _) =>
    ∃ k, (k = .classNotFound ∨ k = .linkage) ∧
      ∀ c, e.belongs c = decide (c = k) ∧ e'.belongs c = decide (c = k)
  | _, _ => False

/-- Whatever was loaded before, a name is loaded with the same outcome. -/
theorem load_order_irrelevant (src : Source) (names names' : List String) (name : String) :
    Agree name (load src [] name (loadAll src names)) (load src [] name (loadAll src names')) := by
  obtain ⟨hcoherent, hhonest⟩ := loadAll_coherent src names
  obtain ⟨hcoherent', hhonest'⟩ := loadAll_coherent src names'
  have hloads := load_loads src [] name (loadAll src names)
  have hloads' := load_loads src [] name (loadAll src names')
  have hafter := (load_keeps src [] name (loadAll src names)).coherent hcoherent
  have hafter' := (load_keeps src [] name (loadAll src names')).coherent hcoherent'
  obtain ⟨-, hreports⟩ :=
    load_reports src [] name (loadAll src names) (.singleton name) hcoherent hhonest
  obtain ⟨-, hreports'⟩ :=
    load_reports src [] name (loadAll src names') (.singleton name) hcoherent' hhonest'
  generalize load src [] name (loadAll src names) = result at *
  generalize load src [] name (loadAll src names') = result' at *
  obtain ⟨outcome, reg⟩ := result
  obtain ⟨outcome', reg'⟩ := result'
  cases outcome with
  | ok i =>
      obtain ⟨⟨c, hc, hname⟩, -⟩ := find?_eq_some_iff.mp (hloads.found rfl)
      cases outcome' with
      | ok i' =>
          obtain ⟨⟨c', hc', hname'⟩, -⟩ := find?_eq_some_iff.mp (hloads'.found rfl)
          exact ⟨c, c', hc, hc', hname, hafter.alike hafter' hc hc' (hname.trans hname'.symm)⟩
      | error e' =>
          obtain ⟨k, -, hfails, -⟩ := hreports' e' rfl
          exact not_loadable_of_fails hfails (hname ▸ hafter.loadable hc)
  | error e =>
      obtain ⟨k, hkind, hfails, hbelongs⟩ := hreports e rfl
      cases outcome' with
      | ok i' =>
          obtain ⟨⟨c', hc', hname'⟩, -⟩ := find?_eq_some_iff.mp (hloads'.found rfl)
          exact not_loadable_of_fails hfails (hname' ▸ hafter'.loadable hc')
      | error e' =>
          obtain ⟨k', -, hfails', hbelongs'⟩ := hreports' e' rfl
          cases hfails.kind_unique hfails'
          exact ⟨k, hkind, fun c => ⟨hbelongs c, hbelongs' c⟩⟩

end Registry

end ClassEngine.Machine
