import ClassEngine.Proofs.Machine.Hierarchy
import ClassEngine.Proofs.Machine.Requirements
import Mathlib.Data.List.Forall2

/-!
# Coherent registries

Every class of a registry was put together from classes that were there before and are
of the names that it requires; no two classes share a name, and no name is both loaded
and failed.  Loading keeps this.  The origin of a class stays the same in a larger
registry because linking only looks at classes with smaller numbers.
-/

namespace ClassEngine.Machine

open Search (Source)

namespace Classes

variable {cs cs' : Classes}

/-- Adding classes does not change how a declaration is linked. -/
theorem Continues.link (h : Continues cs cs') (hdescending : Descending cs) {d : Declaration}
    (hsuper : ∀ s ∈ d.super?, s < cs.size) (hinterfaces : ∀ i ∈ d.interfaces, i < cs.size)
    (id : ClassId) : d.link cs' id = d.link cs id := by
  have hparent : d.super?.bind (cs'[·]?) = d.super?.bind (cs[·]?) := by
    cases hs : d.super? with
    | none => rfl
    | some s => exact h.getElem? (hsuper s hs)
  have hmethods :
      ((cs.allInterfaces d.interfaces d.super?).flatMap fun i =>
        ((cs'[i]?).map (·.methods)).getD []) =
      (cs.allInterfaces d.interfaces d.super?).flatMap fun i =>
        ((cs[i]?).map (·.methods)).getD [] := by
    refine List.flatMap_congr fun i hi => ?_
    rw [h.getElem? (lt_of_mem_allInterfaces hdescending hinterfaces i hi)]
  unfold Declaration.link
  simp only [hparent, h.allInterfaces hdescending hinterfaces hsuper, buildVTable, hmethods]

end Classes

/-! ## Putting a class together -/

/-- A class is a direct supertype or the component of another one. -/
def Class.RestsOn (c : Class) (k : ClassId) : Prop :=
  c.super? = some k ∨ k ∈ c.interfaces ∨ c.component? = some k

section

variable {src : Source} {cs cs' : Classes} {id : ClassId} {name : String} {ids : List ClassId}
  {c : Class} {statics : Array Value}

theorem assemble_file (hplain : isArrayName name = false)
    (h : assemble src cs id name ids = .ok (c, statics)) :
    ∃ file fields methods, readClass src name = .ok file ∧ fieldTypes file = .ok fields ∧
      methodTypes file = .ok methods ∧
      ((declaration file ids fields methods).link cs id).1 = c := by
  simp only [assemble, hplain, Bool.false_eq_true, if_false] at h
  cases hread : readClass src name with
  | error e => simp [hread] at h
  | ok file =>
      simp only [hread] at h
      split at h
      · cases h
      · cases h
      · rename_i fields methods hfields hmethods
        exact ⟨file, fields, methods, rfl, hfields, hmethods, congrArg Prod.fst (Except.ok.inj h)⟩

theorem assemble_array (harray : isArrayName name = true)
    (h : assemble src cs id name ids = .ok (c, statics)) :
    ∃ element root rest, elementType? name = some element ∧ ids = root :: rest ∧
      linkArray cs name root ⟨element.kind, rest.head?⟩ = c := by
  simp only [assemble, harray, if_true] at h
  split at h
  · rename_i element root rest helement
    cases h
    exact ⟨element, root, rest, helement, rfl, rfl⟩
  · cases h

theorem name_of_assemble (h : assemble src cs id name ids = .ok (c, statics)) : c.name = name := by
  cases harray : isArrayName name with
  | true =>
      obtain ⟨element, root, rest, -, -, rfl⟩ := assemble_array harray h
      rfl
  | false =>
      obtain ⟨file, fields, methods, hread, -, -, rfl⟩ := assemble_file harray h
      exact Registry.name_of_readClass hread

theorem isArray_of_assemble (h : assemble src cs id name ids = .ok (c, statics)) :
    c.isArray = isArrayName name := by
  cases harray : isArrayName name with
  | true =>
      obtain ⟨element, root, rest, -, -, rfl⟩ := assemble_array harray h
      rfl
  | false =>
      obtain ⟨file, fields, methods, -, -, -, rfl⟩ := assemble_file harray h
      rfl

theorem mem_of_declaration {file : ClassFile}
    {fields : List (ClassFile.Field × ClassFile.FieldType)}
    {methods : List (ClassFile.Method × ClassFile.MethodDescriptor)} {k : ClassId}
    (hk : (declaration file ids fields methods).super? = some k ∨
      k ∈ (declaration file ids fields methods).interfaces) : k ∈ ids := by
  simp only [declaration] at hk
  split at hk
  · rcases hk with hk | hk
    · cases hk
    · exact hk
  · rcases hk with hk | hk
    · exact List.mem_of_mem_head? hk
    · exact List.mem_of_mem_tail hk

theorem mem_of_assemble (h : assemble src cs id name ids = .ok (c, statics)) {k : ClassId}
    (hk : c.RestsOn k) : k ∈ ids := by
  cases harray : isArrayName name with
  | true =>
      obtain ⟨element, root, rest, -, rfl, rfl⟩ := assemble_array harray h
      rcases hk with hk | hk | hk
      · cases hk
        exact List.mem_cons_self
      · cases hk
      · exact List.mem_cons_of_mem _ (List.mem_of_mem_head? hk)
  | false =>
      obtain ⟨file, fields, methods, -, -, -, rfl⟩ := assemble_file harray h
      rcases hk with hk | hk | hk
      · exact mem_of_declaration
          (.inl (show (declaration file ids fields methods).super? = _ from hk))
      · exact mem_of_declaration
          (.inr (show k ∈ (declaration file ids fields methods).interfaces from hk))
      · cases hk

theorem assemble_continues (h : Classes.Continues cs cs') (hdescending : Classes.Descending cs)
    (hids : ∀ k ∈ ids, k < cs.size) :
    assemble src cs' id name ids = assemble src cs id name ids := by
  cases harray : isArrayName name with
  | true =>
      simp only [assemble, harray, if_true]
      split
      · rename_i element root rest _
        simp only [linkArray, h.getElem? (hids root List.mem_cons_self)]
      · rfl
  | false =>
      simp only [assemble, harray, Bool.false_eq_true, if_false]
      cases readClass src name with
      | error e => rfl
      | ok file =>
          dsimp only
          cases fieldTypes file with
          | error e => rfl
          | ok fields =>
              cases methodTypes file with
              | error e => rfl
              | ok methods =>
                  dsimp only
                  congr 1
                  exact h.link hdescending (fun s hs => hids s (mem_of_declaration (.inl hs)))
                    (fun i hi => hids i (mem_of_declaration (.inr hi))) id

end

/-! ## Origins -/

/-- The class with the number `k` is what a class with the number `id` requires. -/
def Fills (cs : Classes) (id : ClassId) (className : String) (need : Need) (k : ClassId) : Prop :=
  k < id ∧ ∃ c, cs[k]? = some c ∧ c.name = need.name ∧ need.role.objection? className c = none

/-- A class was put together from the classes that it requires. -/
def Origin (src : Source) (cs : Classes) (id : ClassId) (c : Class) : Prop :=
  ∃ needs ids statics, requirements src c.name = .ok needs ∧
    List.Forall₂ (Fills cs id c.name) needs ids ∧ assemble src cs id c.name ids = .ok (c, statics)

variable {src : Source} {cs cs' : Classes} {id : ClassId} {c : Class}

theorem Fills.mono (h : Classes.Continues cs cs') {id' : ClassId} (hid : id ≤ id')
    {className : String} {need : Need} {k : ClassId} (hk : Fills cs id className need k) :
    Fills cs' id' className need k := by
  obtain ⟨hlt, c, hc, hrest⟩ := hk
  exact ⟨Nat.lt_of_lt_of_le hlt hid, c, h k c hc, hrest⟩

theorem lt_of_fills {className : String} {needs : List Need} {ids : List ClassId}
    (h : List.Forall₂ (Fills cs id className) needs ids) : ∀ k ∈ ids, k < id := by
  induction h with
  | nil => nofun
  | cons hfirst _ ih =>
      intro k hk
      rcases List.mem_cons.mp hk with rfl | hk
      · exact hfirst.1
      · exact ih k hk

theorem Origin.continues (h : Classes.Continues cs cs') (hdescending : Classes.Descending cs)
    (hid : id ≤ cs.size) (hc : Origin src cs id c) : Origin src cs' id c := by
  obtain ⟨needs, ids, statics, hneeds, hfills, hassemble⟩ := hc
  have hids (k : ClassId) (hk : k ∈ ids) : k < cs.size :=
    Nat.lt_of_lt_of_le (lt_of_fills hfills k hk) hid
  exact ⟨needs, ids, statics, hneeds, hfills.imp fun _ _ hk => hk.mono h (Nat.le_refl id),
    (assemble_continues h hdescending hids).trans hassemble⟩

/-- The supertypes and the component of a class were there before it. -/
theorem Origin.lt (h : Origin src cs id c) {k : ClassId} (hk : c.RestsOn k) : k < id := by
  obtain ⟨needs, ids, statics, -, hfills, hassemble⟩ := h
  exact lt_of_fills hfills k (mem_of_assemble hassemble hk)

theorem Origin.linked_of_mem (h : Origin src cs id c) {m : Method} (hm : m ∈ c.methods) :
    ∃ file, ∃ d : Declaration, readClass src c.name = .ok file ∧ methodTypes file = .ok d.methods ∧
      c = (d.link cs id).1 ∧ m ∈ d.linkMethods id := by
  obtain ⟨needs, ids, statics, -, -, hassemble⟩ := h
  cases harray : isArrayName c.name with
  | true =>
      obtain ⟨element, root, rest, -, -, hlink⟩ := assemble_array harray hassemble
      rw [← hlink] at hm
      cases hm
  | false =>
      obtain ⟨file, fields, methods, hread, -, hmethods, hlink⟩ := assemble_file harray hassemble
      refine ⟨file, declaration file ids fields methods, hread, hmethods, hlink.symm, ?_⟩
      rw [← hlink] at hm
      exact hm

namespace Registry

structure Coherent (src : Source) (reg : Registry) : Prop where
  unique : ∀ {i j : ClassId} {c c' : Class}, reg.classes[i]? = some c →
    reg.classes[j]? = some c' → c.name = c'.name → i = j
  exclusive : ∀ {name : String} {e : Fault}, reg.failure? name = some e → reg.find? name = none
  origin : ∀ {id : ClassId} {c : Class}, reg.classes[id]? = some c →
    Origin src reg.classes id c

variable {reg reg' : Registry}

theorem coherent_empty (src : Source) : Coherent src {} := by
  constructor <;> simp [failure?]

theorem Coherent.descending (h : reg.Coherent src) : Classes.Descending reg.classes := by
  intro id i hi
  cases hc : reg.classes[id]? with
  | none => simp [Classes.interfaces, hc] at hi
  | some c =>
      simp only [Classes.interfaces, hc, Option.map_some, Option.getD_some] at hi
      exact (h.origin hc).lt (.inr (.inl hi))

theorem Coherent.find?_name (h : reg.Coherent src) (hc : reg.classes[id]? = some c) :
    reg.find? c.name = some id := by
  refine find?_eq_some_iff.mpr ⟨⟨c, hc, rfl⟩, fun j hj c' hc' hname => ?_⟩
  exact Nat.ne_of_lt hj (h.unique hc' hc hname)

theorem Coherent.addFailure (h : reg.Coherent src) {name : String} (e : Fault)
    (hfind : reg.find? name = none) : (reg.addFailure name e).Coherent src where
  unique := h.unique
  exclusive := by
    intro other e' he
    by_cases hother : other = name
    · rw [hother]
      exact hfind
    · rw [failure?_addFailure_of_ne reg e hother] at he
      exact h.exclusive he
  origin := h.origin

theorem continues_add {state : ClassState} {statics : Array Value} :
    Classes.Continues reg.classes (reg.add c state statics).2.classes := by
  intro id c' hid
  rw [getElem?_classes_add, if_neg (Nat.ne_of_lt (Array.getElem?_eq_some_iff.mp hid).1)]
  exact hid

theorem Coherent.add (h : reg.Coherent src) {state : ClassState} {statics : Array Value}
    (hc : Origin src reg.classes reg.classes.size c) (hfind : reg.find? c.name = none)
    (hfailure : reg.failure? c.name = none) : (reg.add c state statics).2.Coherent src where
  unique := by
    have hfresh {i : ClassId} {c' : Class} (hi : reg.classes[i]? = some c') : c'.name ≠ c.name := by
      intro hname
      have := h.find?_name hi
      rw [hname, hfind] at this
      cases this
    intro i j c₁ c₂ hi hj hname
    rw [getElem?_classes_add] at hi hj
    split at hi <;> split at hj
    · exact ‹i = _›.trans ‹j = _›.symm
    · cases hi
      exact absurd hname.symm (hfresh hj)
    · cases hj
      exact absurd hname (hfresh hi)
    · exact h.unique hi hj hname
  exclusive := by
    intro name e he
    have hne : name ≠ c.name := by
      rintro rfl
      exact absurd (hfailure.symm.trans he) nofun
    rw [find?_add_of_ne hne]
    exact h.exclusive he
  origin := by
    intro id c' hid
    rw [getElem?_classes_add] at hid
    split at hid
    · rename_i heq
      cases hid
      rw [heq]
      exact hc.continues continues_add h.descending (Nat.le_refl _)
    · exact (h.origin hid).continues continues_add h.descending
        (Nat.le_of_lt (Array.getElem?_eq_some_iff.mp hid).1)

/-! ## Loading -/

structure Keeps (src : Source) (underWay : List String) (reg reg' : Registry) : Prop where
  nested : Nested underWay reg reg'
  coherent : reg.Coherent src → reg'.Coherent src
  untried : ∀ name ∈ underWay, reg'.failure? name = reg.failure? name

theorem Keeps.refl (src : Source) (underWay : List String) (reg : Registry) :
    Keeps src underWay reg reg :=
  ⟨.refl underWay reg, id, fun _ _ => rfl⟩

theorem Keeps.trans {underWay : List String} {reg₁ reg₂ reg₃ : Registry}
    (h₁₂ : Keeps src underWay reg₁ reg₂) (h₂₃ : Keeps src underWay reg₂ reg₃) :
    Keeps src underWay reg₁ reg₃ where
  nested := h₁₂.nested.trans h₂₃.nested
  coherent h := h₂₃.coherent (h₁₂.coherent h)
  untried name hname := (h₂₃.untried name hname).trans (h₁₂.untried name hname)

section

variable {underWay : List String} {name : String} {load : String → Loading ClassId}

def KeepsAll (src : Source) (underWay : List String) (name : String) (x : Loading ClassId) : Prop :=
  ∀ reg, Loads underWay name reg (x reg) ∧ Keeps src underWay reg (x reg).2

theorem gather_keeps (className : String) {needs : List Need}
    (hload : ∀ need ∈ needs, KeepsAll src underWay need.name (load need.name)) (reg : Registry) :
    Keeps src underWay reg (gather load className needs reg).2 ∧
      ∀ ids, (gather load className needs reg).1 = .ok ids →
        List.Forall₂ (Fills (gather load className needs reg).2.classes
          (gather load className needs reg).2.classes.size className) needs ids := by
  fun_induction gather load className needs reg with
  | case1 reg =>
      refine ⟨.refl src underWay reg, fun ids hids => ?_⟩
      cases hids
      exact .nil
  | case2 need rest reg e reg₁ hload₁ | case3 need rest reg k reg₁ hload₁ e =>
      obtain ⟨-, hkeeps⟩ := hload need List.mem_cons_self reg
      rw [hload₁] at hkeeps
      refine ⟨hkeeps, ?_⟩
      rintro _ ⟨⟩
  | case4 need rest reg k reg₁ hload₁ hobjection outcome reg₂ hrest ih =>
      obtain ⟨hloads, hkeeps⟩ := hload need List.mem_cons_self reg
      rw [hload₁] at hloads hkeeps
      obtain ⟨⟨c, hc, hname⟩, -⟩ := find?_eq_some_iff.mp (hloads.found rfl)
      obtain ⟨hkeeps', hfills⟩ := ih fun need hneed => hload need (List.mem_cons_of_mem _ hneed)
      rw [hrest] at hkeeps' hfills
      refine ⟨hkeeps.trans hkeeps', fun ids hids => ?_⟩
      cases outcome with
      | error e => cases hids
      | ok rest' =>
          cases hids
          have hgrows := hkeeps'.nested.extension.grows
          have hlt := (Array.getElem?_eq_some_iff.mp hc).1
          rw [hc, Option.bind_some] at hobjection
          exact .cons ⟨hgrows.lt hlt, c, hgrows.classes hc, hname, hobjection⟩ (hfills rest' rfl)

/-- Constructing a class ends with a fault, or adds the class after what it requires. -/
theorem construct_cases
    (hload : ∀ {needs}, requirements src name = .ok needs →
      ∀ need ∈ needs, KeepsAll src underWay need.name (load need.name)) (reg : Registry) :
    (∃ e reg', construct src load name reg = (.error e, reg') ∧ Keeps src underWay reg reg') ∨
      ∃ reg' c statics, construct src load name reg =
          (.ok reg'.classes.size, (reg'.add c c.firstState statics).2) ∧
        Keeps src underWay reg reg' ∧ c.name = name ∧
        Origin src reg'.classes reg'.classes.size c := by
  unfold construct
  cases hneeds : requirements src name with
  | error e => exact .inl ⟨e, reg, rfl, .refl src underWay reg⟩
  | ok needs =>
      dsimp only
      have hgather := gather_keeps name (hload hneeds) reg
      generalize gather load name needs reg = result at hgather
      obtain ⟨outcome, reg'⟩ := result
      obtain ⟨hkeeps, hfills⟩ := hgather
      cases outcome with
      | error e => exact .inl ⟨e, reg', rfl, hkeeps⟩
      | ok ids =>
          dsimp only
          cases hassemble : assemble src reg'.classes reg'.classes.size name ids with
          | error e => exact .inl ⟨e, reg', rfl, hkeeps⟩
          | ok result =>
              obtain ⟨c, statics⟩ := result
              obtain rfl := name_of_assemble hassemble
              exact .inr ⟨reg', c, statics, rfl, hkeeps, rfl,
                needs, ids, statics, hneeds, hfills ids rfl, hassemble⟩

end

theorem load_keeps (src : Source) (underWay : List String) (name : String) (reg : Registry) :
    Keeps src underWay reg (load src underWay name reg).2 := by
  refine load_induction (P := fun underWay _ reg result => Keeps src underWay reg result.2)
    ?found ?failed ?circular ?fresh underWay name reg
  case found => exact fun _ => .refl src _ _
  case failed => exact fun _ _ => .refl src _ _
  case circular => exact fun _ _ _ => .refl src _ _
  case fresh =>
    intro underWay name reg hfind hfailure hname ih
    have hloads := load_loads src underWay name reg
    rw [load_of_fresh hfind hfailure hname] at hloads
    have hload {needs : List Need} (hneeds : requirements src name = .ok needs) (need : Need)
        (hneed : need ∈ needs) :
        KeepsAll src (name :: underWay) need.name (load src (name :: underWay) need.name) :=
      fun reg => ⟨load_loads src _ _ reg, ih hneeds need hneed reg⟩
    have hne {other : String} (hother : other ∈ underWay) : other ≠ name :=
      fun heq => hname (heq ▸ hother)
    rcases construct_cases hload reg with
      ⟨e, reg', heq, hkeeps⟩ | ⟨reg', c, statics, heq, hkeeps, rfl, horigin⟩
    · rw [heq] at hloads ⊢
      refine ⟨hloads.nested, fun h => ?_, fun other hother => ?_⟩
      · exact (hkeeps.coherent h).addFailure e
          (hkeeps.nested.unclaimed name List.mem_cons_self hfind)
      · exact (failure?_addFailure_of_ne reg' e (hne hother)).trans
          (hkeeps.untried other (List.mem_cons_of_mem _ hother))
    · rw [heq] at hloads ⊢
      refine ⟨hloads.nested, fun h => ?_, fun other hother => ?_⟩
      · exact (hkeeps.coherent h).add horigin
          (hkeeps.nested.unclaimed c.name List.mem_cons_self hfind)
          ((hkeeps.untried c.name List.mem_cons_self).trans hfailure)
      · exact hkeeps.untried other (List.mem_cons_of_mem _ hother)

end Registry

end ClassEngine.Machine
