import ClassEngine.Machine.Loading
import ClassEngine.Proofs.Machine.Registry

/-!
# What loading does

Loading a class extends the registry.  Afterwards the name has the class that was
returned, or is remembered as failed with the fault that was reported.  A name
whose loading is under way gets no class meanwhile; this is why no second class
can slip in under a name between the look-up and the addition.
-/

namespace ClassEngine.Machine

open Search (Source)

theorem Resolution.Sound.mono {reg reg' : Registry} {r : Resolution} (h : r.Sound reg)
    (hsize : reg.classes.size ≤ reg'.classes.size) : r.Sound reg' := by
  obtain ⟨use, outcome⟩ := r
  cases outcome with
  | error e => cases use <;> trivial
  | ok v =>
      cases use <;> cases v <;> try trivial
      exact Nat.lt_of_lt_of_le h hsize

namespace Registry

/-- What happens to a registry while the names `underWay` are being loaded. -/
structure Nested (underWay : List String) (reg reg' : Registry) : Prop where
  extension : reg.Extends reg'
  wellFormed : reg.WellFormed → reg'.WellFormed
  unclaimed : ∀ name ∈ underWay, reg.find? name = none → reg'.find? name = none

theorem Nested.refl (underWay : List String) (reg : Registry) : Nested underWay reg reg :=
  ⟨.refl reg, id, fun _ _ h => h⟩

theorem Nested.trans {underWay : List String} {reg₁ reg₂ reg₃ : Registry}
    (h₁₂ : Nested underWay reg₁ reg₂) (h₂₃ : Nested underWay reg₂ reg₃) :
    Nested underWay reg₁ reg₃ where
  extension := h₁₂.extension.trans h₂₃.extension
  wellFormed h := h₂₃.wellFormed (h₁₂.wellFormed h)
  unclaimed name hname h := h₂₃.unclaimed name hname (h₁₂.unclaimed name hname h)

structure Loads (underWay : List String) (name : String) (reg : Registry)
    (result : Except Fault ClassId × Registry) : Prop where
  nested : Nested underWay reg result.2
  found : ∀ {id}, result.1 = .ok id → result.2.find? name = some id
  refused : ∀ {e}, result.1 = .error e → name ∉ underWay →
    result.2.find? name = none ∧ result.2.failure? name = some e

/-! ## The end of a load -/

theorem wellFormed_addFailure {reg : Registry} (h : reg.WellFormed) (name : String) (e : Fault) :
    (reg.addFailure name e).WellFormed :=
  ⟨h.aligned, h.supers, h.components, h.owners, h.kept⟩

structure Fits (reg : Registry) (c : Class) (state : ClassState) : Prop where
  super : ∀ {s}, c.super? = some s → s < reg.classes.size
  component : ∀ {k}, c.component? = some k → k < reg.classes.size
  owner : ∀ {m}, m ∈ c.methods → m.id.owner = reg.classes.size
  state : state = c.firstState

theorem getElem?_classes_add {reg : Registry} {c : Class} {state : ClassState}
    {statics : Array Value} {id : ClassId} :
    (reg.add c state statics).2.classes[id]? =
      if id = reg.classes.size then some c else reg.classes[id]? := by
  simp [add, Array.getElem?_push]

theorem status?_add {reg : Registry} {c : Class} {state : ClassState} {statics : Array Value}
    {id : ClassId} :
    (reg.add c state statics).2.status? id =
      if id = reg.statuses.size then
        some ⟨state, statics, Array.replicate c.pool.size none⟩
      else reg.status? id := by
  simp [add, status?, Array.getElem?_push]

theorem status?_of_add {reg : Registry} {c : Class} {state : ClassState} {statics : Array Value}
    {id : ClassId} {s : ClassStatus} {i : Nat} {r : Resolution}
    (h : (reg.add c state statics).2.status? id = some s)
    (hr : s.resolutions[i]? = some (some r)) : reg.status? id = some s := by
  rw [status?_add] at h
  split at h
  · cases h
    simp [Array.getElem?_replicate] at hr
  · exact h

theorem wellFormed_add {reg : Registry} {c : Class} {state : ClassState}
    {statics : Array Value} (h : reg.WellFormed) (hc : Fits reg c state) :
    (reg.add c state statics).2.WellFormed where
  aligned := by simp [add, h.aligned]
  supers := by
    intro id c' s hid hs
    rw [getElem?_classes_add] at hid
    split at hid
    · cases hid
      subst id
      exact hc.super hs
    · exact h.supers hid hs
  components := by
    intro id c' k hid hk
    rw [getElem?_classes_add] at hid
    split at hid
    · cases hid
      subst id
      exact hc.component hk
    · exact h.components hid hk
  owners := by
    intro id c' m hid hm
    rw [getElem?_classes_add] at hid
    split at hid
    · cases hid
      subst id
      exact hc.owner hm
    · exact h.owners hid hm
  kept := by
    intro id s i r hs hr
    have hsize : reg.classes.size ≤ (reg.add c state statics).2.classes.size := by simp [add]
    exact (h.kept (status?_of_add hs hr) hr).mono hsize

theorem extends_add {reg₀ reg₁ : Registry} {c : Class} {state : ClassState}
    {statics : Array Value} (h : reg₀.Extends reg₁) (hc : Fits reg₁ c state)
    (hfailure : reg₀.failure? c.name = none) :
    reg₀.Extends (reg₁.add c state statics).2 where
  classes := by
    intro id c' hid
    have hid' := h.classes hid
    have hlt := (Array.getElem?_eq_some_iff.mp hid').1
    rw [getElem?_classes_add, if_neg (Nat.ne_of_lt hlt)]
    exact hid'
  statuses := by
    intro id s hs
    have hs' := h.statuses hs
    have hlt := (Array.getElem?_eq_some_iff.mp hs').1
    rw [status?_add, if_neg (Nat.ne_of_lt hlt)]
    exact hs'
  failures := by
    intro name e hn he
    have hne : name ≠ c.name := by
      rintro rfl
      rw [hfailure] at he
      cases he
    obtain ⟨hn', he'⟩ := h.failures hn he
    exact ⟨(find?_add_of_ne hne).trans hn', he'⟩
  aligned ha := by simp [add, h.aligned ha]
  fresh := by
    intro id s ha hnone hsome
    rw [status?_add] at hsome
    split at hsome
    · rename_i hid
      cases hsome
      refine ⟨c, ?_, hc.state⟩
      rw [getElem?_classes_add, if_pos (hid.trans (h.aligned ha))]
    · obtain ⟨c', hc', hstate⟩ := h.fresh ha hnone hsome
      have hlt := (Array.getElem?_eq_some_iff.mp hc').1
      refine ⟨c', ?_, hstate⟩
      rw [getElem?_classes_add, if_neg (Nat.ne_of_lt hlt)]
      exact hc'

section

variable {underWay : List String} {reg₀ reg₁ : Registry}

theorem loads_add {c : Class} {state : ClassState} {statics : Array Value}
    (hfind : reg₀.find? c.name = none) (hfailure : reg₀.failure? c.name = none)
    (hfresh : c.name ∉ underWay) (h : Nested (c.name :: underWay) reg₀ reg₁)
    (hc : Fits reg₁ c state) :
    Loads underWay c.name reg₀ (.ok reg₁.classes.size, (reg₁.add c state statics).2) where
  nested := {
    extension := extends_add h.extension hc hfailure
    wellFormed hw := wellFormed_add (h.wellFormed hw) hc
    unclaimed name hname hnone := by
      have hne : name ≠ c.name := fun heq => hfresh (heq ▸ hname)
      rw [find?_add_of_ne hne]
      exact h.unclaimed name (List.mem_cons_of_mem _ hname) hnone }
  found hid := by
    cases hid
    exact find?_add_self (h.unclaimed c.name List.mem_cons_self hfind)
  refused he := by cases he

theorem loads_addFailure {name : String} {e : Fault} (hfind : reg₀.find? name = none)
    (hfailure : reg₀.failure? name = none) (h : Nested (name :: underWay) reg₀ reg₁) :
    Loads underWay name reg₀ (.error e, reg₁.addFailure name e) where
  nested := {
    extension := {
      classes := h.extension.classes
      statuses := h.extension.statuses
      failures hn he := by
        rename_i other _
        have hne : other ≠ name := by
          rintro rfl
          rw [hfailure] at he
          cases he
        obtain ⟨hn', he'⟩ := h.extension.failures hn he
        exact ⟨hn', (failure?_addFailure_of_ne reg₁ e hne).trans he'⟩
      aligned := h.extension.aligned
      fresh := h.extension.fresh }
    wellFormed hw := wellFormed_addFailure (h.wellFormed hw) name e
    unclaimed other hother hnone := h.unclaimed other (List.mem_cons_of_mem _ hother) hnone }
  found hid := by cases hid
  refused he _ := by
    cases he
    exact ⟨h.unclaimed name List.mem_cons_self hfind, failure?_addFailure_self reg₁ name _⟩

end

/-! ## Supertypes and the class itself -/

section

variable {underWay : List String} {load : String → Loading ClassId}

theorem loadSuper_nested (hload : ∀ n reg, Loads underWay n reg (load n reg)) (file : ClassFile)
    (reg : Registry) :
    Nested underWay reg (loadSuper load file reg).2 ∧
      ∀ {s}, (loadSuper load file reg).1 = .ok (some s) →
        s < (loadSuper load file reg).2.classes.size := by
  unfold loadSuper
  split
  · exact ⟨.refl underWay reg, by simp⟩
  · have hspec := hload file.superName reg
    generalize load file.superName reg = result at hspec
    obtain ⟨outcome, reg'⟩ := result
    cases outcome with
    | error e => exact ⟨hspec.nested, by simp⟩
    | ok id =>
        have hlt : id < reg'.classes.size := find?_lt (hspec.found rfl)
        simp only [Array.getElem?_eq_getElem hlt]
        split
        · exact ⟨hspec.nested, by simp⟩
        · refine ⟨hspec.nested, ?_⟩
          rintro s h
          cases h
          exact hlt

theorem loadInterfaces_nested (hload : ∀ n reg, Loads underWay n reg (load n reg))
    (className : String) (names : List String) (reg : Registry) :
    Nested underWay reg (loadInterfaces load className names reg).2 := by
  induction names generalizing reg with
  | nil => exact .refl underWay reg
  | cons name rest ih =>
      unfold loadInterfaces
      have hspec := hload name reg
      generalize load name reg = result at hspec
      obtain ⟨outcome, reg'⟩ := result
      cases outcome with
      | error e => exact hspec.nested
      | ok id =>
          dsimp only
          split
          · exact hspec.nested.trans (ih reg')
          · exact hspec.nested

theorem linkMethods_owner {d : Declaration} {id : ClassId} {m : Method}
    (h : m ∈ d.linkMethods id) : m.id.owner = id := by
  unfold Declaration.linkMethods at h
  obtain ⟨i, hi, rfl⟩ := List.mem_mapIdx.mp h
  rfl

theorem fits_link {reg : Registry} {d : Declaration}
    (hsuper : ∀ {s}, d.super? = some s → s < reg.classes.size) :
    Fits reg (d.link reg.classes reg.classes.size).1 .linked where
  super hs := hsuper hs
  component hk := by simp [Declaration.link, Class.component?] at hk
  owner hm := linkMethods_owner hm
  state := rfl

theorem fits_linkArray {reg : Registry} {name : String} {root : ClassId} {shape : ArrayShape}
    (hroot : root < reg.classes.size)
    (hcomponent : ∀ {k}, shape.component? = some k → k < reg.classes.size) :
    Fits reg (linkArray reg.classes name root shape) .initialized where
  super hs := by
    cases hs
    exact hroot
  component hk := hcomponent hk
  owner hm := by simp [linkArray] at hm
  state := rfl

theorem define_cases (hload : ∀ n reg, Loads underWay n reg (load n reg)) (file : ClassFile)
    (reg : Registry) :
    (∃ e reg', define load file reg = (.error e, reg') ∧ Nested underWay reg reg') ∨
      ∃ reg' c statics, define load file reg =
          (.ok reg'.classes.size, (reg'.add c .linked statics).2) ∧
        Nested underWay reg reg' ∧ c.name = file.name ∧ Fits reg' c .linked := by
  unfold define
  have hsuper := loadSuper_nested hload file reg
  generalize loadSuper load file reg = result at hsuper
  obtain ⟨super, reg₁⟩ := result
  cases super with
  | error e => exact .inl ⟨e, reg₁, rfl, hsuper.1⟩
  | ok super? =>
      have hinterfaces := loadInterfaces_nested hload file.name file.interfaces reg₁
      dsimp only
      generalize loadInterfaces load file.name file.interfaces reg₁ = result at hinterfaces
      obtain ⟨interfaces, reg₂⟩ := result
      have hnested := hsuper.1.trans hinterfaces
      cases interfaces with
      | error e => exact .inl ⟨e, reg₂, rfl, hnested⟩
      | ok interfaces =>
          dsimp only
          split
          · exact .inl ⟨_, reg₂, rfl, hnested⟩
          · exact .inl ⟨_, reg₂, rfl, hnested⟩
          · refine .inr ⟨reg₂, _, _, rfl, hnested, rfl, fits_link ?_⟩
            intro s hs
            cases hs
            exact Nat.lt_of_lt_of_le (hsuper.2 rfl) hinterfaces.extension.size_le

end

/-! ## Loading -/

theorem name_of_readClass {src : Source} {name : String} {file : ClassFile}
    (h : readClass src name = .ok file) : file.name = name := by
  unfold readClass at h
  split at h
  · simp at h
  · simp at h
  · split at h
    · simp at h
    · split at h
      · cases h
        assumption
      · simp at h

theorem load_loads (src : Source) (underWay : List String) (name : String) (reg : Registry) :
    Loads underWay name reg (load src underWay name reg) := by
  -- On the recursion of `load`: what is nested in a name is loaded with that name under way.
  induction underWay, name, reg using load.induct src with
  | case1 underWay name reg id hfind =>
      rw [load]
      simp only [hfind]
      exact ⟨.refl underWay reg, fun h => by cases h; exact hfind, by simp⟩
  | case2 underWay name reg e hfailure hfind =>
      rw [load]
      simp only [hfind, hfailure]
      exact ⟨.refl underWay reg, by simp, fun h _ => by cases h; exact ⟨hfind, hfailure⟩⟩
  | case3 underWay name reg hfailure hfind hname =>
      rw [load]
      simp only [hfind, hfailure, hname, dif_pos]
      exact ⟨.refl underWay reg, by simp, fun _ hnot => absurd hname hnot⟩
  | case4 underWay name reg hfailure hfind hname harray hroot hcomponent =>
      rw [load]
      simp only [hfind, hfailure, hname, harray, dif_pos, dif_neg, not_false_eq_true]
      cases elementType? name with
      | none => exact loads_addFailure hfind hfailure (.refl _ reg)
      | some element =>
          generalize load src (name :: underWay) ClassFile.rootClassName reg = result at hroot
          obtain ⟨outcome, reg₁⟩ := result
          cases outcome with
          | error e => exact loads_addFailure hfind hfailure hroot.nested
          | ok root =>
              have hlt : root < reg₁.classes.size := find?_lt (hroot.found rfl)
              dsimp only
              split
              · exact loads_add (c := linkArray reg₁.classes name root _) hfind hfailure hname
                  hroot.nested (fits_linkArray hlt (by simp))
              · rename_i componentName hname'
                have hspec := hcomponent reg₁ componentName hname'
                generalize load src (name :: underWay) componentName reg₁ = result at hspec
                obtain ⟨outcome, reg₂⟩ := result
                have hnested := hroot.nested.trans hspec.nested
                cases outcome with
                | error e => exact loads_addFailure hfind hfailure hnested
                | ok k =>
                    have hk : k < reg₂.classes.size := find?_lt (hspec.found rfl)
                    have hlt' := Nat.lt_of_lt_of_le hlt hspec.nested.extension.size_le
                    refine loads_add (c := linkArray reg₂.classes name root _) hfind hfailure
                      hname hnested (fits_linkArray hlt' ?_)
                    intro k' h
                    cases h
                    exact hk
  | case5 underWay name reg hfailure hfind hname harray ih =>
      rw [load]
      simp only [hfind, hfailure, hname, harray, Bool.false_eq_true, dif_neg, not_false_eq_true]
      split
      · exact loads_addFailure hfind hfailure (.refl _ reg)
      · rename_i file hfile
        rcases define_cases (ih file hfile) file reg with
          ⟨e, reg', heq, hnested⟩ | ⟨reg', c, statics, heq, hnested, hc, hfits⟩
        · rw [heq]
          exact loads_addFailure hfind hfailure hnested
        · have hcname : c.name = name := hc.trans (name_of_readClass hfile)
          subst hcname
          rw [heq]
          exact loads_add hfind hfailure hname hnested hfits

end Registry

end ClassEngine.Machine
