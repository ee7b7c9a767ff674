import ClassEngine.Proofs.Machine.Caches
import ClassEngine.Proofs.Machine.Dispatch

/-!
# What a call selects among the methods of classes

The method that a receiver selects is the nearest one of the same name and descriptor on
the chain of its superclasses.  The table goes by names: whether that method overrides the
one that is called, with regard to packages, makes no difference to it.
-/

namespace ClassEngine.Machine

/-! ## Chains of superclasses -/

namespace Classes

variable {cs : Classes} {id k : ClassId} {c : Class} {m : Method} {name descriptor : String}

theorem chain_of_suffix {after : List ClassId} (h : k :: after <:+ cs.chain id) :
    cs.chain k = k :: after := by
  induction id using Nat.strongRecOn with
  | ind id ih =>
      rw [chain] at h
      rcases List.suffix_cons_iff.mp h with heq | h
      · cases heq
        rw [chain]
      · split at h
        · split at h
          · exact ih _ ‹_› h
          · simp at h
        · simp at h

theorem nearestVirtual?_of_mem (hk : k ∈ cs.chain id) (hc : cs[k]? = some c)
    (hm : m ∈ c.methods) (hvirtual : m.isVirtual = true)
    (hkey : m.hasKey name descriptor = true) :
    ∃ n j d, cs.nearestVirtual? id name descriptor = some n ∧ j ∈ cs.chain id ∧
      k ∈ cs.chain j ∧ cs[j]? = some d ∧ d.declaredVirtual? name descriptor = some n := by
  have hdeclared : ((cs[k]?).bind (·.declaredVirtual? name descriptor)).isSome := by
    rw [hc, Option.bind_some, Class.declaredVirtual?, List.find?_isSome]
    exact ⟨m, List.mem_reverse.mpr hm, by simp [hvirtual, hkey]⟩
  have hsome : (cs.nearestVirtual? id name descriptor).isSome := by
    rw [nearestVirtual?, List.findSome?_isSome_iff]
    exact ⟨k, hk, hdeclared⟩
  obtain ⟨n, hn⟩ := Option.isSome_iff_exists.mp hsome
  obtain ⟨before, j, after, hchain, hj, hbefore⟩ := List.findSome?_eq_some_iff.mp hn
  obtain ⟨d, hd, hdeclaredN⟩ := Option.bind_eq_some_iff.mp hj
  have hsuffix : j :: after <:+ cs.chain id := hchain ▸ List.suffix_append before (j :: after)
  refine ⟨n, j, d, hn, hsuffix.subset List.mem_cons_self, ?_, hd, hdeclaredN⟩
  rw [chain_of_suffix hsuffix]
  rw [hchain] at hk
  rcases List.mem_append.mp hk with hk | hk
  · rw [hbefore k hk] at hdeclared
    cases hdeclared
  · exact hk

end Classes

/-! ## Methods of a table -/

namespace VTable

theorem Indexed.hasKey_of_lookup? {t : VTable} (ht : t.Indexed) {m : Method}
    {name descriptor : String} (h : t.lookup? name descriptor = some m) :
    m.hasKey name descriptor = true := by
  obtain ⟨i, hi, hm⟩ := Option.bind_eq_some_iff.mp h
  obtain ⟨m', hm', hkey⟩ := ht.slot hi
  cases hm.symm.trans hm'
  exact Method.key_eq_iff.mp hkey

/-- Only virtual methods are found in the table. -/
def Virtual (t : VTable) : Prop :=
  ∀ name descriptor m, t.lookup? name descriptor = some m → m.isVirtual = true

theorem Virtual.declare {t : VTable} (ht : t.Indexed) (h : t.Virtual) (m : Method) :
    (t.declare m).Virtual := by
  intro name descriptor m' hm'
  rw [lookup?_declare ht] at hm'
  split at hm'
  · rename_i hvirtual
    cases hm'
    exact (Bool.and_eq_true_iff.mp hvirtual).1
  · exact h name descriptor m' hm'

theorem Virtual.inherit {t : VTable} (ht : t.Indexed) (h : t.Virtual) (m : Method) :
    (t.inherit m).Virtual := by
  intro name descriptor m' hm'
  rw [lookup?_inherit ht] at hm'
  split at hm'
  · rename_i hvirtual
    have hm : m.isVirtual = true := (Bool.and_eq_true_iff.mp hvirtual).1
    unfold offer at hm'
    split at hm'
    · cases hm'
      exact hm
    · split at hm' <;> cases hm'
      · exact hm
      · exact h name descriptor _ ‹_›
  · exact h name descriptor m' hm'

theorem Virtual.foldl {t : VTable} (ht : t.Indexed) (h : t.Virtual)
    {add : VTable → Method → VTable} (hindexed : ∀ {t m}, t.Indexed → (add t m).Indexed)
    (hadd : ∀ {t m}, t.Indexed → t.Virtual → (add t m).Virtual) (methods : List Method) :
    (methods.foldl add t).Virtual := by
  induction methods generalizing t with
  | nil => exact h
  | cons m rest ih => exact ih (hindexed ht) (hadd ht h)

end VTable

theorem Registry.Coherent.virtual {src : Search.Source} {reg : Registry} (h : reg.Coherent src)
    {id : ClassId} {c : Class} (hc : reg.classes[id]? = some c) : c.vtable.Virtual := by
  induction id using Nat.strongRecOn generalizing c with
  | ind id ih =>
      have horigin := h.origin hc
      have hinherited : (reg.classes.inheritedTable c).Virtual := by
        intro name descriptor m hm
        rw [h.inheritedTable_lookup? hc] at hm
        obtain ⟨s, hs, hm⟩ := Option.bind_eq_some_iff.mp hm
        obtain ⟨p, hp, hm⟩ := Option.bind_eq_some_iff.mp hm
        exact ih s (horigin.lt (.inl hs)) hp name descriptor m hm
      rw [horigin.vtable, buildVTable]
      have hindexed := h.indexed_inheritedTable c
      refine .foldl (hindexed.foldl_declare _) ?_ (fun ht => ht.inherit _)
        (fun ht h => h.inherit ht _) _
      exact hinherited.foldl hindexed (fun ht => ht.declare _) (fun ht h => h.declare ht _) _

/-! ## Redeclarations -/

/-- A virtual method of the name and descriptor of `m`, declared by the class of `m` or by a
subclass of it on the chain of superclasses of `receiver`. -/
structure Classes.Redeclares (cs : Classes) (receiver : ClassId) (m m' : Method) : Prop where
  declared : ∃ k c, k ∈ cs.chain receiver ∧ m.id.owner ∈ cs.chain k ∧ cs[k]? = some c ∧
    m' ∈ c.methods
  isVirtual : m'.isVirtual = true
  hasKey : m'.hasKey m.name m.descriptor = true

/-- `b` overrides `a`, and is declared between the called method `m` and the receiver. -/
def Classes.OverridesOn (cs : Classes) (receiver : ClassId) (m a b : Method) : Prop :=
  cs.Redeclares receiver m b ∧ b.overrides a = true

/-- Each redeclaration overrides `m`, or another one above it. -/
def Classes.OverridesThroughout (cs : Classes) (receiver : ClassId) (m : Method) : Prop :=
  ∀ m', cs.Redeclares receiver m m' → m'.overrides m = true ∨
    ∃ m'', cs.Redeclares receiver m m'' ∧ m''.id.owner < m'.id.owner ∧ m'.overrides m'' = true

/-- The class of `m` and its subclasses on the chain of the receiver are not interfaces. -/
def Classes.PlainTo (cs : Classes) (receiver : ClassId) (m : Method) : Prop :=
  ∀ k c, k ∈ cs.chain receiver → m.id.owner ∈ cs.chain k → cs[k]? = some c →
    c.isInterface = false

namespace Method

variable {m m' : Method}

def isVisible (m : Method) : Bool :=
  ClassFile.Access.has m.flags (ClassFile.Access.isPublic ||| ClassFile.Access.isProtected)

theorem isVirtual_iff : m.isVirtual = true ↔
    m.isStatic = false ∧ m.isPrivate = false ∧ m.name.startsWith "<" = false := by
  simp [isVirtual, and_assoc]

theorem overrides_of_visible (hm' : m'.isVirtual = true) (hm : m.isPrivate = false)
    (hvisible : m.isVisible = true) : m'.overrides m = true := by
  obtain ⟨hstatic, hprivate, -⟩ := isVirtual_iff.mp hm'
  simp only [isVisible] at hvisible
  simp [overrides, hstatic, hprivate, hm, hvisible]

end Method

theorem Classes.OverridesThroughout.chain {cs : Classes} {receiver : ClassId} {m t : Method}
    (h : cs.OverridesThroughout receiver m) (ht : cs.Redeclares receiver m t) :
    Relation.TransGen (cs.OverridesOn receiver m) m t := by
  -- Induction on the class of the redeclaration: what it overrides is declared above it.
  induction howner : t.id.owner using Nat.strongRecOn generalizing t with
  | ind owner ih =>
      rcases h t ht with hover | ⟨t', ht', hlt, hover⟩
      · exact .single ⟨ht, hover⟩
      · exact .tail (ih t'.id.owner (howner ▸ hlt) ht' rfl) ⟨ht, hover⟩

/-- A call selects the nearest virtual declaration on the chain of the receiver's superclasses
that has the name and descriptor of the called method.  It overrides a public or protected
method.  In general it overrides the called method, directly or through others, if
redeclarations in other packages are of methods that are visible there. -/
theorem selects_nearest {vm vm' : Vm} (h : vm.Reachable) {m t : Method} {receiver : Value}
    {o : Object} {d : Class} (hm : vm.Calling m)
    (hd : vm.registry.classes[m.id.owner]? = some d) (hdeclared : m ∈ d.methods)
    (hstatic : m.isStatic = false) (hprivate : m.isPrivate = false)
    (ho : vm.heap.get? receiver.asRef = some o)
    (hsubclass : m.id.owner ∈ vm.registry.classes.chain o.classId)
    (hplain : vm.registry.classes.PlainTo o.classId m)
    (hselect : Exec.selectMethod m receiver vm = .ok t vm') :
    vm.registry.classes.nearestVirtual? o.classId m.name m.descriptor = some t ∧
      vm.registry.classes.Redeclares o.classId m t ∧
      (m.isVisible = true → t.overrides m = true) ∧
      (vm.registry.classes.OverridesThroughout o.classId m →
        Relation.TransGen (vm.registry.classes.OverridesOn o.classId m) m t) := by
  have hcoherent := h.sound.coherent
  obtain ⟨sites, hlookup, -⟩ := Exec.selectMethod_spec h.sound hm receiver
  obtain ⟨o', c, ho', hc, ht⟩ := Exec.found_of_lookUp (hlookup.symm.trans hselect)
  cases ho.symm.trans ho'
  have htvirtual := hcoherent.virtual hc _ _ _ ht
  have htkey := (hcoherent.indexed hc).hasKey_of_lookup? ht
  have hmvirtual : m.isVirtual = true := by
    obtain ⟨hname, -⟩ := Method.hasKey_iff.mp htkey
    rw [Method.isVirtual_iff, ← hname]
    exact ⟨hstatic, hprivate, (Method.isVirtual_iff.mp htvirtual).2.2⟩
  obtain ⟨n, k, e, hn, hk, hbelow, he, hne⟩ := Classes.nearestVirtual?_of_mem hsubclass hd
    hdeclared hmvirtual (Method.hasKey_iff.mpr ⟨rfl, rfl⟩)
  have hmem : n ∈ e.methods := List.mem_reverse.mp (List.mem_of_find?_eq_some hne)
  have hnopen : n.isOpen = false := by
    rw [Method.isOpen, (hcoherent.origin he).ofInterface hmem, hplain k e hk hbelow he,
      Bool.and_false]
  have htn : t = n := by
    have := hcoherent.lookup?_of_nearestVirtual? hc hn hnopen
    exact Option.some.inj (ht.symm.trans this)
  subst htn
  have hredeclares : vm.registry.classes.Redeclares o.classId m t :=
    ⟨⟨k, e, hk, hbelow, he, hmem⟩, htvirtual, htkey⟩
  exact ⟨hn, hredeclares, Method.overrides_of_visible htvirtual hprivate,
    fun hthroughout => hthroughout.chain hredeclares⟩

namespace HiddenMethod

def near : Method :=
  methodOf 2 0 "java/lang/Near" "hidden" "()I" 0 [] ⟨1, 1, #[0x06, 0xac], [], []⟩

def nearClass : Class where
  name := "java/lang/Near"
  flags := 0x0021
  super? := some 0
  interfaces := []
  sourceFile := ""
  fields := []
  methods := [near]
  vtable := ⟨#[near], [(⟨"hidden", "()I"⟩, 0)]⟩
  layout := #[]
  pool := ⟨#[none, some (.utf8 "java/lang/Near"), some (.classRef 1),
    some (.utf8 ClassFile.rootClassName), some (.classRef 3), some (.utf8 "hidden"),
    some (.utf8 "()I"), some (.utf8 "Code")]⟩
  array? := none

def withNear : Registry := (resolved.add nearClass .linked #[]).2

def nearby : Vm :=
  { calling with registry := withNear, heap := ⟨#[{ classId := 1 }, { classId := 2 }], []⟩ }

theorem load_near : load start.source [] "java/lang/Near" resolved = (.ok 2, withNear) := by
  have hfind : resolved.find? ClassFile.rootClassName = some 0 := by with_unfolding_all decide
  have hgather : gather (load start.source ["java/lang/Near"]) "java/lang/Near"
      [⟨.superclass, ClassFile.rootClassName⟩] resolved = (.ok [0], resolved) :=
    Registry.gather_cons (Registry.load_of_found hfind) (by decide) rfl
  exact Registry.load_of_gathered resolved nearClass (by with_unfolding_all decide) (by decide)
    (by decide) (by with_unfolding_all decide) hgather (by with_unfolding_all decide)

/-- What loading the class does to the machine. -/
theorem change_near : Change calling { calling with registry := withNear } := by
  have hregistry : (load calling.source [] "java/lang/Near" calling.registry).2 = withNear :=
    congrArg Prod.snd load_near
  exact hregistry ▸ .load calling "java/lang/Near"

theorem reachable_nearby : nearby.Reachable :=
  (reachable_calling.change change_near).change (.heap _ nearby.heap)

theorem calling_nearby : nearby.Calling hidden := by
  obtain ⟨f, below, hframes, hcalls⟩ := calling_hidden
  have hgrows : calling.registry.Grows withNear := grows_of_change change_near
  exact ⟨f, below, hframes, hcalls.of_grows reachable_calling.sound.descends hgrows⟩

theorem chain_nearby : nearby.registry.classes.chain 2 = [2, 0] := by
  with_unfolding_all decide

theorem redeclares_nearby {m : Method} (h : nearby.registry.classes.Redeclares 2 hidden m) :
    m = near ∨ m = hidden := by
  obtain ⟨k, c, hk, -, hc, hm⟩ := h.declared
  rw [chain_nearby] at hk
  rcases List.mem_cons.mp hk with rfl | hk
  · cases hc
    exact .inl (List.mem_singleton.mp hm)
  · cases List.mem_singleton.mp hk
    cases hc
    exact .inr (List.mem_singleton.mp hm)

theorem selects_nearest_near :
    nearby.Reachable ∧ nearby.Calling hidden ∧
      Exec.selectMethod hidden (.ref ⟨2⟩) nearby =
        .ok near { nearby with sites := [(site, ⟨[(2, near)], false, 0, 1⟩)] } ∧
      nearby.registry.classes.nearestVirtual? 2 "hidden" "()I" = some near ∧
      Relation.TransGen (nearby.registry.classes.OverridesOn 2 hidden) hidden near := by
  have hplain : nearby.registry.classes.PlainTo 2 hidden := by
    intro k c hk _ hc
    rw [chain_nearby] at hk
    rcases List.mem_cons.mp hk with rfl | hk
    · cases hc
      decide
    · cases List.mem_singleton.mp hk
      cases hc
      decide
  have hthroughout : nearby.registry.classes.OverridesThroughout 2 hidden := by
    intro m hm
    rcases redeclares_nearby hm with rfl | rfl <;> exact .inl (by decide +kernel)
  have hselect : Exec.selectMethod hidden (.ref ⟨2⟩) nearby =
      .ok near { nearby with sites := [(site, ⟨[(2, near)], false, 0, 1⟩)] } := rfl
  obtain ⟨hnearest, -, -, hoverrides⟩ := selects_nearest reachable_nearby calling_nearby
    (rfl : nearby.registry.classes[0]? = some root) (by decide) (by decide) (by decide)
    (rfl : nearby.heap.get? (Value.ref ⟨2⟩).asRef = some { classId := 2 }) (by decide +kernel)
    hplain hselect
  exact ⟨reachable_nearby, calling_nearby, hselect, hnearest, hoverrides hthroughout⟩

/-- A receiver of another package selects its own method, which overrides nothing. -/
theorem selects_unrelated :
    calling.Reachable ∧ calling.Calling hidden ∧
      calling.registry.classes[hidden.id.owner]? = some root ∧ hidden ∈ root.methods ∧
      root.isInterface = false ∧ hidden.isStatic = false ∧ hidden.isPrivate = false ∧
      calling.heap.get? ⟨1⟩ = some { classId := 1 } ∧
      hidden.id.owner ∈ calling.registry.classes.chain 1 ∧
      Exec.selectMethod hidden (.ref ⟨1⟩) calling = .ok other selected ∧ other ≠ hidden ∧
      ¬ Relation.TransGen (calling.registry.classes.OverridesOn 1 hidden) hidden other := by
  have hredeclares {m : Method} (h : calling.registry.classes.Redeclares 1 hidden m) :
      m = other ∨ m = call ∨ m = hidden := by
    obtain ⟨k, c, hk, -, hc, hm⟩ := h.declared
    have hchain : calling.registry.classes.chain 1 = [1, 0] := by decide +kernel
    rw [hchain] at hk
    rcases List.mem_cons.mp hk with rfl | hk
    · cases hc
      rcases List.mem_cons.mp hm with rfl | hm
      · exact .inl rfl
      · exact .inr (.inl (List.mem_singleton.mp hm))
    · cases List.mem_singleton.mp hk
      cases hc
      exact .inr (.inr (List.mem_singleton.mp hm))
  have honly {m : Method}
      (h : Relation.TransGen (calling.registry.classes.OverridesOn 1 hidden) hidden m) :
      m = hidden := by
    have hstep {m : Method} (h : calling.registry.classes.OverridesOn 1 hidden hidden m) :
        m = hidden := by
      obtain ⟨hm, hoverrides⟩ := h
      rcases hredeclares hm with rfl | rfl | rfl
      · exact absurd hoverrides (by decide +kernel)
      · exact absurd hoverrides (by decide +kernel)
      · rfl
    induction h with
    | single h => exact hstep h
    | tail _ h ih => exact hstep (ih ▸ h)
  exact ⟨reachable_calling, calling_hidden, rfl, by decide, by decide, by decide, by decide, rfl,
    by decide +kernel, selectMethod_hidden, by decide, fun h => absurd (honly h) (by decide)⟩

end HiddenMethod

end ClassEngine.Machine
