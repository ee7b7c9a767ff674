import ClassEngine.Machine.Linking
import Mathlib.Data.List.Find
import Mathlib.Logic.Relation

/-!
# Dispatch tables and their indexes

Linking changes a table in steps.  A step gives a method a slot of its own, to which the index
then leads, or puts it into the slot that the index has for its key.  So a slot keeps its key,
and the index leads from every key among the slots to the last slot that has it.
-/

namespace ClassEngine.Machine

namespace Method

variable {m : Method} {name descriptor : String}

theorem key_eq_iff : m.key = ⟨name, descriptor⟩ ↔ m.hasKey name descriptor = true := by
  simp [key, hasKey]

theorem key_inj {m' : Method} :
    m.key = m'.key ↔ m.name = m'.name ∧ m.descriptor = m'.descriptor := by
  simp [key]

/-- A method of a class overrides one of the same key. -/
structure OverriddenBy (old new : Method) : Prop where
  key : new.key = old.key
  isVirtual : new.isVirtual = true
  overrides : new.overrides old = true

/-- A default method stands in for one of the same key that an interface left abstract. -/
structure SuppliedBy (old new : Method) : Prop where
  key : new.key = old.key
  isVirtual : new.isVirtual = true
  concrete : new.isAbstract = false
  isAbstract : old.isAbstract = true
  ofInterface : old.ofInterface = true

end Method

namespace Classes

def methodsOf (cs : Classes) (ids : List ClassId) : List Method :=
  ids.flatMap fun i => ((cs[i]?).map (·.methods)).getD []

theorem exists_of_mem_methodsOf {cs : Classes} {ids : List ClassId} {m : Method}
    (h : m ∈ cs.methodsOf ids) : ∃ i ∈ ids, ∃ d, cs[i]? = some d ∧ m ∈ d.methods := by
  obtain ⟨i, hi, hm⟩ := List.mem_flatMap.mp h
  cases hd : cs[i]? with
  | none => simp [hd] at hm
  | some d => exact ⟨i, hi, d, hd, by simpa [hd] using hm⟩

end Classes

namespace VTable

variable {t t' : VTable} {m : Method} {name descriptor : String} {i : Nat}

def keyAt? (t : VTable) (i : Nat) : Option MethodKey := (t.slots[i]?).map (·.key)

structure IsLast (t : VTable) (key : MethodKey) (i : Nat) : Prop where
  keyed : t.keyAt? i = some key
  le : ∀ j, t.keyAt? j = some key → j ≤ i

/-- The index leads from the keys among the slots, and from no others, to the last slot of
each. -/
structure Indexed (t : VTable) : Prop where
  isLast : ∀ {name descriptor : String} {i : Nat}, t.slotOf? name descriptor = some i →
    t.IsLast ⟨name, descriptor⟩ i
  isSome : ∀ {name descriptor : String} {i : Nat}, t.keyAt? i = some ⟨name, descriptor⟩ →
    (t.slotOf? name descriptor).isSome = true

theorem indexed_empty : empty.Indexed where
  isLast := nofun
  isSome := nofun

theorem keyAt?_eq_some_iff {key : MethodKey} :
    t.keyAt? i = some key ↔ ∃ m, t.slots[i]? = some m ∧ m.key = key := by
  simp [keyAt?]

theorem Indexed.slot (ht : t.Indexed) (h : t.slotOf? name descriptor = some i) :
    ∃ m, t.slots[i]? = some m ∧ m.key = ⟨name, descriptor⟩ :=
  keyAt?_eq_some_iff.mp (ht.isLast h).keyed

theorem Indexed.isSome_iff (ht : t.Indexed) :
    (t.slotOf? name descriptor).isSome = true ↔
      ∃ m ∈ t.slots, m.name = name ∧ m.descriptor = descriptor := by
  constructor
  · intro h
    obtain ⟨i, hi⟩ := Option.isSome_iff_exists.mp h
    obtain ⟨m, hm, hkey⟩ := ht.slot hi
    cases hkey
    exact ⟨m, Array.mem_of_getElem? hm, rfl, rfl⟩
  · rintro ⟨m, hm, rfl, rfl⟩
    obtain ⟨i, hi⟩ := Array.getElem?_of_mem hm
    exact ht.isSome (keyAt?_eq_some_iff.mpr ⟨m, hi, rfl⟩)

/-! ## Steps -/

theorem slotOf?_add (t : VTable) (m : Method) (name descriptor : String) :
    (t.add m).slotOf? name descriptor =
      if m.hasKey name descriptor then some t.slots.size else t.slotOf? name descriptor := by
  unfold slotOf? add
  rw [List.find?_cons]
  by_cases hkey : m.key = ⟨name, descriptor⟩
  · simp [hkey, Method.key_eq_iff.mp hkey]
  · have hkey' : m.hasKey name descriptor = false := by simpa [Method.key_eq_iff] using hkey
    simp only [hkey, decide_false, List.find?_filter, hkey', Bool.false_eq_true, if_false]
    congr 1
    refine List.find?_congr fun e _ => ?_
    by_cases he : e.1 = ⟨name, descriptor⟩
    · simp [he, Ne.symm hkey]
    · simp [he]

theorem keyAt?_add (t : VTable) (m : Method) (i : Nat) :
    (t.add m).keyAt? i = if i = t.slots.size then some m.key else t.keyAt? i := by
  simp only [keyAt?, add, Array.getElem?_push]
  split <;> rfl

theorem keyAt?_set (h : t.keyAt? i = some m.key) (j : Nat) :
    (t.set i m).keyAt? j = t.keyAt? j := by
  obtain ⟨old, hold, hkey⟩ := keyAt?_eq_some_iff.mp h
  have hlt := (Array.getElem?_eq_some_iff.mp hold).1
  simp only [keyAt?, set, Array.getElem?_setIfInBounds]
  split
  · subst j
    rw [hold, Option.map_some, Option.map_some, hkey]
  · rfl

theorem lt_size_of_keyAt? {key : MethodKey} (h : t.keyAt? i = some key) : i < t.slots.size := by
  obtain ⟨m, hm, -⟩ := keyAt?_eq_some_iff.mp h
  exact (Array.getElem?_eq_some_iff.mp hm).1

theorem Indexed.add (ht : t.Indexed) (m : Method) : (t.add m).Indexed where
  isLast := by
    intro name descriptor i h
    rw [slotOf?_add] at h
    split at h
    · rename_i hkey
      cases h
      refine ⟨by rw [keyAt?_add, if_pos rfl, Method.key_eq_iff.mpr hkey], fun j hj => ?_⟩
      rw [keyAt?_add] at hj
      split at hj
      · exact Nat.le_of_eq ‹_›
      · exact Nat.le_of_lt (lt_size_of_keyAt? hj)
    · rename_i hkey
      obtain ⟨hkeyed, hle⟩ := ht.isLast h
      refine ⟨?_, fun j hj => hle j ?_⟩
      · rw [keyAt?_add, if_neg (Nat.ne_of_lt (lt_size_of_keyAt? hkeyed))]
        exact hkeyed
      · rw [keyAt?_add] at hj
        split at hj
        · exact absurd (Method.key_eq_iff.mp (Option.some.inj hj)) hkey
        · exact hj
  isSome := by
    intro name descriptor i h
    rw [slotOf?_add]
    rw [keyAt?_add] at h
    split
    · rfl
    · rename_i hkey
      split at h
      · exact absurd (Method.key_eq_iff.mp (Option.some.inj h)) hkey
      · exact ht.isSome h

theorem Indexed.set (ht : t.Indexed) (h : t.keyAt? i = some m.key) : (t.set i m).Indexed where
  isLast hslot := by
    obtain ⟨hkeyed, hle⟩ := ht.isLast hslot
    exact ⟨(keyAt?_set h _).trans hkeyed, fun j hj => hle j ((keyAt?_set h j).symm.trans hj)⟩
  isSome hkeyed := ht.isSome ((keyAt?_set h _).symm.trans hkeyed)

/-- What becomes of a table when a method is taken into it. -/
inductive Step (replaces : Method → Method → Prop) (t : VTable) (m : Method) : VTable → Prop
  | keep : Step replaces t m t
  | add : Step replaces t m (t.add m)
  | set {i : Nat} {old : Method} (holds : t.slots[i]? = some old) (key : m.key = old.key)
      (replaced : replaces old m) : Step replaces t m (t.set i m)

theorem declare_step (ht : t.Indexed) (m : Method) :
    Step Method.OverriddenBy t m (t.declare m) := by
  unfold declare
  split
  · rename_i hvirtual
    cases hslot : t.slotOf? m.name m.descriptor with
    | none => exact .add
    | some i =>
        obtain ⟨old, hold, hkey⟩ := ht.slot hslot
        dsimp only
        rw [hold, Option.any_some]
        split
        · exact .set hold hkey.symm ⟨hkey.symm, hvirtual, ‹_›⟩
        · exact .add
  · exact .keep

theorem inherit_step (ht : t.Indexed) (m : Method) :
    Step Method.SuppliedBy t m (t.inherit m) := by
  unfold inherit
  split
  · rename_i hvirtual
    cases hslot : t.slotOf? m.name m.descriptor with
    | none => exact .add
    | some i =>
        obtain ⟨old, hold, hkey⟩ := ht.slot hslot
        dsimp only
        rw [hold, Option.any_some]
        split
        · rename_i hopen
          simp only [Bool.and_eq_true, Bool.not_eq_true'] at hopen
          exact .set hold hkey.symm ⟨hkey.symm, hvirtual, hopen.1, hopen.2.1, hopen.2.2⟩
        · exact .keep
  · exact .keep

section

variable {replaces : Method → Method → Prop}

theorem Step.mono {replaces' : Method → Method → Prop}
    (h : ∀ old, replaces old m → replaces' old m) (hstep : Step replaces t m t') :
    Step replaces' t m t' := by
  cases hstep with
  | keep => exact .keep
  | add => exact .add
  | set hold hkey hreplaced => exact .set hold hkey (h _ hreplaced)

theorem Step.indexed (ht : t.Indexed) (hstep : Step replaces t m t') : t'.Indexed := by
  cases hstep with
  | keep => exact ht
  | add => exact ht.add m
  | set hold hkey _ => exact ht.set (keyAt?_eq_some_iff.mpr ⟨_, hold, hkey.symm⟩)

/-- Every slot of `t` is a slot of `t'`, and the method that it holds there comes from the one
that it holds in `t` by a chain of replacements. -/
def Develops (replaces : Method → Method → Prop) (t t' : VTable) : Prop :=
  ∀ (i : Nat) (old : Method), t.slots[i]? = some old →
    ∃ new, t'.slots[i]? = some new ∧ Relation.ReflTransGen replaces old new

theorem Develops.refl (t : VTable) : Develops replaces t t :=
  fun _ old hold => ⟨old, hold, .refl⟩

theorem Develops.trans {t₁ t₂ t₃ : VTable} (h₁₂ : Develops replaces t₁ t₂)
    (h₂₃ : Develops replaces t₂ t₃) : Develops replaces t₁ t₃ := by
  intro i old hold
  obtain ⟨mid, hmid, hfirst⟩ := h₁₂ i old hold
  obtain ⟨new, hnew, hsecond⟩ := h₂₃ i mid hmid
  exact ⟨new, hnew, hfirst.trans hsecond⟩

theorem Develops.size_le (h : Develops replaces t t') : t.slots.size ≤ t'.slots.size := by
  refine Nat.le_of_not_lt fun hlt => ?_
  obtain ⟨new, hnew, -⟩ := h _ _ (Array.getElem?_eq_getElem hlt)
  exact absurd (Array.getElem?_eq_some_iff.mp hnew).1 (Nat.lt_irrefl _)

theorem Step.develops (hstep : Step replaces t m t') : Develops replaces t t' := by
  cases hstep with
  | keep => exact .refl t
  | add =>
      intro i old hold
      have hlt := (Array.getElem?_eq_some_iff.mp hold).1
      refine ⟨old, ?_, .refl⟩
      rw [VTable.add, Array.getElem?_push, if_neg (Nat.ne_of_lt hlt)]
      exact hold
  | @set slot replaced hslot _ hreplaced =>
      intro i old hold
      have hlt := (Array.getElem?_eq_some_iff.mp hold).1
      by_cases hi : slot = i
      · subst hi
        cases hslot.symm.trans hold
        exact ⟨m, by simp [VTable.set, hlt], .single hreplaced⟩
      · refine ⟨old, ?_, .refl⟩
        rw [VTable.set, Array.getElem?_setIfInBounds, if_neg hi]
        exact hold

theorem foldl_step {take : VTable → Method → VTable} {methods : List Method}
    (htake : ∀ m ∈ methods, ∀ {t : VTable}, t.Indexed → Step replaces t m (take t m))
    (ht : t.Indexed) :
    (methods.foldl take t).Indexed ∧ Develops replaces t (methods.foldl take t) := by
  induction methods generalizing t with
  | nil => exact ⟨ht, .refl t⟩
  | cons m rest ih =>
      have hfirst := htake m List.mem_cons_self ht
      obtain ⟨hindexed, hdevelops⟩ :=
        ih (fun m' hm' => htake m' (List.mem_cons_of_mem m hm')) (hfirst.indexed ht)
      exact ⟨hindexed, hfirst.develops.trans hdevelops⟩

end

theorem Indexed.declare (ht : t.Indexed) (m : Method) : (t.declare m).Indexed :=
  (declare_step ht m).indexed ht

theorem Indexed.inherit (ht : t.Indexed) (m : Method) : (t.inherit m).Indexed :=
  (inherit_step ht m).indexed ht

theorem Indexed.foldl_declare (ht : t.Indexed) (methods : List Method) :
    (methods.foldl VTable.declare t).Indexed :=
  (foldl_step (fun m _ _ ht => declare_step ht m) ht).1

/-- What linking a class with these methods and superinterfaces may put in the place of a
method: one of the class that overrides it, or a default method of a superinterface. -/
inductive ReplacedBy (cs : Classes) (methods : List Method) (superinterfaces : List ClassId)
    (old new : Method) : Prop
  | own (declared : new ∈ methods) (overridden : old.OverriddenBy new)
  | default {i : ClassId} {d : Class} (reached : i ∈ superinterfaces) (found : cs[i]? = some d)
      (declared : new ∈ d.methods) (supplied : old.SuppliedBy new)

theorem ReplacedBy.key {cs : Classes} {methods : List Method} {superinterfaces : List ClassId}
    {old new : Method} (h : ReplacedBy cs methods superinterfaces old new) : new.key = old.key := by
  cases h with
  | own _ hoverridden => exact hoverridden.key
  | default _ _ _ hsupplied => exact hsupplied.key

theorem key_of_replacements {cs : Classes} {methods : List Method}
    {superinterfaces : List ClassId} {old new : Method}
    (h : Relation.ReflTransGen (ReplacedBy cs methods superinterfaces) old new) :
    new.key = old.key := by
  induction h with
  | refl => rfl
  | tail _ hlast ih => exact hlast.key.trans ih

theorem build_step (ht : t.Indexed) (cs : Classes) (methods : List Method)
    (superinterfaces : List ClassId) :
    (buildVTable cs t methods superinterfaces).Indexed ∧
      Develops (ReplacedBy cs methods superinterfaces) t
        (buildVTable cs t methods superinterfaces) := by
  have hown : (methods.foldl VTable.declare t).Indexed ∧
      Develops (ReplacedBy cs methods superinterfaces) t (methods.foldl VTable.declare t) :=
    foldl_step (fun m hm _ ht => (declare_step ht m).mono fun _ => .own hm) ht
  obtain ⟨hindexed, hdevelops⟩ := hown
  have hinherits (m : Method) (hm : m ∈ cs.methodsOf superinterfaces) {t : VTable}
      (ht : t.Indexed) : Step (ReplacedBy cs methods superinterfaces) t m (t.inherit m) := by
    obtain ⟨i, hi, d, hd, hm⟩ := Classes.exists_of_mem_methodsOf hm
    exact (inherit_step ht m).mono fun _ => .default hi hd hm
  obtain ⟨hindexed', hdevelops'⟩ := foldl_step hinherits hindexed
  exact ⟨hindexed', hdevelops.trans hdevelops'⟩

end VTable

end ClassEngine.Machine
