import ClassEngine.Machine.Registry

/-!
# Growth of a registry

A registry only grows: a class keeps its number, a name that failed keeps failing
with the same fault, and an outcome that was kept for a pool entry stays.  Loading
does even less, it leaves every status there is as it was.  The numbers inside a
well-formed registry point downwards, from a class to its superclass and its
component.
-/

namespace ClassEngine.Machine

/-- The outcome fits the use, and a class is one of the registry. -/
def Resolution.Sound (reg : Registry) (r : Resolution) : Prop :=
  match r.use, r.outcome with
  | _, .error _ => True
  | .classRef, .ok (.classRef id) => id < reg.classes.size
  | .field, .ok (.field _) => True
  | .method, .ok (.method _) => True
  | .interfaceMethod, .ok (.method _) => True
  | .literal, .ok (.value _) => True
  | _, .ok _ => False

def ClassStatus.Grows (s t : ClassStatus) : Prop :=
  s.resolutions.size = t.resolutions.size ∧
    ∀ {i : Nat} {r : Resolution}, s.resolutions[i]? = some (some r) →
      t.resolutions[i]? = some (some r)

theorem ClassStatus.Grows.refl (s : ClassStatus) : s.Grows s :=
  ⟨rfl, fun h => h⟩

theorem ClassStatus.Grows.trans {s t u : ClassStatus} (hst : s.Grows t) (htu : t.Grows u) :
    s.Grows u :=
  ⟨hst.1.trans htu.1, fun h => htu.2 (hst.2 h)⟩

def Class.firstState (c : Class) : ClassState := if c.isArray then .initialized else .linked

namespace Registry

/-! ## Look-up by name -/

theorem find?_eq_some_iff {reg : Registry} {name : String} {id : ClassId} :
    reg.find? name = some id ↔
      (∃ c, reg.classes[id]? = some c ∧ c.name = name) ∧
        ∀ j < id, ∀ c, reg.classes[j]? = some c → c.name ≠ name := by
  rw [find?, Array.findIdx?_eq_some_iff_getElem]
  constructor
  · rintro ⟨hid, hname, hbefore⟩
    refine ⟨⟨reg.classes[id], Array.getElem?_eq_getElem hid, by simpa using hname⟩, ?_⟩
    intro j hj c hc
    obtain ⟨hlt, rfl⟩ := Array.getElem?_eq_some_iff.mp hc
    simpa using hbefore j hj
  · rintro ⟨⟨c, hc, hname⟩, hbefore⟩
    obtain ⟨hid, rfl⟩ := Array.getElem?_eq_some_iff.mp hc
    refine ⟨hid, by simpa using hname, ?_⟩
    intro j hj
    have hlt : j < reg.classes.size := Nat.lt_trans hj hid
    simpa using hbefore j hj _ (Array.getElem?_eq_getElem hlt)

theorem find?_lt {reg : Registry} {name : String} {id : ClassId}
    (h : reg.find? name = some id) : id < reg.classes.size := by
  obtain ⟨⟨c, hc, -⟩, -⟩ := find?_eq_some_iff.mp h
  exact (Array.getElem?_eq_some_iff.mp hc).1

theorem failure?_addFailure_self (reg : Registry) (name : String) (e : Fault) :
    (reg.addFailure name e).failure? name = some e := by
  simp [failure?, addFailure]

theorem failure?_addFailure_of_ne (reg : Registry) {name other : String} (e : Fault)
    (h : other ≠ name) : (reg.addFailure name e).failure? other = reg.failure? other := by
  simp [failure?, addFailure, Ne.symm h]

theorem find?_add_self {reg : Registry} {c : Class} {state : ClassState} {statics : Array Value}
    (h : reg.find? c.name = none) :
    (reg.add c state statics).2.find? c.name = some reg.classes.size := by
  rw [find?] at h
  simp [find?, add, Array.findIdx?_push, h]

theorem find?_add_of_ne {reg : Registry} {c : Class} {state : ClassState}
    {statics : Array Value} {name : String} (h : name ≠ c.name) :
    (reg.add c state statics).2.find? name = reg.find? name := by
  simp [find?, add, Array.findIdx?_push, Ne.symm h]

theorem status?_modifyStatus (reg : Registry) (id id' : ClassId)
    (f : ClassStatus → ClassStatus) :
    (reg.modifyStatus id f).status? id' =
      if id = id' then (reg.status? id').map f else reg.status? id' := by
  simp [status?, modifyStatus, Array.getElem?_modify]

theorem status?_modifyStatus_cases {reg : Registry} {id id' : ClassId}
    {f : ClassStatus → ClassStatus} {s : ClassStatus}
    (h : (reg.modifyStatus id f).status? id' = some s) :
    (∃ t, reg.status? id = some t ∧ id' = id ∧ s = f t) ∨ reg.status? id' = some s := by
  rw [status?_modifyStatus] at h
  split at h
  · rename_i hid
    subst hid
    obtain ⟨t, ht, rfl⟩ := Option.map_eq_some_iff.mp h
    exact .inl ⟨t, ht, rfl, rfl⟩
  · exact .inr h

/-! ## Well-formed registries -/

structure WellFormed (reg : Registry) : Prop where
  aligned : reg.statuses.size = reg.classes.size
  supers : ∀ {id : ClassId} {c : Class} {s : ClassId},
    reg.classes[id]? = some c → c.super? = some s → s < id
  components : ∀ {id : ClassId} {c : Class} {k : ClassId},
    reg.classes[id]? = some c → c.component? = some k → k < id
  owners : ∀ {id : ClassId} {c : Class} {m : Method},
    reg.classes[id]? = some c → m ∈ c.methods → m.id.owner = id
  kept : ∀ {id : ClassId} {s : ClassStatus} {i : Nat} {r : Resolution},
    reg.status? id = some s → s.resolutions[i]? = some (some r) → r.Sound reg

theorem wellFormed_empty : WellFormed {} := by
  constructor <;> simp [status?]

theorem WellFormed.status_of_lt {reg : Registry} (h : reg.WellFormed) {id : ClassId}
    (hid : id < reg.classes.size) : ∃ s, reg.status? id = some s :=
  ⟨_, Array.getElem?_eq_getElem (h.aligned ▸ hid)⟩

/-! ## Extension by loading -/

/-- What loading may do to a registry: classes and failures are added, and nothing
that is there changes. -/
structure Extends (reg reg' : Registry) : Prop where
  classes : ∀ {id : ClassId} {c : Class}, reg.classes[id]? = some c → reg'.classes[id]? = some c
  statuses : ∀ {id : ClassId} {s : ClassStatus},
    reg.status? id = some s → reg'.status? id = some s
  failures : ∀ {name : String} {e : Fault}, reg.find? name = none → reg.failure? name = some e →
    reg'.find? name = none ∧ reg'.failure? name = some e
  aligned : reg.statuses.size = reg.classes.size → reg'.statuses.size = reg'.classes.size
  fresh : ∀ {id : ClassId} {s : ClassStatus}, reg.statuses.size = reg.classes.size →
    reg.status? id = none → reg'.status? id = some s →
    ∃ c, reg'.classes[id]? = some c ∧ s.state = c.firstState

theorem Extends.refl (reg : Registry) : reg.Extends reg where
  classes h := h
  statuses h := h
  failures hn he := ⟨hn, he⟩
  aligned h := h
  fresh _ hnone hsome := by simp [hnone] at hsome

theorem Extends.trans {reg₁ reg₂ reg₃ : Registry} (h₁₂ : reg₁.Extends reg₂)
    (h₂₃ : reg₂.Extends reg₃) : reg₁.Extends reg₃ where
  classes h := h₂₃.classes (h₁₂.classes h)
  statuses h := h₂₃.statuses (h₁₂.statuses h)
  failures hn he :=
    let ⟨hn', he'⟩ := h₁₂.failures hn he
    h₂₃.failures hn' he'
  aligned h := h₂₃.aligned (h₁₂.aligned h)
  fresh := by
    intro id s ha hnone hsome
    cases hmid : reg₂.status? id with
    | none => exact h₂₃.fresh (h₁₂.aligned ha) hmid hsome
    | some t =>
        have hst : t = s := by
          rw [h₂₃.statuses hmid] at hsome
          exact Option.some.inj hsome
        subst hst
        obtain ⟨c, hc, hstate⟩ := h₁₂.fresh ha hnone hmid
        exact ⟨c, h₂₃.classes hc, hstate⟩

theorem Extends.size_le {reg reg' : Registry} (h : reg.Extends reg') :
    reg.classes.size ≤ reg'.classes.size := by
  apply Nat.le_of_not_lt
  intro hlt
  have hc := h.classes (Array.getElem?_eq_getElem hlt)
  exact Nat.lt_irrefl _ (Array.getElem?_eq_some_iff.mp hc).1

/-! ## Growth -/

/-- What any operation may do to a registry, apart from the states and the static
variables of its classes. -/
structure Grows (reg reg' : Registry) : Prop where
  classes : ∀ {id : ClassId} {c : Class}, reg.classes[id]? = some c → reg'.classes[id]? = some c
  statuses : ∀ {id : ClassId} {s : ClassStatus}, reg.status? id = some s →
    ∃ s', reg'.status? id = some s' ∧ s.Grows s'
  failures : ∀ {name : String} {e : Fault}, reg.find? name = none → reg.failure? name = some e →
    reg'.find? name = none ∧ reg'.failure? name = some e

theorem Extends.grows {reg reg' : Registry} (h : reg.Extends reg') : reg.Grows reg' where
  classes := h.classes
  statuses hs := ⟨_, h.statuses hs, .refl _⟩
  failures := h.failures

theorem Grows.refl (reg : Registry) : reg.Grows reg :=
  (Extends.refl reg).grows

theorem Grows.trans {reg₁ reg₂ reg₃ : Registry} (h₁₂ : reg₁.Grows reg₂)
    (h₂₃ : reg₂.Grows reg₃) : reg₁.Grows reg₃ where
  classes h := h₂₃.classes (h₁₂.classes h)
  statuses hs :=
    let ⟨_, hs', hg'⟩ := h₁₂.statuses hs
    let ⟨_, hs'', hg''⟩ := h₂₃.statuses hs'
    ⟨_, hs'', hg'.trans hg''⟩
  failures hn he :=
    let ⟨hn', he'⟩ := h₁₂.failures hn he
    h₂₃.failures hn' he'

theorem Grows.lt {reg reg' : Registry} (h : reg.Grows reg') {id : ClassId}
    (hid : id < reg.classes.size) : id < reg'.classes.size :=
  (Array.getElem?_eq_some_iff.mp (h.classes (Array.getElem?_eq_getElem hid))).1

theorem Grows.find? {reg reg' : Registry} (h : reg.Grows reg') {name : String} {id : ClassId}
    (hid : reg.find? name = some id) : reg'.find? name = some id := by
  have hlt := find?_lt hid
  obtain ⟨⟨c, hc, hname⟩, hbefore⟩ := find?_eq_some_iff.mp hid
  refine find?_eq_some_iff.mpr ⟨⟨c, h.classes hc, hname⟩, ?_⟩
  intro j hj c' hc'
  have hjlt : j < reg.classes.size := Nat.lt_trans hj hlt
  have hold := Array.getElem?_eq_getElem hjlt
  have hsame : reg.classes[j] = c' := by
    rw [h.classes hold] at hc'
    exact Option.some.inj hc'
  exact hsame ▸ hbefore j hj _ hold

theorem grows_modifyStatus (reg : Registry) (id : ClassId) (f : ClassStatus → ClassStatus)
    (h : ∀ s, reg.status? id = some s → s.Grows (f s)) :
    reg.Grows (reg.modifyStatus id f) where
  classes hc := hc
  failures hn he := ⟨hn, he⟩
  statuses := by
    intro j s hs
    by_cases hj : id = j
    · subst hj
      exact ⟨f s, by rw [status?_modifyStatus, if_pos rfl, hs, Option.map_some], h s hs⟩
    · exact ⟨s, by rw [status?_modifyStatus, if_neg hj, hs], .refl s⟩

theorem wellFormed_modifyStatus {reg : Registry} (h : reg.WellFormed) (id : ClassId)
    (f : ClassStatus → ClassStatus)
    (hf : ∀ s, reg.status? id = some s → ∀ (i : Nat) (r : Resolution),
      (f s).resolutions[i]? = some (some r) → r.Sound reg) :
    (reg.modifyStatus id f).WellFormed where
  aligned := by simp [modifyStatus, h.aligned]
  supers hc hs := h.supers hc hs
  components hc hk := h.components hc hk
  owners hc hm := h.owners hc hm
  kept := by
    intro j s i r hs hr
    have hsound : r.Sound reg := by
      rcases status?_modifyStatus_cases hs with ⟨t, ht, rfl, rfl⟩ | hs
      · exact hf t ht i r hr
      · exact h.kept hs hr
    exact hsound

end Registry

end ClassEngine.Machine
