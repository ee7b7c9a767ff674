import ClassEngine.Proofs.Machine.Coherence
import Mathlib.Logic.Relation

/-!
# Which classes can be loaded

Whether a name can be loaded, and with which kind of fault it fails otherwise, is a
matter of the source alone.  A name fails for itself, or it passes on the fault of its
first requirement that fails, or it waits for itself.  Loading reports just this, whatever
was loaded before: the names under way wait for each other in a chain, so one that is met
again waits for itself.
-/

namespace ClassEngine.Machine

open Search (Source)

/-! ## Verdicts of the source -/

def Role.bars (flags : UInt16) (isArray : Bool) : Role → Bool
  | .superclass =>
    ClassFile.Access.has flags ClassFile.Access.isInterface ||
      ClassFile.Access.has flags ClassFile.Access.isFinal || isArray
  | .superinterface => !ClassFile.Access.has flags ClassFile.Access.isInterface
  | .part => false

def classFlags (src : Source) (name : String) : UInt16 :=
  if isArrayName name then ClassFile.Access.isPublic ||| ClassFile.Access.isFinal
  else
    match readClass src name with
    | .ok file => file.flags
    | .error _ => 0

def Need.Barred (src : Source) (need : Need) : Prop :=
  need.role.bars (classFlags src need.name) (isArrayName need.name) = true

def memberFault? (src : Source) (name : String) : Option Fault :=
  if isArrayName name then none
  else
    match readClass src name with
    | .error _ => none
    | .ok file =>
      match fieldTypes file, methodTypes file with
      | .error e, _ | _, .error e => some e
      | .ok _, .ok _ => none

inductive Loadable (src : Source) : String → Prop
  | intro {name : String} {needs : List Need} (hneeds : requirements src name = .ok needs)
      (hmembers : memberFault? src name = none)
      (hloadable : ∀ need ∈ needs, Loadable src need.name)
      (hroles : ∀ need ∈ needs, ¬ need.Barred src) : Loadable src name

structure Need.Ready (src : Source) (need : Need) : Prop where
  loadable : Loadable src need.name
  admitted : ¬ need.Barred src

/-- A name comes to a requirement when it is loaded: what it requires before is ready. -/
def Reaches (src : Source) (name : String) (need : Need) : Prop :=
  ∃ before after, requirements src name = .ok (before ++ need :: after) ∧
    ∀ b ∈ before, b.Ready src

def Blocks (src : Source) (other name : String) : Prop :=
  ∃ need, Reaches src name need ∧ need.name = other

inductive Fails (src : Source) : String → Category → Prop
  | unavailable {name : String} {e : Fault} {k : Category}
      (hneeds : requirements src name = .error e) (hk : e.belongs k = true) : Fails src name k
  | members {name : String} {needs : List Need} (hneeds : requirements src name = .ok needs)
      (hready : ∀ need ∈ needs, need.Ready src) (hmembers : memberFault? src name ≠ none) :
      Fails src name .linkage
  | barred {name : String} {need : Need} (hreaches : Reaches src name need)
      (hloadable : Loadable src need.name) (hbarred : need.Barred src) : Fails src name .linkage
  | cause {name : String} {need : Need} {k : Category} (hreaches : Reaches src name need)
      (hcause : Fails src need.name k) : Fails src name k
  | circular {name : String} (hcycle : Relation.TransGen (Blocks src) name name) :
      Fails src name .linkage

variable {src : Source} {name other : String} {need need' : Need} {k k' : Category}

theorem Reaches.mem {needs : List Need} (h : Reaches src name need)
    (hneeds : requirements src name = .ok needs) : need ∈ needs := by
  obtain ⟨before, after, hneeds', -⟩ := h
  rw [hneeds] at hneeds'
  cases hneeds'
  simp

theorem Reaches.needs_ne_error {e : Fault} (h : Reaches src name need) :
    requirements src name ≠ .error e := by
  obtain ⟨before, after, hneeds, -⟩ := h
  rw [hneeds]
  nofun

theorem not_loadable_of_cycle (hcycle : Relation.TransGen (Blocks src) name name) :
    ¬ Loadable src name := by
  intro hloadable
  induction hloadable with
  | intro hneeds _ _ _ ih =>
      obtain ⟨m, hpath, need, hreaches, rfl⟩ := Relation.TransGen.tail'_iff.mp hcycle
      -- The last name before the end of the cycle is on a cycle itself.
      exact ih need (hreaches.mem hneeds)
        (Relation.TransGen.head' ⟨need, hreaches, rfl⟩ hpath)

theorem not_loadable_of_fails (h : Fails src name k) : ¬ Loadable src name := by
  induction h with
  | unavailable hneeds _ =>
      rintro ⟨hneeds', _, _, _⟩
      rw [hneeds] at hneeds'
      cases hneeds'
  | members _ _ hmembers =>
      rintro ⟨_, hmembers', _, _⟩
      exact hmembers hmembers'
  | barred hreaches _ hbarred =>
      rintro ⟨hneeds, _, _, hroles⟩
      exact hroles _ (hreaches.mem hneeds) hbarred
  | cause hreaches _ ih =>
      rintro ⟨hneeds, _, hloadable, _⟩
      exact ih (hloadable _ (hreaches.mem hneeds))
  | circular hcycle => exact not_loadable_of_cycle hcycle

/-! ## Verdicts are unique -/

theorem first_unique {α : Type} {p : α → Prop} {before before' after after' : List α} {a a' : α}
    (h : before ++ a :: after = before' ++ a' :: after') (hbefore : ∀ b ∈ before, p b)
    (hbefore' : ∀ b ∈ before', p b) (ha : ¬ p a) (ha' : ¬ p a') : a = a' := by
  induction before generalizing before' with
  | nil =>
      cases before' with
      | nil => exact (List.cons.inj h).1
      | cons b _ => exact absurd (hbefore' a ((List.cons.inj h).1 ▸ List.mem_cons_self)) ha
  | cons b before ih =>
      cases before' with
      | nil => exact absurd (hbefore a' ((List.cons.inj h).1 ▸ List.mem_cons_self)) ha'
      | cons b' before' =>
          exact ih (List.cons.inj h).2 (fun x hx => hbefore x (List.mem_cons_of_mem _ hx))
            fun x hx => hbefore' x (List.mem_cons_of_mem _ hx)

/-- At most one requirement is reached and not ready. -/
theorem Reaches.unique (h : Reaches src name need) (h' : Reaches src name need')
    (hneed : ¬ need.Ready src) (hneed' : ¬ need'.Ready src) : need = need' := by
  obtain ⟨before, after, hneeds, hbefore⟩ := h
  obtain ⟨before', after', hneeds', hbefore'⟩ := h'
  rw [hneeds] at hneeds'
  exact first_unique (Except.ok.inj hneeds') hbefore hbefore' hneed hneed'

theorem linkage_of_cycle (h : Fails src name k)
    (hcycle : Relation.TransGen (Blocks src) name name) : k = .linkage := by
  induction h with
  | unavailable hneeds _ =>
      obtain ⟨m, -, need, hreaches, -⟩ := Relation.TransGen.tail'_iff.mp hcycle
      exact absurd hneeds hreaches.needs_ne_error
  | members | barred | circular => rfl
  | cause hreaches hcause ih =>
      obtain ⟨m, hpath, need', hreaches', rfl⟩ := Relation.TransGen.tail'_iff.mp hcycle
      have hcycle' := Relation.TransGen.head' ⟨need', hreaches', rfl⟩ hpath
      have hneed := hreaches.unique hreaches'
        (fun h => not_loadable_of_fails hcause h.loadable)
        fun h => not_loadable_of_cycle hcycle' h.loadable
      exact ih (hneed ▸ hcycle')

theorem belongs_requirements {e : Fault} (h : requirements src name = .error e) :
    ∃ k, (k = .classNotFound ∨ k = .linkage) ∧ ∀ c, e.belongs c = decide (c = k) := by
  unfold requirements at h
  split at h
  · split at h <;> cases h
    exact ⟨.classNotFound, .inl rfl, fun c => rfl⟩
  · unfold readClass at h
    split at h
    · cases h
      exact ⟨.classNotFound, .inl rfl, fun c => rfl⟩
    · cases h
      exact ⟨.linkage, .inr rfl, fun c => rfl⟩
    · split at h
      · cases h
        exact ⟨.linkage, .inr rfl, fun c => rfl⟩
      · split at h <;> cases h
        exact ⟨.classNotFound, .inl rfl, fun c => rfl⟩

theorem Fails.kind_unique (h : Fails src name k) (h' : Fails src name k') : k = k' := by
  induction h generalizing k' with
  | unavailable hneeds hk =>
      obtain ⟨kind, -, hbelongs⟩ := belongs_requirements hneeds
      cases h' with
      | unavailable hneeds' hk' =>
          rw [hneeds] at hneeds'
          cases hneeds'
          rw [hbelongs, decide_eq_true_eq] at hk hk'
          exact hk.trans hk'.symm
      | members hneeds' => rw [hneeds] at hneeds'; cases hneeds'
      | barred hreaches | cause hreaches => exact absurd hneeds hreaches.needs_ne_error
      | circular hcycle => exact linkage_of_cycle (.unavailable hneeds hk) hcycle
  | members hneeds hready hmembers =>
      cases h' with
      | unavailable hneeds' => rw [hneeds] at hneeds'; cases hneeds'
      | members | barred | circular => rfl
      | cause hreaches hcause =>
          exact absurd (hready _ (hreaches.mem hneeds)).loadable (not_loadable_of_fails hcause)
  | barred hreaches hloadable hbarred =>
      cases h' with
      | unavailable hneeds => exact absurd hneeds hreaches.needs_ne_error
      | members | barred | circular => rfl
      | cause hreaches' hcause =>
          have hneed := hreaches.unique hreaches' (fun h => h.admitted hbarred)
            fun h => not_loadable_of_fails hcause h.loadable
          exact absurd (hneed ▸ hloadable) (not_loadable_of_fails hcause)
  | cause hreaches hcause ih =>
      have hneed {need' : Need} (hreaches' : Reaches src _ need') (h' : ¬ need'.Ready src) :=
        hreaches.unique hreaches' (fun h => not_loadable_of_fails hcause h.loadable) h'
      cases h' with
      | unavailable hneeds => exact absurd hneeds hreaches.needs_ne_error
      | members hneeds hready =>
          exact absurd (hready _ (hreaches.mem hneeds)).loadable (not_loadable_of_fails hcause)
      | barred hreaches' hloadable hbarred =>
          rw [← hneed hreaches' fun h => h.admitted hbarred] at hloadable
          exact absurd hloadable (not_loadable_of_fails hcause)
      | cause hreaches' hcause' =>
          have heq := hneed hreaches' fun h => not_loadable_of_fails hcause' h.loadable
          exact ih (heq ▸ hcause')
      | circular hcycle => exact linkage_of_cycle (.cause hreaches hcause) hcycle
  | circular hcycle => exact (linkage_of_cycle h' hcycle).symm

/-! ## Classes that were loaded -/

theorem belongs_memberFault {e : Fault} (h : memberFault? src name = some e) (c : Category) :
    e.belongs c = decide (c = .linkage) := by
  unfold memberFault? at h
  split at h
  · cases h
  · split at h
    · cases h
    · split at h
      · rename_i hfields
        cases h
        obtain ⟨f, -, hf⟩ := mapM_eq_error hfields
        split at hf <;> cases hf
        rfl
      · rename_i hmethods _
        cases h
        obtain ⟨m, -, hm⟩ := mapM_eq_error hmethods
        split at hm <;> cases hm
        rfl
      · cases h

variable {cs : Classes} {id : ClassId} {ids : List ClassId} {c : Class}

theorem memberFault?_of_assemble {statics : Array Value}
    (h : assemble src cs id name ids = .ok (c, statics)) : memberFault? src name = none := by
  unfold memberFault?
  cases harray : isArrayName name with
  | true => rfl
  | false =>
      obtain ⟨file, fields, methods, hread, hfields, hmethods, -⟩ := assemble_file harray h
      simp [hread, hfields, hmethods]

theorem memberFault?_of_assemble_error {needs : List Need} {e : Fault}
    (hneeds : requirements src name = .ok needs) (hids : needs.length = ids.length)
    (h : assemble src cs id name ids = .error e) : memberFault? src name = some e := by
  unfold memberFault?
  cases harray : isArrayName name with
  | true =>
      simp only [assemble, harray, if_true] at h
      simp only [requirements, harray, if_true] at hneeds
      cases helement : elementType? name with
      | none => simp [helement] at hneeds
      | some element =>
          simp only [helement, Except.ok.injEq] at hneeds h
          subst hneeds
          cases ids with
          | nil => simp at hids
          | cons root rest => cases h
  | false =>
      simp only [assemble, harray, Bool.false_eq_true, if_false] at h
      simp only [requirements, harray, Bool.false_eq_true, if_false] at hneeds
      cases hread : readClass src name with
      | error e' => simp [hread, Except.map] at hneeds
      | ok file =>
          simp only [hread] at h
          simp only [Bool.false_eq_true, if_false]
          split at h
          · cases h
            simp [*]
          · cases h
            simp [*]
          · cases h

theorem flags_of_assemble {statics : Array Value}
    (h : assemble src cs id name ids = .ok (c, statics)) : c.flags = classFlags src name := by
  unfold classFlags
  cases harray : isArrayName name with
  | true =>
      obtain ⟨element, root, rest, -, -, rfl⟩ := assemble_array harray h
      rfl
  | false =>
      obtain ⟨file, fields, methods, hread, -, -, rfl⟩ := assemble_file harray h
      simp only [hread]
      rfl

theorem Origin.barred_iff (h : Origin src cs id c) (className : String) (role : Role) :
    (Need.mk role c.name).Barred src ↔ role.objection? className c ≠ none := by
  obtain ⟨needs, ids, statics, -, -, hassemble⟩ := h
  unfold Need.Barred
  rw [← flags_of_assemble hassemble, ← isArray_of_assemble hassemble]
  cases role with
  | superclass =>
      show (c.isInterface || c.isFinal || c.isArray) = true ↔ _
      simp only [Role.objection?]
      cases c.isInterface || c.isFinal || c.isArray <;> simp
  | superinterface =>
      show (!c.isInterface) = true ↔ _
      simp only [Role.objection?]
      cases c.isInterface <;> simp
  | part => simp [Role.bars, Role.objection?]

theorem fills_of_mem {className : String} {needs : List Need}
    (h : List.Forall₂ (Fills cs id className) needs ids) (hneed : need ∈ needs) :
    ∃ k, Fills cs id className need k := by
  induction h with
  | nil => cases hneed
  | cons hfirst _ ih =>
      rcases List.mem_cons.mp hneed with rfl | hneed
      · exact ⟨_, hfirst⟩
      · exact ih hneed

/-! ## What loading reports -/

/-- The fault is of the kind that the name fails with. -/
def Verdict (src : Source) (name : String) (e : Fault) : Prop :=
  ∃ k, (k = .classNotFound ∨ k = .linkage) ∧ Fails src name k ∧
    ∀ c, e.belongs c = decide (c = k)

theorem Verdict.cause {e : Fault} {role : Role} (hreaches : Reaches src name need)
    (h : Verdict src need.name e) : Verdict src name (role.pass name e) := by
  obtain ⟨k, hkind, hfails, hbelongs⟩ := h
  refine ⟨k, hkind, .cause hreaches hfails, fun c => ?_⟩
  cases role <;> exact hbelongs c

theorem Verdict.linkage {e : Fault} (hfails : Fails src name .linkage)
    (h : ∀ c, e.belongs c = decide (c = .linkage)) : Verdict src name e :=
  ⟨.linkage, .inr rfl, hfails, h⟩

theorem belongs_objection {className : String} {role : Role} {e : Fault}
    (h : role.objection? className c = some e) (k : Category) :
    e.belongs k = decide (k = .linkage) := by
  unfold Role.objection? at h
  cases role with
  | superclass =>
      dsimp only at h
      split at h <;> cases h
      rfl
  | superinterface =>
      dsimp only at h
      split at h <;> cases h
      rfl
  | part => cases h

theorem transGen_of_isChain {α : Type} {r : α → α → Prop} {a b : α} {l : List α}
    (h : List.IsChain r (a :: l)) (hb : b ∈ l) : Relation.TransGen r a b := by
  induction l generalizing a with
  | nil => cases hb
  | cons c rest ih =>
      obtain ⟨hac, hrest⟩ := List.isChain_cons_cons.mp h
      rcases List.mem_cons.mp hb with rfl | hb
      · exact .single hac
      · exact .head hac (ih hrest hb)

/-- A name that waits for a requirement goes before the names that wait for it. -/
theorem Reaches.isChain {underWay : List String} (h : Reaches src name need)
    (hchain : List.IsChain (Blocks src) (name :: underWay)) :
    List.IsChain (Blocks src) (need.name :: name :: underWay) :=
  .cons_cons ⟨need, h, rfl⟩ hchain

namespace Registry

variable {reg : Registry} {underWay : List String}

theorem Coherent.loadable (h : reg.Coherent src) (hc : reg.classes[id]? = some c) :
    Loadable src c.name := by
  induction id using Nat.strongRecOn generalizing c with
  | ind id ih =>
      obtain ⟨needs, ids, statics, hneeds, hfills, hassemble⟩ := h.origin hc
      refine .intro hneeds (memberFault?_of_assemble hassemble) (fun need hneed => ?_)
        fun need hneed hbarred => ?_
      · obtain ⟨k, hk, c', hc', hname, -⟩ := fills_of_mem hfills hneed
        exact hname ▸ ih k hk hc'
      · obtain ⟨k, hk, c', hc', hname, hobjection⟩ := fills_of_mem hfills hneed
        have hbarred' : (Need.mk need.role c'.name).Barred src := hname ▸ hbarred
        exact ((h.origin hc').barred_iff c.name need.role).mp hbarred' hobjection

/-- The faults that are remembered are those of the source. -/
def Honest (src : Source) (reg : Registry) : Prop :=
  ∀ name e, reg.failure? name = some e → Verdict src name e

theorem Honest.addFailure (h : Honest src reg) {e : Fault} (he : Verdict src name e) :
    Honest src (reg.addFailure name e) := by
  intro name' e' he'
  by_cases hname : name' = name
  · subst hname
    rw [failure?_addFailure_self] at he'
    cases he'
    exact he
  · rw [failure?_addFailure_of_ne reg e hname] at he'
    exact h name' e' he'

/-- Loading a name for which the names under way wait reports what the source says. -/
def Reports (src : Source) (underWay : List String) (name : String) (reg : Registry)
    (result : Except Fault ClassId × Registry) : Prop :=
  List.IsChain (Blocks src) (name :: underWay) → reg.Coherent src → Honest src reg →
    Honest src result.2 ∧ ∀ e, result.1 = .error e → Verdict src name e

/-- A name that has been loaded is loadable, and its class tells whether it is barred. -/
theorem Coherent.load_ok {reg' : Registry} (h : reg.Coherent src) (className : String)
    (hload : load src underWay need.name reg = (.ok id, reg')) : Loadable src need.name ∧
      (need.Barred src ↔
        (reg'.classes[id]?).bind (need.role.objection? className ·) ≠ none) := by
  have hloads := load_loads src underWay need.name reg
  have hcoherent := (load_keeps src underWay need.name reg).coherent h
  rw [hload] at hloads hcoherent
  obtain ⟨role, name⟩ := need
  obtain ⟨⟨c, hc, rfl⟩, -⟩ := find?_eq_some_iff.mp (hloads.found rfl)
  refine ⟨hcoherent.loadable hc, ?_⟩
  dsimp only at hc ⊢
  rw [hc, Option.bind_some]
  exact (hcoherent.origin hc).barred_iff className role

theorem gather_reports {before rest : List Need}
    (hneeds : requirements src name = .ok (before ++ rest)) (hbefore : ∀ b ∈ before, b.Ready src)
    (hload : ∀ need ∈ before ++ rest, ∀ reg, Reports src (name :: underWay) need.name reg
      (load src (name :: underWay) need.name reg))
    (hchain : List.IsChain (Blocks src) (name :: underWay)) (hcoherent : reg.Coherent src)
    (hhonest : Honest src reg) :
    let result := gather (load src (name :: underWay)) name rest reg
    Honest src result.2 ∧ (∀ e, result.1 = .error e → Verdict src name e) ∧
      ∀ ids, result.1 = .ok ids → ∀ need ∈ before ++ rest, need.Ready src := by
  fun_induction gather (load src (name :: underWay)) name rest reg generalizing before with
  | case1 reg =>
      refine ⟨hhonest, ?_, fun _ _ need hneed => hbefore need (by simpa using hneed)⟩
      rintro _ ⟨⟩
  | case2 need rest reg e reg₁ hload₁ =>
      have hreaches : Reaches src name need := ⟨before, rest, hneeds, hbefore⟩
      obtain ⟨hhonest₁, herror⟩ :=
        hload need (by simp) reg (hreaches.isChain hchain) hcoherent hhonest
      rw [hload₁] at hhonest₁ herror
      refine ⟨hhonest₁, ?_, ?_⟩
      · rintro _ ⟨⟩
        exact (herror e rfl).cause hreaches
      · rintro _ ⟨⟩
  | case3 need rest reg k reg₁ hload₁ e hobjection =>
      have hreaches : Reaches src name need := ⟨before, rest, hneeds, hbefore⟩
      obtain ⟨hhonest₁, -⟩ := hload need (by simp) reg (hreaches.isChain hchain) hcoherent hhonest
      obtain ⟨hloadable, hbarred⟩ := hcoherent.load_ok name hload₁
      rw [hload₁] at hhonest₁
      obtain ⟨c, -, hc⟩ := Option.bind_eq_some_iff.mp hobjection
      refine ⟨hhonest₁, ?_, ?_⟩
      · rintro _ ⟨⟩
        exact .linkage (.barred hreaches hloadable (hbarred.mpr (by simp [hobjection])))
          (belongs_objection hc)
      · rintro _ ⟨⟩
  | case4 need rest reg k reg₁ hload₁ hobjection outcome reg₂ hrest ih =>
      have hreaches : Reaches src name need := ⟨before, rest, hneeds, hbefore⟩
      obtain ⟨hhonest₁, -⟩ := hload need (by simp) reg (hreaches.isChain hchain) hcoherent hhonest
      obtain ⟨hloadable, hbarred⟩ := hcoherent.load_ok name hload₁
      have hcoherent₁ := (load_keeps src (name :: underWay) need.name reg).coherent hcoherent
      rw [hload₁] at hhonest₁ hcoherent₁
      have hready : need.Ready src := ⟨hloadable, fun h => hbarred.mp h hobjection⟩
      have happend : before ++ need :: rest = (before ++ [need]) ++ rest := by simp
      rw [happend] at hneeds hload ⊢
      have hbefore' : ∀ b ∈ before ++ [need], b.Ready src :=
        List.forall_mem_append.mpr ⟨hbefore, List.forall_mem_singleton.mpr hready⟩
      obtain ⟨hhonest₂, herror₂, hok₂⟩ := ih hneeds hbefore' hload hcoherent₁ hhonest₁
      rw [hrest] at hhonest₂ herror₂ hok₂
      cases outcome with
      | error e =>
          refine ⟨hhonest₂, herror₂, ?_⟩
          rintro _ ⟨⟩
      | ok ids =>
          refine ⟨hhonest₂, ?_, fun _ _ => hok₂ ids rfl⟩
          rintro _ ⟨⟩

theorem construct_reports
    (hload : ∀ {needs}, requirements src name = .ok needs → ∀ need ∈ needs, ∀ reg,
      Reports src (name :: underWay) need.name reg (load src (name :: underWay) need.name reg)) :
    Reports src underWay name reg (construct src (load src (name :: underWay)) name reg) := by
  intro hchain hcoherent hhonest
  unfold construct
  cases hneeds : requirements src name with
  | error e =>
      refine ⟨hhonest, ?_⟩
      rintro _ ⟨⟩
      obtain ⟨k, hkind, hbelongs⟩ := belongs_requirements hneeds
      exact ⟨k, hkind, .unavailable hneeds (by simp [hbelongs]), hbelongs⟩
  | ok needs =>
      have hreports := gather_reports (show requirements src name = .ok ([] ++ needs) from hneeds)
        nofun (hload hneeds) hchain hcoherent hhonest
      have hall (need : Need) (_ : need ∈ needs) :
          KeepsAll src (name :: underWay) need.name (load src (name :: underWay) need.name) :=
        fun reg => ⟨load_loads src _ _ reg, load_keeps src _ _ reg⟩
      have hkeeps := gather_keeps name hall reg
      dsimp only at hreports ⊢
      generalize gather (load src (name :: underWay)) name needs reg = result at *
      obtain ⟨outcome, reg'⟩ := result
      obtain ⟨hhonest', herror, hok⟩ := hreports
      cases outcome with
      | error e =>
          refine ⟨hhonest', ?_⟩
          rintro _ ⟨⟩
          exact herror e rfl
      | ok ids =>
          dsimp only
          cases hassemble : assemble src reg'.classes reg'.classes.size name ids with
          | ok result => exact ⟨hhonest', nofun⟩
          | error e =>
              have hlength := (hkeeps.2 ids rfl).length_eq
              have hmembers := memberFault?_of_assemble_error hneeds hlength hassemble
              refine ⟨hhonest', ?_⟩
              rintro _ ⟨⟩
              exact .linkage (.members hneeds (hok ids rfl) (by simp [hmembers]))
                (belongs_memberFault hmembers)

theorem load_reports (src : Source) (underWay : List String) (name : String) (reg : Registry) :
    Reports src underWay name reg (load src underWay name reg) := by
  refine load_induction (P := Reports src) ?found ?failed ?circular ?fresh underWay name reg
  case found => exact fun _ _ _ hhonest => ⟨hhonest, nofun⟩
  case failed =>
    intro underWay name reg e _ hfailure _ _ hhonest
    refine ⟨hhonest, ?_⟩
    rintro _ ⟨⟩
    exact hhonest name e hfailure
  case circular =>
    intro underWay name reg _ _ hname hchain _ hhonest
    refine ⟨hhonest, ?_⟩
    rintro _ ⟨⟩
    exact .linkage (.circular (transGen_of_isChain hchain hname)) fun _ => rfl
  case fresh =>
    intro underWay name reg _ _ _ ih hchain hcoherent hhonest
    have hreports := construct_reports ih hchain hcoherent hhonest
    generalize construct src (load src (name :: underWay)) name reg = result at hreports ⊢
    obtain ⟨outcome, reg'⟩ := result
    obtain ⟨hhonest', herror⟩ := hreports
    cases outcome with
    | ok id => exact ⟨hhonest', nofun⟩
    | error e =>
        refine ⟨hhonest'.addFailure (herror e rfl), ?_⟩
        rintro _ ⟨⟩
        exact herror e rfl

end Registry

end ClassEngine.Machine
