import ClassEngine.Proofs.Machine.Requirements

/-!
# Covered faults

A fault that running code meets is raised if a guest exception stands for it, and ends the
run if none does.  Covered faults have a guest exception or are those of the machine itself.
Loading fails with covered faults, and so does a registry that remembers no others.
-/

namespace ClassEngine.Machine

open Search (Source)

/-- Whether a fault is more than an uncaught exception that is passed on. -/
def Fault.isCovered : Fault → Bool
  | .superclass _ cause | .superinterface _ cause | .constantValue _ cause => cause.isCovered
  | .uncaught _ => false
  | _ => true

/-- All that is remembered of failures is covered. -/
structure Registry.Covered (reg : Registry) : Prop where
  failures : ∀ {name : String} {e : Fault}, reg.failure? name = some e → e.isCovered = true
  kept : ∀ {id : ClassId} {s : ClassStatus} {i : Nat} {use : PoolUse} {e : Fault},
    reg.status? id = some s → s.resolutions[i]? = some (some ⟨use, .error e⟩) →
      e.isCovered = true

structure CoveredResult {α : Type} (result : Except Fault α × Registry) : Prop where
  registry : result.2.Covered
  fault : ∀ {e : Fault}, result.1 = .error e → e.isCovered = true

theorem coveredResult_error {α : Type} {reg : Registry} {e : Fault} (h : reg.Covered)
    (he : e.isCovered = true) : CoveredResult ((.error e, reg) : Except Fault α × Registry) where
  registry := h
  fault := by
    rintro _ ⟨⟩
    exact he

namespace Registry

variable {src : Source} {name : String} {reg : Registry}

theorem covered_empty : Covered {} := by
  constructor <;> simp [failure?, status?]

theorem Covered.addFailure (h : reg.Covered) {e : Fault} (he : e.isCovered = true) :
    (reg.addFailure name e).Covered where
  failures := by
    intro other e' he'
    by_cases hother : other = name
    · rw [hother, failure?_addFailure_self] at he'
      cases he'
      exact he
    · rw [failure?_addFailure_of_ne reg e hother] at he'
      exact h.failures he'
  kept := h.kept

theorem Covered.add (h : reg.Covered) {c : Class} {state : ClassState} {statics : Array Value} :
    (reg.add c state statics).2.Covered where
  failures := h.failures
  kept := by
    intro id s i use e hs hr
    exact h.kept (status?_of_add hs hr) hr

theorem Covered.modifyStatus (h : reg.Covered) (id : ClassId) (f : ClassStatus → ClassStatus)
    (hf : ∀ {s : ClassStatus} {i : Nat} {use : PoolUse} {e : Fault}, reg.status? id = some s →
      (f s).resolutions[i]? = some (some ⟨use, .error e⟩) → e.isCovered = true) :
    (reg.modifyStatus id f).Covered where
  failures := h.failures
  kept := by
    intro j s i use e hs hr
    rcases status?_modifyStatus_cases hs with ⟨t, ht, rfl, rfl⟩ | hs
    · exact hf ht hr
    · exact h.kept hs hr

/-! ## Loading -/

theorem covered_readClass {e : Fault} (h : readClass src name = .error e) :
    e.isCovered = true := by
  unfold readClass at h
  split at h
  · cases h
    rfl
  · cases h
    rfl
  · split at h
    · cases h
      rfl
    · split at h <;> cases h
      rfl

theorem covered_requirements {e : Fault} (h : requirements src name = .error e) :
    e.isCovered = true := by
  unfold requirements at h
  split at h
  · split at h <;> cases h
    rfl
  · cases hread : readClass src name with
    | error e' =>
        rw [hread] at h
        cases h
        exact covered_readClass hread
    | ok file =>
        rw [hread] at h
        cases h

theorem covered_fieldTypes {file : ClassFile} {e : Fault} (h : fieldTypes file = .error e) :
    e.isCovered = true := by
  obtain ⟨f, -, hf⟩ := mapM_eq_error h
  split at hf <;> cases hf
  rfl

theorem covered_methodTypes {file : ClassFile} {e : Fault} (h : methodTypes file = .error e) :
    e.isCovered = true := by
  obtain ⟨m, -, hm⟩ := mapM_eq_error h
  split at hm <;> cases hm
  rfl

theorem covered_assemble {cs : Classes} {id : ClassId} {ids : List ClassId} {e : Fault}
    (h : assemble src cs id name ids = .error e) : e.isCovered = true := by
  unfold assemble at h
  split at h
  · split at h <;> cases h
    rfl
  · split at h
    · cases h
      exact covered_readClass ‹_›
    · split at h <;> cases h
      · exact covered_fieldTypes ‹_›
      · exact covered_methodTypes ‹_›

theorem covered_objection {className : String} {c : Class} {role : Role} {e : Fault}
    (h : role.objection? className c = some e) : e.isCovered = true := by
  unfold Role.objection? at h
  split at h
  · split at h <;> cases h
    rfl
  · split at h <;> cases h
    rfl
  · cases h

section

variable {load : String → Loading ClassId}

theorem coveredResult_gather (className : String) {needs : List Need}
    (hload : ∀ need ∈ needs, ∀ reg, reg.Covered → CoveredResult (load need.name reg))
    (h : reg.Covered) : CoveredResult (gather load className needs reg) := by
  fun_induction gather load className needs reg with
  | case1 =>
      refine ⟨h, ?_⟩
      rintro _ ⟨⟩
  | case2 need rest reg e reg₁ hload₁ =>
      have hfirst := hload need List.mem_cons_self reg h
      rw [hload₁] at hfirst
      have he : e.isCovered = true := hfirst.fault rfl
      have hpass : (need.role.pass className e).isCovered = true := by
        cases need.role <;> exact he
      exact coveredResult_error hfirst.registry hpass
  | case3 need rest reg id reg₁ hload₁ e hobjection =>
      have hfirst := hload need List.mem_cons_self reg h
      rw [hload₁] at hfirst
      obtain ⟨c, -, hc⟩ := Option.bind_eq_some_iff.mp hobjection
      exact coveredResult_error hfirst.registry (covered_objection hc)
  | case4 need rest reg id reg₁ hload₁ _ ids reg₂ hrest ih =>
      have hfirst := hload need List.mem_cons_self reg h
      rw [hload₁] at hfirst
      have hlast := ih (fun need hneed => hload need (List.mem_cons_of_mem _ hneed))
        hfirst.registry
      rw [hrest] at hlast
      cases ids with
      | ok ids =>
          refine ⟨hlast.registry, ?_⟩
          rintro _ ⟨⟩
      | error e => exact coveredResult_error hlast.registry (hlast.fault rfl)

theorem coveredResult_construct
    (hload : ∀ {needs}, requirements src name = .ok needs → ∀ need ∈ needs, ∀ reg,
      reg.Covered → CoveredResult (load need.name reg))
    (h : reg.Covered) : CoveredResult (construct src load name reg) := by
  unfold construct
  cases hneeds : requirements src name with
  | error e => exact coveredResult_error h (covered_requirements hneeds)
  | ok needs =>
      have hgather := coveredResult_gather name (hload hneeds) h
      dsimp only
      generalize gather load name needs reg = result at hgather
      obtain ⟨outcome, reg'⟩ := result
      cases outcome with
      | error e => exact coveredResult_error hgather.registry (hgather.fault rfl)
      | ok ids =>
          dsimp only
          cases hassemble : assemble src reg'.classes reg'.classes.size name ids with
          | error e => exact coveredResult_error hgather.registry (covered_assemble hassemble)
          | ok result => exact ⟨hgather.registry.add, nofun⟩

end

theorem coveredResult_load (src : Source) (underWay : List String) (name : String)
    (h : reg.Covered) : CoveredResult (load src underWay name reg) := by
  refine load_induction (P := fun _ _ reg result => reg.Covered → CoveredResult result)
    ?found ?failed ?circular ?fresh underWay name reg h
  case found => exact fun _ h => ⟨h, nofun⟩
  case failed =>
    intro underWay name reg e _ hfailure h
    exact coveredResult_error h (h.failures hfailure)
  case circular => exact fun _ _ _ h => coveredResult_error h rfl
  case fresh =>
    intro underWay name reg _ _ _ ih h
    have hconstruct : CoveredResult (construct src (load src (name :: underWay)) name reg) :=
      coveredResult_construct (fun hneeds need hneed reg => ih hneeds need hneed reg) h
    generalize construct src (load src (name :: underWay)) name reg = result at hconstruct
    obtain ⟨outcome, reg'⟩ := result
    cases outcome with
    | ok id => exact hconstruct
    | error e =>
        have he : e.isCovered = true := hconstruct.fault rfl
        exact coveredResult_error (hconstruct.registry.addFailure he) he

end Registry

end ClassEngine.Machine
