import ClassEngine.Machine.Initialization
import ClassEngine.Proofs.Machine.Resolution

/-!
# Effects of initialization

Initialization is made of single changes, of entries in the journal and of runs of
static initializers.  What these have, the initialization of a class has.
-/

namespace ClassEngine.Machine

/-- An effect that the steps of an initialization have whose static initializers have
another one. -/
structure Effect.Surrounding (inner K : Effect) : Prop where
  trans : ∀ {a b c : Vm} {o : Option Stop}, K a none b → K b o c → K a o c
  reads : ∀ {a b : Vm} {o : Option Stop}, reading a o b → K a o b
  assigned : ∀ f : Field, Exec.Has K (Exec.assignConstant f)
  moved : ∀ (id : ClassId) (state : ClassState) (vm : Vm),
    K vm none (Exec.after (Exec.setState id state) vm)
  running : ∀ (m : MethodId) (vm : Vm), K vm none (Exec.after (Exec.note (.running m)) vm)
  failed : ∀ {a b : Vm} {e : Fault} (id : ClassId), K a (some (.fault e)) b →
    K a (some (.fault e)) (Exec.after (Exec.setState id .failed) b)
  passed : ∀ {a b : Vm} {o : Option Stop}, (∀ e, o ≠ some (.fault e)) → inner a o b → K a o b
  renamed : ∀ {a b : Vm} {e : Fault} (name : String), inner a (some (.fault e)) b →
    K a (some (.fault (Exec.ofInitializer name e))) b

/-- An effect that the steps of an initialization have, the static initializers apart. -/
structure Effect.Preparing (K : Effect) : Prop where
  trans : ∀ {a b c : Vm} {o : Option Stop}, K a none b → K b o c → K a o c
  reads : ∀ {a b : Vm} {o : Option Stop}, reading a o b → K a o b
  assigned : ∀ f : Field, Exec.Has K (Exec.assignConstant f)
  moved : ∀ (id : ClassId) (state : ClassState) (vm : Vm),
    K vm none (Exec.after (Exec.setState id state) vm)
  running : ∀ (m : MethodId) (vm : Vm), K vm none (Exec.after (Exec.note (.running m)) vm)
  failed : ∀ {a b : Vm} {e : Fault} (id : ClassId), K a (some (.fault e)) b →
    K a (some (.fault e)) (Exec.after (Exec.setState id .failed) b)
  renamed : ∀ {a b : Vm} {e : Fault} (name : String), K a (some (.fault e)) b →
    K a (some (.fault (Exec.ofInitializer name e))) b

theorem Effect.Preparing.surrounding {K : Effect} (hK : K.Preparing) : K.Surrounding K :=
  { hK with passed := fun _ h => h }

structure Effect.Initializing (K : Effect) : Prop extends K.Steady where
  moved : ∀ (id : ClassId) (state : ClassState) (vm : Vm),
    K vm none (Exec.after (Exec.setState id state) vm)
  running : ∀ (m : MethodId) (vm : Vm), K vm none (Exec.after (Exec.note (.running m)) vm)
  failed : ∀ {a b : Vm} {e : Fault} (id : ClassId), K a (some (.fault e)) b →
    K a (some (.fault e)) (Exec.after (Exec.setState id .failed) b)
  renamed : ∀ {a b : Vm} {e : Fault} (name : String), K a (some (.fault e)) b →
    K a (some (.fault (Exec.ofInitializer name e))) b

namespace Exec

variable {α : Type} {K : Effect}

theorem setState_apply (id : ClassId) (state : ClassState) (vm : Vm) :
    setState id state vm = .ok () (after (setState id state) vm) := rfl

theorem ensureInitialized_of_initialized {runInitializer : Method → Exec Unit} {vm : Vm}
    {id : ClassId} {c : Class} {s : ClassStatus} (hc : vm.registry.classes[id]? = some c)
    (hs : vm.registry.status? id = some s) (hstate : s.state = .initialized) :
    ensureInitialized runInitializer id vm = .ok () vm := by
  rw [ensureInitialized, bind_of_ok (classAt_apply_of_some hc),
    bind_of_ok (statusAt_apply_of_some hs)]
  simp only [hstate]
  rfl

theorem failing_of_fault {id : ClassId} {x : Exec Unit} {e : Fault} {vm vm' : Vm}
    (h : x vm = .error (.fault e) vm') :
    failing id x vm = .error (.fault e) (after (setState id .failed) vm') := by
  unfold failing
  rw [bind_apply, attempt_apply, h]
  rfl

theorem initializeOwn_of_none {runInitializer : Method → Exec Unit} {c : Class} {vm vm' : Vm}
    (hnone : c.declaredMethod? ClassFile.initializerName "()V" = none)
    (hfields : c.fields.forM assignConstant vm = .ok () vm') :
    initializeOwn runInitializer c vm = .ok () vm' := by
  rw [initializeOwn, bind_of_ok hfields, hnone]
  rfl

/-- The first use of a class: `vm₁` after its superclass and `vm₂` after its own part. -/
theorem ensureInitialized_of_linked {runInitializer : Method → Exec Unit} {vm vm₁ vm₂ : Vm}
    {id : ClassId} {c : Class} {s : ClassStatus} (hc : vm.registry.classes[id]? = some c)
    (hs : vm.registry.status? id = some s) (hstate : s.state = .linked)
    (hclass : c.isInterface = false) (hbelow : ∀ k, c.super? = some k → k < id)
    (hsuper : c.super?.forM (ensureInitialized runInitializer)
      (after (setState id .initializing) vm) = .ok () vm₁)
    (hown : initializeOwn runInitializer c vm₁ = .ok () vm₂) :
    ensureInitialized runInitializer id vm = .ok () (after (setState id .initialized) vm₂) := by
  rw [ensureInitialized, bind_of_ok (classAt_apply_of_some hc),
    bind_of_ok (statusAt_apply_of_some hs)]
  simp only [hstate]
  rw [bind_of_ok (setState_apply id .initializing vm)]
  refine (bind_of_ok (?_ : _ = EStateM.Result.ok () vm₂)).trans rfl
  unfold failing
  cases hk : c.super? with
  | none =>
      rw [hk] at hsuper
      cases hsuper
      rw [bind_apply, attempt_apply]
      dsimp only
      rw [hown]
      rfl
  | some k =>
      have hsuper : ensureInitialized runInitializer k
          (after (setState id .initializing) vm) = .ok () vm₁ := by rwa [hk] at hsuper
      simp only [hbelow k hk, hclass, if_true, Bool.not_false]
      rw [bind_apply, attempt_apply, bind_of_ok hsuper, hown]
      rfl

theorem initializeOwn_of_fault {runInitializer : Method → Exec Unit} {c : Class} {m : Method}
    {e : Fault} {vm vm' : Vm} (hfields : c.fields = [])
    (hm : c.declaredMethod? ClassFile.initializerName "()V" = some m)
    (h : runInitializer m (after (note (.running m.id)) vm) = .error (.fault e) vm') :
    initializeOwn runInitializer c vm = .error (.fault (ofInitializer c.name e)) vm' := by
  have hconstants : c.fields.forM assignConstant vm = .ok () vm := by
    rw [hfields]
    rfl
  have hnote : note (.running m.id) vm = .ok () (after (note (.running m.id)) vm) := rfl
  unfold initializeOwn
  rw [bind_of_ok hconstants, hm]
  dsimp only
  rw [bind_of_ok hnote, bind_apply, attempt_apply, h]
  rfl

theorem local_assignConstant (f : Field) : Local (assignConstant f) := by
  unfold assignConstant
  split
  · have hpass (e : Fault) (he : e.isCovered = true) :
        (Fault.constantValue f.render e).isCovered = true := he
    exact (local_literal _ _).passing (fun v => local_setStaticSlot f v) (fun _ => rfl) hpass
  · exact local_pure _

theorem preparing_of_initializing (hK : K.Initializing) : K.Preparing where
  trans := hK.trans
  reads {a b o} h := by
    obtain ⟨rfl, hquiet, hfault⟩ := h
    exact hK.small (quietChanges_of_registry .refl rfl hquiet hfault)
  assigned f := (local_assignConstant f).has hK.toSteady
  moved := hK.moved
  running := hK.running
  failed := hK.failed
  renamed := hK.renamed

theorem has_forM (trans : ∀ {a b c : Vm} {o : Option Stop}, K a none b → K b o c → K a o c)
    (hpure : Has K (pure ())) {f : α → Exec Unit} (hf : ∀ a, Has K (f a)) (as : List α) :
    Has K (as.forM f) := by
  induction as with
  | nil => exact hpure
  | cons a as ih => exact Has.bind_of_trans trans (hf a) fun _ => ih

variable {inner : Effect} {runInitializer : Method → Exec Unit}

theorem surrounds_initializeOwn (hK : inner.Surrounding K)
    (hrun : ∀ m, Has inner (runInitializer m)) (c : Class) :
    Has K (initializeOwn runInitializer c) := by
  have hpure : Has K (pure ()) := fun vm => hK.reads (reads_pure () vm)
  refine Has.bind_of_trans hK.trans (has_forM hK.trans hpure hK.assigned _) fun _ => ?_
  cases c.declaredMethod? ClassFile.initializerName "()V" with
  | none => exact hpure
  | some m =>
      have hnote : Has K (note (.running m.id)) := hK.running m.id
      refine Has.bind_of_trans hK.trans hnote fun _ => ?_
      apply has_of_cases
      · intro vm a vm' h
        obtain ⟨outcome, vm₁, h₁, h₂⟩ := bind_eq_ok h
        cases outcome with
        | error e => cases h₂
        | ok u =>
            cases h₂
            exact hK.passed nofun ((hrun m).ok (ok_of_attempt h₁))
      · intro vm stop vm' h
        rcases bind_eq_error h with h | ⟨outcome, vm₁, h₁, h₂⟩
        · refine hK.passed ?_ ((hrun m).error (error_of_attempt h))
          rintro e ⟨⟩
          exact attempt_ne_fault h
        · cases outcome with
          | ok u => cases h₂
          | error e =>
              cases h₂
              exact hK.renamed c.name ((hrun m).error (fault_of_attempt h₁))

theorem surrounds_failing (hK : inner.Surrounding K) (id : ClassId) {x : Exec Unit}
    (hx : Has K x) : Has K (failing id x) := by
  apply has_of_cases
  · intro vm a vm' h
    obtain ⟨outcome, vm₁, h₁, h₂⟩ := bind_eq_ok h
    cases outcome with
    | error e =>
        obtain ⟨-, vm₂, -, h₃⟩ := bind_eq_ok h₂
        cases h₃
    | ok u =>
        cases h₂
        exact hx.ok (ok_of_attempt h₁)
  · intro vm stop vm' h
    rcases bind_eq_error h with h | ⟨outcome, vm₁, h₁, h₂⟩
    · exact hx.error (error_of_attempt h)
    · cases outcome with
      | ok u => cases h₂
      | error e =>
          rcases bind_eq_error h₂ with h₃ | ⟨u, vm₂, h₃, h₄⟩
          · cases h₃
          · cases h₃
            cases h₄
            exact hK.failed id (hx.error (fault_of_attempt h₁))

theorem Sequential.ensureInitialized {P : ∀ {α : Type}, Exec α → Prop} (hP : Sequential P)
    (hclass : ∀ id, P (classAt id)) (hstatus : ∀ id, P (statusAt id))
    (hfailed : ∀ name, P (fault (.previouslyFailed name) : Exec Unit))
    (hmove : ∀ id state, P (setState id state))
    (hown : ∀ c, P (initializeOwn runInitializer c))
    (hfailing : ∀ id {x : Exec Unit}, P x → P (failing id x)) (id : ClassId) :
    P (ensureInitialized runInitializer id) := by
  induction id using Nat.strongRecOn with
  | ind id ih =>
      rw [Exec.ensureInitialized]
      refine hP.bind (hclass id) fun c => hP.bind (hstatus id) fun s => ?_
      cases s.state with
      | initialized | initializing => exact hP.pure ()
      | failed => exact hfailed _
      -- The superclass has a smaller number: the induction covers its own first use.
      | loaded | linked =>
          refine hP.bind (hmove _ _) fun _ => hP.bind (hfailing _ ?_) fun _ => hmove _ _
          cases c.super? with
          | none => exact hown c
          | some s =>
              dsimp only
              split
              · split
                · exact hP.bind (ih s ‹_›) fun _ => hown c
                · exact hown c
              · exact hown c

theorem surrounds_ensureInitialized (hK : inner.Surrounding K)
    (hrun : ∀ m, Has inner (runInitializer m)) (id : ClassId) :
    Has K (ensureInitialized runInitializer id) := by
  have hreads {α : Type} {x : Exec α} (hx : Reads x) : Has K x := fun vm => hK.reads (hx vm)
  have hsequential : Sequential (Has K) := ⟨fun a => hreads (reads_pure a), .bind_of_trans hK.trans⟩
  exact hsequential.ensureInitialized (fun id => hreads (reads_classAt id))
    (fun id => hreads (reads_statusAt id)) (fun name => hreads (reads_fault _ rfl)) hK.moved
    (surrounds_initializeOwn hK hrun) (surrounds_failing hK) id

theorem prepares_ensureInitialized (hK : K.Preparing) (hrun : ∀ m, Has K (runInitializer m))
    (id : ClassId) : Has K (ensureInitialized runInitializer id) :=
  surrounds_ensureInitialized hK.surrounding hrun id

theorem has_ensureInitialized (hK : K.Initializing) (hrun : ∀ m, Has K (runInitializer m))
    (id : ClassId) :
    Has K (ensureInitialized runInitializer id) :=
  prepares_ensureInitialized (preparing_of_initializing hK) hrun id

end Exec

end ClassEngine.Machine
