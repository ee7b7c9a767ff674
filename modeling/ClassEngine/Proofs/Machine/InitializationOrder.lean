import ClassEngine.Proofs.Machine.History

/-!
# The order of initialization

Initialization keeps the history of the classes, whatever the static initializers do:
they may come back to the class itself, to its superclass or to any other class, and
they may fail.  While a class is being initialized no one else changes its state.
-/

namespace ClassEngine.Machine

structure WorksOn (id : ClassId) (a b : Vm) : Prop where
  consistent : b.Consistent
  evolves : EvolvesBut (some id) a b
  state : b.registry.state? id = some .initializing

variable {a b c : Vm} {id : ClassId}

theorem WorksOn.trans (hab : WorksOn id a b) (hbc : WorksOn id b c) : WorksOn id a c :=
  ⟨hbc.consistent, hab.evolves.trans hbc.evolves, hbc.state⟩

theorem WorksOn.of_keepsHistory {o : Option Stop} (hK : keepsHistory a o b) (ha : a.Consistent)
    (hstate : a.registry.state? id = some .initializing) : WorksOn id a b :=
  let ⟨hb, hab⟩ := hK ha
  ⟨hb, hab.but _, hab.state nofun hstate (.inl rfl)⟩

/-- The superclass of a class may be used, unless the class is an interface. -/
def SuperInUse (reg : Registry) (c : Class) : Prop :=
  c.isInterface = false → ∀ s, c.super? = some s →
    ∃ state, reg.state? s = some state ∧ state.InUse

theorem SuperInUse.evolves {k : Class} (h : SuperInUse a.registry k) (hab : Evolves a b) :
    SuperInUse b.registry k := by
  intro hinterface s hs
  obtain ⟨state, hstate, hused⟩ := h hinterface s hs
  exact ⟨state, hab.state nofun hstate hused.begun, hused⟩

namespace Exec

variable {runInitializer : Method → Exec Unit}

theorem worksOn_initializer (hrun : ∀ m, Has keepsHistory (runInitializer m)) {k : Class}
    (ha : a.Consistent) (hk : a.registry.classes[id]? = some k)
    (hstate : a.registry.state? id = some .initializing) (hfirst : ¬ Started a.journal id)
    (hsuper : SuperInUse a.registry k) {m : Method} (hm : m ∈ k.methods) :
    WorksOn id a (after (do
      note (.running m.id)
      match ← attempt (runInitializer m) with
      | .ok () => return
      | .error e => fault (ofInitializer k.name e) : Exec Unit) a) := by
  have howner : m.id.owner = id := ha.wellFormed.owners hk hm
  subst howner
  obtain ⟨hb, hab⟩ := consistent_running ha hstate hfirst hk hsuper
  have hrunning : WorksOn m.id.owner a (after (note (.running m.id)) a) := ⟨hb, hab, hstate⟩
  have hrest : Has keepsHistory (do
      match ← attempt (runInitializer m) with
      | .ok () => return
      | .error e => fault (ofInitializer k.name e) : Exec Unit) := by
    refine (Has.attempt (hrun m) fun h => h).of_faultless.bind steady_keepsHistory fun outcome => ?_
    cases outcome with
    | ok u => exact (local_pure u).has steady_keepsHistory
    | error e => exact fun vm => keepsHistory_refl _ vm
  exact hrunning.trans (.of_keepsHistory (hrest _) hb hstate)

theorem worksOn_initializeOwn (hrun : ∀ m, Has keepsHistory (runInitializer m)) {k : Class}
    (ha : a.Consistent) (hk : a.registry.classes[id]? = some k)
    (hstate : a.registry.state? id = some .initializing) (hfirst : ¬ Started a.journal id)
    (hsuper : SuperInUse a.registry k) :
    WorksOn id a (after (initializeOwn runInitializer k) a) := by
  have hconstants : Has keepsHistory (k.fields.forM assignConstant) :=
    has_forM steady_keepsHistory.trans ((local_pure ()).has steady_keepsHistory)
      (fun f => (local_assignConstant f).has steady_keepsHistory) k.fields
  apply ends_bind (P := fun _ => WorksOn id a)
  · intro _ b hcase
    obtain ⟨hb, hab⟩ := hconstants.ok hcase ha
    have hworks : WorksOn id a b := .of_keepsHistory (hconstants.ok hcase) ha hstate
    cases hm : k.declaredMethod? ClassFile.initializerName "()V" with
    | none => exact hworks
    | some m =>
        have hmem : m ∈ k.methods := List.mem_reverse.mp (List.mem_of_find?_eq_some hm)
        exact hworks.trans (worksOn_initializer hrun hb (hab.grows.classes hk) hworks.state
          (fun h => hfirst (hab.started nofun hstate (.inl rfl) h)) (hsuper.evolves hab) hmem)
  · intro stop b hcase
    exact .of_keepsHistory (hconstants.error hcase) ha hstate

def keepsHistoryOf (id : ClassId) : Effect := fun a o b =>
  keepsHistory a o b ∧ (a.Consistent → o = none →
    ∃ state, b.registry.state? id = some state ∧ state.InUse)

theorem worksOn_chain (hrun : ∀ m, Has keepsHistory (runInitializer m)) {k : Class}
    (hsupers : ∀ s < id, Has (keepsHistoryOf s) (ensureInitialized runInitializer s))
    (ha : a.Consistent) (hk : a.registry.classes[id]? = some k)
    (hstate : a.registry.state? id = some .initializing) (hfirst : ¬ Started a.journal id) :
    WorksOn id a (after (do
      if let some s := k.super? then
        if s < id then
          if !k.isInterface then ensureInitialized runInitializer s
      initializeOwn runInitializer k : Exec Unit) a) := by
  cases hs : k.super? with
  | none => exact worksOn_initializeOwn hrun ha hk hstate hfirst fun _ s h => by simp [hs] at h
  | some s =>
      have hlt : s < id := ha.wellFormed.supers hk hs
      simp only [hlt, if_true]
      cases hinterface : k.isInterface with
      | true =>
          exact worksOn_initializeOwn hrun ha hk hstate hfirst fun h => by simp [hinterface] at h
      | false =>
          have hsuper := hsupers s hlt
          apply ends_bind (P := fun _ => WorksOn id a)
          · intro _ b hcase
            obtain ⟨hkeeps, hreturned⟩ := hsuper.ok hcase
            obtain ⟨hb, hab⟩ := hkeeps ha
            have hworks : WorksOn id a b := .of_keepsHistory hkeeps ha hstate
            have hused : SuperInUse b.registry k := by
              intro _ s' hs'
              rw [hs] at hs'
              cases hs'
              exact hreturned ha rfl
            -- The superclass may have come back to this class, but found it begun.
            exact hworks.trans (worksOn_initializeOwn hrun hb (hab.grows.classes hk) hworks.state
              (fun h => hfirst (hab.started nofun hstate (.inl rfl) h)) hused)
          · intro stop b hcase
            exact .of_keepsHistory (hsuper.error hcase).1 ha hstate

theorem evolves_failing {x : Exec Unit} (hx : WorksOn id a (after x a)) :
    (after (failing id x) a).Consistent ∧ EvolvesBut (some id) a (after (failing id x) a) ∧
      (stop? (failing id x) a = none →
        (after (failing id x) a).registry.state? id = some .initializing) := by
  apply ends_bind (P := fun o b => b.Consistent ∧ EvolvesBut (some id) a b ∧
    (o = none → b.registry.state? id = some .initializing))
  · intro outcome b hcase
    rw [← after_attempt, after_ok hcase] at hx
    cases outcome with
    | ok u => exact ⟨hx.consistent, hx.evolves, fun _ => hx.state⟩
    | error e =>
        obtain ⟨hc, hbc, -⟩ := consistent_setState hx.consistent hx.state .fail
        exact ⟨hc, hx.evolves.trans hbc, nofun⟩
  · intro stop b hcase
    rw [← after_attempt, after_error hcase] at hx
    exact ⟨hx.consistent, hx.evolves, nofun⟩

def FirstUse (id : ClassId) : Effect := fun a o b =>
  b.Consistent ∧ EvolvesBut (some id) a b ∧ (o = none → b.registry.state? id = some .initialized)

theorem firstUse_of_linked (hrun : ∀ m, Has keepsHistory (runInitializer m)) {k : Class}
    (hsupers : ∀ s < id, Has (keepsHistoryOf s) (ensureInitialized runInitializer s))
    (ha : a.Consistent) (hk : a.registry.classes[id]? = some k)
    (hstate : a.registry.state? id = some .linked) :
    let x : Exec Unit := do
      setState id .initializing
      failing id do
        if let some s := k.super? then
          if s < id then
            if !k.isInterface then ensureInitialized runInitializer s
        initializeOwn runInitializer k
      setState id .initialized
    FirstUse id a (stop? x a) (after x a) := by
  obtain ⟨hb, hab, hbegun⟩ := consistent_setState ha hstate .start
  have hfirst : ¬ Started (after (setState id .initializing) a).journal id := by
    intro hstarted
    rcases started_cons.mp hstarted with ⟨m, -, heq⟩ | hstarted
    · cases heq
    · obtain ⟨state, hafter, hbegun⟩ := ha.history.begun hstarted
      rw [← ha.current id, hstate] at hafter
      cases hafter
      exact not_begun_linked hbegun
  have hworks := worksOn_chain hrun hsupers hb (hab.grows.classes hk) hbegun hfirst
  obtain ⟨hc, hbc, hcomplete⟩ := evolves_failing hworks
  refine ends_of_eq (P := FirstUse id a) (bind_of_ok (setState_apply id .initializing a)) ?_
  apply ends_bind (P := FirstUse id a)
  · intro _ c hcase
    rw [after_ok hcase] at hc hbc hcomplete
    obtain ⟨hd, hcd, hstate⟩ := consistent_setState hc (hcomplete (stop?_ok hcase)) .complete
    exact ⟨hd, (hab.trans hbc).trans hcd, fun _ => hstate⟩
  · intro stop c hcase
    rw [after_error hcase] at hc hbc
    exact ⟨hc, hab.trans hbc, nofun⟩

theorem has_ensureInitialized_history (hrun : ∀ m, Has keepsHistory (runInitializer m))
    (id : ClassId) : Has (keepsHistoryOf id) (ensureInitialized runInitializer id) := by
  induction id using Nat.strongRecOn with
  | ind id ih =>
      intro a
      rw [ensureInitialized]
      have hsame {o : Option Stop} : keepsHistory a o a := keepsHistory_refl o a
      have hstops {stop : Stop} : keepsHistoryOf id a (some stop) a := by
        refine ⟨hsame, fun _ hreturned => ?_⟩
        cases hreturned
      cases hk : a.registry.classes[id]? with
      | none =>
          exact ends_of_eq (y := throw .undefined) (bind_of_error (classAt_apply_of_none hk)) hstops
      | some k =>
          refine ends_of_eq (bind_of_ok (classAt_apply_of_some hk)) ?_
          cases hs : a.registry.status? id with
          | none =>
              have h := statusAt_apply_of_none hs
              exact ends_of_eq (y := throw .undefined) (bind_of_error h) hstops
          | some s =>
              refine ends_of_eq (bind_of_ok (statusAt_apply_of_some hs)) ?_
              have hstate : a.registry.state? id = some s.state := by simp [Registry.state?, hs]
              dsimp only
              cases hcase : s.state with
              | initialized => exact ⟨hsame, fun _ _ => ⟨_, hstate, .inr hcase⟩⟩
              | initializing => exact ⟨hsame, fun _ _ => ⟨_, hstate, .inl hcase⟩⟩
              | failed => exact hstops
              | linked =>
                  rw [hcase] at hstate
                  have hfirst := fun ha => firstUse_of_linked hrun ih ha hk hstate
                  refine ⟨fun ha => ?_, fun ha hreturned => ?_⟩
                  · obtain ⟨hb, hab, -⟩ := hfirst ha
                    exact ⟨hb, hab.evolves hstate not_begun_linked⟩
                  · exact ⟨_, (hfirst ha).2.2 hreturned, .inr rfl⟩
              | loaded =>
                  have hnever (ha : a.Consistent) : False :=
                    ha.history.stateAfter_ne_loaded ((ha.current id).symm.trans (hcase ▸ hstate))
                  exact ⟨fun ha => (hnever ha).elim, fun ha => (hnever ha).elim⟩

theorem working_keepsHistory : keepsHistory.Working where
  toSteady := steady_keepsHistory
  bare _ _ h ha :=
    let ⟨hb, hab⟩ := h ha
    ⟨⟨hb.wellFormed, hb.current, hb.history⟩, hab.grows, hab.journal, hab.state, hab.started⟩
  raise vm _ := keepsHistory_refl _ vm
  returns _ _ _ _ ha :=
    ⟨⟨ha.wellFormed, ha.current, ha.history⟩, .refl _, List.suffix_rfl, fun _ h _ => h,
      fun _ _ _ h => h⟩
  escaped _ vm := keepsHistory_refl _ vm
  thrown h h' := keepsHistory_trans h h'
  overlooked _ h h' := keepsHistory_trans h h'
  raised _ h h' := keepsHistory_trans h h'
  caught r _ ha := consistent_note ha (.inl ⟨r, rfl⟩)
  uncreated _ _ h := h
  contained h ha :=
    let ⟨hb, hab⟩ := h ha
    ⟨⟨hb.wellFormed, hb.current, hb.history⟩, hab.grows, hab.journal, hab.state, hab.started⟩
  ended _ _ h := keepsHistory_trans h fun hb => consistent_note hb (.inr ⟨_, rfl⟩)

theorem running_keepsHistory : keepsHistory.Running where
  toWorking := working_keepsHistory
  step := Exec.has_step working_keepsHistory fun _ _ ha =>
    ⟨⟨ha.wellFormed, ha.current, ha.history⟩, .refl _, List.suffix_rfl, fun _ h _ => h,
      fun _ _ _ h => h⟩

theorem has_serve_history (fuel : Nat) (q : Request) : Has keepsHistory (serve fuel q) := by
  have hS := steady_keepsHistory
  have hinit {runInitializer : Method → Exec Unit}
      (hrun : ∀ m, Has keepsHistory (runInitializer m)) (id : ClassId) :
      Has keepsHistory (ensureInitialized runInitializer id) :=
    fun vm => (has_ensureInitialized_history hrun id vm).1
  have hexecute (m : Method) (args : List Value) : Has keepsHistory (execute fuel m args) :=
    has_executeBy working_keepsHistory (has_run running_keepsHistory hinit fuel)
      (runStops_run fuel) m args
  exact has_serve hS hexecute (hinit fun m => has_discard hS (hexecute m [])) q

/-- Whoever wants to use the class is told that it failed, and nothing runs. -/
def Refuses (vm : Vm) (id : ClassId) (c : Class) : Prop :=
  ∀ runInitializer, ensureInitialized runInitializer id vm =
    .error (.fault (.previouslyFailed c.name)) vm

theorem refuses_of_failed {vm : Vm} {id : ClassId} {c : Class}
    (hc : vm.registry.classes[id]? = some c) (hfailed : vm.registry.state? id = some .failed) :
    Refuses vm id c := by
  intro runInitializer
  obtain ⟨s, hs, hstate⟩ := Option.map_eq_some_iff.mp hfailed
  rw [ensureInitialized, bind_of_ok (classAt_apply_of_some hc),
    bind_of_ok (statusAt_apply_of_some hs)]
  simp only [hstate]
  rfl

end Exec

/-! ## Sessions -/

theorem Vm.consistent_start (source? : Option Search.Source) (maxFrames : Int)
    (profiler? : Option (Profiler MethodId)) :
    (Vm.start source? maxFrames profiler?).Consistent where
  wellFormed := Registry.wellFormed_empty
  current id := by simp [Vm.start, Registry.state?, Registry.status?, Registry.stateAfter]
  history := trivial

theorem Vm.Consistent.serve {vm : Vm} (h : vm.Consistent) (session : List (Nat × Request)) :
    (vm.serve session).Consistent ∧ Evolves vm (vm.serve session) :=
  Vm.serve_induction (R := fun a b => keepsHistory a none b) (keepsHistory_refl none)
    keepsHistory_trans (fun fuel q vm => Exec.has_serve_history fuel q vm) vm session h

/-- The law of initialization, for a machine and its journal.  In a journal the part
after an event is what happened before it. -/
structure Vm.Orderly (vm : Vm) : Prop where
  once : ∀ id, vm.journal.countP (·.starts id) ≤ 1
  current : ∀ id, vm.registry.state? id = vm.registry.stateAfter vm.journal id
  forward : ∀ later id state earlier, vm.journal = later ++ .moved id state :: earlier →
    ∃ before, vm.registry.stateAfter earlier id = some before ∧ Forward before state
  supers : ∀ later m earlier, vm.journal = later ++ .running m :: earlier →
    vm.registry.stateAfter earlier m.owner = some .initializing ∧
      ∃ c, vm.registry.classes[m.owner]? = some c ∧
        (c.isInterface = false → ∀ s, c.super? = some s →
          ∃ state, vm.registry.stateAfter earlier s = some state ∧ state.InUse)

theorem Vm.Consistent.orderly {vm : Vm} (h : vm.Consistent) : vm.Orderly where
  once := h.history.countP_le
  current := h.current
  forward later id state earlier heq := by
    have hhistory := h.history
    rw [heq] at hhistory
    exact hhistory.legal
  supers later m earlier heq := by
    have hhistory := h.history
    rw [heq] at hhistory
    obtain ⟨hstate, -, hsuper⟩ := hhistory.legal
    exact ⟨hstate, hsuper⟩

/-- What one moment of a session leaves to a later one: the classes, the journal so
far, and states that only move forward. -/
structure Vm.Precedes (vm vm' : Vm) : Prop where
  classes : ∀ (id : ClassId) (c : Class), vm.registry.classes[id]? = some c →
    vm'.registry.classes[id]? = some c
  journal : vm.journal <:+ vm'.journal
  states : ∀ id state, vm.registry.state? id = some state →
    ∃ state', vm'.registry.state? id = some state' ∧ Relation.ReflTransGen Forward state state'

theorem Evolves.precedes (h : Evolves a b) (ha : a.Consistent) (hb : b.Consistent) :
    a.Precedes b where
  classes _ _ := h.grows.classes
  journal := h.journal
  states id state hstate := by
    obtain ⟨events, hjournal⟩ := h.journal
    have hbefore := stateAfter_of_grows h.grows ((ha.current id).symm.trans hstate)
    have hhistory := hb.history
    rw [← hjournal] at hhistory
    obtain ⟨state', hstate', hforward⟩ := hhistory.forward hbefore
    rw [hjournal, ← hb.current id] at hstate'
    exact ⟨state', hstate', hforward⟩

/-- Initialization is orderly in every session.  A class that failed is refused ever
after, also in the middle of a run. -/
theorem initialization_orderly (source? : Option Search.Source) (maxFrames : Int)
    (profiler? : Option (Profiler MethodId)) (session later : List (Nat × Request)) :
    let vm := (Vm.start source? maxFrames profiler?).serve session
    vm.Orderly ∧ vm.Precedes (vm.serve later) ∧
      (∀ (id : ClassId) (c : Class), vm.registry.classes[id]? = some c →
        vm.registry.state? id = some .failed → Exec.Refuses (vm.serve later) id c) ∧
      ∀ (vm : Vm) (id : ClassId) (c : Class), vm.registry.classes[id]? = some c →
        vm.registry.state? id = some .failed → Exec.Refuses vm id c := by
  intro vm
  have hvm : vm.Consistent := ((Vm.consistent_start source? maxFrames profiler?).serve session).1
  obtain ⟨hlater, hevolves⟩ := hvm.serve later
  have hprecedes := hevolves.precedes hvm hlater
  refine ⟨hvm.orderly, hprecedes, fun id c hc hfailed => ?_, fun _ _ _ => Exec.refuses_of_failed⟩
  obtain ⟨state, hstate, hforward⟩ := hprecedes.states id .failed hfailed
  rw [Forward.eq_failed hforward] at hstate
  exact Exec.refuses_of_failed (hprecedes.classes id c hc) hstate

end ClassEngine.Machine
