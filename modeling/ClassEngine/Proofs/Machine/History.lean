import ClassEngine.Proofs.Machine.Session

/-!
# The history of the classes

The journal is read as a history in which every event has to fit what came before
it: states move forward, an initializer starts once, while its class is being
initialized and after its superclass was.  The states of the classes are those at
the end of the history.
-/

namespace ClassEngine.Machine

/-! ## States in a history -/

/-- The steps that the state of a class may take. -/
inductive Forward : ClassState → ClassState → Prop
  | start : Forward .linked .initializing
  | complete : Forward .initializing .initialized
  | fail : Forward .initializing .failed

def ClassState.Begun (state : ClassState) : Prop :=
  state = .initializing ∨ state = .initialized ∨ state = .failed

def ClassState.InUse (state : ClassState) : Prop :=
  state = .initializing ∨ state = .initialized

theorem ClassState.InUse.begun {state : ClassState} (h : state.InUse) : state.Begun := by
  rcases h with rfl | rfl
  · exact .inl rfl
  · exact .inr (.inl rfl)

theorem Forward.eq_failed {state : ClassState} (h : Relation.ReflTransGen Forward .failed state) :
    state = .failed := by
  induction h with
  | refl => rfl
  | tail _ hstep ih =>
      subst ih
      cases hstep

theorem Forward.begun {state state' : ClassState} (h : Forward state state') : state'.Begun := by
  cases h with
  | start => exact .inl rfl
  | complete => exact .inr (.inl rfl)
  | fail => exact .inr (.inr rfl)

theorem not_begun_linked : ¬ ClassState.Begun .linked := by
  rintro (h | h | h) <;> cases h

def lastMove (id : ClassId) : List Event → Option ClassState
  | [] => none
  | .moved id' state :: earlier => if id' = id then some state else lastMove id earlier
  | _ :: earlier => lastMove id earlier

/-- The state of a class after the events of a journal. -/
def Registry.stateAfter (reg : Registry) (journal : List Event) (id : ClassId) :
    Option ClassState :=
  (reg.classes[id]?).map fun c => (lastMove id journal).getD c.firstState

def Registry.state? (reg : Registry) (id : ClassId) : Option ClassState :=
  (reg.status? id).map (·.state)

theorem Registry.state?_modifyStatus (reg : Registry) (id id' : ClassId)
    (f : ClassStatus → ClassStatus) :
    (reg.modifyStatus id f).state? id' =
      if id = id' then (reg.status? id').map fun s => (f s).state else reg.state? id' := by
  simp only [state?, status?_modifyStatus]
  split
  · rw [Option.map_map]
    rfl
  · rfl

def Started (journal : List Event) (id : ClassId) : Prop :=
  ∃ m : MethodId, m.owner = id ∧ .running m ∈ journal

def Legal (reg : Registry) (earlier : List Event) : Event → Prop
  | .moved id state => ∃ before, reg.stateAfter earlier id = some before ∧ Forward before state
  | .running m => reg.stateAfter earlier m.owner = some .initializing ∧ ¬ Started earlier m.owner ∧
      ∃ c, reg.classes[m.owner]? = some c ∧ (c.isInterface = false → ∀ s, c.super? = some s →
        ∃ state, reg.stateAfter earlier s = some state ∧ state.InUse)
  | .caught _ | .ended _ => True

def History (reg : Registry) : List Event → Prop
  | [] => True
  | e :: earlier => Legal reg earlier e ∧ History reg earlier

theorem History.legal {reg : Registry} {later earlier : List Event} {e : Event}
    (h : History reg (later ++ e :: earlier)) : Legal reg earlier e := by
  induction later with
  | nil => exact h.1
  | cons _ later ih => exact ih h.2

theorem stateAfter_of_grows {reg reg' : Registry} (h : reg.Grows reg') {journal : List Event}
    {id : ClassId} {state : ClassState} (hstate : reg.stateAfter journal id = some state) :
    reg'.stateAfter journal id = some state := by
  obtain ⟨c, hc, hstate⟩ := Option.map_eq_some_iff.mp hstate
  exact Option.map_eq_some_iff.mpr ⟨c, h.classes hc, hstate⟩

theorem Legal.of_grows {reg reg' : Registry} (hgrows : reg.Grows reg') {earlier : List Event}
    {e : Event} (h : Legal reg earlier e) : Legal reg' earlier e := by
  cases e with
  | moved id state =>
      obtain ⟨before, hbefore, hforward⟩ := h
      exact ⟨before, stateAfter_of_grows hgrows hbefore, hforward⟩
  | running m =>
      obtain ⟨hstate, hfirst, c, hc, hsuper⟩ := h
      refine ⟨stateAfter_of_grows hgrows hstate, hfirst, c, hgrows.classes hc, ?_⟩
      intro hinterface s hs
      obtain ⟨state, hs, hused⟩ := hsuper hinterface s hs
      exact ⟨state, stateAfter_of_grows hgrows hs, hused⟩
  | caught | ended => trivial

theorem History.of_grows {reg reg' : Registry} (hgrows : reg.Grows reg') {journal : List Event}
    (h : History reg journal) : History reg' journal := by
  induction journal with
  | nil => trivial
  | cons e earlier ih => exact ⟨h.1.of_grows hgrows, ih h.2⟩

theorem stateAfter_cons_of_ne {reg : Registry} {journal : List Event} {id id' : ClassId}
    {state : ClassState} (h : id' ≠ id) :
    reg.stateAfter (.moved id' state :: journal) id = reg.stateAfter journal id := by
  simp [Registry.stateAfter, lastMove, h]

theorem stateAfter_moved {reg : Registry} {journal : List Event} {id : ClassId}
    {before state : ClassState} (h : reg.stateAfter journal id = some before) :
    reg.stateAfter (.moved id state :: journal) id = some state := by
  obtain ⟨c, hc, -⟩ := Option.map_eq_some_iff.mp h
  simp [Registry.stateAfter, lastMove, hc]

theorem started_cons {e : Event} {journal : List Event} {id : ClassId} :
    Started (e :: journal) id ↔
      (∃ m : MethodId, m.owner = id ∧ e = .running m) ∨ Started journal id := by
  simp only [Started, List.mem_cons]
  constructor
  · rintro ⟨m, hm, heq | hmem⟩
    · exact .inl ⟨m, hm, heq.symm⟩
    · exact .inr ⟨m, hm, hmem⟩
  · rintro (⟨m, hm, heq⟩ | ⟨m, hm, hmem⟩)
    · exact ⟨m, hm, .inl heq.symm⟩
    · exact ⟨m, hm, .inr hmem⟩

theorem History.forward {reg : Registry} {later earlier : List Event}
    (h : History reg (later ++ earlier)) {id : ClassId} {state : ClassState}
    (hstate : reg.stateAfter earlier id = some state) :
    ∃ state', reg.stateAfter (later ++ earlier) id = some state' ∧
      Relation.ReflTransGen Forward state state' := by
  induction later with
  | nil => exact ⟨state, hstate, .refl⟩
  | cons e later ih =>
      rw [List.cons_append] at h ⊢
      obtain ⟨hlegal, hlater⟩ := h
      obtain ⟨state', hstate', hforward⟩ := ih hlater
      cases e with
      | moved id' next =>
          by_cases hid : id' = id
          · subst hid
            obtain ⟨before, hbefore, hnext⟩ := hlegal
            rw [hstate'] at hbefore
            cases hbefore
            exact ⟨next, stateAfter_moved hstate', hforward.tail hnext⟩
          · exact ⟨state', (stateAfter_cons_of_ne hid).trans hstate', hforward⟩
      | running | caught | ended => exact ⟨state', hstate', hforward⟩

theorem History.begun {reg : Registry} {journal : List Event} (h : History reg journal)
    {id : ClassId} (hstarted : Started journal id) :
    ∃ state, reg.stateAfter journal id = some state ∧ state.Begun := by
  induction journal with
  | nil =>
      obtain ⟨m, -, hmem⟩ := hstarted
      cases hmem
  | cons e earlier ih =>
      obtain ⟨hlegal, hearlier⟩ := h
      cases e with
      | moved id' state =>
          have hstarted' : Started earlier id := by
            rcases started_cons.mp hstarted with ⟨m, -, heq⟩ | hstarted'
            · cases heq
            · exact hstarted'
          by_cases hid : id' = id
          · subst hid
            obtain ⟨before, hbefore, hforward⟩ := hlegal
            exact ⟨state, stateAfter_moved hbefore, hforward.begun⟩
          · rw [stateAfter_cons_of_ne hid]
            exact ih hearlier hstarted'
      | running m =>
          rcases started_cons.mp hstarted with ⟨m', hm', heq⟩ | hstarted'
          · cases heq
            subst hm'
            exact ⟨.initializing, hlegal.1, .inl rfl⟩
          · exact ih hearlier hstarted'
      | caught | ended =>
          rcases started_cons.mp hstarted with ⟨m, -, heq⟩ | hstarted'
          · cases heq
          · exact ih hearlier hstarted'

theorem History.stateAfter_ne_loaded {reg : Registry} {journal : List Event}
    (h : History reg journal) {id : ClassId} : reg.stateAfter journal id ≠ some .loaded := by
  intro hloaded
  obtain ⟨c, hc, -⟩ := Option.map_eq_some_iff.mp hloaded
  have hfirst : reg.stateAfter [] id = some c.firstState := by
    simp [Registry.stateAfter, lastMove, hc]
  rw [← List.append_nil journal] at h hloaded
  obtain ⟨state, hstate, hforward⟩ := h.forward hfirst
  rw [hloaded] at hstate
  cases hstate
  rcases hforward.cases_tail with heq | ⟨_, -, hstep⟩
  · unfold Class.firstState at heq
    split at heq <;> cases heq
  · cases hstep

/-- The event is the start of the initializer of a class. -/
def Event.starts (id : ClassId) : Event → Bool
  | .running m => m.owner = id
  | _ => false

theorem countP_starts_eq_zero {journal : List Event} {id : ClassId} (h : ¬ Started journal id) :
    journal.countP (·.starts id) = 0 := by
  rw [List.countP_eq_zero]
  intro e hmem hstarts
  cases e with
  | running m => exact h ⟨m, by simpa [Event.starts] using hstarts, hmem⟩
  | moved | caught | ended => cases hstarts

theorem History.countP_le {reg : Registry} {journal : List Event} (h : History reg journal)
    (id : ClassId) : journal.countP (·.starts id) ≤ 1 := by
  induction journal with
  | nil => simp
  | cons e earlier ih =>
      obtain ⟨hlegal, hearlier⟩ := h
      rw [List.countP_cons]
      cases e with
      | running m =>
          by_cases hm : m.owner = id
          · subst hm
            rw [countP_starts_eq_zero hlegal.2.1]
            simp [Event.starts]
          · simpa [Event.starts, hm] using ih hearlier
      | moved | caught | ended => simpa [Event.starts] using ih hearlier

/-! ## Machines with a history -/

/-- The journal is a history, and it ends with the states that the classes have. -/
structure Vm.Consistent (vm : Vm) : Prop where
  wellFormed : vm.registry.WellFormed
  current : ∀ id, vm.registry.state? id = vm.registry.stateAfter vm.journal id
  history : History vm.registry vm.journal

/-- What an operation does to the classes: none is lost, and one whose initialization
has begun keeps its state, unless it is `own`. -/
structure EvolvesBut (own : Option ClassId) (a b : Vm) : Prop where
  grows : a.registry.Grows b.registry
  journal : a.journal <:+ b.journal
  state : ∀ {id state}, some id ≠ own → a.registry.state? id = some state → state.Begun →
    b.registry.state? id = some state
  started : ∀ {id state}, some id ≠ own → a.registry.state? id = some state → state.Begun →
    Started b.journal id → Started a.journal id

abbrev Evolves : Vm → Vm → Prop := EvolvesBut none

variable {a b c : Vm} {own : Option ClassId}

theorem EvolvesBut.refl (own : Option ClassId) (vm : Vm) : EvolvesBut own vm vm where
  grows := .refl _
  journal := List.suffix_rfl
  state _ h _ := h
  started _ _ _ h := h

theorem EvolvesBut.trans (hab : EvolvesBut own a b) (hbc : EvolvesBut own b c) :
    EvolvesBut own a c where
  grows := hab.grows.trans hbc.grows
  journal := hab.journal.trans hbc.journal
  state hne hs hbegun := hbc.state hne (hab.state hne hs hbegun) hbegun
  started hne hs hbegun h :=
    hab.started hne hs hbegun (hbc.started hne (hab.state hne hs hbegun) hbegun h)

theorem Evolves.but (h : Evolves a b) (own : Option ClassId) : EvolvesBut own a b where
  grows := h.grows
  journal := h.journal
  state _ hs hbegun := h.state nofun hs hbegun
  started _ hs hbegun := h.started nofun hs hbegun

theorem EvolvesBut.evolves {id : ClassId} {state : ClassState} (h : EvolvesBut (some id) a b)
    (hstate : a.registry.state? id = some state) (hnot : ¬ state.Begun) : Evolves a b where
  grows := h.grows
  journal := h.journal
  state := by
    intro id' state' _ hs hbegun
    refine h.state ?_ hs hbegun
    rintro ⟨⟩
    rw [hstate] at hs
    cases hs
    exact hnot hbegun
  started := by
    intro id' state' _ hs hbegun
    refine h.started ?_ hs hbegun
    rintro ⟨⟩
    rw [hstate] at hs
    cases hs
    exact hnot hbegun

def keepsHistory : Effect := fun a _ b => a.Consistent → b.Consistent ∧ Evolves a b

theorem keepsHistory_refl (o : Option Stop) (vm : Vm) : keepsHistory vm o vm :=
  fun h => ⟨h, .refl _ vm⟩

theorem keepsHistory_trans {o o' : Option Stop} (hab : keepsHistory a o b)
    (hbc : keepsHistory b o' c) : keepsHistory a o' c := by
  intro ha
  obtain ⟨hb, hab⟩ := hab ha
  obtain ⟨hc, hbc⟩ := hbc hb
  exact ⟨hc, hab.trans hbc⟩

theorem lastMove_eq_none {reg : Registry} {journal : List Event} (h : History reg journal)
    {id : ClassId} (hid : reg.classes[id]? = none) : lastMove id journal = none := by
  induction journal with
  | nil => rfl
  | cons e earlier ih =>
      obtain ⟨hlegal, hearlier⟩ := h
      cases e with
      | moved id' state =>
          have hne : id' ≠ id := by
            rintro rfl
            obtain ⟨before, hbefore, -⟩ := hlegal
            simp [Registry.stateAfter, hid] at hbefore
          simpa [lastMove, hne] using ih hearlier
      | running | caught | ended => exact ih hearlier

theorem Registry.WellFormed.classes_eq_none_iff {reg : Registry} (h : reg.WellFormed)
    {id : ClassId} : reg.classes[id]? = none ↔ reg.status? id = none := by
  rw [status?, Array.getElem?_eq_none_iff, Array.getElem?_eq_none_iff, h.aligned]

/-- A change keeps the states of the classes there are, and gives each new class
its first state. -/
theorem states_of_change (h : Change a b) (hw : a.registry.WellFormed) :
    (∀ {id state}, a.registry.state? id = some state → b.registry.state? id = some state) ∧
      ∀ {id state}, a.registry.state? id = none → b.registry.state? id = some state →
        ∃ c, b.registry.classes[id]? = some c ∧ state = c.firstState := by
  have hmodify (id : ClassId) (f : ClassStatus → ClassStatus) (hf : ∀ s, (f s).state = s.state)
      (id' : ClassId) : (a.registry.modifyStatus id f).state? id' = a.registry.state? id' := by
    rw [Registry.state?_modifyStatus]
    split
    · simp only [hf]
      rfl
    · rfl
  cases h with
  | heap | profiler | frame | enter =>
      exact ⟨id, fun hnone hsome => by simp [hnone] at hsome⟩
  | load name =>
      have hextends := (Registry.load_loads a.source [] name a.registry).nested.extension
      constructor
      · intro id state hs
        obtain ⟨s, hstatus, rfl⟩ := Option.map_eq_some_iff.mp hs
        exact Option.map_eq_some_iff.mpr ⟨s, hextends.statuses hstatus, rfl⟩
      · intro id state hnone hsome
        obtain ⟨s, hstatus, rfl⟩ := Option.map_eq_some_iff.mp hsome
        exact hextends.fresh hw.aligned (Option.map_eq_none_iff.mp hnone) hstatus
  | keep id index r unresolved sound =>
      have hsame (id' : ClassId) := hmodify id (fun s => { s with
        resolutions := s.resolutions.setIfInBounds index.toNat (some r) }) (fun _ => rfl) id'
      exact ⟨fun hs => (hsame _).trans hs, fun hnone hsome =>
        absurd ((hsame _).symm.trans hsome) (by simp [hnone])⟩
  | assign f v =>
      have hsame (id' : ClassId) := hmodify f.id.owner (fun s => { s with
        statics := s.statics.setIfInBounds f.slot v }) (fun _ => rfl) id'
      exact ⟨fun hs => (hsame _).trans hs, fun hnone hsome =>
        absurd ((hsame _).symm.trans hsome) (by simp [hnone])⟩

theorem consistent_of_change (h : Change a b) (ha : a.Consistent) :
    b.Consistent ∧ Evolves a b := by
  have hgrows := grows_of_change h
  have hw := wellFormed_of_change h ha.wellFormed
  have hjournal := journal_of_change h
  obtain ⟨hold, hnew⟩ := states_of_change h ha.wellFormed
  refine ⟨⟨hw, fun id => ?_, hjournal ▸ ha.history.of_grows hgrows⟩, hgrows,
    hjournal ▸ List.suffix_rfl, fun _ hs _ => hold hs, fun _ _ _ hstarted => hjournal ▸ hstarted⟩
  cases hs : a.registry.state? id with
  | some state =>
      rw [hold hs, hjournal]
      exact (stateAfter_of_grows hgrows ((ha.current id).symm.trans hs)).symm
  | none =>
      cases hs' : b.registry.state? id with
      | none =>
          have hc := hw.classes_eq_none_iff.mpr (Option.map_eq_none_iff.mp hs')
          simp [Registry.stateAfter, hc]
      | some state =>
          obtain ⟨c, hc, rfl⟩ := hnew hs hs'
          have hmoves := lastMove_eq_none ha.history
            (ha.wellFormed.classes_eq_none_iff.mpr (Option.map_eq_none_iff.mp hs))
          simp [Registry.stateAfter, hc, hjournal, hmoves]

theorem keepsHistory_of_changes {o : Option Stop} (h : Changes a b) : keepsHistory a o b := by
  induction h with
  | refl => exact keepsHistory_refl o a
  | tail _ hchange ih => exact keepsHistory_trans ih (consistent_of_change hchange)

theorem steady_keepsHistory : keepsHistory.Steady where
  small h := keepsHistory_of_changes h.1
  trans h h' := keepsHistory_trans h h'

/-! ## Events of initialization -/

theorem consistent_setState {id : ClassId} {before state : ClassState} (ha : a.Consistent)
    (hbefore : a.registry.state? id = some before) (hforward : Forward before state) :
    (Exec.after (Exec.setState id state) a).Consistent ∧
      EvolvesBut (some id) a (Exec.after (Exec.setState id state) a) ∧
      (Exec.after (Exec.setState id state) a).registry.state? id = some state := by
  show Vm.Consistent { a with
      registry := a.registry.modifyStatus id fun s => { s with state }
      journal := .moved id state :: a.journal } ∧
    EvolvesBut (some id) a { a with
      registry := a.registry.modifyStatus id fun s => { s with state }
      journal := .moved id state :: a.journal } ∧
    (a.registry.modifyStatus id fun s => { s with state }).state? id = some state
  have hgrows : a.registry.Grows (a.registry.modifyStatus id fun s => { s with state }) :=
    Registry.grows_modifyStatus _ _ _ fun s _ => ⟨rfl, fun h => h⟩
  have hself : (a.registry.modifyStatus id fun s => { s with state }).state? id = some state := by
    obtain ⟨s, hs, -⟩ := Option.map_eq_some_iff.mp hbefore
    rw [Registry.state?_modifyStatus, if_pos rfl, hs]
    rfl
  have hother {id' : ClassId} (hne : id ≠ id') :
      (a.registry.modifyStatus id fun s => { s with state }).state? id' =
        a.registry.state? id' := by
    rw [Registry.state?_modifyStatus, if_neg hne]
  have hstate := (ha.current id).symm.trans hbefore
  refine ⟨⟨?_, ?_, ?_, ?_⟩, ⟨hgrows, List.suffix_cons _ _, ?_, ?_⟩, hself⟩
  · exact Registry.wellFormed_modifyStatus ha.wellFormed _ _ fun s hs i r hr =>
      ha.wellFormed.kept hs hr
  · intro id'
    by_cases hid : id = id'
    · subst hid
      exact hself.trans (stateAfter_moved hstate).symm
    · rw [stateAfter_cons_of_ne hid]
      exact (hother hid).trans (ha.current id')
  · exact ⟨before, hstate, hforward⟩
  · exact ha.history.of_grows hgrows
  · intro id' state' hne hs _
    exact (hother fun hid => hne (hid ▸ rfl)).trans hs
  · intro id' state' _ _ _ hstarted
    rcases started_cons.mp hstarted with ⟨m, -, heq⟩ | hstarted
    · cases heq
    · exact hstarted

theorem consistent_running {m : MethodId} {c : Class} (ha : a.Consistent)
    (hstate : a.registry.state? m.owner = some .initializing)
    (hfirst : ¬ Started a.journal m.owner) (hc : a.registry.classes[m.owner]? = some c)
    (hsuper : c.isInterface = false → ∀ s, c.super? = some s →
      ∃ state, a.registry.state? s = some state ∧ state.InUse) :
    (Exec.after (Exec.note (.running m)) a).Consistent ∧
      EvolvesBut (some m.owner) a (Exec.after (Exec.note (.running m)) a) := by
  show Vm.Consistent { a with journal := .running m :: a.journal } ∧
    EvolvesBut (some m.owner) a { a with journal := .running m :: a.journal }
  refine ⟨⟨ha.wellFormed, ha.current, ⟨?_, hfirst, c, hc, ?_⟩, ha.history⟩,
    ⟨.refl _, List.suffix_cons _ _, fun _ hs _ => hs, ?_⟩⟩
  · exact (ha.current m.owner).symm.trans hstate
  · intro hinterface s hs
    obtain ⟨state, hstate, hused⟩ := hsuper hinterface s hs
    exact ⟨state, (ha.current s).symm.trans hstate, hused⟩
  · intro id state hne _ _ hstarted
    rcases started_cons.mp hstarted with ⟨m', hm', heq⟩ | hstarted
    · cases heq
      exact absurd (congrArg some hm'.symm) hne
    · exact hstarted

theorem consistent_note {e : Event} (ha : a.Consistent)
    (he : (∃ r, e = .caught r) ∨ ∃ f, e = .ended f) :
    (Exec.after (Exec.note e) a).Consistent ∧ Evolves a (Exec.after (Exec.note e) a) := by
  show Vm.Consistent { a with journal := e :: a.journal } ∧
    Evolves a { a with journal := e :: a.journal }
  refine ⟨⟨ha.wellFormed, ?_, ?_, ha.history⟩,
    ⟨.refl _, List.suffix_cons _ _, fun _ hs _ => hs, ?_⟩⟩
  · rcases he with ⟨r, rfl⟩ | ⟨f, rfl⟩ <;> exact ha.current
  · rcases he with ⟨r, rfl⟩ | ⟨f, rfl⟩ <;> trivial
  · intro id state _ _ _ hstarted
    rcases started_cons.mp hstarted with ⟨m, -, heq⟩ | hstarted
    · rcases he with ⟨r, rfl⟩ | ⟨f, rfl⟩ <;> cases heq
    · exact hstarted

end ClassEngine.Machine
