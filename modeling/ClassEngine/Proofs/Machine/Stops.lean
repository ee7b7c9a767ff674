import ClassEngine.Machine.Host
import ClassEngine.Proofs.Machine.Exceptions
import ClassEngine.Proofs.Machine.Instructions

/-!
# How runs stop

A request either is refused at once or runs a method in a new frame.  Whatever the
instructions of a run stop with, the run itself stops in few ways: an exception of the
guest is unwound, a fault is raised if a guest exception stands for it, and a defect
becomes an internal fault.
-/

namespace ClassEngine.Machine

namespace Exec

theorem guard_cases {α : Type} (c : Prop) [Decidable c] (e : Fault) (x : Exec α) (vm : Vm) :
    (do
        if c then fault e
        x : Exec α) vm = .error (.fault e) vm ∨
      (do
        if c then fault e
        x : Exec α) vm = x vm := by
  dsimp only
  by_cases hc : c
  · exact .inl (congrFun (if_pos hc) vm)
  · exact .inr (congrFun (if_neg hc) vm)

theorem checkDepth_cases (vm : Vm) :
    (∃ e, e.isCovered = true ∧ checkDepth vm = .error (.fault e) vm) ∨
      (vm.frames.length < vm.maxFrames ∧ checkDepth vm = .ok () vm) := by
  simp only [checkDepth, bind_apply, get_apply]
  by_cases hfull : vm.maxFrames ≤ vm.frames.length
  · exact .inl ⟨_, rfl, congrFun (if_pos hfull) vm⟩
  · exact .inr ⟨Nat.lt_of_not_le hfull, congrFun (if_neg hfull) vm⟩

theorem checkDepth_eq_ok {vm vm' : Vm} (h : checkDepth vm = .ok () vm') :
    vm' = vm ∧ vm.frames.length < vm.maxFrames := by
  rcases checkDepth_cases vm with ⟨e, -, hdepth⟩ | ⟨hroom, hdepth⟩
  · rw [hdepth] at h
    contradiction
  · rw [hdepth] at h
    cases h
    exact ⟨rfl, hroom⟩

/-- A request to run a method is refused, and nothing has changed, or there is room for a frame of
the method, its operands are placed, and it runs in that frame. -/
theorem executeBy_enters (run : Nat → Exec Value) (m : Method) (args : List Value) (vm : Vm) :
    (∃ e, e.isCovered = true ∧ executeBy run m args vm = .error (.fault e) vm) ∨
      ∃ body locals profiler?, m.body? = some body ∧ bindArguments m body args = .ok locals ∧
        vm.frames.length < vm.maxFrames ∧ executeBy run m args vm =
          releaseTraces (noteEnd (run vm.frames.length))
            { vm with frames := .enter m body locals :: vm.frames, profiler? } := by
  unfold executeBy
  rcases guard_cases (m.isNative = true) (.unsatisfiedLink m.render) _ vm with h | h <;> rw [h]
  · exact .inl ⟨_, rfl, rfl⟩
  cases hbody : m.body? with
  | none => exact .inl ⟨_, rfl, rfl⟩
  | some body =>
      dsimp only
      rw [bind_apply]
      rcases checkDepth_cases vm with ⟨e, he, hdepth⟩ | ⟨hroom, hdepth⟩ <;> rw [hdepth]
      · exact .inl ⟨e, he, rfl⟩
      dsimp only
      rcases guard_cases (args.length ≠ m.arity)
        (.internal (.argumentCount m.render m.arity args.length)) _ vm with h | h <;> rw [h]
      · exact .inl ⟨_, rfl, rfl⟩
      cases hbind : bindArguments m body args with
      | error d => exact .inl ⟨_, rfl, rfl⟩
      | ok locals => exact .inr ⟨body, locals, _, rfl, hbind, hroom, rfl⟩

theorem executeBy_cases (run : Nat → Exec Value) (m : Method) (args : List Value) (vm : Vm) :
    (∃ e, e.isCovered = true ∧ executeBy run m args vm = .error (.fault e) vm) ∨
      ∃ f profiler?, f.Fits ∧ executeBy run m args vm =
        releaseTraces (noteEnd (run vm.frames.length))
          { vm with frames := f :: vm.frames, profiler? } := by
  rcases executeBy_enters run m args vm with h | ⟨body, locals, profiler?, hbody, -, -, h⟩
  · exact .inl h
  · exact .inr ⟨.enter m body locals, profiler?, hbody, h⟩

/-- The machine without its traces if no frame is left. -/
def released (vm : Vm) : Vm :=
  if vm.frames.isEmpty then { vm with traces := [] } else vm

theorem released_frames (vm : Vm) : (released vm).frames = vm.frames := by
  unfold released
  split <;> rfl

theorem released_registry (vm : Vm) : (released vm).registry = vm.registry := by
  unfold released
  split <;> rfl

theorem released_journal (vm : Vm) : (released vm).journal = vm.journal := by
  unfold released
  split <;> rfl

theorem released_returning (vm : Vm) : (released vm).returning = vm.returning := by
  unfold released
  split <;> rfl

theorem releaseTraces_noteEnd_apply {α : Type} (x : Exec α) (vm : Vm) :
    releaseTraces (noteEnd x) vm =
      match x vm with
      | .ok a vm => .ok a (released vm)
      | .error (.fault e) vm =>
        .error (.fault e) (released { vm with journal := .ended e :: vm.journal })
      | .error stop vm => .error stop (released vm) := by
  unfold releaseTraces noteEnd
  cases x vm with
  | ok a vm' => rfl
  | error stop vm' => cases stop <;> rfl

theorem after_releaseTraces_noteEnd {α : Type} (x : Exec α) (vm : Vm) :
    ∃ journal, after (releaseTraces (noteEnd x)) vm = released { after x vm with journal } := by
  unfold after
  rw [releaseTraces_noteEnd_apply]
  cases x vm with
  | ok a vm' => exact ⟨vm'.journal, rfl⟩
  | error stop vm' =>
      cases stop with
      | fault e => exact ⟨.ended e :: vm'.journal, rfl⟩
      | thrown | defect | undefined | exhausted => exact ⟨vm'.journal, rfl⟩

theorem stop?_releaseTraces_noteEnd {α : Type} (x : Exec α) (vm : Vm) :
    stop? (releaseTraces (noteEnd x)) vm = stop? x vm := by
  unfold stop?
  rw [releaseTraces_noteEnd_apply]
  cases x vm with
  | ok a vm' => rfl
  | error stop vm' => cases stop <;> rfl

variable {K : Effect} {prepare : ClassId → Exec Unit}

theorem Compositional.discard {P : ∀ {α : Type}, Exec α → Prop} (hP : Compositional P) {α : Type}
    {x : Exec α} (hx : P x) :
    P (do
      let _ ← x
      return () : Exec Unit) :=
  hP.bind hx fun _ => hP.small (local_pure ())

theorem Compositional.executeBy {P : ∀ {α : Type}, Exec α → Prop} (hP : Compositional P)
    {run : Nat → Exec Value} (hrun : ∀ base, P (releaseTraces (noteEnd (run base)))) (m : Method)
    (args : List Value) : P (executeBy run m args) := by
  unfold Exec.executeBy
  refine hP.guard _ rfl ?_
  cases hbody : m.body? with
  | none => exact hP.small (local_fault _ rfl)
  | some body =>
      refine hP.bind (hP.small local_checkDepth) fun _ => hP.guard _ rfl ?_
      cases bindArguments m body args with
      | error d => exact hP.small (local_fault _ rfl)
      | ok locals =>
          refine hP.bind (hP.small local_get) fun vm => ?_
          exact hP.bind (hP.small (local_enter hbody)) fun _ => hrun _

theorem has_discard (hK : K.Steady) {α : Type} {x : Exec α} (hx : Has K x) :
    Has K (do
      let _ ← x
      return () : Exec Unit) :=
  (compositional_has hK).discard hx

end Exec

/-! ## Rounds -/

/-- The fault ends a run: it is not raised, or could not be. -/
def Fault.EndsRun (e : Fault) : Prop := e.guestException? = none ∨ e.belongs .internal = true

/-- The operation stops with no exception of the guest, and with a fault only if that ends the
run. -/
structure StopsRound (o : Option Stop) : Prop where
  quiet : Quiet o
  endsRun : ∀ e, o = some (.fault e) → e.EndsRun

/-- The operation leaves no return to be handed on if it found none. -/
def staysClear : Effect := fun a _ b => a.returning = false → b.returning = false

def quietly : Effect := fun a o b => Quiet o ∧ staysClear a o b

def roundStops : Effect := fun a o b => StopsRound o ∧ staysClear a o b

/-- How a run stops.  Unless the machine is lost or the run not finished, it leaves no return,
whatever it found. -/
structure RunStops (a : Vm) (o : Option Stop) (b : Vm) : Prop extends StopsRound o where
  no_defect : ∀ d, o ≠ some (.defect d)
  clear : staysClear a o b
  cleared : o ≠ some .undefined → o ≠ some .exhausted → b.returning = false

theorem stopsRound_none : StopsRound none := ⟨nofun, nofun⟩

theorem steady_staysClear : staysClear.Steady where
  small h ha := (returning_of_changes h.1).trans ha
  trans h h' ha := h' (h ha)

theorem initializing_quietly : quietly.Initializing where
  small h := ⟨h.2.1, steady_staysClear.small h⟩
  trans h h' := ⟨h'.1, steady_staysClear.trans h.2 h'.2⟩
  moved _ _ _ := ⟨quiet_none, id⟩
  running _ _ := ⟨quiet_none, id⟩
  failed _ h := h
  renamed _ h := ⟨nofun, h.2⟩

namespace Exec

theorem endsRun_uncaught (u : Uncaught) : (Fault.uncaught u).EndsRun :=
  .inl (by simp [Fault.guestException?, Fault.guestClasses, Fault.belongs])

theorem roundStops_fault {α : Type} {e : Fault} (he : e.EndsRun) :
    Has roundStops (fault e : Exec α) := by
  refine fun _ => ⟨⟨nofun, ?_⟩, id⟩
  rintro _ ⟨⟩
  exact he

theorem roundStops_modify {f : Vm → Vm} (h : ∀ vm, (f vm).returning = vm.returning) :
    Has roundStops (modify f : Exec Unit) :=
  fun vm => ⟨stopsRound_none, (h vm).trans⟩

section

variable {α β : Type}

theorem Searches.roundStops {x : Exec α} (hx : Searches x) : Has roundStops x :=
  fun vm => ⟨⟨(hx vm).1.2.1, fun e he => absurd he ((hx vm).2 e)⟩,
    steady_staysClear.small (hx vm).1⟩

theorem roundStops_bind {x : Exec α} {f : α → Exec β} (hx : Has roundStops x)
    (hf : ∀ a, Has roundStops (f a)) : Has roundStops (x >>= f) :=
  Has.bind_of_trans (fun h h' => ⟨h'.1, steady_staysClear.trans h.2 h'.2⟩) hx hf

end

theorem roundStops_unwind (base : Nat) (r : Ref) : Has roundStops (unwind base r) := by
  refine roundStops_bind (roundStops_modify fun vm => ?_) fun _ => ?_
  · split <;> rfl
  refine roundStops_bind (searches_classOfObject r).roundStops fun id => ?_
  refine roundStops_bind searches_get.roundStops fun vm => ?_
  refine roundStops_bind (searches_seekHandler base id vm.frames).roundStops fun frames? => ?_
  cases frames? with
  | some frames =>
      refine roundStops_bind (roundStops_modify fun _ => rfl) fun _ => ?_
      refine roundStops_bind (roundStops_modify fun _ => rfl) fun _ => ?_
      exact (searches_push _).roundStops
  | none =>
      refine roundStops_bind (roundStops_modify fun _ => rfl) fun _ => ?_
      refine roundStops_bind (looks_classAt id).searches.roundStops fun c => ?_
      refine roundStops_bind (looks_throwableMessage r).searches.roundStops fun message => ?_
      refine roundStops_bind (looks_traceOf r).searches.roundStops fun trace => ?_
      exact roundStops_fault (endsRun_uncaught _)

theorem roundStops_raiseFault (hprepare : ∀ id, Has quietly (prepare id)) (base : Nat)
    (e : Fault) : Has roundStops (raiseFault prepare base e) := by
  unfold raiseFault
  cases hguest : e.guestException? with
  | none =>
      exact roundStops_bind (roundStops_modify fun _ => rfl) fun _ => roundStops_fault (.inl hguest)
  | some exception =>
      have hnew := has_newThrowable initializing_quietly.toSteady hprepare exception.1 exception.2
      have hattempt : Has quietly.faultless
          (attempt (newThrowable prepare exception.1 exception.2)) :=
        hnew.attempt fun h => ⟨quiet_none, h.2⟩
      refine roundStops_bind (fun vm => ⟨⟨(hattempt vm).1.1, fun e he => ?_⟩, (hattempt vm).1.2⟩)
        fun outcome => ?_
      · exact absurd he ((hattempt vm).2 e)
      · cases outcome with
        | ok r => exact roundStops_unwind base r
        | error cause =>
            refine roundStops_bind (roundStops_modify fun _ => rfl) fun _ =>
              roundStops_fault (.inr ?_)
            simp [Fault.belongs]

theorem finish_stops (base : Nat) (vm : Vm) :
    StopsRound (stop? (finish base) vm) ∧ (after (finish base) vm).returning = false := by
  have hrest : Has roundStops (do
      let vm ← get
      if vm.frames.length = base then return some vm.result
      if vm.hasResult then onFrame (.push vm.result)
      return none : Exec (Option Value)) := by
    refine roundStops_bind searches_get.roundStops fun vm => ?_
    dsimp only
    split
    · exact (searches_pure _).roundStops
    · split
      · exact ((searches_push _).bind fun _ => searches_pure _).roundStops
      · exact (searches_pure _).roundStops
  have h := hrest { vm with returning := false }
  exact ⟨h.1, h.2 rfl⟩

theorem unlessReturning_apply (base : Nat) (x : Exec Unit) (vm : Vm) :
    unlessReturning base x vm =
      if vm.returning then finish base vm else (do x; return none : Exec (Option Value)) vm := by
  unfold unlessReturning
  rw [bind_of_ok (get_apply vm)]
  split <;> rfl

theorem unlessReturning_stops (base : Nat) {x : Exec Unit} (hx : Has roundStops x) (vm : Vm) :
    StopsRound (stop? (unlessReturning base x) vm) ∧
      (after (unlessReturning base x) vm).returning = false := by
  cases hvm : vm.returning with
  | true =>
      have h : unlessReturning base x vm = finish base vm := by
        rw [unlessReturning_apply, hvm, if_pos rfl]
      exact ends_of_eq (P := fun o b => StopsRound o ∧ b.returning = false) h (finish_stops base vm)
  | false =>
      have h : unlessReturning base x vm = (do x; return none : Exec (Option Value)) vm := by
        rw [unlessReturning_apply, hvm, if_neg Bool.false_ne_true]
      have hrest := roundStops_bind hx fun _ => (searches_pure (none : Option Value)).roundStops
      exact ends_of_eq (P := fun o b => StopsRound o ∧ b.returning = false) h
        ⟨(hrest vm).1, (hrest vm).2 hvm⟩

theorem staysClear_perform (hprepare : ∀ id, Has staysClear (prepare id)) {op : Code.Operation}
    (hop : op.isReturn = false) : Has staysClear (perform prepare op) :=
  has_perform steady_staysClear (fun _ _ => id) hprepare hop fun _ =>
    has_selectMethod steady_staysClear fun _ _ => id

/-- Only an instruction that completes can have returned. -/
theorem staysClear_of_step_error (hprepare : ∀ id, Has staysClear (prepare id)) {vm vm' : Vm}
    {stop : Stop} (h : step prepare vm = .error stop vm') : staysClear vm (some stop) vm' := by
  have hS := steady_staysClear
  rcases bind_eq_error h with h | ⟨_, vm₁, h₁, h⟩
  · exact ((local_onFrame _).has hS).error h
  refine hS.trans (((local_onFrame _).has hS).ok h₁) ?_
  rcases bind_eq_error h with h | ⟨byte, vm₂, h₂, h⟩
  · exact ((local_onFrame _).has hS).error h
  refine hS.trans (((local_onFrame _).has hS).ok h₂) ?_
  dsimp only at h
  cases hop : (⟨byte⟩ : Code.Opcode).operation? with
  | none =>
      rw [hop] at h
      exact ((local_unsupported (α := Unit) _).has hS).error h
  | some op =>
      rw [hop] at h
      cases hreturn : op.isReturn with
      | false =>
          exact (staysClear_perform hprepare hreturn).error h
      | true =>
          cases op with
          | returnVoid => cases h
          | returnValue =>
              rcases bind_eq_error h with h | ⟨v, vm₃, -, h⟩
              · exact ((local_onFrame _).has hS).error h
              · cases h
          | _ => cases hreturn

structure AdvanceStops (a : Vm) (o : Option Stop) (b : Vm) : Prop extends StopsRound o where
  clear : staysClear a o b
  cleared : o = none ∨ (∃ e, o = some (.fault e)) → b.returning = false

theorem has_advanceStops (hprepare : ∀ id, Has quietly (prepare id)) (base : Nat) :
    Has AdvanceStops (advance prepare base) := by
  intro vm
  have hends {x : Exec Unit} (hx : Has roundStops x) (vm' : Vm)
      (h : advance prepare base vm = unlessReturning base x vm') :
      AdvanceStops vm (stop? (advance prepare base) vm) (after (advance prepare base) vm) := by
    refine ends_of_eq (P := AdvanceStops vm) h ?_
    obtain ⟨hstops, hcleared⟩ := unlessReturning_stops base hx vm'
    exact ⟨hstops, fun _ => hcleared, fun _ => hcleared⟩
  cases hcase : (do advance.countInstruction; step prepare : Exec Unit) vm with
  | ok _ vm' => exact hends (searches_pure ()).roundStops vm' (by rw [advance, hcase])
  | error stop vm' =>
      have hclear : staysClear vm (some stop) vm' := by
        have hcount : Local advance.countInstruction :=
          reads_currentFrame.isLocal.bind fun _ => local_profile _
        rcases bind_eq_error hcase with h | ⟨_, vm₁, h₁, h⟩
        · exact (hcount.has steady_staysClear).error h
        · exact steady_staysClear.trans ((hcount.has steady_staysClear).ok h₁)
            (staysClear_of_step_error (fun id vm => (hprepare id vm).2) h)
      cases hstop : stop with
      | thrown r => exact hends (roundStops_unwind base r) vm' (by rw [advance, hcase, hstop])
      | fault e =>
          exact hends (roundStops_raiseFault hprepare base e) vm' (by rw [advance, hcase, hstop])
      | defect | undefined | exhausted =>
          have h : advance prepare base vm = .error stop vm' := by rw [advance, hcase, hstop]
          rw [stop?_error h, after_error h, hstop]
          exact ⟨⟨nofun, nofun⟩, hstop ▸ hclear, nofun⟩

/-! ## Runs -/

theorem runStops_contain (hprepare : ∀ id, Has quietly (prepare id)) (base : Nat) :
    Has RunStops (contain base (advance prepare base)) := by
  have hadvance := has_advanceStops hprepare base
  intro vm
  cases hcase : advance prepare base vm with
  | ok v? vm' =>
      have h : contain base (advance prepare base) vm = .ok v? vm' := by rw [contain, hcase]
      rw [stop?_ok h, after_ok h]
      have hvm' := hadvance.ok hcase
      exact ⟨stopsRound_none, nofun, hvm'.clear, fun _ _ => hvm'.cleared (.inl rfl)⟩
  | error stop vm' =>
      have hvm' := hadvance.error hcase
      have hkept (h : contain base (advance prepare base) vm = advance prepare base vm)
          (hdefect : ∀ d, some stop ≠ some (.defect d))
          (hcleared : some stop ≠ some .undefined → some stop ≠ some .exhausted →
            vm'.returning = false) :
          RunStops vm (stop? (contain base (advance prepare base)) vm)
            (after (contain base (advance prepare base)) vm) := by
        rw [stop?_error (h.trans hcase), after_error (h.trans hcase)]
        exact ⟨hvm'.toStopsRound, hdefect, hvm'.clear, hcleared⟩
      cases stop with
      | defect d =>
          have h : contain base (advance prepare base) vm =
              (do cutTo base; clearReturn; fault (.internal d) : Exec (Option Value)) vm' := by
            rw [contain, hcase]
          refine ends_of_eq (P := RunStops vm) h ⟨⟨nofun, ?_⟩, nofun, fun _ => rfl, fun _ _ => rfl⟩
          rintro _ ⟨⟩
          exact .inr (by simp [Fault.belongs])
      | fault e =>
          exact hkept (by rw [contain, hcase]) nofun fun _ _ => hvm'.cleared (.inr ⟨e, rfl⟩)
      | thrown r => exact absurd rfl (hvm'.quiet r)
      | undefined => exact hkept (by rw [contain, hcase]) nofun fun h => absurd rfl h
      | exhausted => exact hkept (by rw [contain, hcase]) nofun fun _ h => absurd rfl h

theorem quietly_executeBy {run : Nat → Exec Value} (hrun : ∀ base, Has RunStops (run base))
    (m : Method) (args : List Value) : Has quietly (executeBy run m args) := by
  refine (compositional_has initializing_quietly.toSteady).executeBy (fun base vm => ?_) m args
  obtain ⟨journal, hafter⟩ := after_releaseTraces_noteEnd (run base) vm
  rw [stop?_releaseTraces_noteEnd, hafter]
  exact ⟨(hrun base vm).quiet, fun hvm => (released_returning _).trans ((hrun base vm).clear hvm)⟩

theorem quietly_initializeBy {run : Nat → Exec Value} (hrun : ∀ base, Has RunStops (run base))
    (id : ClassId) : Has quietly (initializeBy run id) :=
  has_ensureInitialized initializing_quietly (fun m =>
    has_discard initializing_quietly.toSteady (quietly_executeBy hrun m [])) id

theorem runStops_run (fuel : Nat) : ∀ base, Has RunStops (run fuel base) := by
  induction fuel with
  | zero => exact fun base vm => ⟨⟨nofun, nofun⟩, nofun, id, fun _ h => absurd rfl h⟩
  | succ fuel ih =>
      intro base
      have hround := runStops_contain (quietly_initializeBy ih) base
      intro vm
      refine ends_bind (P := RunStops vm) (fun v? vm' h => ?_) fun stop vm' h => hround.error h
      cases v? with
      | some v => exact hround.ok h
      | none =>
          have hrest := ih base vm'
          exact { hrest with clear := steady_staysClear.trans (hround.ok h).clear hrest.clear }

end Exec

end ClassEngine.Machine
