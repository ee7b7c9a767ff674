import ClassEngine.Proofs.Machine.Entries
import ClassEngine.Proofs.Machine.Frames
import ClassEngine.Proofs.Machine.RegistryLaw

/-!
# Reachable states

The states that a machine comes into: between the requests of its host, between the
instructions of a run, and inside an instruction.  A round with initializers in it is
taken as a whole, or it is left where one of them starts; what is inside an initializer
is then between its own rounds.
-/

namespace ClassEngine.Machine

open Code
open ClassFile (Body)

/-! ## Call sites -/

/-- How the instruction at a position of some code uses the pool, and the entry it uses, if
it is a call whose method the receiver selects. -/
def callAt? (body : Body) (pc : Nat) : Option (PoolUse × UInt16) := do
  let byte ← body.code[pc]?
  let operation ← (⟨byte⟩ : Opcode).operation?
  let use ← Exec.selectionUse? operation
  let index ← BigEndian.read16? body.code (pc + 1)
  return (use, index)

def Exec.resolveCallee (id : ClassId) (index : UInt16) : PoolUse → Exec Method
  | .interfaceMethod => resolveInterfaceMethod id index
  | _ => resolveMethod id index

theorem Exec.repeatable_resolveCallee (id : ClassId) (index : UInt16) (use : PoolUse) :
    Repeatable Descends (resolveCallee id index use) := by
  cases use with
  | interfaceMethod => exact repeatable_resolveInterfaceMethod id index
  | _ => exact repeatable_resolveMethod id index

/-- The instruction at the call site calls `m`, and this is known without loading classes. -/
structure Vm.Calls (vm : Vm) (site : CallSite) (m : Method) : Prop where
  resolved : ∃ body use index, site.method.body? = some body ∧
    callAt? body site.pc = some (use, index) ∧
    Exec.resolveCallee site.method.id.owner index use vm = .ok m vm

def Vm.Calling (vm : Vm) (m : Method) : Prop :=
  ∃ f below, vm.frames = f :: below ∧ vm.Calls ⟨f.method, f.opPc⟩ m

theorem Vm.Calls.unique {vm : Vm} {site : CallSite} {m m' : Method} (h : vm.Calls site m)
    (h' : vm.Calls site m') : m = m' := by
  obtain ⟨body, use, index, hbody, hcall, hm⟩ := h.resolved
  obtain ⟨body', use', index', hbody', hcall', hm'⟩ := h'.resolved
  rw [hbody] at hbody'
  cases hbody'
  rw [hcall] at hcall'
  cases hcall'
  rw [hm] at hm'
  cases hm'
  rfl

theorem Vm.Calls.of_grows {vm vm' : Vm} {site : CallSite} {m : Method} (h : vm.Calls site m)
    (hvm : Exec.Descends vm.registry) (hgrows : vm.registry.Grows vm'.registry) :
    vm'.Calls site m := by
  obtain ⟨body, use, index, hbody, hcall, hm⟩ := h.resolved
  refine ⟨body, use, index, hbody, hcall, ?_⟩
  have hfirst : Exec.attempt (Exec.resolveCallee site.method.id.owner index use) vm =
      .ok (.ok m) vm := by rw [Exec.attempt_apply, hm]
  have hrepeat := Exec.repeatable_resolveCallee site.method.id.owner index use
  exact Exec.ok_of_attempt (hrepeat.again hvm hfirst hgrows)

/-! ## States -/

/-- The runs `r` are the runs `run`, or are left at their start with no rounds to use. -/
def Interrupts (r run : Nat → Exec Value) : Prop :=
  ∀ base vm, r base vm = run base vm ∨ r base vm = .error .exhausted vm

inductive Vm.Reachable : Vm → Prop
  | start (source? : Option Search.Source) (maxFrames : Int)
      (profiler? : Option (Profiler MethodId)) : Reachable (Vm.start source? maxFrames profiler?)
  | answer {vm : Vm} (h : Reachable vm) (call : HostCall) :
      Reachable (Exec.after (Exec.answer call) vm)
  | execute {vm : Vm} (h : Reachable vm) {r : Nat → Exec Value} {fuel : Nat}
      (hr : Interrupts r (Exec.run fuel)) (m : Method) (args : List Value) :
      Reachable (Exec.after (Exec.executeBy r m args) vm)
  | prepare {vm : Vm} (h : Reachable vm) {r : Nat → Exec Value} {fuel : Nat}
      (hr : Interrupts r (Exec.run fuel)) (id : ClassId) :
      Reachable (Exec.after (Exec.initializeBy r id) vm)
  | round {vm : Vm} (h : Reachable vm) {r : Nat → Exec Value} {fuel : Nat}
      (hr : Interrupts r (Exec.run fuel)) (base : Nat) :
      Reachable (Exec.after (Exec.contain base (Exec.advance (Exec.initializeBy r) base)) vm)
  /-- One of the changes of which an instruction is made. -/
  | change {vm vm' : Vm} (h : Reachable vm) (hchange : Change vm vm') : Reachable vm'
  /-- A call instruction has selected a method. -/
  | select {vm : Vm} (h : Reachable vm) {m : Method} (hm : vm.Calling m) (receiver : Value) :
      Reachable (Exec.after (Exec.selectMethod m receiver) vm)

/-! ## Invariants -/

def keeps (I : Vm → Prop) : Effect := fun a _ b => I a → I b

structure Vm.Kept (I : Vm → Prop) : Prop where
  change : ∀ {a b : Vm}, Change a b → I a → I b
  bare : ∀ {vm : Vm} {frames : List Frame} (traces : List (Ref × List TraceElement)),
    vm.Resumes frames → I vm → I { vm with frames, traces }
  returns : ∀ {vm : Vm} (returning : Bool) (result : Value) (hasResult : Bool),
    I vm → I { vm with returning, result, hasResult }
  journal : ∀ {vm : Vm} (journal : List Event), I vm → I { vm with journal }
  setState : ∀ {vm : Vm} (id : ClassId) (state : ClassState), I vm →
    I (Exec.after (Exec.setState id state) vm)

/-- A property that also single instructions keep, if the initializations in them do. -/
structure Vm.Invariant (I : Vm → Prop) : Prop extends Vm.Kept I where
  select : ∀ {vm : Vm} {m : Method} (receiver : Value), vm.Calling m → I vm →
    I (Exec.after (Exec.selectMethod m receiver) vm)
  step : ∀ {prepare : ClassId → Exec Unit}, (∀ id, Exec.Has (keeps I) (prepare id)) →
    Exec.Has (keeps I) (Exec.step prepare)

namespace Vm

variable {I : Vm → Prop}

theorem Kept.steady (hI : Vm.Kept I) : (keeps I).Steady where
  small := by
    rintro a b o ⟨h, -⟩
    induction h with
    | refl => exact id
    | tail _ hchange ih => exact fun ha => hI.change hchange (ih ha)
  trans h h' ha := h' (h ha)

theorem Kept.initializing (hI : Vm.Kept I) : (keeps I).Initializing where
  toSteady := hI.steady
  moved id state _ h := hI.setState id state h
  running _ _ h := hI.journal _ h
  failed id h ha := hI.setState id .failed (h ha)
  renamed _ h := h

theorem Kept.working (hI : Vm.Kept I) : (keeps I).Working where
  toSteady := hI.steady
  bare traces hresumes h ha := hI.bare traces hresumes (h ha)
  raise _ _ := id
  returns _ returning result hasResult h := hI.returns returning result hasResult h
  thrown h h' ha := h' (h ha)
  overlooked _ h h' ha := h' (h ha)
  raised _ h h' ha := h' (h ha)
  escaped _ _ := id
  caught _ _ h := hI.journal _ h
  uncreated _ _ h := h
  contained h ha := hI.returns false _ _ (h ha)
  ended _ _ h ha := hI.journal _ (h ha)

theorem Invariant.running (hI : Vm.Invariant I) : (keeps I).Running where
  toWorking := hI.working
  step := hI.step

end Vm

namespace Exec

variable {K : Effect} {r : Nat → Exec Value} {fuel : Nat}

theorem has_interrupted (hR : K.Running) (hI : K.Initializing) (hr : Interrupts r (run fuel))
    (base : Nat) : Has K (r base) := by
  intro vm
  rcases hr base vm with h | h
  · exact ends_of_eq h (has_run hR (has_ensureInitialized hI) fuel base vm)
  · exact ends_of_eq (y := throw .exhausted) h (local_exhausted.has hR.toSteady vm)

theorem runStops_interrupted (hr : Interrupts r (run fuel)) (base : Nat) :
    Has RunStops (r base) := by
  intro vm
  rcases hr base vm with h | h
  · exact ends_of_eq (P := RunStops vm) h (runStops_run fuel base vm)
  · rw [stop?_error h, after_error h]
    exact ⟨⟨nofun, nofun⟩, nofun, id, fun _ h => absurd rfl h⟩

theorem has_executeBy_interrupted (hR : K.Running) (hI : K.Initializing)
    (hr : Interrupts r (run fuel)) (m : Method) (args : List Value) :
    Has K (executeBy r m args) :=
  has_executeBy hR.toWorking (has_interrupted hR hI hr) (runStops_interrupted hr) m args

theorem has_initializeBy_interrupted (hR : K.Running) (hI : K.Initializing)
    (hr : Interrupts r (run fuel)) (id : ClassId) : Has K (initializeBy r id) :=
  has_ensureInitialized hI
    (fun m => has_discard hR.toSteady (has_executeBy_interrupted hR hI hr m [])) id

end Exec

theorem Vm.Reachable.invariant {I : Vm → Prop} (hI : Vm.Invariant I)
    (hstart : ∀ source? maxFrames profiler?, I (Vm.start source? maxFrames profiler?)) {vm : Vm}
    (h : vm.Reachable) : I vm := by
  have hR := hI.running
  have hN := hI.initializing
  induction h with
  | start source? maxFrames profiler? => exact hstart source? maxFrames profiler?
  | answer _ call ih => exact Exec.has_answer hR hN call _ ih
  | execute _ hr m args ih => exact Exec.has_executeBy_interrupted hR hN hr m args _ ih
  | prepare _ hr id ih => exact Exec.has_initializeBy_interrupted hR hN hr id _ ih
  | round _ hr base ih =>
      have hround := Exec.has_advance hR (Exec.has_initializeBy_interrupted hR hN hr) base
      exact Exec.has_contain hR.toWorking base hround _ ih
  | change _ hchange ih => exact hI.change hchange ih
  | select _ hm receiver ih => exact hI.select receiver hm ih

/-! ## What requests restore -/

namespace Exec

theorem quietly_answer (call : HostCall) : Has quietly (answer call) :=
  (compositional_has initializing_quietly.toSteady).answer
    (fun fuel m args => quietly_executeBy (runStops_run fuel) m args)
    (fun fuel => quietly_initializeBy (runStops_run fuel)) call

end Exec

/-- Wherever a request or a round can start, no return is left to be handed on. -/
theorem Vm.Reachable.returning_eq {vm : Vm} (h : vm.Reachable) : vm.returning = false := by
  induction h with
  | start => rfl
  | @answer vm _ call ih => exact (Exec.quietly_answer call vm).2 ih
  | @execute vm _ r fuel hr m args ih =>
      exact (Exec.quietly_executeBy (Exec.runStops_interrupted hr) m args vm).2 ih
  | @prepare vm _ r fuel hr id ih =>
      exact (Exec.quietly_initializeBy (Exec.runStops_interrupted hr) id vm).2 ih
  | @round vm _ r fuel hr base ih =>
      have hround := Exec.runStops_contain
        (Exec.quietly_initializeBy (Exec.runStops_interrupted hr)) base
      exact (hround vm).clear ih
  | change _ hchange ih => exact (returning_of_change hchange).trans ih
  | @select vm _ m _ receiver ih =>
      exact Exec.has_selectMethod steady_staysClear (fun _ _ => id) m receiver vm ih

/-- A request to run a method that comes to an end leaves the frames as they were, whether it
returns or fails, and no return to be handed on.  Between the requests of a session no trace
remains. -/
theorem Exec.execute_restores :
    (∀ fuel m args vm, Restores vm (execute fuel m args vm)) ∧
      (∀ vm : Vm, vm.Reachable → vm.returning = false) ∧
      ∀ source? maxFrames profiler? session,
        ((Vm.start source? maxFrames profiler?).serve session).Settled :=
  ⟨restores_execute, fun _ => Vm.Reachable.returning_eq,
    fun _ _ _ session => settled_serve (fun _ => rfl) session⟩

end ClassEngine.Machine
