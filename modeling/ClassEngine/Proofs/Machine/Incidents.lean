import ClassEngine.Proofs.Machine.Conclusions
import ClassEngine.Proofs.Machine.Frames
import ClassEngine.Proofs.Machine.Settling
import Mathlib.Data.List.DropRight

/-!
# Incidents

What an operation does with exceptions is told by how it is put together: an unwinding
raises one, a run that ends may let one escape and may give back the last frame, and the
changes that instructions are made of do nothing of the kind.  The incidents of the parts
of an operation, in their order, are those of the whole.
-/

namespace ClassEngine.Machine

open Code

/-- The trace of all frames, as an exception raised now would keep it. -/
def Vm.snapshot (vm : Vm) : List TraceElement := vm.frames.map (·.traceElement)

inductive Incident where
  /-- An exception is raised, for the first time or again, on frames with the trace. -/
  | raised (r : Ref) (trace : List TraceElement)
  /-- A run ends with an exception that no handler accepted. -/
  | escaped (u : Uncaught)
  /-- A run ends, and no frame is left. -/
  | emptied
  deriving DecidableEq

/-- The trace of the exception, if this is a raise of it. -/
def Incident.raise? (r : Ref) : Incident → Option (List TraceElement)
  | .raised r' trace => if r' = r then some trace else none
  | .escaped _ | .emptied => none

/-- The frames on which an exception was first raised since the last one was given back. -/
def firstTrace? (incidents : List Incident) (r : Ref) : Option (List TraceElement) :=
  (incidents.rtakeWhile (· ≠ .emptied)).findSome? (·.raise? r)

theorem firstTrace?_concat (incidents : List Incident) {i : Incident} (hi : i ≠ .emptied)
    (r : Ref) : firstTrace? (incidents ++ [i]) r = (firstTrace? incidents r).or (i.raise? r) := by
  unfold firstTrace?
  rw [List.rtakeWhile_concat, if_pos (by simpa using hi), List.findSome?_append,
    List.findSome?_singleton]

theorem firstTrace?_emptied (incidents : List Incident) (r : Ref) :
    firstTrace? (incidents ++ [.emptied]) r = none := by
  simp [firstTrace?]

/-! ## Calm work -/

inductive Vm.Works : Vm → Vm → Prop
  | change {a b : Vm} (h : Change a b) : Works a b
  | moved (vm : Vm) (id : ClassId) (state : ClassState) :
      Works vm (Exec.after (Exec.setState id state) vm)
  | running (vm : Vm) (m : MethodId) : Works vm (Exec.after (Exec.note (.running m)) vm)
  | select (vm : Vm) (sites : List (CallSite × InlineCache ClassId Method)) :
      Works vm { vm with sites }
  /-- The innermost frames are left. -/
  | leave (vm : Vm) {frames : List Frame} (h : frames <:+ vm.frames) : Works vm { vm with frames }
  /-- A result is on its way to a caller, or has got there. -/
  | returns (vm : Vm) (returning : Bool) (result : Value) (hasResult : Bool) :
      Works vm { vm with returning, result, hasResult }

/-- The operation is made of steps that raise nothing. -/
def calm : Effect := fun a _ b =>
  Relation.ReflTransGen Vm.Works a b ∧ (a.registry.Covered → b.registry.Covered)

theorem works_of_changes {a b : Vm} (h : Changes a b) : Relation.ReflTransGen Vm.Works a b :=
  Relation.ReflTransGen.mono (fun _ _ => Vm.Works.change) _ _ h

theorem steady_calm : calm.Steady where
  small h := ⟨works_of_changes h.1, fun ha => (h.2.2 ha).1⟩
  trans h h' := ⟨h.1.trans h'.1, h'.2 ∘ h.2⟩

theorem calm_of_works {a b : Vm} {o : Option Stop} (h : a.Works b)
    (hregistry : a.registry.Covered → b.registry.Covered) : calm a o b :=
  ⟨.single h, hregistry⟩

namespace Exec

variable {α β : Type}

theorem calm_throw (stop : Stop) : Has calm (throw stop : Exec α) :=
  fun _ => ⟨.refl, id⟩

theorem calm_setState (id : ClassId) (state : ClassState) : Has calm (setState id state) :=
  fun vm => calm_of_works (.moved vm id state) (covered_setState id state vm)

theorem calm_running (m : MethodId) : Has calm (note (.running m)) :=
  fun vm => calm_of_works (.running vm m) id

theorem calm_setSite (site : CallSite) (cache : InlineCache ClassId Method) :
    Has calm (setSite site cache) :=
  fun vm => calm_of_works (.select vm _) id

theorem calm_leaveFrame (v? : Option Value) : Has calm (leaveFrame v?) := by
  intro vm
  have hleave := Vm.Works.leave vm (List.drop_suffix 1 vm.frames)
  exact ⟨.tail (.single hleave) (.returns _ true (v?.getD .top) v?.isSome), id⟩

theorem calm_clearReturn : Has calm clearReturn :=
  fun vm => calm_of_works (.returns vm false vm.result vm.hasResult) id

theorem calm_cutTo (base : Nat) : Has calm (cutTo base) :=
  fun vm => calm_of_works (.leave vm (List.drop_suffix _ vm.frames)) id

/-! ## Operations -/

def escapes : Option Stop → List Incident
  | some (.fault (.uncaught u)) => [.escaped u]
  | _ => []

def ending (x : Exec α) (vm : Vm) : List Incident :=
  escapes (stop? x vm) ++ if (after x vm).frames.isEmpty then [.emptied] else []

/-- The incidents of an operation on a machine, the first one first. -/
inductive Tells : {α : Type} → Exec α → Vm → List Incident → Prop
  | calm {α : Type} {x : Exec α} (h : Has calm x) (vm : Vm) : Tells x vm []
  | unwind (base : Nat) (r : Ref) (vm : Vm) : Tells (unwind base r) vm [.raised r vm.snapshot]
  | settle {α β : Type} {x : Exec α} {rest : Except Stop α → Exec β} {vm : Vm}
      {incidents later : List Incident} (first : Tells x vm incidents)
      (next : Tells (rest (outcome x vm)) (after x vm) later) :
      Tells (settle x rest) vm (incidents ++ later)
  | run {fuel base : Nat} {vm : Vm} {incidents : List Incident}
      (h : Tells (run fuel base) vm incidents) :
      Tells (releaseTraces (noteEnd (run fuel base))) vm (incidents ++ ending (run fuel base) vm)

namespace Tells

variable {x : Exec α} {f : α → Exec β} {vm vm' : Vm} {incidents later : List Incident}

theorem bind_ok {a : α} (hx : Tells x vm incidents) (h : x vm = .ok a vm')
    (hf : Tells (f a) vm' later) : Tells (x >>= f) vm (incidents ++ later) := by
  rw [bind_eq_settle]
  refine hx.settle ?_
  rw [outcome, after, h]
  exact hf

theorem bind_error {stop : Stop} (hx : Tells x vm incidents) (h : x vm = .error stop vm') :
    Tells (x >>= f) vm incidents := by
  rw [bind_eq_settle, ← List.append_nil incidents]
  refine hx.settle ?_
  rw [outcome, after, h]
  exact .calm (calm_throw stop) vm'

end Tells

/-! ## Every operation tells its incidents -/

def Telling (x : Exec α) : Prop := ∀ vm, ∃ incidents, Tells x vm incidents

theorem Has.telling {x : Exec α} (hx : Has calm x) : Telling x :=
  fun vm => ⟨[], .calm hx vm⟩

theorem Telling.settle {x : Exec α} {rest : Except Stop α → Exec β} (hx : Telling x)
    (hrest : ∀ end?, Telling (rest end?)) : Telling (settle x rest) := by
  intro vm
  obtain ⟨incidents, hfirst⟩ := hx vm
  obtain ⟨later, hnext⟩ := hrest (outcome x vm) (after x vm)
  exact ⟨incidents ++ later, hfirst.settle hnext⟩

theorem telling_throw (stop : Stop) : Telling (throw stop : Exec α) :=
  (calm_throw stop).telling

theorem compositional_telling : Compositional Telling where
  small hx := (hx.has steady_calm).telling
  bind := by
    intro α β x f hx hf vm
    obtain ⟨incidents, hfirst⟩ := hx vm
    cases hcase : x vm with
    | ok a vm' =>
        obtain ⟨later, hnext⟩ := hf a vm'
        exact ⟨incidents ++ later, hfirst.bind_ok hcase hnext⟩
    | error stop vm' => exact ⟨incidents, hfirst.bind_error hcase⟩

theorem telling_pure (a : α) : Telling (pure a : Exec α) :=
  compositional_telling.small (local_pure a)

theorem Telling.bind {x : Exec α} {f : α → Exec β} (hx : Telling x) (hf : ∀ a, Telling (f a)) :
    Telling (x >>= f) :=
  compositional_telling.bind hx hf

theorem Telling.attempt {x : Exec α} (hx : Telling x) : Telling (attempt x) := by
  rw [attempt_eq_settle]
  refine hx.settle fun end? => ?_
  cases end? with
  | ok a => exact telling_pure _
  | error stop =>
      cases stop with
      | fault e => exact telling_pure _
      | thrown | defect | undefined | exhausted => exact telling_throw _

/-! ### Initialization -/

theorem telling_initializeOwn {runInitializer : Method → Exec Unit}
    (hrun : ∀ m, Telling (runInitializer m)) (c : Class) :
    Telling (initializeOwn runInitializer c) := by
  have hconstants : Has calm (c.fields.forM assignConstant) :=
    has_forM steady_calm.trans ((local_pure ()).has steady_calm)
      (fun f => (local_assignConstant f).has steady_calm) c.fields
  refine hconstants.telling.bind fun _ => ?_
  cases c.declaredMethod? ClassFile.initializerName "()V" with
  | none => exact telling_pure _
  | some m =>
      refine (calm_running m.id).telling.bind fun _ => (hrun m).attempt.bind fun outcome => ?_
      cases outcome with
      | ok u => exact telling_pure _
      | error e => exact telling_throw _

theorem telling_failing (id : ClassId) {x : Exec Unit} (hx : Telling x) :
    Telling (failing id x) := by
  refine hx.attempt.bind fun outcome => ?_
  cases outcome with
  | ok u => exact telling_pure _
  | error e => exact (calm_setState id .failed).telling.bind fun _ => telling_throw _

theorem telling_ensureInitialized {runInitializer : Method → Exec Unit}
    (hrun : ∀ m, Telling (runInitializer m)) (id : ClassId) :
    Telling (ensureInitialized runInitializer id) :=
  compositional_telling.sequential.ensureInitialized
    (fun id => compositional_telling.small (local_classAt id))
    (fun id => compositional_telling.small (reads_statusAt id).isLocal)
    (fun _ => telling_throw _) (fun id state => (calm_setState id state).telling)
    (telling_initializeOwn hrun) telling_failing id

/-! ### Rounds and runs -/

section

variable {prepare : ClassId → Exec Unit}

theorem telling_round (hprepare : ∀ id, Telling (prepare id)) : Telling (round prepare) := by
  have hP := compositional_telling
  have hcount : Local advance.countInstruction :=
    local_currentFrame.bind fun _ => local_profile _
  refine hP.bind (hP.small hcount) fun _ => ?_
  exact hP.step (fun r => telling_throw _) (fun v? => (calm_leaveFrame v?).telling)
    (fun site cache => (calm_setSite site cache).telling) hprepare

theorem telling_unlessReturning (base : Nat) {x : Exec Unit} (hx : Telling x) :
    Telling (unlessReturning base x) :=
  compositional_telling.unlessReturning calm_clearReturn.telling base hx

theorem telling_unwind (base : Nat) (r : Ref) : Telling (unwind base r) :=
  fun vm => ⟨_, .unwind base r vm⟩

theorem telling_raiseFault (hprepare : ∀ id, Telling (prepare id)) (base : Nat) (e : Fault) :
    Telling (raiseFault prepare base e) := by
  have hcut (e : Fault) : Telling (do cutTo base; fault e : Exec Unit) :=
    (calm_cutTo base).telling.bind fun _ => telling_throw _
  unfold raiseFault
  cases e.guestException? with
  | none => exact hcut e
  | some exception =>
      have hnew := compositional_telling.newThrowable hprepare exception.1 exception.2
      refine hnew.attempt.bind fun outcome => ?_
      cases outcome with
      | ok r => exact telling_unwind base r
      | error cause => exact hcut _

theorem telling_advance (hprepare : ∀ id, Telling (prepare id)) (base : Nat) :
    Telling (advance prepare base) := by
  rw [advance_eq_settle]
  refine (telling_round hprepare).settle fun end? => ?_
  cases end? with
  | ok u => exact telling_unlessReturning base (telling_pure ())
  | error stop =>
      cases stop with
      | thrown r => exact telling_unlessReturning base (telling_unwind base r)
      | fault e => exact telling_unlessReturning base (telling_raiseFault hprepare base e)
      | defect | undefined | exhausted => exact telling_throw _

theorem telling_contain (base : Nat) {x : Exec α} (hx : Telling x) :
    Telling (contain base x) := by
  rw [contain_eq_settle]
  refine hx.settle fun end? => ?_
  cases end? with
  | ok a => exact telling_pure a
  | error stop =>
      cases stop with
      | defect d =>
          exact (calm_cutTo base).telling.bind fun _ =>
            calm_clearReturn.telling.bind fun _ => telling_throw _
      | fault | thrown | undefined | exhausted => exact telling_throw _

end

theorem telling_executeBy {fuel : Nat} (hrun : ∀ base, Telling (run fuel base)) (m : Method)
    (args : List Value) : Telling (executeBy (run fuel) m args) := by
  refine compositional_telling.executeBy (fun base vm => ?_) m args
  obtain ⟨incidents, h⟩ := hrun base vm
  exact ⟨_, h.run⟩

theorem telling_initializeBy {fuel : Nat} (hrun : ∀ base, Telling (run fuel base)) (id : ClassId) :
    Telling (initializeBy (run fuel) id) :=
  telling_ensureInitialized
    (fun m => compositional_telling.discard (telling_executeBy hrun m [])) id

theorem telling_run (fuel : Nat) : ∀ base, Telling (run fuel base) := by
  induction fuel with
  | zero => exact fun _ => telling_throw _
  | succ fuel ih =>
      intro base
      have hadvance := telling_advance (telling_initializeBy ih) base
      refine (telling_contain base hadvance).bind fun v? => ?_
      cases v? with
      | some v => exact telling_pure v
      | none => exact ih base

theorem telling_answer (call : HostCall) : Telling (answer call) :=
  compositional_telling.answer (fun fuel => telling_executeBy (telling_run fuel))
    (fun fuel => telling_initializeBy (telling_run fuel)) call

end Exec

/-! ## Sessions -/

inductive Vm.Tells : Vm → List HostCall → List Incident → Prop
  | nil (vm : Vm) : vm.Tells [] []
  | cons {vm : Vm} {call : HostCall} {calls : List HostCall} {incidents later : List Incident}
      (first : Exec.Tells (Exec.answer call) vm incidents)
      (rest : (Exec.after (Exec.answer call) vm).Tells calls later) :
      vm.Tells (call :: calls) (incidents ++ later)

theorem Vm.Tells.concat {vm : Vm} {call : HostCall} {calls : List HostCall}
    {incidents later : List Incident} (h : vm.Tells calls incidents)
    (hlast : Exec.Tells (Exec.answer call) (vm.answer calls) later) :
    vm.Tells (calls ++ [call]) (incidents ++ later) := by
  induction h with
  | nil vm =>
      rw [List.nil_append, List.nil_append, ← List.append_nil later]
      exact .cons hlast (.nil _)
  | cons first _ ih =>
      rw [List.append_assoc]
      exact .cons first (ih hlast)

theorem Vm.exists_tells (vm : Vm) (calls : List HostCall) :
    ∃ incidents, vm.Tells calls incidents := by
  induction calls generalizing vm with
  | nil => exact ⟨[], .nil vm⟩
  | cons call rest ih =>
      obtain ⟨incidents, hfirst⟩ := Exec.telling_answer call vm
      obtain ⟨later, hrest⟩ := ih (Exec.after (Exec.answer call) vm)
      exact ⟨incidents ++ later, .cons hfirst hrest⟩

end ClassEngine.Machine
