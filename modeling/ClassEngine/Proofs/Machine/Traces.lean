import ClassEngine.Proofs.Machine.Incidents
import ClassEngine.Proofs.Machine.IntegrityLaw

/-!
# Traces name the first raise

The trace of an exception that leaves a run is that of the frames on which it was first raised
since the machine last had no frame.  The machine keeps the trace of the first raise of every
exception, as an unwinding adds one only for an exception that has none, and all traces are
released as a run gives back the last frame.  What happens in between to this and other
exceptions makes no difference.
-/

namespace ClassEngine.Machine

def Vm.trace? (vm : Vm) (r : Ref) : Option (List TraceElement) :=
  (vm.traces.find? (·.1 = r)).map (·.2)

/-! ## One unwinding -/

namespace Exec

theorem trace?_recordTrace (r' : Ref) (vm : Vm) (r : Ref) :
    (after (recordTrace r') vm).trace? r =
      (vm.trace? r).or (if r' = r then some vm.snapshot else none) := by
  by_cases hknown : vm.traces.any (·.1 = r')
  · have hafter : after (recordTrace r') vm = vm :=
      after_ok (congrArg (EStateM.Result.ok ()) (if_pos hknown))
    rw [hafter]
    by_cases hr : r' = r
    · subst hr
      have hsome : (vm.trace? r').isSome := by
        simpa [Vm.trace?] using hknown
      obtain ⟨trace, htrace⟩ := Option.isSome_iff_exists.mp hsome
      rw [htrace, Option.some_or]
    · rw [if_neg hr, Option.or_none]
  · have hafter : after (recordTrace r') vm =
        { vm with traces := (r', vm.snapshot) :: vm.traces } :=
      after_ok (congrArg (EStateM.Result.ok ()) (if_neg hknown))
    rw [hafter]
    by_cases hr : r' = r
    · subst hr
      have hnone : vm.trace? r' = none := by
        rw [Vm.trace?, Option.map_eq_none_iff, List.find?_eq_none]
        exact fun entry hentry hr => hknown (List.any_eq_true.mpr ⟨entry, hentry, hr⟩)
      rw [hnone, if_pos rfl, Option.none_or]
      simp [Vm.trace?]
    · rw [if_neg hr, Option.or_none]
      simp [Vm.trace?, hr]

end Exec

theorem traces_of_change {a b : Vm} (h : Change a b) : b.traces = a.traces := by
  cases h <;> rfl

theorem traces_of_changes {a b : Vm} (h : Changes a b) : b.traces = a.traces := by
  induction h with
  | refl => rfl
  | tail _ hchange ih => exact (traces_of_change hchange).trans ih

structure Unwound (r : Ref) (a : Vm) (o : Option Stop) (b : Vm) : Prop where
  traces : b.traces = a.traces
  covered : a.registry.Covered → b.registry.Covered
  fault : ∀ e, o = some (.fault e) →
    ∃ u : Uncaught, e = .uncaught u ∧ u.ref = r ∧ u.trace = (b.trace? r).getD []

namespace Exec

variable {r : Ref}

theorem Unwound.trans {a b c : Vm} {o : Option Stop} (h : Unwound r a none b)
    (h' : Unwound r b o c) : Unwound r a o c where
  traces := h'.traces.trans h.traces
  covered ha := h'.covered (h.covered ha)
  fault := h'.fault

theorem Searches.unwound {α : Type} {x : Exec α} (hx : Searches x) : Has (Unwound r) x := by
  intro vm
  obtain ⟨⟨hchanges, -, hcovers⟩, hfault⟩ := hx vm
  exact ⟨traces_of_changes hchanges, fun ha => (hcovers ha).1, fun e he => absurd he (hfault e)⟩

theorem unwound_modify {f : Vm → Vm} (htraces : ∀ vm, (f vm).traces = vm.traces)
    (hregistry : ∀ vm, (f vm).registry = vm.registry) : Has (Unwound r) (modify f : Exec Unit) :=
  fun vm => ⟨htraces vm, fun ha => (hregistry vm).symm ▸ ha, nofun⟩

theorem unwound_uncaught (c : Class) (message : String) :
    Has (Unwound r) (do
      fault (.uncaught ⟨r, c.name, message, ← traceOf r⟩) : Exec Unit) := by
  refine fun vm => ⟨rfl, id, ?_⟩
  rintro _ ⟨⟩
  exact ⟨_, rfl, rfl, rfl⟩

theorem unwound_unwind (base : Nat) (r : Ref) (vm : Vm) :
    Unwound r (after (recordTrace r) vm) (stop? (unwind base r) vm) (after (unwind base r) vm) := by
  obtain ⟨traces, hrecord⟩ := recordTrace_apply r vm
  rw [after_ok hrecord]
  refine ends_of_eq (bind_of_ok hrecord) ?_
  refine Has.bind_of_trans Unwound.trans (searches_classOfObject r).unwound (fun id => ?_) _
  refine Has.bind_of_trans Unwound.trans searches_get.unwound fun vm => ?_
  refine Has.bind_of_trans Unwound.trans (searches_seekHandler base id vm.frames).unwound
    fun frames? => ?_
  cases frames? with
  | some frames =>
      have hnote : Has (Unwound r) (note (.caught r)) :=
        unwound_modify (fun _ => rfl) fun _ => rfl
      refine Has.bind_of_trans Unwound.trans hnote fun _ => ?_
      refine Has.bind_of_trans Unwound.trans
        (unwound_modify (fun _ => rfl) fun _ => rfl) fun _ => ?_
      exact (searches_push _).unwound
  | none =>
      have hcut : Has (Unwound r) (cutTo base) := unwound_modify (fun _ => rfl) fun _ => rfl
      refine Has.bind_of_trans Unwound.trans hcut fun _ => ?_
      refine Has.bind_of_trans Unwound.trans (looks_classAt id).searches.unwound fun c => ?_
      refine Has.bind_of_trans Unwound.trans (looks_throwableMessage r).searches.unwound
        fun message => ?_
      exact unwound_uncaught c message

theorem covered_unwind (base : Nat) (r : Ref) {vm : Vm} (h : vm.registry.Covered) :
    (after (unwind base r) vm).registry.Covered := by
  obtain ⟨traces, hrecord⟩ := recordTrace_apply r vm
  have hunwound := unwound_unwind base r vm
  rw [after_ok hrecord] at hunwound
  exact hunwound.covered h

/-- An unwinding adds the frames of the machine, for an exception that had no trace before. -/
theorem trace?_unwind (base : Nat) (r' : Ref) (vm : Vm) (r : Ref) :
    (after (unwind base r') vm).trace? r =
      (vm.trace? r).or (if r' = r then some vm.snapshot else none) := by
  rw [← trace?_recordTrace, Vm.trace?, (unwound_unwind base r' vm).traces, Vm.trace?]

/-! ## Exceptions that leave a run -/

/-- An exception takes along the trace that the machine keeps for it. -/
def TakesTrace (o : Option Stop) (vm : Vm) : Prop :=
  vm.registry.Covered ∧ ∀ u, o = some (.fault (.uncaught u)) → vm.trace? u.ref = some u.trace

def takingTrace : Effect := fun a o b => a.registry.Covered → TakesTrace o b

theorem FaultCovered.ne_uncaught {o : Option Stop} (h : FaultCovered o) (u : Uncaught) :
    o ≠ some (.fault (.uncaught u)) := by
  rintro rfl
  exact absurd (h _ rfl) (by simp [Fault.isCovered])

theorem takesTrace_of_covers {a b : Vm} {o : Option Stop} (h : covers a o b) :
    takingTrace a o b :=
  fun ha => ⟨(h ha).1, fun u hu => absurd hu (FaultCovered.ne_uncaught (h ha).2 u)⟩

theorem steady_covers : covers.Steady where
  small h := h.2.2
  trans h h' ha := h' (h ha).1

theorem steady_takingTrace : takingTrace.Steady where
  small h := takesTrace_of_covers h.2.2
  trans h h' ha := h' (h ha).1

/-- An exception that leaves a static initializer is not passed on as one. -/
theorem surrounding_covers : reports.Surrounding covers where
  trans := steady_covers.trans
  reads := by
    rintro a b o ⟨rfl, -, hfault⟩ ha
    exact ⟨ha, hfault⟩
  assigned f := (local_assignConstant f).has steady_covers
  moved id state vm ha := ⟨covered_setState id state vm ha, nofun⟩
  running m vm ha := ⟨ha, nofun⟩
  failed id h ha := ⟨covered_setState id .failed _ (h ha).1, (h ha).2⟩
  passed ho h ha := ⟨(h ha).covered, fun e he => absurd he (ho e)⟩
  renamed := by
    intro a b e name h ha
    refine ⟨(h ha).covered, ?_⟩
    rintro _ ⟨⟩
    exact Fault.isCovered_ofInitializer name ((h ha).fault e rfl)

theorem covers_initializeBy (fuel : Nat) (id : ClassId) :
    Has covers (initializeBy (run fuel) id) :=
  surrounds_ensureInitialized surrounding_covers (fun m => has_discard steady_reports
    (has_executeBy working_reports (reports_run fuel) (runStops_run fuel) m [])) id

section

variable {prepare : ClassId → Exec Unit}

theorem covers_round (hprepare : ∀ id, Has covers (prepare id)) : Has covers (round prepare) := by
  have hP := compositional_has steady_covers
  have hcount : Local advance.countInstruction :=
    local_currentFrame.bind fun _ => local_profile _
  have hquiet {x : Exec Unit} (hx : ∀ vm, ∃ vm', x vm = .ok () vm' ∧ vm'.registry = vm.registry) :
      Has covers x := by
    intro vm ha
    obtain ⟨vm', hok, hregistry⟩ := hx vm
    rw [after_ok hok, stop?_ok hok, hregistry]
    exact ⟨ha, nofun⟩
  refine hP.bind (hP.small hcount) fun _ => ?_
  refine hP.step (fun r vm ha => ⟨ha, nofun⟩) (fun v? => hquiet fun vm => ⟨_, rfl, rfl⟩)
    (fun site cache => hquiet fun vm => ⟨_, rfl, rfl⟩) hprepare

theorem takesTrace_unwind (base : Nat) (r : Ref) : Has takingTrace (unwind base r) := by
  refine fun vm ha => ⟨covered_unwind base r ha, fun u hu => ?_⟩
  obtain ⟨u', heq, rfl, htrace⟩ := (unwound_unwind base r vm).fault _ hu
  cases heq
  rw [trace?_unwind, if_pos rfl, Option.or_some] at htrace ⊢
  rw [htrace, Option.getD_some]

theorem takesTrace_cut (base : Nat) {e : Fault} (he : e.isCovered = true) :
    Has takingTrace (do cutTo base; fault e : Exec Unit) := by
  refine fun vm => takesTrace_of_covers fun ha => ⟨ha, ?_⟩
  rintro _ ⟨⟩
  exact he

theorem takesTrace_raiseFault (hprepare : ∀ id, Has covers (prepare id)) (base : Nat) {e : Fault}
    (he : e.isCovered = true) : Has takingTrace (raiseFault prepare base e) := by
  unfold raiseFault
  cases e.guestException? with
  | none => exact takesTrace_cut base he
  | some exception =>
      have hnew := has_newThrowable steady_covers hprepare exception.1 exception.2
      have hattempt := (hnew.attempt fun h ha => ⟨(h ha).1, nofun⟩).of_faultless
      refine Has.bind steady_takingTrace (fun vm => takesTrace_of_covers (hattempt vm))
        fun outcome => ?_
      cases outcome with
      | ok r => exact takesTrace_unwind base r
      | error cause => exact takesTrace_cut base rfl

theorem takesTrace_unlessReturning (base : Nat) {x : Exec Unit} (hx : Has takingTrace x) :
    Has takingTrace (unlessReturning base x) :=
  (compositional_has steady_takingTrace).unlessReturning
    (fun _ => takesTrace_of_covers fun ha => ⟨ha, nofun⟩) base hx

theorem takesTrace_advance (hprepare : ∀ id, Has covers (prepare id)) (base : Nat) :
    Has takingTrace (advance prepare base) := by
  have hround := covers_round hprepare
  intro vm ha
  have hadvance : advance prepare base vm = _ := advance_apply
  cases hcase : round prepare vm with
  | ok u b =>
      rw [hcase] at hadvance
      obtain ⟨hb, -⟩ := hround.ok hcase ha
      have hrest : Has takingTrace (unlessReturning base (pure ())) :=
        takesTrace_unlessReturning base ((local_pure ()).has steady_takingTrace)
      exact ends_of_eq (P := TakesTrace) hadvance (hrest b hb)
  | error stop b =>
      rw [hcase] at hadvance
      obtain ⟨hb, hfault⟩ := hround.error hcase ha
      cases stop with
      | thrown r =>
          have hunwind := takesTrace_unlessReturning base (takesTrace_unwind base r)
          exact ends_of_eq (P := TakesTrace) hadvance (hunwind b hb)
      | fault e =>
          have hraise := takesTrace_unlessReturning base
            (takesTrace_raiseFault hprepare base (hfault e rfl))
          exact ends_of_eq (P := TakesTrace) hadvance (hraise b hb)
      | defect | undefined | exhausted =>
          exact ends_of_eq (P := TakesTrace) (y := throw _) hadvance ⟨hb, nofun⟩

end

theorem takesTrace_contain {α : Type} (base : Nat) {x : Exec α} (hx : Has takingTrace x) :
    Has takingTrace (contain base x) := by
  intro vm ha
  have hcontain := contain_apply base x vm
  cases hcase : x vm with
  | ok v b =>
      rw [hcase] at hcontain
      exact ends_of_eq (P := TakesTrace) (y := pure v) hcontain (hx.ok hcase ha)
  | error stop b =>
      rw [hcase] at hcontain
      have hb := hx.error hcase ha
      cases stop with
      | defect d =>
          exact ends_of_eq (P := TakesTrace) (y := do cutTo base; clearReturn; fault (.internal d))
            hcontain
            ⟨hb.1, nofun⟩
      | fault | thrown | undefined | exhausted =>
          exact ends_of_eq (P := TakesTrace) (y := throw _) hcontain hb

theorem takesTrace_run (fuel : Nat) : ∀ base, Has takingTrace (run fuel base) := by
  have hP := compositional_has steady_takingTrace
  induction fuel with
  | zero => exact fun _ => hP.small local_exhausted
  | succ fuel ih =>
      intro base
      have hadvance := takesTrace_advance (covers_initializeBy fuel) base
      refine hP.bind (takesTrace_contain base hadvance) fun v? => ?_
      cases v? with
      | some v => exact hP.small (local_pure v)
      | none => exact ih base

end Exec

/-! ## The traces that are kept -/

/-- Every exception that escaped had the trace of its first raise. -/
def Truthful (incidents : List Incident) : Prop :=
  ∀ before u later, incidents = before ++ .escaped u :: later →
    firstTrace? before u.ref = some u.trace

theorem truthful_nil : Truthful [] := by
  intro before u later heq
  simp at heq

theorem Truthful.concat {incidents : List Incident} (h : Truthful incidents) {i : Incident}
    (hi : ∀ u, i = .escaped u → firstTrace? incidents u.ref = some u.trace) :
    Truthful (incidents ++ [i]) := by
  intro before u later heq
  rcases List.eq_nil_or_concat later with rfl | ⟨rest, last, rfl⟩
  · obtain ⟨rfl, hlast⟩ := List.append_inj' heq rfl
    cases hlast
    exact hi u rfl
  · rw [List.concat_eq_append, ← List.cons_append, ← List.append_assoc] at heq
    obtain ⟨rfl, -⟩ := List.append_inj' heq rfl
    exact h before u rest rfl

/-- The machine keeps the traces of the first raises. -/
structure Vm.Matches (vm : Vm) (incidents : List Incident) : Prop where
  covered : vm.registry.Covered
  traces : ∀ r, vm.trace? r = firstTrace? incidents r
  truthful : Truthful incidents

namespace Vm.Matches

variable {vm vm' : Vm} {incidents : List Incident}

theorem of_traces (h : vm.Matches incidents) (hcovered : vm'.registry.Covered)
    (htraces : vm'.traces = vm.traces) : vm'.Matches incidents where
  covered := hcovered
  traces r := by rw [← h.traces r, Vm.trace?, htraces, Vm.trace?]
  truthful := h.truthful

theorem unwind (h : vm.Matches incidents) (base : Nat) (r : Ref) :
    (Exec.after (Exec.unwind base r) vm).Matches (incidents ++ [.raised r vm.snapshot]) where
  covered := Exec.covered_unwind base r h.covered
  traces r' := by
    have hraised := firstTrace?_concat incidents (i := .raised r vm.snapshot) nofun r'
    rw [Exec.trace?_unwind, h.traces, hraised, Incident.raise?]
  truthful := h.truthful.concat nofun

theorem escape (h : vm.Matches incidents) {u : Uncaught} (hu : vm.trace? u.ref = some u.trace) :
    vm.Matches (incidents ++ [.escaped u]) where
  covered := h.covered
  traces r := by
    have hescaped := firstTrace?_concat incidents (i := .escaped u) nofun r
    rw [h.traces, hescaped, Incident.raise?, Option.or_none]
  truthful := by
    refine h.truthful.concat ?_
    rintro _ ⟨⟩
    rw [← h.traces, hu]

theorem escapes (h : vm.Matches incidents) {o : Option Stop}
    (ho : ∀ u, o = some (.fault (.uncaught u)) → vm.trace? u.ref = some u.trace) :
    vm.Matches (incidents ++ Exec.escapes o) := by
  unfold Exec.escapes
  split
  · exact h.escape (ho _ rfl)
  · rwa [List.append_nil]

theorem released (h : vm.Matches incidents) : (Exec.released vm).Matches
    (incidents ++ if vm.frames.isEmpty then [.emptied] else []) := by
  unfold Exec.released
  split
  · refine ⟨h.covered, fun r => ?_, h.truthful.concat nofun⟩
    rw [firstTrace?_emptied]
    rfl
  · rwa [List.append_nil]

end Vm.Matches

namespace Exec

theorem traces_of_works {a b : Vm} (h : Relation.ReflTransGen Vm.Works a b) :
    b.traces = a.traces := by
  induction h with
  | refl => rfl
  | tail _ hworks ih =>
      rw [← ih]
      cases hworks with
      | change h => exact traces_of_change h
      | moved | running | select | leave | returns => rfl

/-- Whatever an operation is made of, the machine keeps the traces of the first raises. -/
theorem Tells.matches {α : Type} {x : Exec α} {vm : Vm} {later : List Incident}
    (h : Tells x vm later) {earlier : List Incident} (hvm : vm.Matches earlier) :
    (after x vm).Matches (earlier ++ later) := by
  induction h generalizing earlier with
  | calm hcalm vm =>
      obtain ⟨hworks, hcovered⟩ := hcalm vm
      rw [List.append_nil]
      exact hvm.of_traces (hcovered hvm.covered) (traces_of_works hworks)
  | unwind base r vm => exact hvm.unwind base r
  | settle _ _ ihfirst ihnext =>
      rw [← List.append_assoc]
      exact ihnext (ihfirst hvm)
  | @run fuel base vm incidents _ ih =>
      obtain ⟨journal, hafter⟩ := after_releaseTraces_noteEnd (Exec.run fuel base) vm
      have hescaped := (ih hvm).escapes (takesTrace_run fuel base vm hvm.covered).2
      have hnoted : ({ after (Exec.run fuel base) vm with journal } : Vm).Matches _ :=
        hescaped.of_traces hescaped.covered rfl
      rw [hafter, ending, ← List.append_assoc, ← List.append_assoc]
      exact hnoted.released

end Exec

theorem Vm.Tells.matches {vm : Vm} {calls : List HostCall} {later : List Incident}
    (h : vm.Tells calls later) {earlier : List Incident} (hvm : vm.Matches earlier) :
    (vm.answer calls).Matches (earlier ++ later) := by
  induction h generalizing earlier with
  | nil => rwa [List.append_nil]
  | cons first _ ih =>
      rw [← List.append_assoc]
      exact ih (first.matches hvm)

theorem Vm.matches_start (source? : Option Search.Source) (maxFrames : Int)
    (profiler? : Option (Profiler MethodId)) :
    (Vm.start source? maxFrames profiler?).Matches [] where
  covered := Registry.covered_empty
  traces _ := rfl
  truthful := truthful_nil

/-! ## Exceptions that the host gets -/

namespace Exec

/-- An exception with which the operation ends is one of its incidents. -/
def Reporting {α : Type} (x : Exec α) : Prop := ∀ vm : Vm, vm.registry.Covered →
  (after x vm).registry.Covered ∧ ∃ incidents, Tells x vm incidents ∧
    ∀ u, stop? x vm = some (.fault (.uncaught u)) → .escaped u ∈ incidents

theorem reporting_of_covers {α : Type} {x : Exec α} (hx : Has covers x) (htells : Telling x) :
    Reporting x := by
  intro vm hvm
  obtain ⟨hcovered, hfault⟩ := hx vm hvm
  obtain ⟨incidents, h⟩ := htells vm
  exact ⟨hcovered, incidents, h, fun u hu => absurd hu (FaultCovered.ne_uncaught hfault u)⟩

theorem compositional_reporting : Compositional Reporting where
  small hx := reporting_of_covers (hx.has steady_covers) (compositional_telling.small hx)
  bind := by
    intro α β x f hx hf vm hvm
    obtain ⟨hcovered, incidents, hfirst, hstop⟩ := hx vm hvm
    cases hcase : x vm with
    | ok a vm' =>
        rw [after_ok hcase] at hcovered
        obtain ⟨hcovered', later, hnext, hstop'⟩ := hf a vm' hcovered
        refine ends_of_eq (P := fun o b => b.registry.Covered ∧ ∃ incidents,
          Tells (x >>= f) vm incidents ∧
            ∀ u, o = some (.fault (.uncaught u)) → .escaped u ∈ incidents)
          (bind_of_ok hcase) ⟨hcovered', incidents ++ later, hfirst.bind_ok hcase hnext, ?_⟩
        exact fun u hu => List.mem_append_right incidents (hstop' u hu)
    | error stop vm' =>
        have hbind : (x >>= f) vm = .error stop vm' := bind_of_error hcase
        rw [after_error hcase] at hcovered
        rw [stop?_error hcase] at hstop
        rw [after_error hbind, stop?_error hbind]
        exact ⟨hcovered, incidents, hfirst.bind_error hcase, hstop⟩

theorem reporting_execute (fuel : Nat) (m : Method) (args : List Value) :
    Reporting (execute fuel m args) := by
  refine compositional_reporting.executeBy (fun base vm hvm => ?_) m args
  obtain ⟨incidents, h⟩ := telling_run fuel base vm
  obtain ⟨journal, hafter⟩ := after_releaseTraces_noteEnd (run fuel base) vm
  refine ⟨?_, _, h.run, fun u hu => ?_⟩
  · rw [hafter, released_registry]
    exact ((reports_run fuel base) vm hvm).covered
  · rw [stop?_releaseTraces_noteEnd] at hu
    refine List.mem_append_right incidents (List.mem_append_left _ ?_)
    rw [hu]
    exact List.mem_singleton_self _

theorem reporting_answer (call : HostCall) : Reporting (answer call) :=
  compositional_reporting.answer reporting_execute
    (fun fuel id => reporting_of_covers (covers_initializeBy fuel id)
      (telling_initializeBy (telling_run fuel) id)) call

namespace Rethrown

open Code SelfHolding
open PlainRoot (root registry load_root)

def body : ClassFile.Body := ⟨1, 1, #[0x2a, 0xbf, 0xbf], [⟨1, 2, 2, 0⟩], []⟩

def rethrower : Method :=
  ⟨⟨0, 0⟩, ClassFile.rootClassName, 0x0021, "rethrow", "()V", 0x0001, ⟨[], none, "()V"⟩, some body⟩

def setup : List HostCall := [.request 0 (.load ClassFile.rootClassName), .newObject 0]

def rethrow : HostCall := .request 5 (.invoke rethrower [.ref ⟨1⟩])

def frame (stack : List Value) (opPc pc : Nat) : Frame :=
  ⟨rethrower, body, #[.ref ⟨1⟩], stack, pc, opPc⟩

def place : TraceElement := ⟨ClassFile.rootClassName, "rethrow", 0, 1⟩

def uncaught : Uncaught := ⟨⟨1⟩, ClassFile.rootClassName, "", [place]⟩

def machine (frames : List Frame) (traces : List (Ref × List TraceElement))
    (journal : List Event) : Vm :=
  { vm with
    registry
    heap := { objects := #[{ classId := 0, fields := root.zeroFields }] }
    frames
    traces
    journal }

theorem answer_setup : vm.answer setup = machine [] [] [] := by
  have hload : answer (.request 0 (.load ClassFile.rootClassName)) vm =
      .ok () { vm with registry } :=
    answer_load 0 (load_root rfl nofun)
  show after (answer (.newObject 0)) (after (answer (.request 0 (.load _))) vm) = _
  rw [after_ok hload]
  rfl

def caught (stack : List Value) (opPc pc : Nat) : Vm :=
  machine [frame stack opPc pc] [(⟨1⟩, [place])] [.caught ⟨1⟩]

def left : Vm := machine [] [(⟨1⟩, [place])] [.caught ⟨1⟩]

theorem unwind_caught :
    unwind 0 ⟨1⟩ (caught [] 2 3) = .error (.fault (.uncaught uncaught)) left := by
  have hrecord : recordTrace ⟨1⟩ (caught [] 2 3) = .ok () (caught [] 2 3) := rfl
  have hclass : classOfObject ⟨1⟩ (caught [] 2 3) = .ok 0 (caught [] 2 3) := rfl
  have hseek : seekHandler 0 0 (caught [] 2 3).frames (caught [] 2 3) =
      .ok none (caught [] 2 3) := rfl
  have hcut : cutTo 0 (caught [] 2 3) = .ok () left := rfl
  have hroot : classAt 0 left = .ok root left := rfl
  have hmessage : throwableMessage ⟨1⟩ left = .ok "" left := by
    have hfind : left.registry.find? throwableName = none := by with_unfolding_all decide
    unfold throwableMessage
    rw [bind_of_ok (get_apply _), hfind]
    rfl
  unfold unwind
  rw [bind_of_ok hrecord, bind_of_ok hclass, bind_of_ok (get_apply _), bind_of_ok hseek]
  dsimp only
  rw [bind_of_ok hcut, bind_of_ok hroot, bind_of_ok hmessage]
  rfl

theorem run_rethrower :
    run 5 0 (machine [frame [] 0 0] [] []) = .error (.fault (.uncaught uncaught)) left := by
  have hload : (⟨0x2a⟩ : Opcode).operation? = some (.data (.loadSlot 0)) := by decide +kernel
  have hraise : (⟨0xbf⟩ : Opcode).operation? = some (.object .raise) := by decide +kernel
  have hfirst (prepare : ClassId → Exec Unit) :
      round prepare (machine [frame [] 0 0] [] []) =
        .ok () (machine [frame [.ref ⟨1⟩] 0 1] [] []) := by
    rw [round_apply rfl rfl rfl hload]
    rfl
  have hsecond (prepare : ClassId → Exec Unit) :
      round prepare (machine [frame [.ref ⟨1⟩] 0 1] [] []) =
        .error (.thrown ⟨1⟩) (machine [frame [] 1 2] [] []) := by
    rw [round_apply rfl rfl rfl hraise]
    rfl
  have hcaught : unwind 0 ⟨1⟩ (machine [frame [] 1 2] [] []) =
      .ok () (caught [.ref ⟨1⟩] 1 2) := rfl
  have hthird (prepare : ClassId → Exec Unit) :
      round prepare (caught [.ref ⟨1⟩] 1 2) = .error (.thrown ⟨1⟩) (caught [] 2 3) := by
    rw [round_apply rfl rfl rfl hraise]
    rfl
  rw [run_of_none (advance_of_next (hfirst _) rfl),
    run_of_none (advance_of_thrown (hsecond _) rfl hcaught)]
  exact run_of_fault (advance_of_escape (hthird _) rfl unwind_caught)

theorem answer_rethrow : answer rethrow (vm.answer setup) =
    .error (.fault (.uncaught uncaught))
      (released { left with journal := [.ended (.uncaught uncaught), .caught ⟨1⟩] }) := by
  have hexecute : execute 5 rethrower [.ref ⟨1⟩] (machine [] [] []) =
      releaseTraces (noteEnd (run 5 0)) (machine [frame [] 0 0] [] []) :=
    executeBy_apply rfl rfl rfl (by decide) rfl rfl
  rw [answer_setup]
  exact bind_of_error (hexecute.trans (releaseTraces_of_fault run_rethrower))

end Rethrown

end Exec

end ClassEngine.Machine
