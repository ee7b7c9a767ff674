import ClassEngine.Proofs.Machine.Stops

/-!
# Effects of runs

An effect that the parts of a round have, and that makes nothing of traces and of frames
that are left or resumed, is one of every run, by induction on the fuel.
-/

namespace ClassEngine.Machine

open Code

/-- The frames are activations that are under way in the machine. -/
def Vm.Resumes (vm : Vm) (frames : List Frame) : Prop :=
  ∀ f' ∈ frames, ∃ f ∈ vm.frames, f.Continues f'

theorem Vm.resumes_of_suffix {vm : Vm} {frames : List Frame} (h : frames <:+ vm.frames) :
    vm.Resumes frames :=
  fun f hf => ⟨f, h.subset hf, .refl f⟩

theorem Vm.resumes_drop (vm : Vm) (n : Nat) : vm.Resumes (vm.frames.drop n) :=
  Vm.resumes_of_suffix (List.drop_suffix n vm.frames)

structure Effect.Working (K : Effect) : Prop extends K.Steady where
  bare : ∀ {a b : Vm} {o : Option Stop} {frames : List Frame}
    (traces : List (Ref × List TraceElement)), b.Resumes frames → K a o b →
      K a o { b with frames, traces }
  raise : ∀ (vm : Vm) (r : Ref), K vm (some (.thrown r)) vm
  returns : ∀ (vm : Vm) (returning : Bool) (result : Value) (hasResult : Bool),
    K vm none { vm with returning, result, hasResult }
  thrown : ∀ {a b c : Vm} {o : Option Stop} {r : Ref},
    K a (some (.thrown r)) b → K b o c → K a o c
  /-- A return comes before a fault. -/
  overlooked : ∀ {a b c : Vm} {o : Option Stop} {e : Fault}, b.returning = true →
    K a (some (.fault e)) b → K b o c → K a o c
  raised : ∀ {a b c : Vm} {o : Option Stop} {e : Fault}, e.guestException? ≠ none →
    K a (some (.fault e)) b → K b o c → K a o c
  escaped : ∀ (u : Uncaught) (vm : Vm), K vm (some (.fault (.uncaught u))) vm
  caught : ∀ (r : Ref) (vm : Vm), K vm none (Exec.after (Exec.note (.caught r)) vm)
  uncreated : ∀ {a b : Vm} {cause : Fault} (className message : String),
    K a (some (.fault cause)) b → K a (some (.fault (.cannotCreate className message cause))) b
  contained : ∀ {a b : Vm} {d : Defect}, K a (some (.defect d)) b →
    K a (some (.fault (.internal d))) { b with returning := false }
  ended : ∀ {a b : Vm} {e : Fault}, e.EndsRun → b.returning = false → K a (some (.fault e)) b →
    K a (some (.fault e)) (Exec.after (Exec.note (.ended e)) b)

/-- An effect that also a single instruction has, if the initializations in it do. -/
structure Effect.Running (K : Effect) : Prop extends K.Working where
  step : ∀ {prepare : ClassId → Exec Unit}, (∀ id, Exec.Has K (prepare id)) →
    Exec.Has K (Exec.step prepare)

namespace Exec

/-! ## Rounds -/

variable {K : Effect} {prepare : ClassId → Exec Unit}

theorem has_setFrames (hK : K.Working) {f : Vm → List Frame}
    (hf : ∀ vm : Vm, vm.Resumes (f vm)) :
    Has K (modify fun vm => { vm with frames := f vm } : Exec Unit) :=
  fun vm => hK.bare vm.traces (hf vm) (hK.toSteady.refl _)

theorem has_leaveFrame (hK : K.Working) (v? : Option Value) : Has K (leaveFrame v?) := by
  intro vm
  have hreturns := hK.returns vm true (v?.getD .top) v?.isSome
  exact hK.bare vm.traces (Vm.resumes_drop _ 1) hreturns

theorem has_clearReturn (hK : K.Working) : Has K clearReturn :=
  fun vm => hK.returns vm false vm.result vm.hasResult

theorem has_cutTo (hK : K.Working) (base : Nat) : Has K (cutTo base) :=
  has_setFrames hK fun vm => vm.resumes_drop _

theorem has_operation (hK : K.Working) (hprepare : ∀ id, Has K (prepare id)) {op : Operation}
    (hselect : selectionUse? op ≠ none → ∀ m v, Has K (selectMethod m v)) :
    Has K (perform prepare op) :=
  (compositional_has hK.toSteady).operation (fun r vm => hK.raise vm r) (has_leaveFrame hK)
    hprepare hselect

theorem has_step (hK : K.Working) (hsites : ∀ vm sites, K vm none { vm with sites })
    (hprepare : ∀ id, Has K (prepare id)) : Has K (step prepare) :=
  (compositional_has hK.toSteady).step (fun r vm => hK.raise vm r) (has_leaveFrame hK)
    (fun _ _ vm => hsites vm _) hprepare

theorem has_finish (hK : K.Working) (base : Nat) : Has K (finish base) :=
  (compositional_has hK.toSteady).finish (has_clearReturn hK) base

theorem has_recordTrace (hK : K.Working) (r : Ref) : Has K (recordTrace r) := by
  intro vm
  obtain ⟨traces, h⟩ := recordTrace_apply r vm
  rw [stop?_ok h, after_ok h]
  exact hK.bare traces (Vm.resumes_of_suffix List.suffix_rfl) (hK.toSteady.refl _)

theorem resumes_seekHandler {base : Nat} {thrown : ClassId} {frames : List Frame} {vm vm' : Vm}
    (h : seekHandler base thrown vm.frames vm = .ok (some frames) vm') : vm'.Resumes frames := by
  have hchanges : Changes vm vm' := ((searches_seekHandler _ _ _).ok h).1.1
  obtain ⟨f, below, pc, hsuffix, -, rfl⟩ := seekHandler_some h
  intro f' hf'
  have hcontinues : ∃ f₀ ∈ vm.frames, f₀.Continues f' := by
    rcases List.mem_cons.mp hf' with rfl | hbelow
    · exact ⟨f, hsuffix.subset List.mem_cons_self, ⟨rfl, rfl⟩⟩
    · exact ⟨f', hsuffix.subset (List.mem_cons_of_mem f hbelow), .refl f'⟩
  obtain ⟨f₀, hf₀, hfirst⟩ := hcontinues
  obtain ⟨f₁, hf₁, hnow⟩ := continued_of_changes hchanges hf₀
  exact ⟨f₁, hf₁, hnow.symm.trans hfirst⟩

theorem has_resume (hK : K.Working) (r : Ref) {vm : Vm} {frames : List Frame}
    (h : vm.Resumes frames) :
    let resume : Exec Unit := do
      note (.caught r)
      modify ({ · with frames })
      onFrame (.push (.ref r))
    K vm (stop? resume vm) (after resume vm) := by
  have hS := hK.toSteady
  have hcaught := hK.caught r vm
  have hset : K vm none { after (note (.caught r)) vm with frames } :=
    hK.bare vm.traces h hcaught
  exact hS.trans hset ((local_onFrame (.push (.ref r))).has hS _)

theorem has_unwind (hK : K.Working) (base : Nat) (r : Ref) : Has K (unwind base r) := by
  have hS := hK.toSteady
  refine (has_recordTrace hK r).bind hS fun _ => ?_
  refine ((reads_classOfObject r).isLocal.has hS).bind hS fun id => ?_
  intro vm
  refine ends_of_eq (bind_of_ok (get_apply vm)) ?_
  have hseek : Local (seekHandler base id vm.frames) := (searches_seekHandler _ _ _).of_faultless
  refine ends_bind (P := K vm) (fun frames? vm' hfound => ?_)
    fun stop vm' hstopped => (hseek.has hS).error hstopped
  have hvm' : K vm none vm' := (hseek.has hS).ok hfound
  cases frames? with
  | some frames => exact hS.trans hvm' (has_resume hK r (resumes_seekHandler hfound))
  | none =>
      have hescape : Has K (do
          cutTo base
          let c ← classAt id
          let message ← throwableMessage r
          fault (.uncaught ⟨r, c.name, message, ← traceOf r⟩) : Exec Unit) := by
        refine (has_cutTo hK base).bind hS fun _ => ((local_classAt id).has hS).bind hS fun c => ?_
        refine ((looks_throwableMessage r).reads.isLocal.has hS).bind hS fun message => ?_
        refine ((looks_traceOf r).reads.isLocal.has hS).bind hS fun trace => ?_
        exact hK.escaped _
      exact hS.trans hvm' (hescape vm')

theorem has_raiseFault (hK : K.Working) (hprepare : ∀ id, Has K (prepare id)) (base : Nat)
    {a b : Vm} {e : Fault} (h : K a (some (.fault e)) b) :
    K a (stop? (raiseFault prepare base e) b) (after (raiseFault prepare base e) b) := by
  unfold raiseFault
  cases hguest : e.guestException? with
  | none => exact hK.bare b.traces (b.resumes_drop _) h
  | some exception =>
      obtain ⟨className, message⟩ := exception
      have hraised : e.guestException? ≠ none := by simp [hguest]
      have hnew := has_newThrowable hK.toSteady hprepare className message
      refine hK.raised hraised h (ends_bind (P := K b) ?_ ?_)
      · intro outcome b' hattempt
        cases outcome with
        | ok r => exact hK.trans (hnew.ok (ok_of_attempt hattempt)) (has_unwind hK base r b')
        | error cause =>
            exact hK.bare _ (b'.resumes_drop _) (hK.uncreated className e.message
              (hnew.error (fault_of_attempt hattempt)))
      · intro stop b' hattempt
        exact hnew.error (error_of_attempt hattempt)

/-- What follows an instruction: handing on its result, or else what it stopped with. -/
theorem ends_unlessReturning (hK : K.Working) {a b : Vm} {base : Nat} {x : Exec Unit}
    (hreturned : b.returning = true → ∀ {o c}, K b o c → K a o c)
    (hx : K a (stop? x b) (after x b)) :
    K a (stop? (unlessReturning base x) b) (after (unlessReturning base x) b) := by
  cases hb : b.returning with
  | true =>
      have heq : unlessReturning base x b = finish base b := by
        rw [unlessReturning_apply, hb, if_pos rfl]
      exact ends_of_eq heq (hreturned hb (has_finish hK base b))
  | false =>
      have heq : unlessReturning base x b = (do x; return none : Exec (Option Value)) b := by
        rw [unlessReturning_apply, hb, if_neg Bool.false_ne_true]
      exact ends_of_eq heq (ends_bind_pure hx)

theorem has_advance (hK : K.Running) (hprepare : ∀ id, Has K (prepare id)) (base : Nat) :
    Has K (advance prepare base) := by
  have hS := hK.toSteady
  have hround : Has K (do advance.countInstruction; step prepare : Exec Unit) :=
    ((reads_currentFrame.isLocal.bind fun _ => local_profile _).has hS).bind hS fun _ =>
      hK.step hprepare
  intro vm
  cases hcase : (do advance.countInstruction; step prepare : Exec Unit) vm with
  | ok _ vm' =>
      have hvm' := hround.ok hcase
      have h : advance prepare base vm = unlessReturning base (pure ()) vm' := by
        rw [advance, hcase]
      exact ends_of_eq h (ends_unlessReturning hK.toWorking (fun _ => hK.trans hvm') hvm')
  | error stop vm' =>
      have hvm' := hround.error hcase
      cases hstop : stop with
      | thrown r =>
          rw [hstop] at hvm'
          have h : advance prepare base vm = unlessReturning base (unwind base r) vm' := by
            rw [advance, hcase, hstop]
          have hunwind := hK.thrown hvm' (has_unwind hK.toWorking base r vm')
          exact ends_of_eq h
            (ends_unlessReturning hK.toWorking (fun _ => hK.thrown hvm') hunwind)
      | fault e =>
          rw [hstop] at hvm'
          have h : advance prepare base vm =
              unlessReturning base (raiseFault prepare base e) vm' := by
            rw [advance, hcase, hstop]
          have hraise := has_raiseFault hK.toWorking hprepare base hvm'
          exact ends_of_eq h
            (ends_unlessReturning hK.toWorking (fun hb => hK.overlooked hb hvm') hraise)
      | defect | undefined | exhausted =>
          have h : advance prepare base vm = (throw stop : Exec (Option Value)) vm' := by
            rw [advance, hcase, hstop]
            rfl
          exact ends_of_eq h hvm'

theorem has_contain (hK : K.Working) (base : Nat) {α : Type} {x : Exec α} (hx : Has K x) :
    Has K (contain base x) := by
  intro vm
  cases hcase : x vm with
  | ok a vm' =>
      have h : contain base x vm = (pure a : Exec α) vm' := by
        unfold contain
        rw [hcase]
        rfl
      exact ends_of_eq h (hx.ok hcase)
  | error stop vm' =>
      have hvm' := hx.error hcase
      cases hstop : stop with
      | defect d =>
          have h : contain base x vm =
              (do cutTo base; clearReturn; fault (.internal d) : Exec α) vm' := by
            unfold contain
            rw [hcase, hstop]
          have hcontained := hK.contained (hstop ▸ hvm')
          exact ends_of_eq h (hK.bare vm'.traces (Vm.resumes_drop _ _) hcontained)
      | fault | thrown | undefined | exhausted =>
          have h : contain base x vm = (throw stop : Exec α) vm' := by
            unfold contain
            rw [hcase, hstop]
            rfl
          exact ends_of_eq h hvm'

theorem released_of_working (hK : K.Working) {a b : Vm} {o : Option Stop} (h : K a o b) :
    K a o (released b) := by
  unfold released
  split
  · exact hK.bare _ (Vm.resumes_of_suffix List.suffix_rfl) h
  · exact h

theorem has_releaseTraces_noteEnd (hK : K.Working) {α : Type} {x : Exec α} (hx : Has K x)
    (hstops : Has RunStops x) : Has K (releaseTraces (noteEnd x)) := by
  intro vm
  have h := releaseTraces_noteEnd_apply x vm
  cases hcase : x vm with
  | ok a vm' =>
      rw [hcase] at h
      exact ends_of_eq (y := pure a) h (released_of_working hK (hx.ok hcase))
  | error stop vm' =>
      rw [hcase] at h
      have hvm' := hx.error hcase
      cases stop with
      | fault e =>
          have hend : RunStops vm (some (.fault e)) vm' := hstops.error hcase
          have hreturning : vm'.returning = false := hend.cleared nofun nofun
          exact ends_of_eq (y := fault e) h
            (released_of_working hK (hK.ended (hend.endsRun e rfl) hreturning hvm'))
      | thrown | defect | undefined | exhausted =>
          exact ends_of_eq (y := throw _) h (released_of_working hK hvm')

theorem has_executeBy (hK : K.Working) {run : Nat → Exec Value} (hrun : ∀ base, Has K (run base))
    (hstops : ∀ base, Has RunStops (run base)) (m : Method) (args : List Value) :
    Has K (executeBy run m args) :=
  (compositional_has hK.toSteady).executeBy
    (fun base => has_releaseTraces_noteEnd hK (hrun base) (hstops base)) m args

theorem has_run (hK : K.Running)
    (hinit : ∀ {runInitializer : Method → Exec Unit}, (∀ m, Has K (runInitializer m)) →
      ∀ id, Has K (ensureInitialized runInitializer id)) (fuel : Nat) :
    ∀ base, Has K (run fuel base) := by
  induction fuel with
  | zero => exact fun base => local_exhausted.has hK.toSteady
  | succ fuel ih =>
      intro base
      have hprepare (id : ClassId) : Has K (initializeBy (run fuel) id) :=
        hinit (fun m => has_discard hK.toSteady
          (has_executeBy hK.toWorking ih (runStops_run fuel) m [])) id
      refine (has_contain hK.toWorking base (has_advance hK hprepare base)).bind hK.toSteady
        fun v? => ?_
      cases v? with
      | some v => exact (local_pure v).has hK.toSteady
      | none => exact ih base

end Exec

end ClassEngine.Machine
