import ClassEngine.Proofs.Machine.FatalFaults

/-!
# Conclusions of runs

A run that finishes returns a value, or it ends with an uncaught exception or with a fault
of the machine itself.  Any other fault of an instruction is covered by the table of guest
exceptions, so that it is raised inside the run.  What the registry remembers of failures
stays covered too, and the journal tells how the runs inside a run have ended.
-/

namespace ClassEngine.Machine

open Search (Source)

namespace Fault

def Final (e : Fault) : Prop := e.Fatal ∨ ∃ u, e = .uncaught u

variable {e : Fault}

theorem fatal_of_isCovered (he : e.isCovered = true) (hguest : e.guestException? = none) :
    e.Fatal := by
  rw [guestException?_eq_none_iff] at hguest
  induction e with
  | superclass name cause ih => exact ih he hguest
  | superinterface name cause ih => exact ih he hguest
  | constantValue field cause ih => exact ih he hguest
  | uncaught u => cases he
  | internal | cannotCreate => exact .inl (by simp [belongs])
  | unsupportedOpcode | unsupportedConstant => exact .inr (by simp [belongs])
  | _ => simp [guestClasses, belongs] at hguest

theorem EndsRun.final (h : e.EndsRun) (he : e.isCovered = true ∨ ∃ u, e = .uncaught u) :
    e.Final := by
  rcases he with he | huncaught
  · rcases h with hguest | hinternal
    · exact .inl (fatal_of_isCovered he hguest)
    · exact .inl (.inl hinternal)
  · exact .inr huncaught

theorem isCovered_ofInitializer (name : String) (he : e.isCovered = true ∨ ∃ u, e = .uncaught u) :
    (Exec.ofInitializer name e).isCovered = true := by
  unfold Exec.ofInitializer
  split
  · rfl
  · rename_i hcaught
    rcases he with he | ⟨u, rfl⟩
    · exact he
    · simp [belongs] at hcaught

end Fault

/-- What is known of an operation on a machine with a covered registry. -/
structure Reports (a : Vm) (o : Option Stop) (b : Vm) : Prop where
  covered : b.registry.Covered
  fault : ∀ e, o = some (.fault e) → e.isCovered = true ∨ ∃ u, e = .uncaught u
  ended : ∀ e, .ended e ∈ b.journal → .ended e ∈ a.journal ∨ e.Final

def reports : Effect := fun a o b => a.registry.Covered → Reports a o b

section

variable {a b c : Vm} {o : Option Stop}

theorem reports_of_journal (hcovered : a.registry.Covered → b.registry.Covered)
    (hjournal : b.journal = a.journal) (ho : ∀ e, o = some (.fault e) → e.isCovered = true) :
    reports a o b :=
  fun ha => ⟨hcovered ha, fun e he => .inl (ho e he), fun _ he => .inl (hjournal ▸ he)⟩

theorem reports_note (event : Event) (hevent : ∀ e, event ≠ .ended e)
    (hregistry : a.registry.Covered → b.registry.Covered)
    (hjournal : b.journal = event :: a.journal) : reports a none b := by
  refine fun ha => ⟨hregistry ha, nofun, fun e he => ?_⟩
  rw [hjournal] at he
  rcases List.mem_cons.mp he with heq | he
  · exact absurd heq.symm (hevent e)
  · exact .inl he

theorem Reports.trans {o' : Option Stop} (h : Reports a o' b) (h' : reports b o c) :
    Reports a o c := by
  have hc := h' h.covered
  refine ⟨hc.covered, hc.fault, fun e he => ?_⟩
  rcases hc.ended e he with he | he
  · exact h.ended e he
  · exact .inr he

theorem Reports.stop {e : Fault} (h : Reports a o b) (he : e.isCovered = true) :
    Reports a (some (.fault e)) b := by
  refine ⟨h.covered, ?_, h.ended⟩
  rintro _ ⟨⟩
  exact .inl he

end

theorem covered_setState (id : ClassId) (state : ClassState) (vm : Vm)
    (h : vm.registry.Covered) : (Exec.after (Exec.setState id state) vm).registry.Covered :=
  h.modifyStatus id _ fun hs hr => h.kept hs hr

theorem steady_reports : reports.Steady where
  small h := fun ha => reports_of_journal (fun ha => (h.2.2 ha).1) (journal_of_changes h.1)
    (h.2.2 ha).2 ha
  trans h h' ha := (h ha).trans h'

theorem initializing_reports : reports.Initializing where
  toSteady := steady_reports
  moved id state vm := reports_note (.moved id state) nofun (covered_setState id state vm) rfl
  running m _ := reports_note (.running m) nofun id rfl
  failed := by
    intro a b e id h ha
    have hmoved : reports b none (Exec.after (Exec.setState id .failed) b) :=
      reports_note (.moved id .failed) nofun (covered_setState id .failed b) rfl
    exact { (h ha).trans hmoved with fault := (h ha).fault }
  renamed name h ha := (h ha).stop (Fault.isCovered_ofInitializer name ((h ha).fault _ rfl))

theorem working_reports : reports.Working where
  toSteady := steady_reports
  bare _ _ h ha := ⟨(h ha).covered, (h ha).fault, (h ha).ended⟩
  raise _ _ := reports_of_journal id rfl nofun
  returns _ _ _ _ := reports_of_journal id rfl nofun
  thrown h h' ha := (h ha).trans h'
  overlooked _ h h' ha := (h ha).trans h'
  raised _ h h' ha := (h ha).trans h'
  escaped u _ ha := by
    refine ⟨ha, ?_, fun _ => .inl⟩
    rintro _ ⟨⟩
    exact .inr ⟨u, rfl⟩
  caught r _ := reports_note (.caught r) nofun id rfl
  uncreated _ _ h ha := (h ha).stop rfl
  contained h ha := ⟨(h ha).covered, ((h ha).stop rfl).fault, (h ha).ended⟩
  ended := by
    intro a b e hends _ h ha
    refine ⟨(h ha).covered, (h ha).fault, fun e' he' => ?_⟩
    rcases List.mem_cons.mp he' with heq | he'
    · cases heq
      exact .inr (hends.final ((h ha).fault e rfl))
    · exact (h ha).ended e' he'

theorem running_reports : reports.Running where
  toWorking := working_reports
  step := Exec.has_step working_reports fun _ _ => reports_of_journal id rfl nofun

namespace Exec

inductive Concludes : EStateM.Result Stop Vm Value → Prop
  | value (v : Value) (vm : Vm) : Concludes (.ok v vm)
  | fault {e : Fault} (he : e.Final) (vm : Vm) : Concludes (.error (.fault e) vm)
  /-- The machine is lost. -/
  | undefined (vm : Vm) : Concludes (.error .undefined vm)
  /-- The run has not finished. -/
  | exhausted (vm : Vm) : Concludes (.error .exhausted vm)

theorem Concludes.final {e : Fault} {vm : Vm} (h : Concludes (.error (.fault e) vm)) :
    e.Final := by
  cases h
  assumption

theorem reports_run (fuel base : Nat) : Has reports (run fuel base) :=
  has_run running_reports (has_ensureInitialized initializing_reports) fuel base

theorem concludes_run (fuel base : Nat) {vm : Vm} (h : vm.registry.Covered) :
    Concludes (run fuel base vm) := by
  have hstops := runStops_run fuel base
  cases hcase : run fuel base vm with
  | ok v vm' => exact .value v vm'
  | error stop vm' =>
      obtain ⟨⟨hquiet, hfault⟩, hdefect⟩ := hstops.error hcase
      cases stop with
      | fault e =>
          have he := ((reports_run fuel base).error hcase h).fault e rfl
          exact .fault ((hfault e rfl).final he) vm'
      | thrown r => exact absurd rfl (hquiet r)
      | defect d => exact absurd rfl (hdefect d)
      | undefined => exact .undefined vm'
      | exhausted => exact .exhausted vm'

/-- A run that finishes returns a value, or ends with an uncaught exception or a fatal
fault.  It does so in every machine with a covered registry, and leaves one.  The machine
of a session is such a machine, and its journal tells the same of all runs there were. -/
theorem run_concludes :
    (∀ fuel base vm, vm.registry.Covered →
      Concludes (run fuel base vm) ∧ (after (run fuel base) vm).registry.Covered) ∧
      ∀ source? maxFrames profiler? calls,
        let vm := (Vm.start source? maxFrames profiler?).answer calls
        vm.registry.Covered ∧ ∀ e, .ended e ∈ vm.journal → e.Final := by
  refine ⟨fun fuel base vm h => ?_, ?_⟩
  · exact ⟨concludes_run fuel base h, (reports_run fuel base vm h).covered⟩
  · intro source? maxFrames profiler? calls
    have hcalls : reports (Vm.start source? maxFrames profiler?) none
        ((Vm.start source? maxFrames profiler?).answer calls) := by
      refine Vm.answer_induction (R := fun a b => reports a none b) steady_reports.refl
        steady_reports.trans (fun call vm ha => ?_) _ calls
      have hcall := has_answer running_reports initializing_reports call vm ha
      exact { hcall with fault := nofun }
    have hend := hcalls Registry.covered_empty
    refine ⟨hend.covered, fun e he => ?_⟩
    rcases hend.ended e he with he | he
    · cases he
    · exact he

end Exec

namespace Unreadable

open Exec

theorem covered_registry (state : ClassState) : (registry state).Covered where
  failures := by
    intro name e he
    unfold Registry.failure? registry at he
    simp only [List.find?_cons, List.find?_nil] at he
    split at he <;> cases he
    rfl
  kept := by
    intro id s i use e hs hr
    have hs' : s ∈ (registry state).statuses := Array.mem_of_getElem? hs
    have hr' : some ⟨use, .error e⟩ ∈ s.resolutions := Array.mem_of_getElem? hr
    simp only [registry, List.mem_toArray, List.mem_cons, List.not_mem_nil, or_false] at hs'
    rcases hs' with rfl | rfl | rfl | rfl | rfl | rfl <;> simp at hr'

theorem initializer_concludes :
    (vm .initializing [initializerFrame [] 0 0] []).registry.Covered ∧
      run 2 0 (vm .initializing [initializerFrame [] 0 0] []) =
        .error (.fault unraised) (vm .initializing [] []) ∧ unraised.Final := by
  have hcovered : (vm .initializing [initializerFrame [] 0 0] []).registry.Covered := by
    unfold vm
    exact covered_registry .initializing
  have hrun : run 2 0 (vm .initializing [initializerFrame [] 0 0] []) =
      .error (.fault unraised) (vm .initializing [] []) := @run_initializer [] [] 0
  obtain ⟨hconcludes, -⟩ := run_concludes.1 2 0 _ hcovered
  rw [hrun] at hconcludes
  exact ⟨hcovered, hrun, hconcludes.final⟩

end Unreadable

end ClassEngine.Machine
