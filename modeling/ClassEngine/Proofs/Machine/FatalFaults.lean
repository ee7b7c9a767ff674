import ClassEngine.Proofs.Machine.Rounds
import ClassEngine.Proofs.Machine.Session
import ClassEngine.Proofs.Machine.Unwinding

/-!
# Fatal faults

A fatal fault is one of the machine itself.  Guest code does not see it as long as
no guest exception stands for it: it ends the run it happens in and every run
around it, up to the request of the host, and no handler is entered on the way.
A fault met while an exception object was created also belongs to the categories
of its cause; one of these may have a guest exception, and then the fault is raised.
-/

namespace ClassEngine.Machine

namespace Fault

/-- The fault is one of the machine, not of the guest. -/
def Fatal (e : Fault) : Prop := e.belongs .internal = true ∨ e.belongs .unsupportedOpcode = true

/-- No guest exception stands for the fault, nor for what an initializer makes of it. -/
structure Sealed (e : Fault) : Prop where
  fatal : e.Fatal
  hidden : e.guestException? = none
  caught : e.belongs .uncaught = false

/-- A sealed fault is passed on as another one of the same fatal categories. -/
structure PassedOn (e e' : Fault) : Prop where
  isSealed : e'.Sealed
  internal : e.belongs .internal = true → e'.belongs .internal = true
  unsupported : e.belongs .unsupportedOpcode = true → e'.belongs .unsupportedOpcode = true

variable {e e' cause : Fault}

theorem guestException?_eq_none_iff :
    e.guestException? = none ↔ ∀ p ∈ guestClasses, e.belongs p.1 = false := by
  simp [guestException?]

theorem ne_internal_of_mem_guestClasses :
    ∀ p ∈ guestClasses, p.1 ≠ .internal := by
  simp [guestClasses]

/-- A fault met during the creation of an exception object is sealed if its cause
could not be raised either. -/
theorem sealed_cannotCreate_iff {className message : String} :
    (cannotCreate className message cause).Sealed ↔
      cause.guestException? = none ∧ cause.belongs .uncaught = false := by
  have hbelongs (p) (hp : p ∈ guestClasses) :
      (cannotCreate className message cause).belongs p.1 = cause.belongs p.1 := by
    simp [belongs, ne_internal_of_mem_guestClasses p hp]
  have hnone : (cannotCreate className message cause).guestException? = none ↔
      cause.guestException? = none := by
    rw [guestException?_eq_none_iff, guestException?_eq_none_iff]
    exact forall₂_congr fun p hp => by rw [hbelongs p hp]
  have huncaught : (cannotCreate className message cause).belongs .uncaught =
      cause.belongs .uncaught := by
    simp [belongs]
  constructor
  · intro h
    exact ⟨hnone.mp h.hidden, huncaught ▸ h.caught⟩
  · rintro ⟨hhidden, hcaught⟩
    exact ⟨.inl (by simp [belongs]), hnone.mpr hhidden, huncaught ▸ hcaught⟩

theorem PassedOn.refl (h : e.Sealed) : PassedOn e e := ⟨h, id, id⟩

theorem PassedOn.uncreated (h : PassedOn e cause) (className message : String) :
    PassedOn e (cannotCreate className message cause) where
  isSealed := sealed_cannotCreate_iff.mpr ⟨h.isSealed.hidden, h.isSealed.caught⟩
  internal _ := by simp [belongs]
  unsupported he := by simp [belongs, h.unsupported he]

theorem Sealed.ofInitializer (h : e.Sealed) (name : String) : Exec.ofInitializer name e = e := by
  simp [Exec.ofInitializer, h.caught]

end Fault

/-- The events of an operation that stops with `o`: where a run ended with a sealed
fault, no handler is entered afterwards, and the operation stops with that fault. -/
structure Hides (o : Option Stop) (events : List Event) : Prop where
  uncaught : events.Pairwise fun later earlier => ∀ r e, later = .caught r → earlier = .ended e →
    ¬ e.Sealed
  passed : ∀ e, .ended e ∈ events → e.Sealed → ∃ e', o = some (.fault e') ∧ e.PassedOn e'

/-- Nor is a return handed on after such an end of a run. -/
def hidesFatal : Effect := fun a o b => ∃ events, b.journal = events ++ a.journal ∧
  Hides o events ∧ ∀ e, .ended e ∈ events → e.Sealed → b.returning = false

namespace Hides

variable {o : Option Stop} {events later earlier : List Event}

theorem nil (o : Option Stop) : Hides o [] :=
  ⟨.nil, nofun⟩

/-- An operation that does not stop with a sealed fault has met none. -/
theorem unsealed (h : Hides o events) (ho : ∀ e, o = some (.fault e) → ¬ e.Sealed) (e : Fault)
    (he : .ended e ∈ events) : ¬ e.Sealed := by
  intro hsealed
  obtain ⟨e', ho', hpassed⟩ := h.passed e he hsealed
  exact ho e' ho' hpassed.isSealed

theorem append (hlater : Hides o later) {o' : Option Stop} (hearlier : Hides o' earlier)
    (ho' : ∀ e, o' = some (.fault e) → ¬ e.Sealed) : Hides o (later ++ earlier) where
  uncaught := by
    refine List.pairwise_append.mpr ⟨hlater.uncaught, hearlier.uncaught, ?_⟩
    rintro _ - _ hmem r e - rfl
    -- The later part only began because the earlier one had met no sealed fault.
    exact hearlier.unsealed ho' e hmem
  passed e he hsealed := by
    rcases List.mem_append.mp he with he | he
    · exact hlater.passed e he hsealed
    · exact absurd hsealed (hearlier.unsealed ho' e he)

theorem cons {event : Event} (h : Hides o events) (hcaught : ∀ r, event ≠ .caught r)
    (hended : ∀ e, event = .ended e → o = some (.fault e)) : Hides o (event :: events) where
  uncaught := List.pairwise_cons.mpr ⟨fun _ _ r _ heq => absurd heq (hcaught r), h.uncaught⟩
  passed e he hsealed := by
    rcases List.mem_cons.mp he with heq | he
    · exact ⟨e, hended e heq.symm, .refl hsealed⟩
    · exact h.passed e he hsealed

theorem stop {o' : Option Stop} (h : Hides o events)
    (ho : ∀ e e' : Fault, o = some (.fault e') → e.PassedOn e' →
      ∃ e'', o' = some (.fault e'') ∧ e.PassedOn e'') : Hides o' events where
  uncaught := h.uncaught
  passed e he hsealed :=
    let ⟨e', ho', hpassed⟩ := h.passed e he hsealed
    ho e e' ho' hpassed

end Hides

theorem hidesFatal_refl {a b : Vm} {o : Option Stop} (h : b.journal = a.journal) :
    hidesFatal a o b :=
  ⟨[], h, .nil o, nofun⟩

theorem hidesFatal_trans {a b c : Vm} {o o' : Option Stop} (h : hidesFatal a o' b)
    (ho' : ∀ e, o' = some (.fault e) → ¬ e.Sealed) (h' : hidesFatal b o c) : hidesFatal a o c := by
  obtain ⟨earlier, hb, hearlier, -⟩ := h
  obtain ⟨later, hc, hlater, hclear⟩ := h'
  refine ⟨later ++ earlier, by rw [hc, hb, List.append_assoc], hlater.append hearlier ho', ?_⟩
  intro e he hsealed
  rcases List.mem_append.mp he with he | he
  · exact hclear e he hsealed
  · exact absurd hsealed (hearlier.unsealed ho' e he)

theorem hidesFatal_cons {a b c : Vm} {o : Option Stop} {event : Event} (h : hidesFatal a o b)
    (hc : c.journal = event :: b.journal) (hreturning : c.returning = b.returning)
    (hcaught : ∀ r, event ≠ .caught r)
    (hended : ∀ e, event = .ended e → o = some (.fault e) ∧ b.returning = false) :
    hidesFatal a o c := by
  obtain ⟨events, hb, hides, hclear⟩ := h
  refine ⟨event :: events, by rw [hc, hb]; rfl, hides.cons hcaught fun e he => (hended e he).1, ?_⟩
  intro e he hsealed
  rw [hreturning]
  rcases List.mem_cons.mp he with heq | he
  · exact (hended e heq.symm).2
  · exact hclear e he hsealed

theorem hidesFatal_overlooked {a b c : Vm} {o o' : Option Stop} (hb : b.returning = true)
    (h : hidesFatal a o' b) (h' : hidesFatal b o c) : hidesFatal a o c := by
  obtain ⟨events, hjournal, hides, hclear⟩ := h
  have hopen (e : Fault) (he : .ended e ∈ events) (hsealed : e.Sealed) : False :=
    Bool.false_ne_true ((hclear e he hsealed).symm.trans hb)
  have hnone : Hides none events := ⟨hides.uncaught, fun e he hsealed => (hopen e he hsealed).elim⟩
  exact hidesFatal_trans ⟨events, hjournal, hnone, fun e he hsealed => (hopen e he hsealed).elim⟩
    nofun h'

theorem steady_hidesFatal : hidesFatal.Steady where
  small h := hidesFatal_refl (journal_of_changes h.1)
  trans h h' := hidesFatal_trans h nofun h'

theorem initializing_hidesFatal : hidesFatal.Initializing where
  toSteady := steady_hidesFatal
  moved _ _ _ := hidesFatal_cons (steady_hidesFatal.refl _) rfl rfl nofun nofun
  running _ _ := hidesFatal_cons (steady_hidesFatal.refl _) rfl rfl nofun nofun
  failed _ h := hidesFatal_cons h rfl rfl nofun nofun
  renamed := by
    rintro a b e name ⟨events, hb, hides, hclear⟩
    refine ⟨events, hb, hides.stop ?_, hclear⟩
    rintro e₀ _ ⟨⟩ hpassed
    exact ⟨e, by rw [hpassed.isSealed.ofInitializer], hpassed⟩

theorem working_hidesFatal : hidesFatal.Working where
  toSteady := steady_hidesFatal
  bare _ _ h := h
  raise _ _ := hidesFatal_refl rfl
  returns _ _ _ _ := hidesFatal_refl rfl
  escaped _ _ := hidesFatal_refl rfl
  thrown h h' := hidesFatal_trans h nofun h'
  overlooked := hidesFatal_overlooked
  raised := by
    intro a b c o e hraised h h'
    refine hidesFatal_trans h ?_ h'
    rintro _ ⟨⟩ hsealed
    exact hraised hsealed.hidden
  caught r _ := ⟨[.caught r], rfl, ⟨List.pairwise_singleton _ _, by simp⟩, by simp⟩
  uncreated := by
    rintro a b cause className message ⟨events, hb, hides, hclear⟩
    refine ⟨events, hb, hides.stop ?_, hclear⟩
    rintro e _ ⟨⟩ hpassed
    exact ⟨_, rfl, hpassed.uncreated className message⟩
  contained := by
    rintro a b d ⟨events, hb, hides, -⟩
    exact ⟨events, hb, hides.stop nofun, fun _ _ _ => rfl⟩
  ended _ hclear h := hidesFatal_cons h rfl rfl nofun (by rintro _ ⟨⟩; exact ⟨rfl, hclear⟩)

theorem running_hidesFatal : hidesFatal.Running where
  toWorking := working_hidesFatal
  step := Exec.has_step working_hidesFatal fun _ _ => hidesFatal_refl rfl

namespace Exec

theorem has_serve_hidesFatal (fuel : Nat) (q : Request) : Has hidesFatal (serve fuel q) := by
  have hexecute (m : Method) (args : List Value) : Has hidesFatal (execute fuel m args) :=
    has_executeBy working_hidesFatal
      (has_run running_hidesFatal (has_ensureInitialized initializing_hidesFatal) fuel)
      (runStops_run fuel) m args
  refine has_serve steady_hidesFatal hexecute ?_ q
  exact has_ensureInitialized initializing_hidesFatal fun m =>
    has_discard steady_hidesFatal (hexecute m [])

/-- An exception is unwound to a handler, or it ends the run as one of the guest. -/
def Surfaces (r : Ref) (journal : List Event) : EStateM.Result Stop Vm Unit → Prop
  | .ok () vm => vm.journal = .caught r :: journal
  | .error (.fault e) _ => ¬ e.Fatal
  | .error _ _ => True

theorem surfaces_resume {vm : Vm} (r : Ref) (frames : List Frame) :
    Surfaces r vm.journal
      ((do
        note (.caught r)
        modify ({ · with frames })
        onFrame (.push (.ref r)) : Exec Unit) vm) := by
  show Surfaces r vm.journal (onFrame (.push (.ref r)) { vm with
    frames
    journal := .caught r :: vm.journal })
  cases frames with
  | nil => trivial
  | cons f below =>
      rw [onFrame_push_apply _ (rfl : _ = f :: below)]
      split
      · rfl
      · trivial

theorem surfaces_bind {α : Type} {r : Ref} {journal : List Event} {x : Exec α} (hx : Searches x)
    {f : α → Exec Unit} {vm : Vm}
    (hf : ∀ a vm', vm'.journal = vm.journal → Surfaces r journal (f a vm')) :
    Surfaces r journal ((x >>= f) vm) := by
  rw [bind_apply]
  cases hcase : x vm with
  | ok a vm' => exact hf a vm' (journal_of_changes (hx.ok hcase).1.1)
  | error stop vm' =>
      cases stop with
      | fault e => exact absurd rfl ((hx.error hcase).2 e)
      | thrown | defect | undefined | exhausted => trivial

theorem surfaces_unwind (base : Nat) (r : Ref) (vm : Vm) :
    Surfaces r vm.journal (unwind base r vm) := by
  obtain ⟨traces, htraces⟩ := recordTrace_apply r vm
  unfold unwind
  rw [bind_apply, htraces]
  refine surfaces_bind (searches_classOfObject r) fun id vm₁ h₁ => ?_
  refine surfaces_bind searches_get fun vm₂ vm₃ h₃ => ?_
  refine surfaces_bind (searches_seekHandler base id vm₂.frames) fun frames? vm₄ h₄ => ?_
  cases frames? with
  | some frames =>
      have hjournal : vm₄.journal = vm.journal := h₄.trans (h₃.trans h₁)
      rw [← hjournal]
      exact surfaces_resume r frames
  | none =>
      dsimp only
      rw [bind_apply, cutTo_apply]
      dsimp only
      rw [bind_apply, classAt_apply]
      cases (after (cutTo base) vm₄).registry.classes[id]? with
      | none => trivial
      | some c =>
          obtain ⟨message, hmessage⟩ := throwableMessage_total r (after (cutTo base) vm₄)
          dsimp only
          rw [bind_apply, hmessage]
          show ¬ (Fault.uncaught _).Fatal
          simp [Fault.Fatal, Fault.belongs]

/-- A fault of an initializer that is fatal but not sealed is raised in the run around
it, as soon as an exception object can be created. -/
theorem raiseFault_of_not_sealed {e : Fault} (hfatal : e.Fatal) (hopen : ¬ e.Sealed)
    (name : String) :
    ∃ className message, (ofInitializer name e).guestException? = some (className, message) ∧
      ∀ prepare base vm r vm', newThrowable prepare className message vm = .ok r vm' →
        Surfaces r vm'.journal (raiseFault prepare base (ofInitializer name e) vm) := by
  have hraised : (ofInitializer name e).guestException? ≠ none := by
    intro hnone
    cases hcaught : e.belongs .uncaught with
    | false =>
        rw [ofInitializer, hcaught] at hnone
        exact hopen ⟨hfatal, hnone, hcaught⟩
    | true =>
        rw [ofInitializer, hcaught, if_pos rfl, Fault.guestException?_eq_none_iff] at hnone
        have hfirst := hnone (.initializerThrew, "java/lang/ExceptionInInitializerError")
          (by simp [Fault.guestClasses])
        simp [Fault.belongs] at hfirst
  obtain ⟨⟨className, message⟩, hguest⟩ := Option.ne_none_iff_exists'.mp hraised
  refine ⟨className, message, hguest, fun prepare base vm r vm' hnew => ?_⟩
  rw [raiseFault_of_created hguest hnew]
  exact surfaces_unwind base r vm'

/-- When a run inside a request ends with a sealed fault, no handler is entered any
more and the request ends with a fault of the same fatal categories.  A fatal fault that
is not sealed does not stay hidden: it surfaces in the run around the initializer. -/
theorem fatal_hidden_while_sealed (fuel : Nat) (q : Request) (vm : Vm) :
    hidesFatal vm (stop? (serve fuel q) vm) (after (serve fuel q) vm) ∧
      ∀ e : Fault, e.Fatal → ¬ e.Sealed → ∀ name,
        ∃ className message, (ofInitializer name e).guestException? = some (className, message) ∧
          ∀ prepare base vm r vm', newThrowable prepare className message vm = .ok r vm' →
            Surfaces r vm'.journal (raiseFault prepare base (ofInitializer name e) vm) :=
  ⟨has_serve_hidesFatal fuel q vm, fun _ hfatal hopen => raiseFault_of_not_sealed hfatal hopen⟩

end Exec

/-! ## A fatal fault that is handled -/

namespace Unreadable

open Caller Exec Code

def detailMessage : Field :=
  ⟨⟨1, 0⟩, throwableName, messageFieldName, "Ljava/lang/String;", 0,
    .object stringClassName "Ljava/lang/String;", 0, 0⟩

def throwable : Class :=
  { rootClass with
    name := throwableName
    super? := some 0
    fields := [detailMessage]
    layout := #[detailMessage] }

def linkageError : Class :=
  { rootClass with
    name := "java/lang/LinkageError"
    super? := some 1
    layout := #[detailMessage] }

def string : Class := { rootClass with name := stringClassName, super? := some 0 }

def initializerBody : ClassFile.Body := ⟨1, 0, #[0x01, 0xbf], [], []⟩

def initializer : Method :=
  ⟨⟨4, 0⟩, "A", 0, ClassFile.initializerName, "()V", 0x0008, ⟨[], none, "()V"⟩, initializerBody⟩

def mainBody : ClassFile.Body :=
  ⟨1, 0, #[0xbb, 0x00, 0x01, 0x57, 0x10, 0x2a, 0xac], [⟨0, 3, 3, 0⟩], []⟩

def main : Method :=
  ⟨⟨5, 0⟩, "Main", 0, "main", "()I", 0x0008, ⟨[], some (.base .int "I"), "()I"⟩, mainBody⟩

def failingClass : Class :=
  { rootClass with name := "A", super? := some 0, methods := [initializer] }

def mainClass : Class := { rootClass with name := "Main", super? := some 0, methods := [main] }

def reason : Fault := .unreadable "java/lang/NullPointerException" "disk failure"

def classes : Classes :=
  #[rootClass, throwable, linkageError, string, failingClass, mainClass]

def registry (state : ClassState) : Registry where
  classes
  statuses := #[⟨.initialized, #[], #[]⟩, ⟨.initialized, #[], #[]⟩, ⟨.initialized, #[], #[]⟩,
    ⟨.initialized, #[], #[]⟩, ⟨state, #[], #[]⟩,
    ⟨.initialized, #[], #[none, some ⟨.classRef, .ok (.classRef 4)⟩]⟩]
  failures := [("java/lang/NullPointerException", reason)]

theorem find?_registry (state : ClassState) :
    (registry state).find? "java/lang/NullPointerException" = none ∧
      (registry state).find? "java/lang/LinkageError" = some 2 ∧
      (registry state).find? throwableName = some 1 ∧
      (registry state).find? stringClassName = some 3 := by
  show classes.findIdx? (·.name = "java/lang/NullPointerException") = none ∧
    classes.findIdx? (·.name = "java/lang/LinkageError") = some 2 ∧
    classes.findIdx? (·.name = throwableName) = some 1 ∧
    classes.findIdx? (·.name = stringClassName) = some 3
  with_unfolding_all decide

def vm (state : ClassState) (frames : List Frame) (journal : List Event) : Vm where
  source := .among [] fun name => .error (.notFound name)
  maxFrames := 8
  registry := registry state
  frames
  journal

def nullFault : Fault := .nullPointer (some "throw of null")

def unraised : Fault := .cannotCreate "java/lang/NullPointerException" nullFault.message reason

def mainFrame (stack : List Value) (opPc pc : Nat) : Frame :=
  ⟨main, mainBody, #[], stack, pc, opPc⟩

def initializerFrame (stack : List Value) (opPc pc : Nat) : Frame :=
  ⟨initializer, initializerBody, #[], stack, pc, opPc⟩

variable {journal : List Event} {below : List Frame} {fuel : Nat}

theorem run_initializer :
    run (fuel + 2) below.length (vm .initializing (initializerFrame [] 0 0 :: below) journal) =
      .error (.fault unraised) (vm .initializing below journal) := by
  have hconst : (⟨0x01⟩ : Opcode).operation? = some (.data .nullConst) := by decide +kernel
  have hraise : (⟨0xbf⟩ : Opcode).operation? = some (.object .raise) := by decide +kernel
  have hfirst (prepare : ClassId → Exec Unit) :
      round prepare (vm .initializing (initializerFrame [] 0 0 :: below) journal) =
        .ok () (vm .initializing (initializerFrame [.ref .null] 0 1 :: below) journal) := by
    rw [round_apply rfl rfl rfl hconst]
    rfl
  have hsecond (prepare : ClassId → Exec Unit) :
      round prepare (vm .initializing (initializerFrame [.ref .null] 0 1 :: below) journal) =
        .error (.fault nullFault)
          (vm .initializing (initializerFrame [] 1 2 :: below) journal) := by
    rw [round_apply rfl rfl rfl hraise]
    rfl
  have hguest : nullFault.guestException? =
      some ("java/lang/NullPointerException", nullFault.detailFor .nullPointer) := rfl
  have hnew (prepare : ClassId → Exec Unit) :
      newThrowable prepare "java/lang/NullPointerException" (nullFault.detailFor .nullPointer)
        (vm .initializing (initializerFrame [] 1 2 :: below) journal) =
        .error (.fault reason) (vm .initializing (initializerFrame [] 1 2 :: below) journal) := by
    unfold newThrowable
    exact bind_of_error (loadClass_of_failure (find?_registry _).1 rfl)
  rw [run_of_none (advance_of_next (hfirst _) rfl)]
  refine run_of_fault (advance_of_fatal (hsecond _) rfl ?_)
  rw [raiseFault_of_uncreated hguest (hnew _)]
  exact congrArg _ (after_cutTo_cons (vm .initializing below journal) _ below)

def caller : List Frame := [mainFrame [] 0 3]

def failure : List Event :=
  [.moved 4 .failed, .ended unraised, .running ⟨4, 0⟩, .moved 4 .initializing]

def begun (events : List Event) : Vm :=
  vm .initializing caller (events ++ [.moved 4 .initializing])

theorem executeBy_initializer :
    executeBy (run (fuel + 2)) initializer [] (begun [.running ⟨4, 0⟩]) =
      .error (.fault unraised) (begun [.ended unraised, .running ⟨4, 0⟩]) := by
  have hdepth : caller.length < 8 := by decide
  have henter : executeBy (run (fuel + 2)) initializer [] (begun [.running ⟨4, 0⟩]) =
      releaseTraces (noteEnd (run (fuel + 2) caller.length))
        (vm .initializing (initializerFrame [] 0 0 :: caller)
          [.running ⟨4, 0⟩, .moved 4 .initializing]) :=
    executeBy_apply rfl rfl rfl hdepth rfl rfl
  exact henter.trans (releaseTraces_of_fault run_initializer)

theorem initializeBy_failing :
    initializeBy (run (fuel + 2)) 4 (vm .linked caller []) =
      .error (.fault unraised) (vm .failed caller failure) := by
  unfold initializeBy
  generalize hrun : (fun m => do
      let _ ← executeBy (run (fuel + 2)) m []
      return () : Method → Exec Unit) = runInitializer
  have hthrows : runInitializer initializer (begun [.running ⟨4, 0⟩]) =
      .error (.fault unraised) (begun [.ended unraised, .running ⟨4, 0⟩]) := by
    subst hrun
    exact bind_of_error executeBy_initializer
  have hsuper : ensureInitialized runInitializer 0 (begun []) = .ok () (begun []) :=
    ensureInitialized_of_initialized (c := rootClass) (s := ⟨.initialized, #[], #[]⟩) rfl rfl rfl
  have hown : initializeOwn runInitializer failingClass (begun []) =
      .error (.fault unraised) (begun [.ended unraised, .running ⟨4, 0⟩]) := by
    rw [initializeOwn_of_fault (c := failingClass) (m := initializer) rfl rfl hthrows]
    rfl
  have hwork : (do
      ensureInitialized runInitializer 0
      initializeOwn runInitializer failingClass : Exec Unit) (begun []) =
        .error (.fault unraised) (begun [.ended unraised, .running ⟨4, 0⟩]) := by
    rw [bind_of_ok hsuper, hown]
  have hstart : setState 4 .initializing (vm .linked caller []) = .ok () (begun []) := rfl
  rw [ensureInitialized, bind_of_ok (classAt_apply_of_some (c := failingClass) rfl),
    bind_of_ok (statusAt_apply_of_some (s := ⟨.linked, #[], #[]⟩) rfl)]
  dsimp only
  rw [bind_of_ok hstart]
  exact bind_of_error (failing_of_fault hwork)

theorem guestException?_unraised :
    ∃ message, unraised.guestException? = some ("java/lang/LinkageError", message) ∧
      message ≠ "" := by
  have hfirst : Fault.guestClasses.find? (fun p => unraised.belongs p.1) =
      some (.linkage, "java/lang/LinkageError") := by decide
  refine ⟨unraised.detailFor .linkage, ?_, by with_unfolding_all decide⟩
  unfold Fault.guestException?
  rw [hfirst]
  rfl

def withObjects (objects : Array Object) : Vm :=
  { vm .failed caller failure with heap := { objects } }

def message (text : String) : Object :=
  { classId := 3, fields := string.zeroFields, text }

def exception : Object :=
  { classId := 2, fields := linkageError.zeroFields.setIfInBounds 0 (.ref ⟨2⟩) }

theorem newThrowable_linkageError {text : String} (htext : text ≠ "") :
    newThrowable (initializeBy (run fuel)) "java/lang/LinkageError" text
        (vm .failed caller failure) =
      .ok ⟨1⟩ (withObjects #[exception, message text]) := by
  obtain ⟨-, hlinkage, hthrowable, hstring⟩ := find?_registry .failed
  have hprepare : initializeBy (run fuel) 2 (vm .failed caller failure) =
      .ok () (vm .failed caller failure) :=
    ensureInitialized_of_initialized (c := linkageError) (s := ⟨.initialized, #[], #[]⟩) rfl rfl rfl
  have halloc : allocInstance 2 (vm .failed caller failure) =
      .ok ⟨1⟩ (withObjects #[{ classId := 2, fields := linkageError.zeroFields }]) := rfl
  have hstring : newString text
      (withObjects #[{ classId := 2, fields := linkageError.zeroFields }]) = .ok ⟨2⟩ (withObjects
        #[{ classId := 2, fields := linkageError.zeroFields }, message text]) := by
    unfold newString
    rw [bind_of_ok (loadClass_of_found hstring)]
    rfl
  have hfield : setField ⟨1⟩ 1 messageFieldName (.ref ⟨2⟩) (withObjects
      #[{ classId := 2, fields := linkageError.zeroFields }, message text]) =
        .ok () (withObjects #[exception, message text]) := rfl
  unfold newThrowable
  rw [bind_of_ok (loadClass_of_found hlinkage), bind_of_ok hprepare, bind_of_ok halloc,
    if_neg htext, bind_of_ok (loadClass_of_found hthrowable), bind_of_ok hstring, bind_of_ok hfield]
  rfl

def handled (text : String) (frames : List Frame) : Vm :=
  { vm .failed frames (.caught ⟨1⟩ :: failure) with
    heap := { objects := #[exception, message text] }
    traces := [(⟨1⟩, caller.map (·.traceElement))] }

theorem advance_create (fuel : Nat) :
    ∃ text, advance (initializeBy (run (fuel + 2))) 0 (vm .linked [mainFrame [] 0 0] []) =
      .ok none (handled text [mainFrame [.ref ⟨1⟩] 0 3]) := by
  have hcreate : (⟨0xbb⟩ : Opcode).operation? = some (.object .create) := by decide +kernel
  obtain ⟨text, hguest, htext⟩ := guestException?_unraised
  have hobject : object (initializeBy (run (fuel + 2))) .create (vm .linked [mainFrame [] 0 1] []) =
      .error (.fault unraised) (vm .failed caller failure) := by
    show (do
        initializeBy (run (fuel + 2)) 4
        let r ← allocInstance 4
        onFrame (.push (.ref r)) : Exec Unit) (vm .linked caller []) = _
    exact bind_of_error initializeBy_failing
  have hround : round (initializeBy (run (fuel + 2))) (vm .linked [mainFrame [] 0 0] []) =
      .error (.fault unraised) (vm .failed caller failure) := by
    rw [round_apply rfl rfl rfl hcreate]
    exact hobject
  refine ⟨text, advance_of_fault hround rfl ?_⟩
  rw [raiseFault_of_created hguest (newThrowable_linkageError htext)]
  rfl

def finished (text : String) : Vm :=
  { handled text [] with result := .int 42, hasResult := true }

theorem run_handler (text : String) :
    run (fuel + 3) 0 (handled text [mainFrame [.ref ⟨1⟩] 0 3]) =
      .ok (.int 42) (finished text) := by
  have hpop : (⟨0x57⟩ : Opcode).operation? = some (.data .pop) := by decide +kernel
  have hpush : (⟨0x10⟩ : Opcode).operation? = some (.data .pushByte) := by decide +kernel
  have hreturn : (⟨0xac⟩ : Opcode).operation? = some .returnValue := by decide +kernel
  have hfirst (prepare : ClassId → Exec Unit) :
      round prepare (handled text [mainFrame [.ref ⟨1⟩] 0 3]) =
        .ok () (handled text [mainFrame [] 3 4]) := by
    rw [round_apply rfl rfl rfl hpop]
    rfl
  have hsecond (prepare : ClassId → Exec Unit) :
      round prepare (handled text [mainFrame [] 3 4]) =
        .ok () (handled text [mainFrame [.int 42] 4 6]) := by
    rw [round_apply rfl rfl rfl hpush]
    rfl
  have hthird (prepare : ClassId → Exec Unit) :
      round prepare (handled text [mainFrame [.int 42] 4 6]) =
        .ok () { finished text with returning := true } := by
    rw [round_apply rfl rfl rfl hreturn]
    rfl
  rw [run_of_none (advance_of_next (hfirst _) rfl), run_of_none (advance_of_next (hsecond _) rfl)]
  exact run_of_some (advance_of_returned (hthird _) rfl rfl)

/-- The initializer fails because an exception class cannot be read, a fault of the
machine.  The method that used its class handles that as an exception and returns. -/
theorem handles_fatal_fault :
    unraised.Fatal ∧ ∃ last, invokeMethod 10 main [] (vm .linked [] []) = .ok (.int 42) last ∧
      last.journal = [.caught ⟨1⟩, .moved 4 .failed, .ended unraised, .running ⟨4, 0⟩,
        .moved 4 .initializing] := by
  have hprepared : initialized 10 5 (vm .linked [] []) = .ok () (vm .linked [] []) :=
    ensureInitialized_of_initialized (c := mainClass)
      (s := ⟨.initialized, #[], #[none, some ⟨.classRef, .ok (.classRef 4)⟩]⟩) rfl rfl rfl
  have henter : execute 10 main [] (vm .linked [] []) =
      releaseTraces (noteEnd (run 10 0)) (vm .linked [mainFrame [] 0 0] []) :=
    executeBy_apply rfl rfl rfl (by decide) rfl rfl
  obtain ⟨text, hcreate⟩ := advance_create 7
  have hrun : run 10 0 (vm .linked [mainFrame [] 0 0] []) = .ok (.int 42) (finished text) := by
    rw [run_of_none hcreate]
    exact run_handler text
  have hexecute : execute 10 main [] (vm .linked [] []) =
      .ok (.int 42) (released (finished text)) :=
    henter.trans (releaseTraces_of_ok hrun)
  refine ⟨.inl rfl, released (finished text), ?_, released_journal _⟩
  unfold invokeMethod
  show (do
      initialized 10 5
      execute 10 main [] : Exec Value) _ = _
  rw [bind_of_ok hprepared, hexecute]

end Unreadable

end ClassEngine.Machine
