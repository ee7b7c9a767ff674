import ClassEngine.Proofs.Machine.Session

/-!
# The frames below a run

A run keeps to the frames above those it was started on: while it goes on, at least
one frame lies on them, and when it is done exactly they remain.  Static
initializers are runs inside an instruction, so the statement for one run rests on
that for the runs inside it, which have less fuel.
-/

namespace ClassEngine.Machine

open Code

/-- One frame lies right on the frames `below`, and others may lie on it. -/
def Under (below : List Frame) : List Frame → Prop
  | [] => False
  | _ :: rest => below <:+ rest

theorem Under.suffix {below frames : List Frame} (h : Under below frames) : below <:+ frames := by
  cases frames with
  | nil => exact h.elim
  | cons f rest => exact h.trans (List.suffix_cons f rest)

theorem Under.length_lt {below frames : List Frame} (h : Under below frames) :
    below.length < frames.length := by
  cases frames with
  | nil => exact h.elim
  | cons f rest => exact Nat.lt_succ_of_le (List.IsSuffix.length_le h)

theorem Under.of_suffix {below frames frames' : List Frame} (h : Under below frames)
    (hs : frames <:+ frames') : Under below frames' := by
  cases frames with
  | nil => exact h.elim
  | cons f rest =>
      cases frames' with
      | nil => simp at hs
      | cons f' rest' =>
          rcases List.suffix_cons_iff.mp hs with heq | hs
          · cases heq
            exact h
          · exact (h.trans (List.suffix_cons f rest)).trans hs

theorem under_of_suffix {below frames : List Frame} (h : below <:+ frames)
    (hlen : below.length ≠ frames.length) : Under below frames := by
  cases frames with
  | nil => simp_all
  | cons f rest =>
      rcases List.suffix_cons_iff.mp h with heq | h
      · exact absurd (congrArg List.length heq) hlen
      · exact h

/-- The frames that an operation finds stay under those it leaves. -/
def keepsBelow : Effect := fun a _ b => ∀ below, Under below a.frames → Under below b.frames

theorem keepsBelow_of_change {a b : Vm} (h : Change a b) {below : List Frame}
    (hbelow : Under below a.frames) : Under below b.frames := by
  cases h with
  | heap | load | keep | assign | profiler => exact hbelow
  | frame f f' rest current =>
      rw [current] at hbelow
      exact hbelow
  | enter f => exact hbelow.suffix

theorem keepsBelow_of_changes {a b : Vm} (h : Changes a b) {below : List Frame}
    (hbelow : Under below a.frames) : Under below b.frames := by
  induction h with
  | refl => exact hbelow
  | tail _ hchange ih => exact keepsBelow_of_change hchange ih

theorem steady_keepsBelow : keepsBelow.Steady where
  small h _ hbelow := keepsBelow_of_changes h.1 hbelow
  trans h h' below hbelow := h' below (h below hbelow)

def quietlyKeepsBelow : Effect := fun a o b => keepsBelow a o b ∧ Quiet o

theorem initializing_quietlyKeepsBelow : quietlyKeepsBelow.Initializing where
  small h := ⟨steady_keepsBelow.small h, h.2.1⟩
  trans h h' := ⟨steady_keepsBelow.trans h.1 h'.1, h'.2⟩
  moved _ _ _ := ⟨fun _ h => h, quiet_none⟩
  running _ _ := ⟨fun _ h => h, quiet_none⟩
  failed _ h := h
  renamed _ h := ⟨h.1, nofun⟩

namespace Exec

variable {below : List Frame}

theorem Local.under {α : Type} {x : Exec α} (hx : Local x) {vm : Vm} (h : Under below vm.frames) :
    Under below (after x vm).frames :=
  keepsBelow_of_changes (hx vm).1 h

/-! ## One instruction -/

/-- What an instruction leaves of the frames; one that returns may leave just those below. -/
def KeepsUnder (below : List Frame) : EStateM.Result Stop Vm Unit → Prop
  | .ok _ vm => Under below vm.frames ∨ vm.returning = true ∧ below <:+ vm.frames
  | .error _ vm => Under below vm.frames

theorem keepsUnder_of_has {x : Exec Unit} (hx : Has keepsBelow x) {vm : Vm}
    (h : Under below vm.frames) : KeepsUnder below (x vm) := by
  cases hcase : x vm with
  | ok _ vm' => exact .inl (hx.ok hcase below h)
  | error stop vm' => exact hx.error hcase below h

theorem keepsUnder_bind {α : Type} {x : Exec α} (hx : Local x) {f : α → Exec Unit}
    (hf : ∀ a {vm}, Under below vm.frames → KeepsUnder below (f a vm)) {vm : Vm}
    (h : Under below vm.frames) : KeepsUnder below ((x >>= f) vm) := by
  rw [bind_apply]
  have hafter := hx.under h
  unfold after at hafter
  cases hcase : x vm with
  | ok a vm' =>
      rw [hcase] at hafter
      exact hf a hafter
  | error stop vm' =>
      rw [hcase] at hafter
      exact hafter

theorem keepsUnder_leaveFrame (v? : Option Value) {vm : Vm} (h : Under below vm.frames) :
    KeepsUnder below (leaveFrame v? vm) := by
  refine .inr ⟨rfl, ?_⟩
  show below <:+ vm.frames.drop 1
  cases hframes : vm.frames with
  | nil => simp [hframes, Under] at h
  | cons f rest =>
      rw [hframes] at h
      exact h

theorem keepsUnder_perform {prepare : ClassId → Exec Unit}
    (hprepare : ∀ id, Has keepsBelow (prepare id)) (op : Operation) {vm : Vm}
    (h : Under below vm.frames) : KeepsUnder below (perform prepare op vm) := by
  cases hop : op.isReturn with
  | false =>
      have hperform := has_perform steady_keepsBelow (fun _ _ _ h => h) hprepare hop fun _ =>
        has_selectMethod steady_keepsBelow fun _ _ _ h => h
      exact keepsUnder_of_has hperform h
  | true =>
      cases op with
      | returnVoid => exact keepsUnder_leaveFrame none h
      | returnValue =>
          exact keepsUnder_bind (local_onFrame _)
            (fun v {_} h => keepsUnder_leaveFrame (some v) h) h
      | _ => cases hop

theorem keepsUnder_step {prepare : ClassId → Exec Unit}
    (hprepare : ∀ id, Has keepsBelow (prepare id)) {vm : Vm} (h : Under below vm.frames) :
    KeepsUnder below (step prepare vm) := by
  refine keepsUnder_bind (local_onFrame _) (fun _ {vm} h => ?_) h
  refine keepsUnder_bind (local_onFrame _) (fun byte {vm} h => ?_) h
  cases (⟨byte⟩ : Opcode).operation? with
  | some op => exact keepsUnder_perform hprepare op h
  | none => exact keepsUnder_of_has ((local_unsupported _).has steady_keepsBelow) h

/-! ## One round -/

/-- What a round on top of the frames `below` leaves of the frames. -/
def RoundLeaves (below : List Frame) : EStateM.Result Stop Vm (Option Value) → Prop
  | .ok none vm => Under below vm.frames
  | .ok (some _) vm | .error (.fault _) vm => vm.frames = below
  | .error (.thrown _) _ => False
  | .error _ vm => below <:+ vm.frames

theorem frames_cutTo {vm : Vm} (h : below <:+ vm.frames) :
    (after (cutTo below.length) vm).frames = below :=
  (List.suffix_iff_eq_drop.mp h).symm

theorem roundLeaves_push (v : Value) (vm : Vm) (h : Under below vm.frames) :
    RoundLeaves below ((do onFrame (.push v); return none : Exec (Option Value)) vm) := by
  cases hframes : vm.frames with
  | nil => simp [hframes, Under] at h
  | cons f rest =>
      have hrest : below <:+ rest := by
        rw [hframes] at h
        exact h
      rw [bind_apply, onFrame_push_apply v hframes]
      by_cases hroom : f.stack.length < f.maxStack
      · rw [if_pos hroom]
        exact hrest
      · rw [if_neg hroom]
        exact h.suffix

theorem roundLeaves_finish {vm : Vm} (h : below <:+ vm.frames) :
    RoundLeaves below (finish below.length vm) := by
  unfold finish
  rw [bind_of_ok (rfl : clearReturn vm = .ok () { vm with returning := false }),
    bind_of_ok (get_apply _)]
  dsimp only
  by_cases hlen : vm.frames.length = below.length
  · rw [if_pos hlen]
    exact (h.eq_of_length hlen.symm).symm
  · rw [if_neg hlen]
    have hunder := under_of_suffix h (Ne.symm hlen)
    split
    · exact roundLeaves_push vm.result { vm with returning := false } hunder
    · exact hunder

theorem roundLeaves_unlessReturning {x : Exec Unit} {vm : Vm} (h : below <:+ vm.frames)
    (hx : vm.returning = false →
      RoundLeaves below ((do x; return none : Exec (Option Value)) vm)) :
    RoundLeaves below (unlessReturning below.length x vm) := by
  rw [unlessReturning_apply]
  split
  · exact roundLeaves_finish h
  · exact hx ((Bool.not_eq_true _).mp ‹_›)

/-- The work before the frames are cut; a fault there would leave too many. -/
theorem roundLeaves_bind {α : Type} {x : Exec α} (hx : Has quietlyKeepsBelow.faultless x)
    {f : α → Exec (Option Value)} {vm : Vm} (h : Under below vm.frames)
    (hf : ∀ a vm', x vm = .ok a vm' → Under below vm'.frames → RoundLeaves below (f a vm')) :
    RoundLeaves below ((x >>= f) vm) := by
  rw [bind_apply]
  cases hcase : x vm with
  | ok a vm' => exact hf a vm' hcase ((hx.ok hcase).1.1 below h)
  | error stop vm' =>
      obtain ⟨⟨hkeeps, hquiet⟩, hfault⟩ := hx.error hcase
      have hsuffix := (hkeeps below h).suffix
      cases stop with
      | fault e => exact absurd rfl (hfault e)
      | thrown r => exact absurd rfl (hquiet r)
      | defect | undefined | exhausted => exact hsuffix

theorem roundLeaves_bind_of_searches {α : Type} {x : Exec α} (hx : Searches x)
    {f : α → Exec (Option Value)} {vm : Vm} (h : Under below vm.frames)
    (hf : ∀ a vm', x vm = .ok a vm' → Under below vm'.frames → RoundLeaves below (f a vm')) :
    RoundLeaves below ((x >>= f) vm) :=
  roundLeaves_bind
    (fun vm => ⟨initializing_quietlyKeepsBelow.small (hx vm).1, (hx vm).2⟩) h hf

theorem roundLeaves_bind_of_reads {α : Type} {x : Exec α} (hx : Reads x)
    {f : α → Exec (Option Value)} {vm : Vm} (h : vm.frames = below)
    (hf : ∀ a, RoundLeaves below (f a vm)) : RoundLeaves below ((x >>= f) vm) := by
  rw [bind_apply]
  cases hcase : x vm with
  | ok a vm' =>
      rw [(hx.ok hcase).1]
      exact hf a
  | error stop vm' =>
      obtain ⟨hvm, hquiet, -⟩ := hx.error hcase
      have hframes : vm'.frames = below := hvm ▸ h
      cases stop with
      | fault e => exact hframes
      | thrown r => exact absurd rfl (hquiet r)
      | defect | undefined | exhausted => exact hframes ▸ List.suffix_rfl

theorem roundLeaves_unwind (r : Ref) {vm : Vm} (h : Under below vm.frames) :
    RoundLeaves below ((do unwind below.length r; return none : Exec (Option Value)) vm) := by
  unfold unwind
  simp only [bind_assoc]
  obtain ⟨traces, htraces⟩ := recordTrace_apply r vm
  rw [bind_apply, htraces]
  refine roundLeaves_bind_of_searches (searches_classOfObject r) h fun id vm _ h => ?_
  refine roundLeaves_bind_of_searches searches_get h fun vm₀ vm hvm h => ?_
  cases hvm
  refine roundLeaves_bind_of_searches (searches_seekHandler _ _ _) h fun frames? vm' hseek h' => ?_
  cases frames? with
  | some frames =>
      obtain ⟨f, rest, pc, hsuffix, hbase, rfl⟩ := seekHandler_some hseek
      have hrest : below <:+ rest :=
        List.suffix_of_suffix_length_le h.suffix ((List.suffix_cons f rest).trans hsuffix) hbase
      exact roundLeaves_push (.ref r) { vm' with
        frames := { f with stack := [], pc } :: rest
        journal := .caught r :: vm'.journal } hrest
  | none =>
      have hcut := frames_cutTo h'.suffix
      simp only [bind_assoc]
      rw [bind_apply, cutTo_apply]
      refine roundLeaves_bind_of_reads (reads_classAt id) hcut fun c => ?_
      refine roundLeaves_bind_of_reads (looks_throwableMessage r).reads hcut fun message => ?_
      exact roundLeaves_bind_of_reads (looks_traceOf r).reads hcut fun trace => hcut

theorem roundLeaves_raiseFault {prepare : ClassId → Exec Unit}
    (hprepare : ∀ id, Has quietlyKeepsBelow (prepare id)) (e : Fault) {vm : Vm}
    (h : Under below vm.frames) :
    RoundLeaves below
      ((do raiseFault prepare below.length e; return none : Exec (Option Value)) vm) := by
  unfold raiseFault
  cases e.guestException? with
  | none => exact frames_cutTo h.suffix
  | some exception =>
      obtain ⟨className, message⟩ := exception
      dsimp only
      have hnew := has_newThrowable initializing_quietlyKeepsBelow.toSteady hprepare className
        message
      rw [bind_assoc]
      refine roundLeaves_bind (hnew.attempt fun h => ⟨h.1, quiet_none⟩) h fun outcome vm' _ h => ?_
      cases outcome with
      | ok r => exact roundLeaves_unwind r h
      | error cause => exact frames_cutTo h.suffix

theorem roundLeaves_advance {prepare : ClassId → Exec Unit}
    (hprepare : ∀ id, Has quietlyKeepsBelow (prepare id)) {vm : Vm} (h : Under below vm.frames) :
    RoundLeaves below (advance prepare below.length vm) := by
  -- An instruction leaves the frame right on `below`, or removes just that one as it returns.
  have hstep : KeepsUnder below
      ((do advance.countInstruction; step prepare : Exec Unit) vm) := by
    refine keepsUnder_bind (local_currentFrame.bind fun _ => local_profile _) (fun _ {_} h => ?_) h
    exact keepsUnder_step (fun id vm => (hprepare id vm).1) h
  unfold advance
  cases hcase : (do advance.countInstruction; step prepare : Exec Unit) vm with
  | ok _ vm' =>
      rw [hcase] at hstep
      refine roundLeaves_unlessReturning (hstep.elim Under.suffix And.right) fun hreturning => ?_
      exact hstep.resolve_right fun h => Bool.false_ne_true (hreturning.symm.trans h.1)
  | error stop vm' =>
      rw [hcase] at hstep
      cases stop with
      | thrown r =>
          exact roundLeaves_unlessReturning (Under.suffix hstep) fun _ => roundLeaves_unwind r hstep
      | fault e =>
          exact roundLeaves_unlessReturning (Under.suffix hstep) fun _ =>
            roundLeaves_raiseFault hprepare e hstep
      | defect | undefined | exhausted => exact Under.suffix hstep

/-! ## Runs -/

/-- What a run on top of the frames `below` leaves of the frames. -/
def RunLeaves (below : List Frame) : EStateM.Result Stop Vm Value → Prop
  | .ok _ vm | .error (.fault _) vm => vm.frames = below
  | .error (.thrown _) _ | .error (.defect _) _ => False
  | .error _ vm => below <:+ vm.frames

theorem runLeaves_contain {fuel : Nat} {x : Exec (Option Value)} {vm : Vm}
    (hx : RoundLeaves below (x vm))
    (hnext : ∀ {vm}, Under below vm.frames → RunLeaves below (run fuel below.length vm)) :
    RunLeaves below
      ((do
        match ← contain below.length x with
        | some v => return v
        | none => run fuel below.length : Exec Value) vm) := by
  rw [bind_apply]
  unfold contain
  cases hcase : x vm with
  | ok v? vm' =>
      rw [hcase] at hx
      cases v? with
      | none => exact hnext hx
      | some v => exact hx
  | error stop vm' =>
      rw [hcase] at hx
      cases stop with
      | fault e => exact hx
      | thrown r => exact hx.elim
      | defect d => exact frames_cutTo hx
      | undefined | exhausted => exact hx

theorem runLeaves_executeBy {run : Nat → Exec Value}
    (hrun : ∀ {below vm}, Under below vm.frames → RunLeaves below (run below.length vm))
    (m : Method) (args : List Value) (vm : Vm) :
    RunLeaves vm.frames (executeBy run m args vm) := by
  rcases executeBy_cases run m args vm with ⟨e, -, h⟩ | ⟨f, profiler?, -, h⟩
  · rw [h]
    exact rfl
  · rw [h, releaseTraces_noteEnd_apply]
    have hunder : Under vm.frames { vm with frames := f :: vm.frames, profiler? }.frames :=
      List.suffix_rfl
    have hleaves := hrun hunder
    cases hcase : run vm.frames.length { vm with frames := f :: vm.frames, profiler? } with
    | ok v vm' =>
        rw [hcase] at hleaves
        exact (released_frames vm').trans hleaves
    | error stop vm' =>
        rw [hcase] at hleaves
        cases stop with
        | fault e => exact (released_frames _).trans hleaves
        | thrown | defect => exact hleaves
        | undefined | exhausted =>
            show vm.frames <:+ (released vm').frames
            rw [released_frames]
            exact hleaves

theorem has_executeBy_of_runLeaves {run : Nat → Exec Value}
    (hrun : ∀ {below vm}, Under below vm.frames → RunLeaves below (run below.length vm))
    (m : Method) (args : List Value) : Has quietlyKeepsBelow (executeBy run m args) := by
  apply has_of_cases
  · intro vm v vm' h
    have hleaves := runLeaves_executeBy hrun m args vm
    rw [h] at hleaves
    exact ⟨fun _ hbelow => hleaves ▸ hbelow, quiet_none⟩
  · intro vm stop vm' h
    have hleaves := runLeaves_executeBy hrun m args vm
    rw [h] at hleaves
    cases stop with
    | fault e => exact ⟨fun _ hbelow => hleaves ▸ hbelow, nofun⟩
    | thrown | defect => exact hleaves.elim
    | undefined | exhausted => exact ⟨fun _ hbelow => hbelow.of_suffix hleaves, nofun⟩

/-- An initializer runs on top of all frames, and so it gives back every one of them. -/
theorem has_initializeBy_of_runLeaves {run : Nat → Exec Value}
    (hrun : ∀ {below vm}, Under below vm.frames → RunLeaves below (run below.length vm))
    (id : ClassId) : Has quietlyKeepsBelow (initializeBy run id) :=
  has_ensureInitialized initializing_quietlyKeepsBelow (fun m =>
    has_discard initializing_quietlyKeepsBelow.toSteady (has_executeBy_of_runLeaves hrun m [])) id

theorem runLeaves_run (fuel : Nat) {below : List Frame} {vm : Vm} (h : Under below vm.frames) :
    RunLeaves below (run fuel below.length vm) := by
  induction fuel generalizing below vm with
  | zero => exact h.suffix
  | succ fuel ih =>
      exact runLeaves_contain (roundLeaves_advance (has_initializeBy_of_runLeaves ih) h) ih

end Exec

/-! ## Traces -/

/-- Without a frame there is no exception in flight. -/
def Vm.Settled (vm : Vm) : Prop := vm.frames = [] → vm.traces = []

def keepsSettled : Effect := fun a _ b => a.Settled → b.Settled

theorem keepsSettled_of_changes {a b : Vm} (h : Changes a b) (ha : a.Settled) : b.Settled := by
  induction h with
  | refl => exact ha
  | tail _ hchange ih =>
      cases hchange with
      | heap | load | keep | assign | profiler => exact ih
      | frame | enter => exact nofun

theorem initializing_keepsSettled : keepsSettled.Initializing where
  small h := keepsSettled_of_changes h.1
  trans h h' := h' ∘ h
  moved _ _ _ h := h
  running _ _ h := h
  failed _ h := h
  renamed _ h := h

namespace Exec

theorem settled_released (vm : Vm) : (released vm).Settled := by
  intro hframes
  rw [released_frames] at hframes
  simp [released, hframes]

theorem has_executeBy_keepsSettled (run : Nat → Exec Value) (m : Method) (args : List Value) :
    Has keepsSettled (executeBy run m args) := by
  have hP := compositional_has initializing_keepsSettled.toSteady
  refine hP.executeBy (fun base vm _ => ?_) m args
  obtain ⟨journal, hafter⟩ := after_releaseTraces_noteEnd (run base) vm
  rw [hafter]
  exact settled_released _

theorem has_initialized_keepsSettled (fuel : Nat) (id : ClassId) :
    Has keepsSettled (initialized fuel id) :=
  has_ensureInitialized initializing_keepsSettled (fun m =>
    has_discard initializing_keepsSettled.toSteady (has_executeBy_keepsSettled _ m [])) id

theorem settled_serve {vm : Vm} (hvm : vm.Settled) (session : List (Nat × Request)) :
    (vm.serve session).Settled := by
  have hstep (fuel : Nat) (q : Request) : Has keepsSettled (serve fuel q) :=
    has_serve initializing_keepsSettled.toSteady (has_executeBy_keepsSettled _)
      (has_initialized_keepsSettled fuel) q
  exact Vm.serve_induction (R := fun a b => a.Settled → b.Settled) (fun _ h => h)
    (fun h h' => h' ∘ h) hstep vm session hvm

theorem settled_answer {vm : Vm} (hvm : vm.Settled) (calls : List HostCall) :
    (vm.answer calls).Settled := by
  have hstep (call : HostCall) : Has keepsSettled (answer call) :=
    (compositional_has initializing_keepsSettled.toSteady).answer
      (fun fuel => has_executeBy_keepsSettled (run fuel)) has_initialized_keepsSettled call
  exact Vm.answer_induction (R := fun a b => a.Settled → b.Settled) (fun _ h => h)
    (fun h h' => h' ∘ h) hstep vm calls hvm

/-- What a request to run a method that comes to an end restores.  No return is left, or the
request was refused and the machine is as it was. -/
def Restores (vm : Vm) : EStateM.Result Stop Vm Value → Prop
  | .ok _ vm' | .error (.fault _) vm' =>
    vm'.frames = vm.frames ∧ (vm'.returning = false ∨ vm' = vm) ∧ (vm.Settled → vm'.Settled)
  | .error (.thrown _) _ | .error (.defect _) _ => False
  | .error .undefined _ | .error .exhausted _ => True

theorem returning_or_refused (fuel : Nat) (m : Method) (args : List Value) {vm vm' : Vm}
    (h : after (execute fuel m args) vm = vm')
    (hundefined : stop? (execute fuel m args) vm ≠ some .undefined)
    (hexhausted : stop? (execute fuel m args) vm ≠ some .exhausted) :
    vm'.returning = false ∨ vm' = vm := by
  unfold execute at *
  rcases executeBy_cases (run fuel) m args vm with ⟨e, -, hcase⟩ | ⟨f, profiler?, -, hcase⟩
  · rw [after_error hcase] at h
    exact .inr h.symm
  · have hrun := runStops_run fuel vm.frames.length
      { vm with frames := f :: vm.frames, profiler? }
    have hsame {β : Type} {x y : Exec β} {a b : Vm} (h : x a = y b) :
        stop? x a = stop? y b ∧ after x a = after y b := by
      rw [stop?, stop?, after, after, h]
      exact ⟨rfl, rfl⟩
    obtain ⟨hstop, hafter⟩ := hsame hcase
    rw [hstop, stop?_releaseTraces_noteEnd] at hundefined hexhausted
    obtain ⟨journal, hreleased⟩ := after_releaseTraces_noteEnd (run fuel vm.frames.length)
      { vm with frames := f :: vm.frames, profiler? }
    rw [← h, hafter, hreleased]
    exact .inl ((released_returning _).trans (hrun.cleared hundefined hexhausted))

theorem restores_execute (fuel : Nat) (m : Method) (args : List Value) (vm : Vm) :
    Restores vm (execute fuel m args vm) := by
  have hleaves := runLeaves_executeBy (fun h => runLeaves_run fuel h) m args vm
  have hsettled := has_executeBy_keepsSettled (run fuel) m args
  change RunLeaves vm.frames (execute fuel m args vm) at hleaves
  cases hcase : execute fuel m args vm with
  | ok v vm' =>
      rw [hcase] at hleaves
      have hreturning := returning_or_refused fuel m args (after_ok hcase)
        (by simp [stop?_ok hcase]) (by simp [stop?_ok hcase])
      exact ⟨hleaves, hreturning, hsettled.ok hcase⟩
  | error stop vm' =>
      rw [hcase] at hleaves
      cases stop with
      | fault e =>
          have hreturning := returning_or_refused fuel m args (after_error hcase)
            (by simp [stop?_error hcase]) (by simp [stop?_error hcase])
          exact ⟨hleaves, hreturning, hsettled.error hcase⟩
      | thrown | defect => exact hleaves
      | undefined | exhausted => trivial

end Exec

end ClassEngine.Machine
