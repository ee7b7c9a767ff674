import ClassEngine.Proofs.Machine.Bounds
import ClassEngine.Proofs.Machine.PlainRoot
import ClassEngine.Proofs.Machine.Reachability

/-!
# The law of bounds

Whatever the code of the loaded classes is, the machine never has more frames than it may have, and
its frames keep to the variables, the stack and the code that their methods declare.  Only a return
from a subroutine may lead a frame out of its code, and the next instruction then ends the run.
-/

namespace ClassEngine.Machine

open Code

namespace Exec

variable {α : Type} {limit n base : Nat} {vm : Vm} {f : Frame} {below : List Frame}

/-! ## One instruction -/

/-- What work of a round leaves of a machine that has `n` frames.  A defect may leave the current
frame anywhere, as the run then ends. -/
def Leaves (limit n : Nat) (Q : α → Vm → Prop) : EStateM.Result Stop Vm α → Prop
  | .ok a vm => Q a vm
  | .error (.defect _) vm => ∀ base < n, (after (cutTo base) vm).Bounded limit
  | .error stop vm => vm.Within limit (Frame.LeftBy (some stop))

theorem leaves_of_ends {x : Exec α} {Q : α → Vm → Prop}
    (hx : (after x vm).Within limit (Frame.LeftBy (stop? x vm)))
    (hQ : ∀ {a vm'}, vm'.Bounded limit → Q a vm') : Leaves limit n Q (x vm) := by
  unfold after stop? at hx
  cases hcase : x vm with
  | ok a vm' =>
      rw [hcase] at hx
      exact hQ hx
  | error stop vm' =>
      rw [hcase] at hx
      cases stop with
      | defect d => exact fun base _ => Vm.Within.drop hx _
      | _ => exact hx

/-- How a step leaves the machine.  A return leaves the result to the caller, and only a step that
is none may leave the current frame where a return from a subroutine has led. -/
def Stepped (limit : Nat) : Unit → Vm → Prop := fun _ vm =>
  { vm with returning := false }.Within limit Frame.Landed ∧
    (vm.returning = true → { vm with returning := false }.Bounded limit)

theorem stepped_of_bounded (h : { vm with returning := false }.Bounded limit) :
    Stepped limit () vm :=
  ⟨h.landed, fun _ => h⟩

theorem leaves_of_bounding {x : Exec Unit} [hx : Bounding limit x] (hvm : vm.Bounded limit) :
    Leaves limit n (Stepped limit) (x vm) :=
  leaves_of_ends (hx.has vm hvm) fun hvm' =>
    stepped_of_bounded (hvm'.of_same rfl rfl rfl rfl rfl hvm'.returning.symm)

theorem leaves_landing {x : FrameM Unit} [hx : x.Proper fun _ => False] (hvm : vm.Bounded limit)
    (hframes : vm.frames = f :: below) (hlanded : ∀ {f'}, x f = .ok () f' → f'.Landed) :
    Leaves limit vm.frames.length (Stepped limit) (onFrame x vm) := by
  simp only [onFrame, hframes]
  cases hcase : x f with
  | ok u f' =>
      have hleft := hvm.replace hframes (hlanded hcase)
      refine ⟨hleft.of_same rfl rfl rfl rfl rfl hleft.returning.symm, fun hreturning => ?_⟩
      exact absurd (hvm.returning.symm.trans hreturning) Bool.false_ne_true
  | error e f' =>
      cases e with
      | inl e => exact ((hx.proper f).of_fault hcase).elim
      | inr d =>
          exact fun base hbase => (hvm.replace (Q := fun _ => True) hframes trivial).cut hbase

theorem bounded_leaveFrame (v? : Option Value) (hvm : vm.Bounded limit) :
    { after (leaveFrame v?) vm with returning := false }.Bounded limit :=
  (hvm.drop 1).of_same rfl rfl rfl rfl rfl hvm.returning.symm

section

variable {prepare : ClassId → Exec Unit} [hprepare : ∀ id, Bounding limit (prepare id)]

theorem leaves_perform {b : UInt8} {op : Operation} (hbyte : f.body.code[f.pc]? = some b)
    (hop : (⟨b⟩ : Opcode).operation? = some op) (hvm : (fetched vm f below).Bounded limit) :
    Leaves limit (below.length + 1) (Stepped limit) (perform prepare op (fetched vm f below)) := by
  have hf : (FrameM.begun f).Bounded := hvm.current _ rfl
  cases op with
  | jump op => exact leaves_landing hvm rfl fun h => FrameM.landed_jump hf hbyte hop h
  | wide => exact leaves_landing hvm rfl fun h => FrameM.landed_widened hf hbyte hop h
  | returnVoid => exact stepped_of_bounded (bounded_leaveFrame none hvm)
  | returnValue =>
      have hpop : Bounding limit (onFrame .pop) := inferInstance
      have happly : perform prepare .returnValue (fetched vm f below) = _ :=
        bind_apply (onFrame .pop) (fun v => leaveFrame (some v)) (fetched vm f below)
      rw [happly]
      cases hcase : onFrame .pop (fetched vm f below) with
      | ok v vm' => exact stepped_of_bounded (bounded_leaveFrame (some v) (hpop.has.ok hcase hvm))
      | error stop vm' =>
          have hleft := hpop.has.error hcase hvm
          cases stop with
          | defect d => exact fun base _ => Vm.Within.drop hleft _
          | _ => exact hleft
  | _ =>
      unfold perform
      exact leaves_of_bounding hvm

theorem leaves_step (hvm : vm.Within limit Frame.Landed) (hframes : vm.frames = f :: below) :
    Leaves limit (below.length + 1) (Stepped limit) (step prepare vm) := by
  have hf : f.Landed := hvm.current f (by simp [hframes])
  cases hbyte : f.body.code[f.pc]? with
  | none =>
      rw [step_out_of_code hframes hbyte]
      intro base hbase
      exact (hvm.replace (Q := fun _ => True) hframes trivial).cut hbase
  | some b =>
      have hfetched : (fetched vm f below).Bounded limit := by
        have hroom := (Array.getElem?_eq_some_iff.mp hbyte).1
        exact hvm.replace hframes ⟨⟨hf.locals, hf.stack⟩, hf.legal, hroom⟩
      unfold step
      rw [bind_of_ok (begin_apply hframes), bind_of_ok (opcode_apply hbyte)]
      dsimp only
      cases hop : (⟨b⟩ : Opcode).operation? with
      | some op => exact leaves_perform hbyte hop hfetched
      | none => exact leaves_of_bounding hfetched

/-! ## One round -/

theorem countInstruction_apply (hframes : vm.frames = f :: below) :
    ∃ profiler?, advance.countInstruction vm = .ok () { vm with profiler? } := by
  unfold advance.countInstruction
  rw [bind_of_ok (currentFrame_apply hframes)]
  exact ⟨_, rfl⟩

theorem leaves_round (hvm : vm.Within limit Frame.Landed) (hframes : vm.frames = f :: below) :
    Leaves limit (below.length + 1) (Stepped limit) (round prepare vm) := by
  obtain ⟨profiler?, hcount⟩ := countInstruction_apply hframes
  rw [round, bind_of_ok hcount]
  exact leaves_step (hvm.of_same rfl rfl rfl rfl rfl rfl) hframes

/-- How a round leaves the machine: when the run goes on, the current frame may be where a return
from a subroutine has led. -/
def Advanced (limit : Nat) : Option Value → Vm → Prop
  | none, vm => vm.Within limit Frame.Landed
  | some _, vm => vm.Bounded limit

theorem advanced_of_bounded {v? : Option Value} (h : vm.Bounded limit) : Advanced limit v? vm := by
  cases v? with
  | none => exact h.landed
  | some v => exact h

theorem leaves_unlessReturning {x : Exec Unit} [hx : Bounding limit x] (hvm : vm.Bounded limit)
    (base : Nat) : Leaves limit n (Advanced limit) (unlessReturning base x vm) := by
  rw [unlessReturning_of_clear hvm.returning]
  exact leaves_of_ends (Bounding.has vm hvm) advanced_of_bounded

theorem leaves_advance (base : Nat) (hvm : vm.Within limit Frame.Landed)
    (hframes : vm.frames = f :: below) :
    Leaves limit (below.length + 1) (Advanced limit) (advance prepare base vm) := by
  have hround : Leaves limit (below.length + 1) (Stepped limit) (round prepare vm) :=
    leaves_round hvm hframes
  rw [advance_apply]
  cases hcase : round prepare vm with
  | ok u vm' =>
      rw [hcase] at hround
      cases hreturning : vm'.returning with
      | true =>
          have hfinish := finish_has (hround.2 hreturning) base
          dsimp only
          rw [unlessReturning_of_returning hreturning]
          exact leaves_of_ends hfinish advanced_of_bounded
      | false =>
          dsimp only
          rw [unlessReturning_of_clear hreturning]
          exact hround.1.of_same rfl rfl rfl rfl rfl hreturning
  | error stop vm' =>
      rw [hcase] at hround
      cases stop with
      | thrown | fault => exact leaves_unlessReturning hround base
      | defect | undefined | exhausted => exact hround

def RoundEnds (limit : Nat) : EStateM.Result Stop Vm (Option Value) → Prop
  | .ok v? vm => Advanced limit v? vm
  | .error stop vm => vm.Within limit (Frame.LeftBy (some stop))

/-- A defect cuts away the frame that met it. -/
theorem roundEnds_contain {x : Exec (Option Value)} (hx : Leaves limit n (Advanced limit) (x vm))
    (hbase : base < n) : RoundEnds limit (contain base x vm) := by
  rw [contain_apply]
  cases hcase : x vm with
  | ok v? vm' =>
      rw [hcase] at hx
      exact hx
  | error stop vm' =>
      rw [hcase] at hx
      cases stop with
      | defect d =>
          have hcut := hx base hbase
          exact hcut.of_same rfl rfl rfl rfl rfl hcut.returning.symm
      | fault | thrown | undefined | exhausted => exact hx

theorem roundEnds_round (hvm : vm.Within limit Frame.Landed) (hbase : base < vm.frames.length) :
    RoundEnds limit (contain base (advance prepare base) vm) := by
  cases hframes : vm.frames with
  | nil => simp [hframes] at hbase
  | cons f below =>
      rw [hframes] at hbase
      exact roundEnds_contain (leaves_advance base hvm hframes) hbase

theorem RoundEnds.within {x : Exec (Option Value)} (hx : RoundEnds limit (x vm)) :
    (after x vm).Within limit Frame.Landed := by
  unfold after
  cases hcase : x vm with
  | ok v? vm' =>
      rw [hcase] at hx
      cases v? with
      | none => exact hx
      | some v => exact Vm.Within.landed hx
  | error stop vm' =>
      rw [hcase] at hx
      exact hx.mono Frame.LeftBy.landed

end

/-! ## Runs -/

/-- A run that starts on a machine within its bounds leaves one, only that its current frame may be
where a return from a subroutine has led when the run has no rounds left. -/
def RunsBounded (limit : Nat) (run : Nat → Exec Value) : Prop :=
  ∀ {below : List Frame} {vm : Vm}, Under below vm.frames → vm.Within limit Frame.Landed →
    (after (run below.length) vm).Within limit (Frame.LeftBy (stop? (run below.length) vm))

theorem within_released {P : Frame → Prop} (h : vm.Within limit P) :
    (released vm).Within limit P := by
  unfold released
  split
  · exact h.of_same rfl rfl rfl rfl rfl rfl
  · exact h

section

variable {run : Nat → Exec Value}

theorem bounding_executeBy (hrun : RunsBounded limit run) {m : Method} (hm : m.Legal)
    (args : List Value) : Bounding limit (executeBy run m args) where
  has vm hvm := by
    rcases executeBy_enters run m args vm with
      ⟨e, -, h⟩ | ⟨body, locals, profiler?, hbody, hbind, hroom, h⟩
    · rw [stop?_error h, after_error h]
      exact hvm
    · rw [hvm.most] at hroom
      have hentered := (hvm.enter hroom (bounded_enter (hm body hbody) hbind) profiler?).landed
      have hunder : Under vm.frames (.enter m body locals :: vm.frames) := List.suffix_rfl
      have hends := hrun hunder hentered
      rw [releaseTraces_noteEnd_apply] at h
      unfold stop? after at hends ⊢
      rw [h]
      generalize run vm.frames.length
        { vm with frames := .enter m body locals :: vm.frames, profiler? } = ended at hends ⊢
      cases ended with
      | ok v vm' => exact within_released hends
      | error stop vm' =>
          cases stop with
          | fault e =>
              exact within_released (Vm.Within.of_same hends rfl rfl rfl rfl rfl rfl)
          | thrown | defect | undefined | exhausted => exact within_released hends

theorem bounding_initializeBy (hrun : RunsBounded limit run) (id : ClassId) :
    Bounding limit (initializeBy run id) :=
  bounding_ensureInitialized (fun hm =>
    have := bounding_executeBy hrun hm []
    inferInstance) id

end

theorem runsBounded_run (fuel : Nat) : RunsBounded limit (run fuel) := by
  induction fuel with
  | zero => exact fun _ hvm => hvm
  | succ fuel ih =>
      intro below vm hunder hvm
      have hprepare (id : ClassId) : Bounding limit (initializeBy (run fuel) id) :=
        bounding_initializeBy ih id
      have hround : RoundEnds limit
          (contain below.length (advance (initializeBy (run fuel)) below.length) vm) :=
        roundEnds_round hvm (Under.length_lt hunder)
      refine ends_bind (P := fun o b => b.Within limit (Frame.LeftBy o)) ?_ ?_
      · intro v? vm' hcase
        rw [hcase] at hround
        cases v? with
        | some v => exact hround
        | none =>
            have hleaves := roundLeaves_advance
              (has_initializeBy_of_runLeaves (runLeaves_run fuel)) hunder
            rw [ok_of_contain hcase] at hleaves
            exact ih hleaves hround
      · intro stop vm' hcase
        rw [hcase] at hround
        exact hround

theorem runsBounded_interrupted {r : Nat → Exec Value} {fuel : Nat}
    (hr : Interrupts r (run fuel)) : RunsBounded limit r := by
  intro below vm hunder hvm
  rcases hr below.length vm with h | h
  · have hends := runsBounded_run fuel hunder hvm
    unfold stop? after at hends ⊢
    rwa [h]
  · rw [stop?_error h, after_error h]
    exact hvm

/-! ## Requests -/

instance (fuel : Nat) (id : ClassId) : Bounding limit (initialized fuel id) :=
  bounding_initializeBy (runsBounded_run fuel) id

theorem bounding_invokeMethod (fuel : Nat) {m : Method} (hm : m.Legal) (args : List Value) :
    Bounding limit (invokeMethod fuel m args) := by
  have : Bounding limit (execute fuel m args) := bounding_executeBy (runsBounded_run fuel) hm args
  unfold invokeMethod
  dsimp only
  split <;> infer_instance

theorem mem_of_entryPoint? {c : Class} {m : Method} (h : entryPoint? c = some m) :
    m ∈ c.methods := by
  unfold entryPoint? at h
  dsimp only at h
  split at h
  · cases h
    exact List.mem_of_mem_filter (List.mem_of_find?_eq_some ‹_›)
  · exact List.mem_of_mem_filter (List.mem_reverse.mp (List.mem_of_find?_eq_some h))

instance (fuel : Nat) (className : String) : Bounding limit (runProgram fuel className) := by
  refine supplies.bounding_bind fun {id} _ => ?_
  refine (supplies_classAt id).bounding_bind fun {c} hc => ?_
  cases hm : entryPoint? c with
  | none => infer_instance
  | some m =>
      have hinvoke (args : List Value) : Bounding limit (invokeMethod fuel m args) :=
        bounding_invokeMethod fuel (hc.methods m (mem_of_entryPoint? hm)) args
      dsimp only
      split <;> infer_instance

instance (fuel : Nat) (className name descriptor : String) (args : List Value) :
    Bounding limit (invokeStatic fuel className name descriptor args) := by
  refine supplies.bounding_bind fun {id} _ => supplies_get.bounding_bind fun {s} hs => ?_
  cases hm : s.registry.classes.findMethod? id name descriptor with
  | none => infer_instance
  | some m =>
      have hlegal := hs.coherent.legal_of_declares (Classes.declares_of_findMethod? hm)
      have hinvoke : Bounding limit (invokeMethod fuel m args) :=
        bounding_invokeMethod fuel hlegal args
      dsimp only
      split <;> infer_instance

instance (fuel : Nat) (className name : String) :
    Bounding limit (getStatic fuel className name) := by
  refine supplies.bounding_bind fun {id} _ => supplies.bounding_bind fun {s} _ => ?_
  split <;> infer_instance

end Exec

/-- The host asks only for methods that some class declares. -/
def HostCall.Declared (vm : Vm) : HostCall → Prop
  | .request _ (.invoke m _) => vm.registry.classes.Declares m
  | _ => True

namespace Exec

variable {limit : Nat} {vm : Vm}

theorem bounding_answer {call : HostCall} (hvm : vm.Bounded limit) (hcall : call.Declared vm) :
    Bounding limit (answer call) := by
  cases call with
  | request fuel q =>
      cases q with
      | invoke m args =>
          have hinvoke : Bounding limit (invokeMethod fuel m args) :=
            bounding_invokeMethod fuel (hvm.coherent.legal_of_declares hcall) args
          unfold answer serve
          infer_instance
      | _ =>
          unfold answer serve
          infer_instance
  | resolve use id index =>
      unfold answer resolveEntry
      cases use <;> infer_instance
  | _ =>
      unfold answer
      infer_instance

end Exec

/-! ## The law -/

/-- What a host can do, and what a run does.  Between its runs the host makes calls and starts runs
and initializations; in a run there are rounds.  Runs inside any of this may be left at their
start, so that their rounds are seen as well. -/
inductive Vm.Turn (vm : Vm) : Vm → Prop
  | answer (idle : vm.frames = []) (call : HostCall) (declared : call.Declared vm) :
      Turn vm (Exec.after (Exec.answer call) vm)
  | execute (idle : vm.frames = []) {r : Nat → Exec Value} {fuel : Nat}
      (hr : Interrupts r (Exec.run fuel)) {m : Method} (declared : vm.registry.classes.Declares m)
      (args : List Value) : Turn vm (Exec.after (Exec.executeBy r m args) vm)
  | prepare (idle : vm.frames = []) {r : Nat → Exec Value} {fuel : Nat}
      (hr : Interrupts r (Exec.run fuel)) (id : ClassId) :
      Turn vm (Exec.after (Exec.initializeBy r id) vm)
  | round {base : Nat} (above : base < vm.frames.length) {r : Nat → Exec Value} {fuel : Nat}
      (hr : Interrupts r (Exec.run fuel)) :
      Turn vm (Exec.after (Exec.contain base (Exec.advance (Exec.initializeBy r) base)) vm)

abbrev Vm.Turns : Vm → Vm → Prop := Relation.ReflTransGen Vm.Turn

namespace Vm

variable {limit : Nat} {vm vm' : Vm}

theorem Within.idle (h : vm.Within limit Frame.Landed) (hidle : vm.frames = []) :
    vm.Bounded limit :=
  { h with current := fun f hf => by simp [hidle] at hf }

theorem Within.bounding (h : vm.Within limit Frame.Landed) (hidle : vm.frames = []) {α : Type}
    {x : Exec α} (hx : Exec.Bounding limit x) :
    (Exec.after x vm).Within limit Frame.Landed :=
  (hx.has vm (h.idle hidle)).mono Frame.LeftBy.landed

theorem Turn.within (hturn : vm.Turn vm') (h : vm.Within limit Frame.Landed) :
    vm'.Within limit Frame.Landed := by
  cases hturn with
  | answer idle call declared =>
      exact h.bounding idle (Exec.bounding_answer (h.idle idle) declared)
  | execute idle hr declared args =>
      exact h.bounding idle (Exec.bounding_executeBy (Exec.runsBounded_interrupted hr)
        (h.coherent.legal_of_declares declared) args)
  | prepare idle hr id =>
      exact h.bounding idle (Exec.bounding_initializeBy (Exec.runsBounded_interrupted hr) id)
  | @round base above r fuel hr =>
      have hprepare (id : ClassId) : Exec.Bounding limit (Exec.initializeBy r id) :=
        Exec.bounding_initializeBy (Exec.runsBounded_interrupted hr) id
      exact (Exec.roundEnds_round h above).within

theorem Turns.within (hturns : vm.Turns vm') (h : vm.Within limit Frame.Landed) :
    vm'.Within limit Frame.Landed := by
  induction hturns with
  | refl => exact h
  | tail _ hturn ih => exact hturn.within ih

theorem within_start (source? : Option Search.Source) (maxFrames : Int)
    (profiler? : Option (Profiler MethodId)) {P : Frame → Prop} :
    (start source? maxFrames profiler?).Within
      (start source? maxFrames profiler?).maxFrames P where
  coherent := Registry.coherent_empty _
  entries := fun id s hs => by simp [start, Registry.status?] at hs
  caches := nofun
  most := rfl
  depth := Nat.zero_le _
  current := nofun
  callers := nofun
  returning := rfl

end Vm

structure Vm.InBounds (vm : Vm) : Prop where
  depth : vm.frames.length ≤ vm.maxFrames
  locals : ∀ f ∈ vm.frames, f.locals.size = f.body.maxLocals.toNat
  stack : ∀ f ∈ vm.frames, f.stack.length ≤ f.body.maxStack.toNat
  callers : ∀ f ∈ vm.frames.tail, f.pc ≤ f.body.code.size
  current : ∀ f ∈ vm.frames.head?, f.pc ≤ f.body.code.size ∨ f.Returned
  /-- Accesses are checked also in the midst of an instruction, as no work on a frame changes what
  its code declares. -/
  checked : ∀ f ∈ vm.frames, ∀ f', f.Continues f' → f'.locals.size = f.locals.size → f'.Guarded

namespace Vm

variable {limit : Nat} {vm : Vm}

theorem Within.contained (h : vm.Within limit Frame.Landed) : ∀ f ∈ vm.frames, f.Contained :=
  h.forall_frames (·.toContained) (·.toContained)

theorem Within.inBounds (h : vm.Within limit Frame.Landed) : vm.InBounds where
  depth := h.most ▸ h.depth
  locals f hf := (h.contained f hf).locals
  stack f hf := (h.contained f hf).stack
  callers f hf := (h.callers f hf).pc
  current f hf := (h.current f hf).pc
  checked f hf f' hcontinues hsize := by
    apply Frame.guarded_of_locals
    rw [hsize, hcontinues.body]
    exact (h.contained f hf).locals

end Vm

namespace Exec

variable {vm vm' : Vm}

theorem call_of_full {m : Method} {body : ClassFile.Body} (hnative : m.isNative = false)
    (hbody : m.body? = some body) (habstract : m.isAbstract = false)
    (hfull : vm.frames.length = vm.maxFrames) :
    call m vm = .error (.fault (.stackOverflow vm.frames.length)) vm := by
  have hdepth : checkDepth vm = .error (.fault (.stackOverflow vm.frames.length)) vm := by
    unfold checkDepth
    rw [bind_of_ok (get_apply vm)]
    exact congrFun (if_pos hfull.ge) vm
  unfold call
  simp only [hnative, hbody, habstract, if_false, Bool.false_eq_true]
  exact bind_of_error hdepth

theorem guestClass_stackOverflow (n : Nat) :
    (Fault.stackOverflow n).guestException?.map Prod.fst = some "java/lang/StackOverflowError" := by
  simp [Fault.guestException?, Fault.guestClasses, Fault.belongs]

theorem run_of_defect {fuel base : Nat} {d : Defect}
    (h : round (initializeBy (run fuel)) vm = .error (.defect d) vm') :
    run (fuel + 1) base vm =
      .error (.fault (.internal d)) { after (cutTo base) vm' with returning := false } := by
  have hadvance : advance (initializeBy (run fuel)) base vm = .error (.defect d) vm' := by
    rw [advance_apply, h]
  have hcontain : contain base (advance (initializeBy (run fuel)) base) vm =
      .error (.fault (.internal d)) { after (cutTo base) vm' with returning := false } := by
    rw [contain_apply, hadvance]
    rfl
  rw [run, bind_of_error hcontain]

/-- Also a frame that has left its code cannot go on. -/
theorem run_out_of_code {f : Frame} {below : List Frame} (hframes : vm.frames = f :: below)
    (hout : f.body.code.size ≤ f.pc) (fuel base : Nat) :
    ∃ vm', run (fuel + 1) base vm =
      .error (.fault (.internal (.truncated f.method.render f.pc))) vm' := by
  obtain ⟨profiler?, hcount⟩ := countInstruction_apply hframes
  have hround : ∃ vm', round (initializeBy (run fuel)) vm =
      .error (.defect (.truncated f.method.render f.pc)) vm' := by
    rw [round, bind_of_ok hcount]
    exact ⟨_, step_out_of_code hframes (Array.getElem?_eq_none hout)⟩
  obtain ⟨vm', hround⟩ := hround
  exact ⟨_, run_of_defect hround⟩

end Exec

/-- Whatever the classes are, and whatever the host asks for, the machine stays in its bounds.  A
call that would exceed the number of frames raises an error of the guest, and an access outside of
the code, the variables or the stack of a frame ends the run with an internal fault. -/
theorem frames_in_bounds (source? : Option Search.Source) (maxFrames : Int)
    (profiler? : Option (Profiler MethodId)) {vm : Vm}
    (h : (Vm.start source? maxFrames profiler?).Turns vm) :
    vm.maxFrames = (Vm.start source? maxFrames profiler?).maxFrames ∧ vm.InBounds ∧
      (vm.frames.length = vm.maxFrames → ∀ m body, m.isNative = false → m.body? = some body →
        m.isAbstract = false → ∃ e : Fault, Exec.call m vm = .error (.fault e) vm ∧
          e.guestException?.map Prod.fst = some "java/lang/StackOverflowError") ∧
      (∀ fuel base d vm', Exec.round (Exec.initializeBy (Exec.run fuel)) vm =
          .error (.defect d) vm' →
        Exec.run (fuel + 1) base vm =
          .error (.fault (.internal d))
            { Exec.after (Exec.cutTo base) vm' with returning := false }) ∧
      ∀ f ∈ vm.frames.head?, f.body.code.size ≤ f.pc → ∀ fuel base, ∃ vm',
        Exec.run (fuel + 1) base vm =
          .error (.fault (.internal (.truncated f.method.render f.pc))) vm' := by
  have hwithin := Vm.Turns.within h (Vm.within_start source? maxFrames profiler?)
  refine ⟨hwithin.most, hwithin.inBounds, ?full, ?defect, ?out⟩
  case full =>
    intro hfull m body hnative hbody habstract
    exact ⟨_, Exec.call_of_full hnative hbody habstract hfull, Exec.guestClass_stackOverflow _⟩
  case defect => exact fun fuel base d vm' => Exec.run_of_defect
  case out =>
    intro f hf hout fuel base
    obtain ⟨below, hframes⟩ := List.head?_eq_some_iff.mp hf
    exact Exec.run_out_of_code hframes hout fuel base

/-! ## A return address that leaves its code -/

namespace Leaking

def rootFile : List UInt8 := [
  0xca, 0xfe, 0xba, 0xbe, 0x00, 0x00, 0x00, 0x34, 0x00, 0x07, 0x01, 0x00, 0x10, 0x6a, 0x61, 0x76,
  0x61, 0x2f, 0x6c, 0x61, 0x6e, 0x67, 0x2f, 0x4f, 0x62, 0x6a, 0x65, 0x63, 0x74, 0x07, 0x00, 0x01,
  0x01, 0x00, 0x04, 0x43, 0x6f, 0x64, 0x65, 0x01, 0x00, 0x04, 0x6c, 0x65, 0x61, 0x6b, 0x01, 0x00,
  0x16, 0x28, 0x5b, 0x4c, 0x6a, 0x61, 0x76, 0x61, 0x2f, 0x6c, 0x61, 0x6e, 0x67, 0x2f, 0x4f, 0x62,
  0x6a, 0x65, 0x63, 0x74, 0x3b, 0x29, 0x56, 0x01, 0x00, 0x06, 0x66, 0x6f, 0x6c, 0x6c, 0x6f, 0x77,
  0x00, 0x21, 0x00, 0x02, 0x00, 0x00, 0x00, 0x00, 0x00, 0x00, 0x00, 0x02, 0x00, 0x09, 0x00, 0x04,
  0x00, 0x05, 0x00, 0x01, 0x00, 0x03, 0x00, 0x00, 0x00, 0x15, 0x00, 0x03, 0x00, 0x01, 0x00, 0x00,
  0x00, 0x09, 0x2a, 0x03, 0x00, 0x00, 0xa8, 0x00, 0x03, 0x4f, 0xb1, 0x00, 0x00, 0x00, 0x00, 0x00,
  0x09, 0x00, 0x06, 0x00, 0x05, 0x00, 0x01, 0x00, 0x03, 0x00, 0x00, 0x00, 0x12, 0x00, 0x02, 0x00,
  0x01, 0x00, 0x00, 0x00, 0x06, 0x2a, 0x03, 0x2e, 0x4b, 0xa9, 0x00, 0x00, 0x00, 0x00, 0x00, 0x00,
  0x00]

def files : Search.Memory := ⟨[(ClassFile.rootClassName, .ok rootFile)]⟩

def start : Vm := Vm.start (some files.source) 0 none

def arrayName : String := "[Ljava/lang/Object;"

def descriptor : String := "([Ljava/lang/Object;)V"

def methodOf (index : Nat) (name : String) (body : ClassFile.Body) : Method :=
  ⟨⟨0, index⟩, ClassFile.rootClassName, 0x0021, name, descriptor, 0x0009,
    ⟨[.array (.object ClassFile.rootClassName "Ljava/lang/Object;") arrayName], none, descriptor⟩,
    some body⟩

/-- Calls a subroutine right behind the call, which puts the return address into the array. -/
def leakBody : ClassFile.Body :=
  ⟨3, 1, #[0x2a, 0x03, 0x00, 0x00, 0xa8, 0x00, 0x03, 0x4f, 0xb1], [], []⟩

/-- Takes an element of the array as a return address, and returns there. -/
def followBody : ClassFile.Body := ⟨2, 1, #[0x2a, 0x03, 0x2e, 0x4b, 0xa9, 0x00], [], []⟩

def leak : Method := methodOf 0 "leak" leakBody

def follow : Method := methodOf 1 "follow" followBody

def root : Class :=
  { PlainRoot.root with
    methods := [leak, follow]
    pool := ⟨#[none, some (.utf8 ClassFile.rootClassName), some (.classRef 1), some (.utf8 "Code"),
      some (.utf8 "leak"), some (.utf8 descriptor), some (.utf8 "follow")]⟩ }

def objects : Class := linkArray #[root] arrayName 0 ⟨'L', some 0⟩

def withRoot : Registry := (({} : Registry).add root .linked #[]).2

def withObjects : Registry := (withRoot.add objects .initialized #[]).2

def loaded : Vm := { start with registry := withObjects }

def holding (v : Value) : Vm :=
  { loaded with heap := { objects := #[{ classId := 1, elements := #[v] }] } }

def within (v : Value) (f : Frame) : Vm := { holding v with frames := [f] }

def leaking (stack : List Value) (opPc pc : Nat) : Frame :=
  ⟨leak, leakBody, #[.ref ⟨1⟩], stack, pc, opPc⟩

def following (local₀ : Value) (stack : List Value) (opPc pc : Nat) : Frame :=
  ⟨follow, followBody, #[local₀], stack, pc, opPc⟩

theorem load_root : load start.source [arrayName] ClassFile.rootClassName {} = (.ok 0, withRoot) :=
  Registry.load_alone root (by decide) (by with_unfolding_all decide) (by with_unfolding_all decide)

theorem load_objects : load start.source [] arrayName {} = (.ok 1, withObjects) := by
  have hroot : withRoot.find? ClassFile.rootClassName = some 0 := by with_unfolding_all decide
  have hgather : gather (load start.source [arrayName]) arrayName
      [⟨.part, ClassFile.rootClassName⟩, ⟨.part, ClassFile.rootClassName⟩] {} =
        (.ok [0, 0], withRoot) :=
    Registry.gather_cons load_root (by decide)
      (Registry.gather_cons (Registry.load_of_found hroot) (by decide) rfl)
  exact Registry.load_of_gathered withRoot objects (by with_unfolding_all decide) (by decide)
    (by decide) (by decide) hgather (by decide)

section

open Exec

theorem operation?_load :
    (⟨0x2a⟩ : Opcode).operation? = some (.data (.loadSlot 0)) ∧
      (⟨0x03⟩ : Opcode).operation? = some (.data (.intConst 0)) := by
  decide +kernel

theorem run_leak :
    run 7 0 (within .null (leaking [] 0 0)) = .ok .top (holding (.returnAddress 7)) := by
  obtain ⟨hload, hconst⟩ := operation?_load
  have hnop : (⟨0x00⟩ : Opcode).operation? = some (.data .nop) := by decide +kernel
  have hcall : (⟨0xa8⟩ : Opcode).operation? = some (.jump .callSubroutine) := by decide +kernel
  have hstore : (⟨0x4f⟩ : Opcode).operation? = some (.array .store) := by decide +kernel
  have hreturn : (⟨0xb1⟩ : Opcode).operation? = some .returnVoid := by decide +kernel
  calc run 7 0 (within .null (leaking [] 0 0))
      = run 6 0 (within .null (leaking [.ref ⟨1⟩] 0 1)) :=
        run_of_perform rfl rfl rfl hload (fun _ => rfl) rfl
    _ = run 5 0 (within .null (leaking [.int 0, .ref ⟨1⟩] 1 2)) :=
        run_of_perform rfl rfl rfl hconst (fun _ => rfl) rfl
    _ = run 4 0 (within .null (leaking [.int 0, .ref ⟨1⟩] 2 3)) :=
        run_of_perform rfl rfl rfl hnop (fun _ => rfl) rfl
    _ = run 3 0 (within .null (leaking [.int 0, .ref ⟨1⟩] 3 4)) :=
        run_of_perform rfl rfl rfl hnop (fun _ => rfl) rfl
    _ = run 2 0 (within .null (leaking [.returnAddress 7, .int 0, .ref ⟨1⟩] 4 7)) :=
        run_of_perform rfl rfl rfl hcall (fun _ => rfl) rfl
    _ = run 1 0 (within (.returnAddress 7) (leaking [] 7 8)) :=
        run_of_perform rfl rfl rfl hstore (fun _ => rfl) rfl
    _ = .ok .top (holding (.returnAddress 7)) := by
        have hround (prepare : ClassId → Exec Unit) :
            round prepare (within (.returnAddress 7) (leaking [] 7 8)) =
              .ok () { holding (.returnAddress 7) with returning := true } := by
          rw [round_apply rfl rfl rfl hreturn]
          rfl
        exact run_of_some (advance_of_returned (hround _) rfl rfl)

theorem run_follow :
    run 5 0 (within (.returnAddress 7) (following (.ref ⟨1⟩) [] 0 0)) =
      .error .exhausted (within (.returnAddress 7) (following (.returnAddress 7) [] 4 7)) := by
  obtain ⟨hload, hconst⟩ := operation?_load
  have hfetch : (⟨0x2e⟩ : Opcode).operation? = some (.array .load) := by decide +kernel
  have hkeep : (⟨0x4b⟩ : Opcode).operation? = some (.data (.storeSlot 0)) := by decide +kernel
  have hleave : (⟨0xa9⟩ : Opcode).operation? = some (.jump .leaveSubroutine) := by decide +kernel
  calc run 5 0 (within (.returnAddress 7) (following (.ref ⟨1⟩) [] 0 0))
      = run 4 0 (within (.returnAddress 7) (following (.ref ⟨1⟩) [.ref ⟨1⟩] 0 1)) :=
        run_of_perform rfl rfl rfl hload (fun _ => rfl) rfl
    _ = run 3 0 (within (.returnAddress 7) (following (.ref ⟨1⟩) [.int 0, .ref ⟨1⟩] 1 2)) :=
        run_of_perform rfl rfl rfl hconst (fun _ => rfl) rfl
    _ = run 2 0 (within (.returnAddress 7) (following (.ref ⟨1⟩) [.returnAddress 7] 2 3)) :=
        run_of_perform rfl rfl rfl hfetch (fun _ => rfl) rfl
    _ = run 1 0 (within (.returnAddress 7) (following (.returnAddress 7) [] 3 4)) :=
        run_of_perform rfl rfl rfl hkeep (fun _ => rfl) rfl
    _ = run 0 0 (within (.returnAddress 7) (following (.returnAddress 7) [] 4 7)) :=
        run_of_perform rfl rfl rfl hleave (fun _ => rfl) rfl

end

def astray : Vm := within (.returnAddress 7) (following (.returnAddress 7) [] 4 7)

theorem turns_astray : start.Turns astray := by
  have hload : Exec.after (Exec.answer (.request 0 (.load arrayName))) start = loaded := by
    have heq : load start.source [] arrayName start.registry = (.ok 1, withObjects) := load_objects
    have hserve : Exec.serve 0 (.load arrayName) start = .ok () loaded := by
      rw [Exec.serve, Exec.bind_apply, Exec.loadClass_apply, heq]
      rfl
    exact Exec.after_ok hserve
  have hnew : Exec.after (Exec.answer (.newArray 1 1)) loaded = holding .null := rfl
  have hleak : Exec.after (Exec.executeBy (Exec.run 7) leak [.ref ⟨1⟩]) (holding .null) =
      holding (.returnAddress 7) := by
    have hexecute : Exec.executeBy (Exec.run 7) leak [.ref ⟨1⟩] (holding .null) =
        Exec.releaseTraces (Exec.noteEnd (Exec.run 7 0)) (within .null (leaking [] 0 0)) :=
      Exec.executeBy_apply rfl rfl rfl (by decide) rfl rfl
    exact Exec.after_ok (hexecute.trans (Exec.releaseTraces_of_ok run_leak))
  have hfollow : Exec.after (Exec.executeBy (Exec.run 5) follow [.ref ⟨1⟩])
      (holding (.returnAddress 7)) = astray := by
    have hexecute : Exec.executeBy (Exec.run 5) follow [.ref ⟨1⟩] (holding (.returnAddress 7)) =
        Exec.releaseTraces (Exec.noteEnd (Exec.run 5 0))
          (within (.returnAddress 7) (following (.ref ⟨1⟩) [] 0 0)) :=
      Exec.executeBy_apply rfl rfl rfl (by decide) rfl rfl
    rw [Exec.releaseTraces_noteEnd_apply, run_follow] at hexecute
    exact Exec.after_error hexecute
  have hfirst : start.Turn loaded := by
    rw [← hload]
    exact .answer rfl (.request 0 (.load arrayName)) trivial
  have hsecond : loaded.Turn (holding .null) := .answer rfl (.newArray 1 1) trivial
  have hthird : (holding .null).Turn (holding (.returnAddress 7)) := by
    rw [← hleak]
    exact .execute rfl (fun _ _ => .inl rfl) ⟨0, root, rfl, List.mem_cons_self⟩ [.ref ⟨1⟩]
  have hfourth : (holding (.returnAddress 7)).Turn astray := by
    rw [← hfollow]
    exact .execute rfl (fun _ _ => .inl rfl)
      ⟨0, root, rfl, List.mem_cons_of_mem leak List.mem_cons_self⟩ [.ref ⟨1⟩]
  exact (((Relation.ReflTransGen.single hfirst).tail hsecond).tail hthird).tail hfourth

/-- The law holds of the machine whose frame is out of its code: the frame has returned there. -/
theorem frames_in_bounds_astray :
    start.Turns astray ∧ astray.maxFrames = start.maxFrames ∧ astray.InBounds ∧
      (astray.frames.length = astray.maxFrames → ∀ m body, m.isNative = false →
        m.body? = some body → m.isAbstract = false →
          ∃ e : Fault, Exec.call m astray = .error (.fault e) astray ∧
            e.guestException?.map Prod.fst = some "java/lang/StackOverflowError") ∧
      (∀ fuel base d vm', Exec.round (Exec.initializeBy (Exec.run fuel)) astray =
          .error (.defect d) vm' →
        Exec.run (fuel + 1) base astray =
          .error (.fault (.internal d))
            { Exec.after (Exec.cutTo base) vm' with returning := false }) ∧
      ∀ f ∈ astray.frames.head?, f.body.code.size ≤ f.pc → ∀ fuel base, ∃ vm',
        Exec.run (fuel + 1) base astray =
          .error (.fault (.internal (.truncated f.method.render f.pc))) vm' :=
  ⟨turns_astray, frames_in_bounds (some files.source) 0 none turns_astray⟩

/-- Between two instructions a frame may be out of its code. -/
theorem exists_frame_out_of_code :
    ∃ vm f, start.Turns vm ∧ f ∈ vm.frames ∧ f.body.code.size < f.pc :=
  ⟨astray, following (.returnAddress 7) [] 4 7, turns_astray, List.mem_cons_self, by decide⟩

end Leaking

end ClassEngine.Machine
