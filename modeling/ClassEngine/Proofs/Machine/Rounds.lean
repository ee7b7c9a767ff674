import ClassEngine.Proofs.Machine.Execution

/-!
# Single rounds

What a run does in one round, from what the instruction at hand does.
-/

namespace ClassEngine.Machine

open Code

namespace Exec

abbrev round (prepare : ClassId → Exec Unit) : Exec Unit := do
  advance.countInstruction
  step prepare

variable {prepare : ClassId → Exec Unit} {vm vm' : Vm} {base fuel : Nat} {e : Fault}

theorem profile_apply_of_none (g : Profiler MethodId → Profiler MethodId)
    (h : vm.profiler? = none) : profile g vm = .ok () vm := by
  cases vm
  cases h
  rfl

theorem u8_apply {f : Frame} {byte : UInt8} (h : f.body.code[f.pc]? = some byte) :
    FrameM.u8 f = .ok byte { f with pc := f.pc + 1 } := by
  rw [FrameM.u8, FrameM.fetch_apply, h]

theorem onFrame_apply {α : Type} {x : FrameM α} {f f' : Frame} {below : List Frame} {a : α}
    (hframes : vm.frames = f :: below) (h : x f = .ok a f') :
    onFrame x vm = .ok a { vm with frames := f' :: below } := by
  simp only [onFrame, hframes, h]

/-- The machine in which the instruction after the current one has begun. -/
abbrev fetched (vm : Vm) (f : Frame) (below : List Frame) : Vm :=
  { vm with frames := { f with opPc := f.pc, pc := f.pc + 1 } :: below }

theorem begin_apply {f : Frame} {below : List Frame} (hframes : vm.frames = f :: below) :
    onFrame .beginInstruction vm = .ok () { vm with frames := { f with opPc := f.pc } :: below } :=
  onFrame_apply hframes rfl

theorem opcode_apply {f : Frame} {below : List Frame} {byte : UInt8}
    (hbyte : f.body.code[f.pc]? = some byte) :
    onFrame .u8 { vm with frames := { f with opPc := f.pc } :: below } =
      .ok byte (fetched vm f below) :=
  onFrame_apply rfl (u8_apply (f := { f with opPc := f.pc }) hbyte)

theorem step_apply {f : Frame} {below : List Frame} {byte : UInt8} {op : Operation}
    (hframes : vm.frames = f :: below) (hbyte : f.body.code[f.pc]? = some byte)
    (hop : (⟨byte⟩ : Opcode).operation? = some op) :
    step prepare vm = perform prepare op (fetched vm f below) := by
  unfold step
  rw [bind_of_ok (begin_apply hframes), bind_of_ok (opcode_apply hbyte), hop]

theorem step_unknown {f : Frame} {below : List Frame} {byte : UInt8}
    (hframes : vm.frames = f :: below) (hbyte : f.body.code[f.pc]? = some byte)
    (hop : (⟨byte⟩ : Opcode).operation? = none) :
    step prepare vm =
      unsupported ("0x" ++ Text.hexLower 2 byte.toNat) (fetched vm f below) := by
  unfold step
  rw [bind_of_ok (begin_apply hframes), bind_of_ok (opcode_apply hbyte), hop]

theorem opcode_out_of_code {f : Frame} {below : List Frame} (hout : f.body.code[f.pc]? = none) :
    onFrame .u8 { vm with frames := { f with opPc := f.pc } :: below } =
      .error (.defect (.truncated f.method.render f.pc))
        { vm with frames := { f with opPc := f.pc } :: below } := by
  simp only [onFrame, FrameM.u8, FrameM.fetch_apply, hout]

theorem step_out_of_code {f : Frame} {below : List Frame} (hframes : vm.frames = f :: below)
    (hout : f.body.code[f.pc]? = none) :
    step prepare vm = .error (.defect (.truncated f.method.render f.pc))
      { vm with frames := { f with opPc := f.pc } :: below } := by
  unfold step
  rw [bind_of_ok (begin_apply hframes), bind_of_error (opcode_out_of_code hout)]

theorem step_of_data {f : Frame} {below : List Frame} {byte : UInt8} {op : DataOp}
    (hframes : vm.frames = f :: below) (hbyte : f.body.code[f.pc]? = some byte)
    (hop : (⟨byte⟩ : Opcode).operation? = some (.data op)) :
    step prepare vm =
      match FrameM.data op { f with opPc := f.pc, pc := f.pc + 1 } with
      | .ok () f' => .ok () { vm with frames := f' :: below }
      | .error (.inl e) f' => .error (.fault e) { vm with frames := f' :: below }
      | .error (.inr d) f' => .error (.defect d) { vm with frames := f' :: below } := by
  rw [step_apply hframes hbyte hop, perform, onFrame]
  dsimp only
  cases FrameM.data op { f with opPc := f.pc, pc := f.pc + 1 } with
  | ok u f' => rfl
  | error e f' => cases e <;> rfl

theorem round_apply {f : Frame} {below : List Frame} {byte : UInt8} {op : Operation}
    (hframes : vm.frames = f :: below) (hprofiler : vm.profiler? = none)
    (hbyte : f.body.code[f.pc]? = some byte) (hop : (⟨byte⟩ : Opcode).operation? = some op) :
    round prepare vm = perform prepare op (fetched vm f below) := by
  have hcount : advance.countInstruction vm = .ok () vm := by
    have hcurrent : currentFrame vm = .ok f vm := by
      simp only [currentFrame, bind_apply, get_apply, hframes, pure_apply]
    unfold advance.countInstruction
    rw [bind_of_ok hcurrent]
    exact profile_apply_of_none _ hprofiler
  unfold round
  rw [bind_of_ok hcount, step_apply hframes hbyte hop]

theorem advance_apply :
    advance prepare base vm =
      match round prepare vm with
      | .ok () vm => unlessReturning base (pure ()) vm
      | .error (.thrown r) vm => unlessReturning base (unwind base r) vm
      | .error (.fault e) vm => unlessReturning base (raiseFault prepare base e) vm
      | .error stop vm => .error stop vm := rfl

theorem contain_apply {α : Type} (base : Nat) (x : Exec α) (vm : Vm) :
    contain base x vm =
      match x vm with
      | .error (.defect d) vm => (do cutTo base; clearReturn; fault (.internal d) : Exec α) vm
      | outcome => outcome := rfl

theorem ok_of_contain {α : Type} {x : Exec α} {a : α} (h : contain base x vm = .ok a vm') :
    x vm = .ok a vm' := by
  rw [contain_apply] at h
  split at h
  · contradiction
  · exact h

theorem unlessReturning_of_clear {x : Exec Unit} (hclear : vm.returning = false) :
    unlessReturning base x vm = (do x; return none : Exec (Option Value)) vm := by
  rw [unlessReturning_apply, hclear, if_neg Bool.false_ne_true]

theorem unlessReturning_of_returning {x : Exec Unit} (hreturning : vm.returning = true) :
    unlessReturning base x vm = finish base vm := by
  rw [unlessReturning_apply, hreturning, if_pos rfl]

/-- The first frame of the run has returned. -/
theorem finish_of_first (hlength : vm.frames.length = base) :
    finish base vm = .ok (some vm.result) { vm with returning := false } := by
  unfold finish
  rw [bind_of_ok (rfl : clearReturn vm = .ok () { vm with returning := false }),
    bind_of_ok (get_apply _)]
  exact congrFun (if_pos hlength) _

theorem advance_of_next (h : round prepare vm = .ok () vm') (hclear : vm'.returning = false) :
    advance prepare base vm = .ok none vm' := by
  rw [advance_apply, h]
  exact unlessReturning_of_clear hclear

theorem advance_of_returned (h : round prepare vm = .ok () vm') (hreturning : vm'.returning = true)
    (hlength : vm'.frames.length = base) :
    advance prepare base vm = .ok (some vm'.result) { vm' with returning := false } := by
  rw [advance_apply, h]
  exact (unlessReturning_of_returning hreturning).trans (finish_of_first hlength)

theorem advance_of_thrown {vm'' : Vm} {r : Ref} (h : round prepare vm = .error (.thrown r) vm')
    (hclear : vm'.returning = false) (hunwind : unwind base r vm' = .ok () vm'') :
    advance prepare base vm = .ok none vm'' := by
  rw [advance_apply, h]
  exact (unlessReturning_of_clear hclear).trans (bind_of_ok hunwind)

theorem advance_of_escape {vm'' : Vm} {r : Ref} (h : round prepare vm = .error (.thrown r) vm')
    (hclear : vm'.returning = false) (hunwind : unwind base r vm' = .error (.fault e) vm'') :
    advance prepare base vm = .error (.fault e) vm'' := by
  rw [advance_apply, h]
  exact (unlessReturning_of_clear hclear).trans (bind_of_error hunwind)

theorem advance_of_fault {vm'' : Vm} (h : round prepare vm = .error (.fault e) vm')
    (hclear : vm'.returning = false) (hraise : raiseFault prepare base e vm' = .ok () vm'') :
    advance prepare base vm = .ok none vm'' := by
  rw [advance_apply, h]
  exact (unlessReturning_of_clear hclear).trans (bind_of_ok hraise)

theorem advance_of_fatal {vm'' : Vm} {e' : Fault} (h : round prepare vm = .error (.fault e) vm')
    (hclear : vm'.returning = false)
    (hraise : raiseFault prepare base e vm' = .error (.fault e') vm'') :
    advance prepare base vm = .error (.fault e') vm'' := by
  rw [advance_apply, h]
  exact (unlessReturning_of_clear hclear).trans (bind_of_error hraise)

theorem run_of_none (h : advance (initializeBy (run fuel)) base vm = .ok none vm') :
    run (fuel + 1) base vm = run fuel base vm' := by
  have hcontain : contain base (advance (initializeBy (run fuel)) base) vm = .ok none vm' := by
    unfold contain
    rw [h]
  rw [run, bind_of_ok hcontain]

theorem run_of_perform {f : Frame} {below : List Frame} {byte : UInt8} {op : Operation}
    (hframes : vm.frames = f :: below) (hprofiler : vm.profiler? = none)
    (hbyte : f.body.code[f.pc]? = some byte) (hop : (⟨byte⟩ : Opcode).operation? = some op)
    (hperform : ∀ prepare, perform prepare op (fetched vm f below) = .ok () vm')
    (hclear : vm'.returning = false) : run (fuel + 1) base vm = run fuel base vm' := by
  refine run_of_none (advance_of_next ?_ hclear)
  rw [round_apply hframes hprofiler hbyte hop]
  exact hperform _

theorem run_of_some {v : Value}
    (h : advance (initializeBy (run fuel)) base vm = .ok (some v) vm') :
    run (fuel + 1) base vm = .ok v vm' := by
  have hcontain : contain base (advance (initializeBy (run fuel)) base) vm = .ok (some v) vm' := by
    unfold contain
    rw [h]
  rw [run, bind_of_ok hcontain]
  rfl

theorem run_of_fault (h : advance (initializeBy (run fuel)) base vm = .error (.fault e) vm') :
    run (fuel + 1) base vm = .error (.fault e) vm' := by
  have hcontain : contain base (advance (initializeBy (run fuel)) base) vm =
      .error (.fault e) vm' := by
    unfold contain
    rw [h]
  rw [run, bind_of_error hcontain]

theorem releaseTraces_of_ok {α : Type} {x : Exec α} {a : α} (h : x vm = .ok a vm') :
    releaseTraces (noteEnd x) vm = .ok a (released vm') := by
  rw [releaseTraces_noteEnd_apply, h]

theorem releaseTraces_of_fault {α : Type} {x : Exec α} (h : x vm = .error (.fault e) vm') :
    releaseTraces (noteEnd x) vm =
      .error (.fault e) (released { vm' with journal := .ended e :: vm'.journal }) := by
  rw [releaseTraces_noteEnd_apply, h]

theorem releaseTraces_of_exhausted {α : Type} {x : Exec α} {f : Frame} {below : List Frame}
    (h : x vm = .error .exhausted vm') (hframes : vm'.frames = f :: below) :
    releaseTraces (noteEnd x) vm = .error .exhausted vm' := by
  rw [releaseTraces_noteEnd_apply, h]
  simp only [released, hframes, List.isEmpty_cons, Bool.false_eq_true, if_false]

theorem checkDepth_of_lt (hdepth : vm.frames.length < vm.maxFrames) :
    checkDepth vm = .ok () vm := by
  unfold checkDepth
  rw [bind_of_ok (get_apply vm)]
  exact congrFun (if_neg (Nat.not_le_of_lt hdepth)) vm

theorem executeBy_apply {run : Nat → Exec Value} {m : Method} {body : ClassFile.Body}
    {args : List Value} {locals : Array Value} (hprofiler : vm.profiler? = none)
    (hnative : m.isNative = false) (hbody : m.body? = some body)
    (hdepth : vm.frames.length < vm.maxFrames) (harity : args.length = m.arity)
    (hbind : bindArguments m body args = .ok locals) :
    executeBy run m args vm =
      releaseTraces (noteEnd (run vm.frames.length))
        { vm with frames := .enter m body locals :: vm.frames } := by
  have henter : enter (.enter m body locals) vm =
      .ok () { vm with frames := .enter m body locals :: vm.frames } := by
    unfold enter
    rw [bind_of_ok (profile_apply_of_none _ hprofiler)]
    rfl
  unfold executeBy
  simp only [hnative, hbody, harity, hbind, ne_eq, not_true_eq_false, if_false,
    Bool.false_eq_true]
  rw [bind_of_ok (checkDepth_of_lt hdepth), bind_of_ok (get_apply vm), bind_of_ok henter]

end Exec

end ClassEngine.Machine
