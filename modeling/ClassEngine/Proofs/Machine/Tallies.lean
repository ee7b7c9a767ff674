import ClassEngine.Proofs.Machine.Counters
import ClassEngine.Proofs.Machine.Idling
import ClassEngine.Proofs.Machine.Incidents

/-!
# Frames pushed and instructions started

What there is to count in an operation is told by how it is put together: frames are pushed by
`enter` and nowhere else, and every round starts one instruction of the frame on top.  The
tally of the parts of an operation, in their order, is that of the whole.  A machine with a
profiler goes the same way as one without, and its profiler is told that tally.
-/

namespace ClassEngine.Machine

open Code

namespace Exec

variable {α β : Type}

/-- The frames that an operation on a machine pushes and the instructions it starts, in order. -/
inductive Tallies : {α : Type} → Exec α → Vm → List Mark → Prop
  | idle {α : Type} {x : Exec α} (h : Idle x) (vm : Vm) : Tallies x vm []
  | look {α : Type} {f : Vm → Exec α} {vm : Vm} {marks : List Mark}
      (hf : ∀ vm p?, f (vm.profiledBy p?) = f vm) (h : Tallies (f vm) vm marks) :
      Tallies (get >>= f) vm marks
  | enter (f : Frame) (vm : Vm) : Tallies (enter f) vm [.entered f.method]
  | round {prepare : ClassId → Exec Unit} {vm : Vm} {f : Frame} {below : List Frame}
      {marks : List Mark} (hframes : vm.frames = f :: below) (h : Tallies (step prepare) vm marks) :
      Tallies (round prepare) vm (.started f.method :: marks)
  | stuck {prepare : ClassId → Exec Unit} {vm : Vm} (hframes : vm.frames = []) :
      Tallies (round prepare) vm []
  | settle {α β : Type} {x : Exec α} {rest : Except Stop α → Exec β} {vm : Vm}
      {marks later : List Mark} (first : Tallies x vm marks)
      (next : Tallies (rest (outcome x vm)) (after x vm) later) :
      Tallies (settle x rest) vm (marks ++ later)

/-! ## The profiler is told the tally -/

section

variable {x : Exec α} {vm : Vm} {p? q? : Option (Profiler MethodId)}

theorem under_under (r : EStateM.Result Stop Vm α) : under p? (under q? r) = under p? r := by
  cases r <;> rfl

theorem outcome_of_under (h : x (vm.profiledBy p?) = under q? (x vm)) :
    outcome x (vm.profiledBy p?) = outcome x vm := by
  unfold outcome
  rw [h]
  cases x vm <;> rfl

theorem after_of_under (h : x (vm.profiledBy p?) = under q? (x vm)) :
    after x (vm.profiledBy p?) = (after x vm).profiledBy q? := by
  unfold after
  rw [h]
  cases x vm <;> rfl

end

theorem round_counts {prepare : ClassId → Exec Unit} {vm : Vm} {f : Frame} {below : List Frame}
    (hframes : vm.frames = f :: below) :
    round prepare vm = step prepare (vm.profiledBy
      (vm.profiler?.map (·.recordInstruction f.method.id f.method.render))) := by
  have hcount : advance.countInstruction vm = .ok () (vm.profiledBy
      (vm.profiler?.map (·.recordInstruction f.method.id f.method.render))) := by
    simp only [advance.countInstruction, currentFrame, bind_apply, get_apply, hframes, pure_apply]
    rfl
  rw [round, bind_of_ok hcount]

theorem round_stuck {prepare : ClassId → Exec Unit} {vm : Vm} (hframes : vm.frames = []) :
    round prepare vm = .error .undefined vm := by
  have hcurrent : currentFrame vm = .error .undefined vm := by
    simp only [currentFrame, bind_apply, get_apply, hframes]
    rfl
  rw [round, bind_of_error]
  exact bind_of_error hcurrent

/-- With a profiler, or another one, an operation does what it does without, and the profiler
is told what the operation pushes and starts. -/
theorem profiled_of_tallies {x : Exec α} {vm : Vm} {marks : List Mark} (h : Tallies x vm marks)
    (p? : Option (Profiler MethodId)) :
    x (vm.profiledBy p?) = under (p?.map (·.recordAll marks)) (x vm) := by
  induction h generalizing p? with
  | idle hidle vm =>
      rw [hidle.blind]
      cases p? <;> rfl
  | look hf _ ih =>
      rw [bind_apply, bind_apply, get_apply, get_apply]
      dsimp only
      rw [hf, ih]
  | enter f vm => cases p? <;> rfl
  | @round prepare vm f below marks hframes _ ih =>
      have hframes' : (vm.profiledBy p?).frames = f :: below := hframes
      rw [round_counts hframes, round_counts hframes', ih, under_under]
      refine (ih _).trans ?_
      cases p? <;> rfl
  | stuck hframes =>
      rw [round_stuck hframes, round_stuck (by exact hframes)]
      cases p? <;> rfl
  | settle _ _ ihfirst ihnext =>
      have hfirst := ihfirst p?
      rw [settle, outcome_of_under hfirst, after_of_under hfirst, ihnext]
      unfold settle
      cases p? with
      | none => rfl
      | some p => rw [Option.map_some, Option.map_some, Option.map_some, Profiler.recordAll_append]

theorem activations_of_tallies {x : Exec α} {vm : Vm} {marks : List Mark}
    (h : Tallies x vm marks) (m : Method) :
    (after x vm).activations.count m ≤ vm.activations.count m + marks.count (.entered m) := by
  induction h with
  | idle hidle vm => exact (hidle.activations vm).sublist.count_le m
  | look _ _ ih => exact ih
  | enter f vm =>
      show (f.method :: vm.activations).count m ≤ _
      rw [List.count_cons, List.count_singleton]
      simp
  | @round prepare vm f below marks hframes h ih =>
      have hround : (after (round prepare) vm).activations =
          (after (step prepare) vm).activations := by
        rw [after, round_counts hframes, ← after, after_of_under (profiled_of_tallies h _)]
        rfl
      rw [hround, List.count_cons]
      exact ih
  | stuck hframes =>
      rw [after_error (round_stuck hframes)]
      exact Nat.le_add_right _ _
  | settle _ _ ihfirst ihnext =>
      rw [List.count_append]
      exact ihnext.trans (by omega)

/-! ## Every operation has a tally -/

class Tallying (x : Exec α) : Prop where
  tallies : ∀ vm, ∃ marks, Tallies x vm marks

instance (priority := low) {x : Exec α} [hx : Idle x] : Tallying x :=
  ⟨fun vm => ⟨[], .idle hx vm⟩⟩

theorem Tallying.settle {x : Exec α} {rest : Except Stop α → Exec β} [hx : Tallying x]
    (hrest : ∀ end?, Tallying (rest end?)) : Tallying (Exec.settle x rest) := by
  constructor
  intro vm
  obtain ⟨marks, hfirst⟩ := hx.tallies vm
  obtain ⟨later, hnext⟩ := (hrest (outcome x vm)).tallies (after x vm)
  exact ⟨marks ++ later, hfirst.settle hnext⟩

theorem tallying_bind {x : Exec α} {g : α → Exec β} [Tallying x] (hg : ∀ a, Tallying (g a)) :
    Tallying (x >>= g) := by
  rw [bind_eq_settle]
  refine .settle fun end? => ?_
  cases end? with
  | ok a => exact hg a
  | error stop => infer_instance

instance {x : Exec α} {g : α → Exec β} [Tallying x] [∀ a, Tallying (g a)] :
    Tallying (x >>= g) :=
  tallying_bind inferInstance

theorem tallying_look {f : Vm → Exec α} (hf : ∀ vm p?, f (vm.profiledBy p?) = f vm)
    (h : ∀ vm, Tallying (f vm)) : Tallying (get >>= f) := by
  constructor
  intro vm
  obtain ⟨marks, h⟩ := (h vm).tallies vm
  exact ⟨marks, .look hf h⟩

instance {c : Prop} [Decidable c] {x y : Exec α} [hx : Tallying x] [hy : Tallying y] :
    Tallying (if c then x else y) := by
  split
  · exact hx
  · exact hy

instance {x : Exec α} [Tallying x] : Tallying (attempt x) := by
  rw [attempt_eq_settle]
  refine .settle fun end? => ?_
  cases end? with
  | ok a => infer_instance
  | error stop => cases stop <;> dsimp only <;> infer_instance

instance (f : Frame) : Tallying (enter f) := ⟨fun vm => ⟨_, .enter f vm⟩⟩

/-! ### Instructions -/

instance (m : Method) : Tallying (call m) := by
  unfold call
  cases m.body? with
  | none =>
      dsimp only
      infer_instance
  | some body =>
      have henter : Tallying (do
          checkDepth
          enter (.enter m body (← onFrame (.takeOperands m body))) : Exec Unit) := inferInstance
      dsimp only
      infer_instance

instance (m : Method) (v : Value) : Tallying (dispatch m v) := by
  unfold dispatch
  infer_instance

section

variable {prepare : ClassId → Exec Unit} [hprepare : ∀ id, Tallying (prepare id)]

instance (op : InvokeOp) : Tallying (invoke prepare op) := by
  cases op with
  | interface =>
      refine tallying_bind fun index => tallying_bind fun _ => tallying_bind fun _ => ?_
      refine tallying_bind fun id => tallying_bind fun m => tallying_bind fun _ => ?_
      refine tallying_bind fun v => tallying_bind fun rc => ?_
      refine tallying_look (fun _ _ => rfl) fun vm => ?_
      infer_instance
  | _ =>
      unfold invoke
      infer_instance

instance : Tallying (staticField prepare) := by
  unfold staticField
  infer_instance

instance (op : ObjectOp) : Tallying (object prepare op) := by
  have hput (f : Field) (r : Ref) (v : Value) : Idle (modify fun vm =>
      { vm with heap := vm.heap.modify r fun o =>
        { o with fields := o.fields.setIfInBounds f.slot v } } : Exec Unit) :=
    idle_putHeap _ fun _ _ => rfl
  cases op with
  | create =>
      refine tallying_bind fun index => tallying_bind fun id => tallying_bind fun c => ?_
      dsimp only
      infer_instance
  | _ =>
      unfold object
      infer_instance

instance (op : Operation) : Tallying (perform prepare op) := by
  cases op <;> unfold perform <;> infer_instance

instance : Tallying (step prepare) := by
  refine tallying_bind fun _ => tallying_bind fun byte => ?_
  dsimp only
  cases (⟨byte⟩ : Opcode).operation? <;> dsimp only <;> infer_instance

/-! ### Rounds -/

instance : Tallying (round prepare) := by
  constructor
  intro vm
  cases hframes : vm.frames with
  | nil => exact ⟨[], .stuck hframes⟩
  | cons f below =>
      obtain ⟨marks, h⟩ := Tallying.tallies (x := step prepare) vm
      exact ⟨_, .round hframes h⟩

instance (className message : String) : Tallying (newThrowable prepare className message) := by
  unfold newThrowable
  infer_instance

instance (base : Nat) (e : Fault) : Tallying (raiseFault prepare base e) := by
  unfold raiseFault
  cases e.guestException? with
  | none =>
      dsimp only
      infer_instance
  | some exception =>
      refine tallying_bind fun outcome => ?_
      cases outcome <;> dsimp only <;> infer_instance

instance (base : Nat) (x : Exec Unit) [Tallying x] : Tallying (unlessReturning base x) :=
  tallying_look (fun _ _ => rfl) fun _ => inferInstance

instance (base : Nat) : Tallying (advance prepare base) := by
  rw [advance_eq_settle]
  refine .settle fun end? => ?_
  cases end? with
  | ok _ => infer_instance
  | error stop => cases stop <;> dsimp only <;> infer_instance

end

instance (base : Nat) {x : Exec α} [Tallying x] : Tallying (contain base x) := by
  rw [contain_eq_settle]
  refine .settle fun end? => ?_
  cases end? with
  | ok a => infer_instance
  | error stop => cases stop <;> dsimp only <;> infer_instance

/-! ### Initialization -/

theorem tallying_initializeOwn {runInitializer : Method → Exec Unit}
    [∀ m, Tallying (runInitializer m)] (c : Class) :
    Tallying (initializeOwn runInitializer c) := by
  refine tallying_bind fun _ => ?_
  cases c.declaredMethod? ClassFile.initializerName "()V" with
  | none => infer_instance
  | some m =>
      refine tallying_bind fun _ => tallying_bind fun outcome => ?_
      cases outcome <;> dsimp only <;> infer_instance

instance (id : ClassId) {x : Exec Unit} [Tallying x] : Tallying (failing id x) := by
  refine tallying_bind fun outcome => ?_
  cases outcome <;> dsimp only <;> infer_instance

theorem sequential_tallying : Sequential Tallying where
  pure _ := inferInstance
  bind _ hg := tallying_bind hg

theorem tallying_ensureInitialized {runInitializer : Method → Exec Unit}
    [hrun : ∀ m, Tallying (runInitializer m)] (id : ClassId) :
    Tallying (ensureInitialized runInitializer id) :=
  sequential_tallying.ensureInitialized (fun _ => inferInstance) (fun _ => inferInstance)
    (fun _ => inferInstance) (fun _ _ => inferInstance) tallying_initializeOwn
    (fun _ _ _ => inferInstance) id

/-! ### Runs -/

instance : Idle (modify released : Exec Unit) where
  activations vm := by
    show (released vm).activations <:+ vm.activations
    rw [Vm.activations, released_frames]
    exact List.suffix_rfl
  blind vm p? := by
    show EStateM.Result.ok () (released (vm.profiledBy p?)) = .ok () ((released vm).profiledBy p?)
    unfold released
    split <;> split <;> first | rfl | contradiction

instance {x : Exec α} [Tallying x] : Tallying (releaseTraces (noteEnd x)) := by
  rw [releaseTraces_noteEnd_eq_settle]
  refine .settle fun end? => ?_
  cases end? with
  | ok a => infer_instance
  | error stop => cases stop <;> dsimp only <;> infer_instance

theorem tallying_executeBy {run : Nat → Exec Value} [∀ base, Tallying (run base)] (m : Method)
    (args : List Value) : Tallying (executeBy run m args) := by
  unfold executeBy
  cases m.body? with
  | none =>
      dsimp only
      infer_instance
  | some body =>
      dsimp only
      cases bindArguments m body args with
      | error d =>
          dsimp only
          infer_instance
      | ok locals =>
          have hrun : Tallying (do
              let base := (← get).frames.length
              enter (.enter m body locals)
              releaseTraces (noteEnd (run base)) : Exec Value) :=
            tallying_look (fun _ _ => rfl) fun vm => inferInstance
          dsimp only
          infer_instance

theorem tallying_initializeBy {run : Nat → Exec Value} [∀ base, Tallying (run base)]
    (id : ClassId) : Tallying (initializeBy run id) := by
  have hexecute (m : Method) : Tallying (executeBy run m []) := tallying_executeBy m []
  exact tallying_ensureInitialized id

instance tallying_run (fuel base : Nat) : Tallying (run fuel base) := by
  induction fuel generalizing base with
  | zero => exact inferInstanceAs (Tallying (throw .exhausted : Exec Value))
  | succ fuel ih =>
      have hprepare (id : ClassId) : Tallying (initializeBy (run fuel) id) :=
        tallying_initializeBy id
      refine tallying_bind fun v? => ?_
      cases v? <;> dsimp only <;> infer_instance

instance (fuel : Nat) (id : ClassId) : Tallying (initialized fuel id) :=
  tallying_initializeBy id

instance (fuel : Nat) (m : Method) (args : List Value) : Tallying (execute fuel m args) :=
  tallying_executeBy m args

instance (fuel : Nat) (m : Method) (args : List Value) : Tallying (invokeMethod fuel m args) := by
  unfold invokeMethod
  infer_instance

instance (fuel : Nat) (className : String) : Tallying (runProgram fuel className) := by
  refine tallying_bind fun id => tallying_bind fun c => ?_
  cases entryPoint? c <;> dsimp only <;> infer_instance

instance (fuel : Nat) (className name descriptor : String) (args : List Value) :
    Tallying (invokeStatic fuel className name descriptor args) := by
  refine tallying_bind fun id => tallying_look (fun _ _ => rfl) fun vm => ?_
  cases vm.registry.classes.findMethod? id name descriptor <;> dsimp only <;> infer_instance

instance (fuel : Nat) (className name : String) : Tallying (getStatic fuel className name) := by
  refine tallying_bind fun id => tallying_look (fun _ _ => rfl) fun vm => ?_
  split <;> infer_instance

end Exec

end ClassEngine.Machine
