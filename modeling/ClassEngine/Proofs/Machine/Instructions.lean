import ClassEngine.Machine.Execution
import ClassEngine.Proofs.Machine.Resolution

/-!
# Instructions as sequences of changes

An instruction is made of single changes, of the initializations it asks for and of
selections by call sites.  A return is the one instruction that also removes a frame.
-/

namespace ClassEngine.Machine

open Code

namespace Exec

variable {α : Type}

/-! ## Arrays, fields and objects -/

theorem local_currentClass : Local currentClass :=
  local_currentFrame.bind fun _ => local_pure _

theorem local_unsupported (text : String) : Local (unsupported text : Exec α) :=
  local_currentFrame.bind fun _ => local_fault _ rfl

theorem local_pushArray (id : ClassId) : Local (pushArray id) :=
  (local_onFrame _).bind fun _ => (local_allocArray _ _).bind fun _ => local_onFrame _

theorem reads_checkElement (array : Ref) (v : Value) : Reads (checkElement array v) := by
  unfold checkElement
  split
  · exact reads_pure _
  · refine (reads_classOf _).bind fun id => (reads_classAt id).bind fun ac => ?_
    refine (reads_classOf _).bind fun vid => ?_
    cases ac.component? with
    | none => exact reads_pure _
    | some component =>
        refine reads_get.bind fun vm => ?_
        split
        · exact reads_pure _
        · exact (reads_classAt vid).bind fun _ => reads_fault _ rfl

theorem local_array (op : ArrayOp) : Local (array op) := by
  cases op with
  | load =>
      refine (local_onFrame _).bind fun index => (local_onFrame _).bind fun r => ?_
      exact (reads_loadElement r index).isLocal.bind fun v => local_onFrame _
  | store =>
      refine (local_onFrame _).bind fun v => (local_onFrame _).bind fun index => ?_
      exact (local_onFrame _).bind fun r => local_storeElement r index v
  | storeRef =>
      refine (local_onFrame _).bind fun v => (local_onFrame _).bind fun index => ?_
      refine (local_onFrame _).bind fun r => (reads_loadElement r index).isLocal.bind fun _ => ?_
      exact (reads_checkElement r v).isLocal.bind fun _ => local_storeElement r index v
  | length =>
      refine (local_onFrame _).bind fun r => local_get.bind fun vm => ?_
      refine (local_ofExcept fun _ => Heap.covered_arrayLength).bind fun _ => ?_
      exact local_onFrame _
  | create =>
      refine (local_onFrame _).bind fun code => ?_
      cases baseArrayName? code with
      | none => exact local_onFrame _
      | some name => exact (local_loadClass name).bind fun id => local_pushArray id
  | createRefs =>
      refine (local_onFrame _).bind fun index => local_currentClass.bind fun id => ?_
      refine (local_resolveClass id index).bind fun element => ?_
      exact (local_arrayOf element).bind fun array => local_pushArray array
  | createNested => exact local_unsupported _

theorem local_instanceField : Local instanceField := by
  refine (local_onFrame _).bind fun index => local_currentClass.bind fun id => ?_
  refine (local_resolveField id index).bind fun f => ?_
  split
  · exact local_fault _ rfl
  · exact local_pure f

theorem local_fieldHolder (f : Field) (r : Ref) : Local (fieldHolder f r) := by
  refine local_get.bind fun vm => ?_
  cases vm.heap.get? r with
  | none => exact local_fault _ rfl
  | some o =>
      refine (local_classAt _).bind fun c => ?_
      split
      · exact local_pure o
      · exact local_fault _ rfl

theorem local_castCheck (v : Value) (index : UInt16) : Local (castCheck v index) := by
  unfold castCheck
  split
  · exact local_pure _
  · refine local_currentClass.bind fun id => (local_resolveClass id index).bind fun target => ?_
    refine (local_classOf _).bind fun source => local_get.bind fun vm => ?_
    split
    · exact local_pure _
    · refine (local_classAt source).bind fun _ => ?_
      exact (local_classAt target).bind fun _ => local_fault _ rfl

theorem local_isInstance (v : Value) (target : ClassId) : Local (isInstance v target) := by
  unfold isInstance
  split
  · exact local_pure _
  · exact (local_classOf _).bind fun _ => local_get.bind fun _ => local_pure _

theorem local_pushLiteral (index : UInt16) : Local (pushLiteral index) :=
  local_currentClass.bind fun id => (local_literal id index).bind fun _ => local_onFrame _

section

variable {P : ∀ {α : Type}, Exec α → Prop} {prepare : ClassId → Exec Unit}

theorem Compositional.staticField (hP : Compositional P) (hprepare : ∀ id, P (prepare id)) :
    P (staticField prepare) := by
  refine hP.bind (hP.small (local_onFrame _)) fun index => ?_
  refine hP.bind (hP.small local_currentClass) fun id => ?_
  refine hP.bind (hP.small (local_resolveField id index)) fun f => ?_
  split
  · exact hP.bind (hprepare _) fun _ => hP.small (local_pure f)
  · exact hP.small (local_fault _ rfl)

theorem Compositional.object (hP : Compositional P)
    (hraise : ∀ r, P (throw (.thrown r) : Exec Unit)) (hprepare : ∀ id, P (prepare id))
    (op : ObjectOp) : P (object prepare op) := by
  cases op with
  | literal => exact hP.small ((local_onFrame _).bind fun index => local_pushLiteral _)
  | literalWide => exact hP.small ((local_onFrame _).bind fun index => local_pushLiteral _)
  | getStatic =>
      refine hP.bind (hP.staticField hprepare) fun f => hP.small ?_
      exact (reads_getStaticSlot f).isLocal.bind fun _ => local_onFrame _
  | putStatic =>
      refine hP.bind (hP.staticField hprepare) fun f => hP.small ?_
      exact (local_onFrame _).bind fun v => local_setStaticSlot f v
  | getField =>
      refine hP.small (local_instanceField.bind fun f => (local_onFrame _).bind fun r => ?_)
      exact (local_fieldHolder f r).bind fun _ => local_onFrame _
  | putField =>
      refine hP.small (local_instanceField.bind fun f => (local_onFrame _).bind fun v => ?_)
      refine (local_onFrame _).bind fun r => (local_fieldHolder f r).bind fun _ => ?_
      exact local_modify (fun vm => .heap vm _) fun _ => rfl
  | create =>
      refine hP.bind (hP.small (local_onFrame _)) fun index => ?_
      refine hP.bind (hP.small local_currentClass) fun owner => ?_
      refine hP.bind (hP.small (local_resolveClass owner index)) fun id => ?_
      refine hP.bind (hP.small (local_classAt id)) fun c => ?_
      refine hP.guard _ rfl (hP.bind (hprepare id) fun _ => hP.small ?_)
      exact (local_allocInstance id).bind fun _ => local_onFrame _
  | checkCast =>
      refine hP.small ((local_onFrame _).bind fun index => (local_onFrame _).bind fun v => ?_)
      exact local_castCheck v index
  | instanceOf =>
      refine hP.small ((local_onFrame _).bind fun index => ?_)
      refine local_currentClass.bind fun id => (local_resolveClass id index).bind fun target => ?_
      refine (local_onFrame _).bind fun v => (local_isInstance v target).bind fun _ => ?_
      exact local_onFrame _
  | raise =>
      refine hP.bind (hP.small (local_onFrame _)) fun r => ?_
      split
      · exact hP.small (local_fault _ rfl)
      · exact hraise r
  | monitor =>
      refine hP.small ((local_onFrame _).bind fun v => ?_)
      split
      · exact local_fault _ rfl
      · exact local_pure _

end

/-! ## Calls -/

theorem local_enter {f : Frame} (hf : f.Fits) : Local (enter f) :=
  (local_profile _).bind fun _ => local_modify (fun vm => .enter vm f hf) fun _ => rfl

theorem local_checkDepth : Local checkDepth := by
  refine local_get.bind fun vm => ?_
  split
  · exact local_fault _ rfl
  · exact local_pure _

theorem local_call (m : Method) : Local (call m) := by
  unfold call
  cases hbody : m.body? with
  | none => exact local_guard _ rfl (local_fault _ rfl)
  | some body =>
      refine local_guard _ rfl (local_guard _ rfl (local_checkDepth.bind fun _ => ?_))
      exact (local_onFrame _).bind fun locals => local_enter hbody

theorem local_receiver (m : Method) : Local (receiver m) := by
  refine (local_onFrame _).bind fun v => ?_
  split
  · exact local_fault _ rfl
  · exact local_pure v

theorem local_specialTarget (m : Method) : Local (specialTarget m) := by
  refine local_currentClass.bind fun caller => (local_classAt caller).bind fun c => ?_
  refine local_get.bind fun vm => ?_
  dsimp only
  split
  · split
    · exact local_pure _
    · exact local_fault _ rfl
  · exact local_pure m

theorem local_checkInstanceMethod (m : Method) : Local (checkInstanceMethod m) := by
  unfold checkInstanceMethod
  split
  · exact local_fault _ rfl
  · exact local_pure _

/-- The use of its pool entry by a call whose method the receiver selects. -/
def selectionUse? : Operation → Option PoolUse
  | .invoke .virtual => some .method
  | .invoke .interface => some .interfaceMethod
  | _ => none

section

variable {P : ∀ {α : Type}, Exec α → Prop} {prepare : ClassId → Exec Unit}

theorem Compositional.selectMethod (hP : Compositional P)
    (hset : ∀ site cache, P (setSite site cache)) (m : Method) (v : Value) :
    P (selectMethod m v) := by
  refine hP.bind (hP.small (reads_classOfObject _).isLocal) fun rc => ?_
  refine hP.bind (hP.small local_currentFrame) fun f => hP.bind (hP.small local_get) fun vm => ?_
  dsimp only
  refine hP.bind (hset _ _) fun _ => ?_
  split
  · exact hP.small (local_pure _)
  · refine hP.bind (hP.small (local_classAt rc)) fun c => ?_
    cases c.vtable.lookup? m.name m.descriptor with
    | none => exact hP.small (local_fault _ rfl)
    | some target => exact hP.bind (hset _ _) fun _ => hP.small (local_pure target)

theorem Compositional.dispatch (hP : Compositional P)
    (hselect : ∀ m v, P (Exec.selectMethod m v)) (m : Method) (v : Value) : P (dispatch m v) := by
  unfold Exec.dispatch
  split
  · exact hP.small (local_call m)
  · exact hP.bind (hselect m v) fun target => hP.small (local_call target)

theorem Compositional.invoke (hP : Compositional P) (hprepare : ∀ id, P (prepare id))
    {op : InvokeOp}
    (hselect : selectionUse? (.invoke op) ≠ none → ∀ m v, P (Exec.selectMethod m v)) :
    P (invoke prepare op) := by
  cases op with
  | static =>
      refine hP.bind (hP.small (local_onFrame _)) fun index => ?_
      refine hP.bind (hP.small local_currentClass) fun id => ?_
      refine hP.bind (hP.small (local_resolveMethod id index)) fun m => ?_
      refine hP.guard _ rfl (hP.bind (hprepare _) fun _ => ?_)
      exact hP.small (local_call m)
  | special =>
      refine hP.small ((local_onFrame _).bind fun index => ?_)
      refine local_currentClass.bind fun id => (local_resolveMethod id index).bind fun m => ?_
      refine (local_checkInstanceMethod m).bind fun _ => ?_
      refine (local_specialTarget m).bind fun target => ?_
      exact (local_receiver m).bind fun _ => local_call target
  | virtual =>
      refine hP.bind (hP.small (local_onFrame _)) fun index => ?_
      refine hP.bind (hP.small local_currentClass) fun id => ?_
      refine hP.bind (hP.small (local_resolveMethod id index)) fun m => ?_
      refine hP.bind (hP.small (local_checkInstanceMethod m)) fun _ => ?_
      exact hP.bind (hP.small (local_receiver m)) fun v => hP.dispatch (hselect nofun) m v
  | interface =>
      refine hP.bind (hP.small (local_onFrame _)) fun index => ?_
      refine hP.bind (hP.small (local_onFrame _)) fun _ => ?_
      refine hP.bind (hP.small (local_onFrame _)) fun _ => ?_
      refine hP.bind (hP.small local_currentClass) fun id => ?_
      refine hP.bind (hP.small (local_resolveInterfaceMethod id index)) fun m => ?_
      refine hP.bind (hP.small (local_checkInstanceMethod m)) fun _ => ?_
      refine hP.bind (hP.small (local_receiver m)) fun v => ?_
      refine hP.bind (hP.small (reads_classOfObject _).isLocal) fun rc => ?_
      refine hP.bind (hP.small local_get) fun vm => ?_
      split
      · exact hP.dispatch (hselect nofun) m v
      · exact hP.small ((local_classAt rc).bind fun c => local_fault _ rfl)
  | dynamic => exact hP.small (local_unsupported _)

theorem Compositional.perform (hP : Compositional P)
    (hraise : ∀ r, P (throw (.thrown r) : Exec Unit)) (hprepare : ∀ id, P (prepare id))
    {op : Operation} (hop : op.isReturn = false)
    (hselect : selectionUse? op ≠ none → ∀ m v, P (Exec.selectMethod m v)) :
    P (perform prepare op) := by
  cases op with
  | data op => exact hP.small (local_onFrame _)
  | jump op => exact hP.small (local_onFrame _)
  | wide => exact hP.small (local_onFrame _)
  | array op => exact hP.small (local_array op)
  | object op => exact hP.object hraise hprepare op
  | invoke op => exact hP.invoke hprepare hselect
  | returnValue | returnVoid => cases hop

theorem Compositional.operation (hP : Compositional P)
    (hraise : ∀ r, P (throw (.thrown r) : Exec Unit)) (hleave : ∀ v?, P (leaveFrame v?))
    (hprepare : ∀ id, P (prepare id)) {op : Operation}
    (hselect : selectionUse? op ≠ none → ∀ m v, P (Exec.selectMethod m v)) :
    P (Exec.perform prepare op) := by
  cases hop : op.isReturn with
  | false => exact hP.perform hraise hprepare hop hselect
  | true =>
      cases op with
      | returnVoid => exact hleave none
      | returnValue => exact hP.bind (hP.small (local_onFrame _)) fun v => hleave (some v)
      | _ => cases hop

theorem Compositional.step (hP : Compositional P)
    (hraise : ∀ r, P (throw (.thrown r) : Exec Unit)) (hleave : ∀ v?, P (leaveFrame v?))
    (hset : ∀ site cache, P (setSite site cache)) (hprepare : ∀ id, P (prepare id)) :
    P (step prepare) := by
  refine hP.bind (hP.small (local_onFrame _)) fun _ => ?_
  refine hP.bind (hP.small (local_onFrame _)) fun byte => ?_
  dsimp only
  cases (⟨byte⟩ : Opcode).operation? with
  | none => exact hP.small (local_unsupported _)
  | some op => exact hP.operation hraise hleave hprepare fun _ => hP.selectMethod hset

end

theorem Compositional.finish (hP : Compositional P) (hclear : P clearReturn) (base : Nat) :
    P (finish base) := by
  refine hP.bind hclear fun _ => hP.bind (hP.small local_get) fun vm => ?_
  dsimp only
  split
  · exact hP.small (local_pure _)
  · split
    · exact hP.small ((local_onFrame _).bind fun _ => local_pure _)
    · exact hP.small (local_pure _)

theorem Compositional.unlessReturning (hP : Compositional P) (hclear : P clearReturn) (base : Nat)
    {x : Exec Unit} (hx : P x) : P (unlessReturning base x) := by
  refine hP.bind (hP.small local_get) fun vm => ?_
  split
  · exact hP.finish hclear base
  · exact hP.bind hx fun _ => hP.small (local_pure _)

variable {K : Effect} {prepare : ClassId → Exec Unit}

theorem has_selectMethod (hK : K.Steady) (hsites : ∀ vm sites, K vm none { vm with sites })
    (m : Method) (v : Value) : Has K (selectMethod m v) :=
  (compositional_has hK).selectMethod (fun _ _ vm => hsites vm _) m v

theorem has_perform (hK : K.Steady) (hraise : ∀ vm r, K vm (some (.thrown r)) vm)
    (hprepare : ∀ id, Has K (prepare id)) {op : Operation} (hop : op.isReturn = false)
    (hselect : selectionUse? op ≠ none → ∀ m v, Has K (selectMethod m v)) :
    Has K (perform prepare op) :=
  (compositional_has hK).perform (fun r vm => hraise vm r) hprepare hop hselect

end Exec

end ClassEngine.Machine
