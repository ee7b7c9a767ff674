import ClassEngine.Proofs.Machine.Activity
import ClassEngine.Proofs.Machine.Arguments
import ClassEngine.Proofs.Machine.Boundaries
import ClassEngine.Proofs.Machine.Overriding

/-!
# The operands of a call

A call instruction takes the operands of the method it refers to from the stack and puts them into
the first variables of the method that is entered.  That one may be another method: it has the same
name and descriptor, so it takes the same operands as long as it is static or not as the first one
is.
-/

namespace ClassEngine.Machine

open Code
open Search (Source)
open ClassFile (Body MethodDescriptor)

/-! ## Methods that take the same operands -/

theorem signature_of_linkMethods {file : ClassFile} {d : Declaration}
    (hmethods : methodTypes file = .ok d.methods) {id : ClassId} {m : Method}
    (hm : m ∈ d.linkMethods id) : MethodDescriptor.parse m.descriptor = .ok m.signature := by
  obtain ⟨i, hi, rfl⟩ := List.mem_mapIdx.mp hm
  obtain ⟨m, -, htypes⟩ :=
    ClassFile.forall₂_exists (ClassFile.forall₂_of_mapM hmethods).flip (List.getElem_mem hi)
  split at htypes
  · rename_i signature hparse
    have hsame := Except.ok.inj htypes
    show MethodDescriptor.parse d.methods[i].1.descriptor = .ok d.methods[i].2
    rw [← hsame]
    exact hparse
  · contradiction

/-- The methods have one name and one descriptor, and both have a receiver or none. -/
structure Method.Agrees (m target : Method) : Prop where
  name : target.name = m.name
  descriptor : target.descriptor = m.descriptor
  signature : target.signature = m.signature
  static : target.isStatic = m.isStatic

namespace Method

variable {m target : Method}

theorem Agrees.refl (m : Method) : m.Agrees m := ⟨rfl, rfl, rfl, rfl⟩

theorem Agrees.arity (h : m.Agrees target) : target.arity = m.arity := by
  unfold Method.arity
  rw [h.signature, h.static]

theorem Agrees.operandKinds (h : m.Agrees target) : target.operandKinds = m.operandKinds := by
  unfold Method.operandKinds
  rw [h.signature, h.static]

theorem isStatic_of_isVirtual (h : m.isVirtual = true) : m.isStatic = false := by
  unfold isVirtual at h
  simp only [Bool.and_eq_true, Bool.not_eq_true'] at h
  exact h.1.1

end Method

namespace Registry

variable {src : Source} {reg : Registry} {m target : Method}

theorem Coherent.parse_of_declares (h : reg.Coherent src) (hm : reg.classes.Declares m) :
    MethodDescriptor.parse m.descriptor = .ok m.signature := by
  obtain ⟨id, c, hc, hm⟩ := hm
  obtain ⟨file, d, -, hmethods, -, hm⟩ := (h.origin hc).linked_of_mem hm
  exact signature_of_linkMethods hmethods hm

theorem Coherent.agrees (h : reg.Coherent src) (hm : reg.classes.Declares m)
    (htarget : reg.classes.Declares target) (hkey : target.hasKey m.name m.descriptor = true)
    (hstatic : target.isStatic = m.isStatic) : m.Agrees target := by
  obtain ⟨hname, hdescriptor⟩ := Method.hasKey_iff.mp hkey
  refine ⟨hname, hdescriptor, ?_, hstatic⟩
  have hparse := h.parse_of_declares htarget
  rw [hdescriptor, h.parse_of_declares hm] at hparse
  exact (Except.ok.inj hparse).symm

theorem Coherent.agrees_of_lookup? (h : reg.Coherent src) {id : ClassId} {c : Class}
    (hc : reg.classes[id]? = some c) (hm : reg.classes.Declares m) (hinstance : m.isStatic = false)
    (htarget : c.vtable.lookup? m.name m.descriptor = some target) : m.Agrees target := by
  obtain ⟨i, -, hslot⟩ := Option.bind_eq_some_iff.mp htarget
  have hdeclared := h.declares_of_table hc (Array.mem_of_getElem? hslot)
  have hvirtual := h.virtual hc m.name m.descriptor target htarget
  refine h.agrees hm hdeclared ((h.indexed hc).hasKey_of_lookup? htarget) ?_
  rw [hinstance, Method.isStatic_of_isVirtual hvirtual]

end Registry

theorem Classes.hasKey_of_findMethod? {cs : Classes} {id : ClassId} {name descriptor : String}
    {m : Method} (h : cs.findMethod? id name descriptor = some m) :
    m.hasKey name descriptor = true := by
  obtain ⟨k, hk⟩ := declared_of_findMethod? h
  obtain ⟨c, -, hm⟩ := Option.bind_eq_some_iff.mp hk
  simpa using List.find?_some hm

/-! ## The operands -/

/-- The operands of `m` are gone from the stack of the frame `f`, which is `caller` now and has kept
everything else, and are the first variables of the frame `callee`. -/
structure Frame.Passes (f : Frame) (m : Method) (caller callee : Frame) (args : List Value) :
    Prop where
  arity : args.length = m.arity
  kinds : args.map Value.kind = m.operandKinds
  taken : f.stack = args.reverse ++ caller.stack
  resumed : ∃ pc, caller = { f with stack := caller.stack, pc, opPc := f.pc }
  placed : Places callee.body args callee.locals

namespace Exec

variable {vm vm' : Vm} {f : Frame} {below : List Frame} {m target : Method} {index : UInt16}

theorem call_ok (hframes : vm.frames = f :: below) (h : call m vm = .ok () vm') :
    ∃ body args rest locals, args.length = m.arity ∧ f.stack = args.reverse ++ rest ∧
      bindArguments m body args = .ok locals ∧
      vm' = { vm with frames := { f with stack := rest } :: below }.entering
        (.enter m body locals) := by
  unfold call at h
  dsimp only at h
  split at h
  · cases h
  · cases hbody : m.body? with
    | none =>
        rw [hbody] at h
        cases h
    | some body =>
        rw [hbody] at h
        dsimp only at h
        split at h
        · cases h
        · obtain ⟨_, vm₁, hdepth, hrest⟩ := bind_eq_ok h
          obtain ⟨rfl, -⟩ := checkDepth_eq_ok hdepth
          obtain ⟨locals, vm₂, htaken, hentered⟩ := bind_eq_ok hrest
          obtain ⟨f', htake, rfl⟩ := onFrame_eq_ok hframes htaken
          obtain ⟨args, rest, harity, hstack, rfl, hbind⟩ := FrameM.takeOperands_eq_ok htake
          cases hentered
          exact ⟨body, args, rest, locals, harity, hstack, hbind, rfl⟩

theorem passes_of_call {pc : Nat} (hframes : vm.frames = { f with pc, opPc := f.pc } :: below)
    (hagrees : m.Agrees target) (h : call target vm = .ok () vm') :
    ∃ caller callee args, vm'.frames = callee :: caller :: below ∧ callee.method = target ∧
      f.Passes m caller callee args := by
  obtain ⟨body, args, rest, locals, harity, htaken, hbind, rfl⟩ := call_ok hframes h
  refine ⟨{ f with stack := rest, pc, opPc := f.pc }, .enter target body locals, args, rfl, rfl, ?_⟩
  exact {
    arity := harity.trans hagrees.arity
    kinds := (kinds_of_bindArguments harity hbind).trans hagrees.operandKinds
    taken := htaken
    resumed := ⟨pc, rfl⟩
    placed := places_of_bindArguments harity hbind }

/-! ## The method that is referred to -/

instance (id : ClassId) (use : PoolUse) : OffFrame (resolveCallee id index use) := by
  cases use <;> unfold resolveCallee <;> infer_instance

instance (id : ClassId) (use : PoolUse) : Quiet (resolveCallee id index use) := by
  cases use <;> unfold resolveCallee <;> infer_instance

theorem declares_of_resolve {id : ClassId} {use : PoolUse} {tags : List ClassFile.Tag}
    (hkept : vm.registry.Declaring)
    (h : resolve id index use (followMethod id index tags) vm = .ok (.method m) vm') :
    vm'.registry.classes.Declares m := by
  rcases resolve_eq_ok h with ⟨s, hs, hkeep, rfl⟩ | ⟨vm₁, hfollow, hclasses, -⟩
  · exact hkept hs hkeep m rfl
  · rw [hclasses]
    exact finds_followMethod id index tags vm _ vm₁ hfollow m rfl

theorem declares_of_resolveMethod {id : ClassId} (hkept : vm.registry.Declaring)
    (h : resolveMethod id index vm = .ok m vm') : vm'.registry.classes.Declares m := by
  obtain ⟨r, vm₁, hr, h⟩ := bind_eq_ok h
  cases r <;> cases h
  exact declares_of_resolve hkept hr

theorem declares_of_resolveInterfaceMethod {id : ClassId} (hkept : vm.registry.Declaring)
    (h : resolveInterfaceMethod id index vm = .ok m vm') : vm'.registry.classes.Declares m := by
  obtain ⟨r, vm₁, hr, h⟩ := bind_eq_ok h
  cases r <;> cases h
  exact declares_of_resolve hkept hr

theorem declares_of_resolveCallee {id : ClassId} {use : PoolUse} (hkept : vm.registry.Declaring)
    (h : resolveCallee id index use vm = .ok m vm') : vm'.registry.classes.Declares m := by
  cases use with
  | interfaceMethod => exact declares_of_resolveInterfaceMethod hkept h
  | classRef | field | method | literal => exact declares_of_resolveMethod hkept h

end Exec

/-- The machine executes the call instruction that the frame `f` was at: the current frame has only
gone on in the code. -/
structure Vm.Invoking (vm : Vm) (f : Frame) (below : List Frame) : Prop where
  sound : vm.Sound
  declaring : vm.registry.Declaring
  current : ∃ pc, vm.frames = { f with pc, opPc := f.pc } :: below

namespace Vm.Invoking

open Exec

variable {vm vm' : Vm} {f : Frame} {below : List Frame} {m target : Method} {index : UInt16}

theorem fetch {α : Type} {width : Nat} {value? : Array UInt8 → Nat → Option α} {v : α}
    (h : vm.Invoking f below) (hok : onFrame (.fetch width value?) vm = .ok v vm') :
    vm'.Invoking f below := by
  have hsound := h.sound.changes ((local_onFrame (.fetch width value?)).ok hok).1
  obtain ⟨pc, hframes⟩ := h.current
  obtain ⟨f', hfetch, rfl⟩ := onFrame_eq_ok hframes hok
  obtain ⟨-, rfl⟩ := FrameM.fetch_eq_ok hfetch
  exact ⟨hsound, h.declaring, pc + width, rfl⟩

theorem class_apply (h : vm.Invoking f below) : currentClass vm = .ok f.method.id.owner vm := by
  obtain ⟨pc, hframes⟩ := h.current
  rw [currentClass_apply hframes]

theorem callee {k : Method → Exec Unit} (h : vm.Invoking f below) (use : PoolUse)
    (hok : (do
      let m ← resolveCallee (← currentClass) index use
      k m) vm = .ok () vm') :
    ∃ m vm₁, resolveCallee f.method.id.owner index use vm = .ok m vm₁ ∧ vm₁.Invoking f below ∧
      vm₁.registry.classes.Declares m ∧ k m vm₁ = .ok () vm' := by
  rw [bind_of_ok h.class_apply] at hok
  obtain ⟨m, vm₁, hresolve, hrest⟩ := bind_eq_ok hok
  have hlocal := (repeatable_resolveCallee f.method.id.owner index use).isLocal
  refine ⟨m, vm₁, hresolve, ?_, declares_of_resolveCallee h.declaring hresolve, hrest⟩
  exact {
    sound := h.sound.changes (hlocal.ok hresolve).1
    declaring := declaring_of_deeds (Quiet.ok hresolve).fineDeeds.deeds h.declaring
    current := OffFrame.ok hresolve ▸ h.current }

theorem calling {use : PoolUse} (h : vm.Invoking f below) (hvm' : vm'.Invoking f below)
    (hcall : callAt? f.body f.pc = some (use, index))
    (hresolve : resolveCallee f.method.id.owner index use vm = .ok m vm') : vm'.Calling m := by
  obtain ⟨pc, hframes⟩ := h.current
  exact calling_of_resolveCallee hvm'.sound hframes hcall hresolve

/-! ## The method that is entered -/

theorem receiver {v : Value} (h : vm.Invoking f below)
    (hok : Exec.receiver m vm = .ok v vm') : vm' = vm := by
  obtain ⟨pc, hframes⟩ := h.current
  obtain ⟨w, vm₁, hfirst, hrest⟩ := bind_eq_ok hok
  obtain ⟨f', hpeek, rfl⟩ := onFrame_eq_ok hframes hfirst
  obtain ⟨-, rfl⟩ := FrameM.peek_eq_ok hpeek
  split at hrest <;> cases hrest
  rw [← hframes]

/-- The search of a superclass may find a static method, which then takes other operands. -/
theorem specialTarget (h : vm.Invoking f below) (hm : vm.registry.classes.Declares m)
    (hinstance : m.isStatic = false) (hok : Exec.specialTarget m vm = .ok target vm') :
    vm' = vm ∧ (target.isStatic = false → m.Agrees target) := by
  unfold Exec.specialTarget at hok
  rw [bind_of_ok h.class_apply] at hok
  obtain ⟨c, vm₁, hc, hsearch⟩ := bind_eq_ok hok
  cases ((reads_classAt _).ok hc).1
  rw [bind_of_ok (get_apply vm)] at hsearch
  split at hsearch
  · cases hfound : c.super?.bind (vm.registry.classes.findMethod? · m.name m.descriptor) with
    | none =>
        rw [hfound] at hsearch
        cases hsearch
    | some found =>
        rw [hfound] at hsearch
        cases hsearch
        obtain ⟨s, -, hfound⟩ := Option.bind_eq_some_iff.mp hfound
        exact ⟨rfl, fun hstatic => h.sound.coherent.agrees hm
          (Classes.declares_of_findMethod? hfound) (Classes.hasKey_of_findMethod? hfound)
          (hstatic.trans hinstance.symm)⟩
  · cases hsearch
    exact ⟨rfl, fun _ => .refl m⟩

theorem dispatch {v : Value} (h : vm.Invoking f below) (hcalling : vm.Calling m)
    (hm : vm.registry.classes.Declares m) (hinstance : m.isStatic = false)
    (hok : Exec.dispatch m v vm = .ok () vm') :
    ∃ target vm₁, m.Agrees target ∧ vm₁.frames = vm.frames ∧ call target vm₁ = .ok () vm' := by
  unfold Exec.dispatch at hok
  split at hok
  · exact ⟨m, vm, .refl m, rfl, hok⟩
  · obtain ⟨target, vm₁, hselect, hcall⟩ := bind_eq_ok hok
    obtain ⟨sites, heq, -⟩ := selectMethod_spec h.sound hcalling v
    rw [heq] at hselect
    obtain ⟨o, c, -, hc, htarget⟩ := found_of_lookUp hselect
    cases ((reads_lookUp m v).ok hselect).1
    exact ⟨target, { vm with sites }, h.sound.coherent.agrees_of_lookup? hc hm hinstance htarget,
      rfl, hcall⟩

end Vm.Invoking

/-! ## Call instructions -/

/-- How a call instruction uses the pool entry that it refers to. -/
def calleeUse : InvokeOp → PoolUse
  | .interface => .interfaceMethod
  | _ => .method

/-- The call instruction that the frame `f` was at refers to `m`, and a method that agrees with `m`
has been entered with the operands of `m`. -/
structure Vm.Entered (vm : Vm) (op : InvokeOp) (f : Frame) (below : List Frame) (index : UInt16)
    (m : Method) (caller callee : Frame) (args : List Value) : Prop where
  entry : BigEndian.read16? f.body.code (f.pc + 1) = some index
  resolved : Exec.resolveCallee f.method.id.owner index (calleeUse op) vm = .ok m vm
  static : m.isStatic = decide (op = .static)
  frames : vm.frames = callee :: caller :: below
  agrees : m.Agrees callee.method
  passes : f.Passes m caller callee args

namespace Exec

variable {vm vm₁ vm₂ vm₃ vm' : Vm} {f : Frame} {below : List Frame} {m target : Method}
  {index : UInt16} {op : InvokeOp} {fuel : Nat}

theorem checkInstanceMethod_ok {u : Unit} (h : checkInstanceMethod m vm = .ok u vm') :
    m.isStatic = false ∧ vm' = vm := by
  unfold checkInstanceMethod at h
  split at h <;> cases h
  exact ⟨Bool.eq_false_iff.mpr ‹_›, rfl⟩

theorem invoking_fetched (hsound : vm.Sound) (hdeclaring : vm.registry.Declaring)
    (hframes : vm.frames = f :: below) : (fetched vm f below).Invoking f below where
  sound := hsound.change (.frame vm f _ below hframes ⟨rfl, rfl⟩)
  declaring := hdeclaring
  current := ⟨f.pc + 1, rfl⟩

theorem index_of_fetch (h : onFrame .u16 (fetched vm f below) = .ok index vm') :
    BigEndian.read16? f.body.code (f.pc + 1) = some index := by
  obtain ⟨f', hfetch, rfl⟩ := onFrame_eq_ok rfl h
  exact (FrameM.fetch_eq_ok hfetch).1

/-- The reference stays resolved while the call goes on, and the call passes the operands. -/
theorem entered_of_call (hentry : BigEndian.read16? f.body.code (f.pc + 1) = some index)
    (hresolve : resolveCallee f.method.id.owner index (calleeUse op) vm₁ = .ok m vm₂)
    (hvm₂ : vm₂.Invoking f below) (hdeeds : Deeds vm₂ vm')
    (hstatic : m.isStatic = decide (op = .static)) (hagrees : m.Agrees target)
    (hframes : vm₃.frames = vm₂.frames) (hcall : call target vm₃ = .ok () vm') :
    ∃ caller callee args, vm'.Entered op f below index m caller callee args := by
  obtain ⟨pc, hframes₂⟩ := hvm₂.current
  obtain ⟨caller, callee, args, hframes', hmethod, hpasses⟩ :=
    passes_of_call (hframes.trans hframes₂) hagrees hcall
  have hrepeat := repeatable_resolveCallee f.method.id.owner index (calleeUse op)
  have hfirst : attempt (resolveCallee f.method.id.owner index (calleeUse op)) vm₁ =
      .ok (.ok m) vm₂ := by rw [attempt_apply, hresolve]
  have hagain := hrepeat.again hvm₂.sound.descends hfirst (grows_of_deeds hdeeds)
  exact ⟨caller, callee, args, hentry, ok_of_attempt hagain, hstatic, hframes',
    hmethod ▸ hagrees, hpasses⟩

theorem entered_of_dispatch {v : Value} (hop : op ≠ .static)
    (hentry : BigEndian.read16? f.body.code (f.pc + 1) = some index)
    (hresolve : resolveCallee f.method.id.owner index (calleeUse op) vm₁ = .ok m vm₂)
    (hvm₂ : vm₂.Invoking f below) (hcalling : vm₂.Calling m)
    (hm : vm₂.registry.classes.Declares m) (hinstance : m.isStatic = false)
    (h : dispatch m v vm₂ = .ok () vm') :
    ∃ caller callee args, vm'.Entered op f below index m caller callee args := by
  obtain ⟨target, vm₃, hagrees, hframes, hcall⟩ := hvm₂.dispatch hcalling hm hinstance h
  have hstatic : m.isStatic = decide (op = .static) := by
    rw [hinstance, decide_eq_false hop]
  exact entered_of_call hentry hresolve hvm₂ (Quiet.ok h).fineDeeds.deeds hstatic hagrees hframes
    hcall

section

variable (hinvoking : (fetched vm f below).Invoking f below)

include hinvoking

theorem invokeStatic_ok (h : invoke (initializeBy (run fuel)) .static (fetched vm f below) =
    .ok () vm') :
    ∃ index m caller callee args, vm'.Entered .static f below index m caller callee args := by
  have hprepare (id : ClassId) : Storing (fun _ => True) (initializeBy (run fuel) id) :=
    storing_initializeBy id
  obtain ⟨index, vm₁, hfetch, h₁⟩ := bind_eq_ok h
  obtain ⟨m, vm₂, hresolve, hvm₂, -, h₂⟩ := (hinvoking.fetch hfetch).callee .method h₁
  have hrest : Storing (fun _ => True) (do
      if !m.isStatic then fault (.incompatible (m.render ++ " is not static"))
      initializeBy (run fuel) m.id.owner
      call m) := inferInstance
  have hdeeds := (hrest.fineDeeds vm₂).deeds
  rw [after_ok h₂] at hdeeds
  dsimp only at h₂
  split at h₂
  · cases h₂
  · rename_i hstatic
    obtain ⟨_, vm₃, hprepared, hcall⟩ := bind_eq_ok h₂
    exact ⟨index, m, entered_of_call (index_of_fetch hfetch) hresolve hvm₂ hdeeds
      (by simpa using hstatic) (.refl m) (frames_of_initializeBy hprepared) hcall⟩

theorem invokeSpecial_ok {prepare : ClassId → Exec Unit}
    (hspecial : ∀ callee ∈ vm'.frames.head?, callee.method.isStatic = false)
    (h : invoke prepare .special (fetched vm f below) = .ok () vm') :
    ∃ index m caller callee args, vm'.Entered .special f below index m caller callee args := by
  obtain ⟨index, vm₁, hfetch, h₁⟩ := bind_eq_ok h
  obtain ⟨m, vm₂, hresolve, hvm₂, hm, h₂⟩ := (hinvoking.fetch hfetch).callee .method h₁
  obtain ⟨_, vm₃, hcheck, h₃⟩ := bind_eq_ok h₂
  obtain ⟨hinstance, rfl⟩ := checkInstanceMethod_ok hcheck
  obtain ⟨target, vm₄, htarget, h₄⟩ := bind_eq_ok h₃
  obtain ⟨rfl, hagrees⟩ := hvm₂.specialTarget hm hinstance htarget
  obtain ⟨v, vm₅, hreceiver, hcall⟩ := bind_eq_ok h₄
  obtain rfl := hvm₂.receiver hreceiver
  obtain ⟨pc, hframes⟩ := hvm₂.current
  obtain ⟨_, callee, _, hframes', hmethod, -⟩ := passes_of_call hframes (.refl target) hcall
  have hstatic : target.isStatic = false := by
    rw [← hmethod]
    exact hspecial callee (by simp [hframes'])
  exact ⟨index, m, entered_of_call (index_of_fetch hfetch) hresolve hvm₂
    (Quiet.ok hcall).fineDeeds.deeds hinstance (hagrees hstatic) rfl hcall⟩

theorem invokeVirtual_ok {prepare : ClassId → Exec Unit} {byte : UInt8}
    (hbyte : f.body.code[f.pc]? = some byte)
    (hop : (⟨byte⟩ : Opcode).operation? = some (.invoke .virtual))
    (h : invoke prepare .virtual (fetched vm f below) = .ok () vm') :
    ∃ index m caller callee args, vm'.Entered .virtual f below index m caller callee args := by
  obtain ⟨index, vm₁, hfetch, h₁⟩ := bind_eq_ok h
  have hentry := index_of_fetch hfetch
  have hvm₁ := hinvoking.fetch hfetch
  obtain ⟨m, vm₂, hresolve, hvm₂, hm, h₂⟩ := hvm₁.callee .method h₁
  have hcalling : vm₂.Calling m := hvm₁.calling hvm₂
    (by simp [callAt?, hbyte, hop, hentry, selectionUse?]) hresolve
  obtain ⟨_, vm₃, hcheck, h₃⟩ := bind_eq_ok h₂
  obtain ⟨hinstance, rfl⟩ := checkInstanceMethod_ok hcheck
  obtain ⟨v, vm₄, hreceiver, hdispatch⟩ := bind_eq_ok h₃
  obtain rfl := hvm₂.receiver hreceiver
  exact ⟨index, m,
    entered_of_dispatch (by decide) hentry hresolve hvm₂ hcalling hm hinstance hdispatch⟩

theorem invokeInterface_ok {prepare : ClassId → Exec Unit} {byte : UInt8}
    (hbyte : f.body.code[f.pc]? = some byte)
    (hop : (⟨byte⟩ : Opcode).operation? = some (.invoke .interface))
    (h : invoke prepare .interface (fetched vm f below) = .ok () vm') :
    ∃ index m caller callee args, vm'.Entered .interface f below index m caller callee args := by
  obtain ⟨index, vm₁, hfetch, h₁⟩ := bind_eq_ok h
  have hentry := index_of_fetch hfetch
  obtain ⟨_, vm₂, hcount, h₂⟩ := bind_eq_ok h₁
  obtain ⟨_, vm₃, hzero, h₃⟩ := bind_eq_ok h₂
  have hvm₃ := ((hinvoking.fetch hfetch).fetch hcount).fetch hzero
  obtain ⟨m, vm₄, hresolve, hvm₄, hm, h₄⟩ := hvm₃.callee .interfaceMethod h₃
  have hcalling : vm₄.Calling m := hvm₃.calling hvm₄
    (by simp [callAt?, hbyte, hop, hentry, selectionUse?]) hresolve
  obtain ⟨_, vm₅, hcheck, h₅⟩ := bind_eq_ok h₄
  obtain ⟨hinstance, rfl⟩ := checkInstanceMethod_ok hcheck
  obtain ⟨v, vm₆, hreceiver, h₆⟩ := bind_eq_ok h₅
  obtain rfl := hvm₄.receiver hreceiver
  obtain ⟨rc, vm₇, hclass, h₇⟩ := bind_eq_ok h₆
  obtain rfl := ((reads_classOfObject _).ok hclass).1
  rw [bind_of_ok (get_apply _)] at h₇
  split at h₇
  · exact ⟨index, m,
      entered_of_dispatch (by decide) hentry hresolve hvm₄ hcalling hm hinstance h₇⟩
  · obtain ⟨_, _, -, h₈⟩ := bind_eq_ok h₇
    cases h₈

theorem invoke_ok {byte : UInt8} (hbyte : f.body.code[f.pc]? = some byte)
    (hop : (⟨byte⟩ : Opcode).operation? = some (.invoke op))
    (hspecial : op = .special → ∀ callee ∈ vm'.frames.head?, callee.method.isStatic = false)
    (h : invoke (initializeBy (run fuel)) op (fetched vm f below) = .ok () vm') :
    ∃ index m caller callee args, vm'.Entered op f below index m caller callee args := by
  cases op with
  | static => exact invokeStatic_ok hinvoking h
  | special => exact invokeSpecial_ok hinvoking (hspecial rfl) h
  | virtual => exact invokeVirtual_ok hinvoking hbyte hop h
  | interface => exact invokeInterface_ok hinvoking hbyte hop h
  | dynamic =>
      obtain ⟨_, _, -, h⟩ := bind_eq_ok h
      cases h

end

end Exec

/-- A call instruction that enters a frame has taken exactly the operands of the method it refers
to from the stack of the caller, and the first variables of the new frame are these operands, the
receiver first.  The method that is entered is the one referred to or one of the same name and
descriptor.  For a direct call this asks that the method entered has a receiver: the search of the
superclass may also find a static one. -/
theorem call_passes_operands {source? : Option Source} {maxFrames : Int}
    {profiler? : Option (Profiler MethodId)} {vm vm' : Vm} {f : Frame} {below : List Frame}
    {byte : UInt8} {op : InvokeOp} {fuel : Nat}
    (hvm : (Vm.start source? maxFrames profiler?).Acts vm) (hframes : vm.frames = f :: below)
    (hbyte : f.body.code[f.pc]? = some byte)
    (hop : (⟨byte⟩ : Opcode).operation? = some (.invoke op))
    (hspecial : op = .special → ∀ callee ∈ vm'.frames.head?, callee.method.isStatic = false)
    (hstep : Exec.step (Exec.initializeBy (Exec.run fuel)) vm = .ok () vm') :
    ∃ index m caller callee args, vm'.Entered op f below index m caller callee args := by
  have hsound := (hvm.reachable (.start source? maxFrames profiler?)).sound
  have hdeclaring := declaring_of_deeds hvm.deeds (Vm.declaring_start source? maxFrames profiler?)
  rw [Exec.step_apply hframes hbyte hop] at hstep
  exact Exec.invoke_ok (Exec.invoking_fetched hsound hdeclaring hframes) hbyte hop hspecial hstep

namespace HiddenMethod

def facingFrame : Frame := ⟨call, callBody, #[.ref ⟨1⟩], [.ref ⟨1⟩], 1, 0⟩

def facing : Vm := { created with frames := [facingFrame] }

def called : Vm :=
  { created with
    frames := [⟨other, ⟨1, 1, #[0x05, 0xac], [], []⟩, #[.ref ⟨1⟩], [], 0, 0⟩,
      { facingFrame with stack := [], pc := 4, opPc := 1 }]
    sites := [(site, ⟨[(1, other)], false, 0, 1⟩)] }

theorem acts_facing : start.Acts facing := by
  have hload : (⟨0x2a⟩ : Opcode).operation? = some (.data (.loadSlot 0)) := by decide +kernel
  have hrun : Exec.run 1 0 entered = .error .exhausted facing :=
    Exec.run_of_perform rfl rfl rfl hload (fun _ => rfl) rfl
  have hexecute : Exec.executeBy (Exec.run 1) call [.ref ⟨1⟩] created =
      Exec.releaseTraces (Exec.noteEnd (Exec.run 1 0)) entered :=
    Exec.executeBy_apply rfl (by decide) (rfl : call.body? = some callBody) (by decide)
      (by decide) (by decide : _ = Except.ok #[Value.ref ⟨1⟩])
  have hcreated : start.Acts created :=
    Vm.Acts.answer (.answer (.answer .refl answer_load) answer_resolve) answer_newObject
  exact hcreated.execute (hexecute.trans (Exec.releaseTraces_of_exhausted hrun rfl))

theorem operation?_virtual : (⟨0xb6⟩ : Opcode).operation? = some (.invoke .virtual) := by
  decide +kernel

theorem step_called :
    Exec.step (Exec.initializeBy (Exec.run 0)) facing = .ok () called := by
  rw [Exec.step_apply rfl rfl operation?_virtual]
  rfl

/-- The method entered is not the one referred to, and takes its operand. -/
theorem call_passes_receiver :
    start.Acts facing ∧
      Exec.step (Exec.initializeBy (Exec.run 0)) facing = .ok () called ∧
      ∃ index m caller callee args, called.Entered .virtual facingFrame [] index m caller callee
        args :=
  ⟨acts_facing, step_called,
    call_passes_operands acts_facing rfl rfl operation?_virtual nofun step_called⟩

end HiddenMethod

namespace StaticNamesake

open HiddenMethod (methodOf root rootFile withRoot)

def superFile : List UInt8 := [
  0xca, 0xfe, 0xba, 0xbe, 0x00, 0x00, 0x00, 0x34, 0x00, 0x08, 0x01, 0x00, 0x01, 0x42, 0x07, 0x00,
  0x01, 0x01, 0x00, 0x10, 0x6a, 0x61, 0x76, 0x61, 0x2f, 0x6c, 0x61, 0x6e, 0x67, 0x2f, 0x4f, 0x62,
  0x6a, 0x65, 0x63, 0x74, 0x07, 0x00, 0x03, 0x01, 0x00, 0x06, 0x68, 0x69, 0x64, 0x64, 0x65, 0x6e,
  0x01, 0x00, 0x03, 0x28, 0x29, 0x49, 0x01, 0x00, 0x04, 0x43, 0x6f, 0x64, 0x65, 0x00, 0x21, 0x00,
  0x02, 0x00, 0x04, 0x00, 0x00, 0x00, 0x00, 0x00, 0x01, 0x00, 0x08, 0x00, 0x05, 0x00, 0x06, 0x00,
  0x01, 0x00, 0x07, 0x00, 0x00, 0x00, 0x0e, 0x00, 0x01, 0x00, 0x01, 0x00, 0x00, 0x00, 0x02, 0x05,
  0xac, 0x00, 0x00, 0x00, 0x00, 0x00, 0x00]

def callerFile : List UInt8 := [
  0xca, 0xfe, 0xba, 0xbe, 0x00, 0x00, 0x00, 0x34, 0x00, 0x0e, 0x01, 0x00, 0x01, 0x43, 0x07, 0x00,
  0x01, 0x01, 0x00, 0x01, 0x42, 0x07, 0x00, 0x03, 0x01, 0x00, 0x10, 0x6a, 0x61, 0x76, 0x61, 0x2f,
  0x6c, 0x61, 0x6e, 0x67, 0x2f, 0x4f, 0x62, 0x6a, 0x65, 0x63, 0x74, 0x07, 0x00, 0x05, 0x01, 0x00,
  0x06, 0x68, 0x69, 0x64, 0x64, 0x65, 0x6e, 0x01, 0x00, 0x03, 0x28, 0x29, 0x49, 0x0c, 0x00, 0x07,
  0x00, 0x08, 0x0a, 0x00, 0x06, 0x00, 0x09, 0x01, 0x00, 0x04, 0x63, 0x61, 0x6c, 0x6c, 0x01, 0x00,
  0x06, 0x28, 0x4c, 0x43, 0x3b, 0x29, 0x49, 0x01, 0x00, 0x04, 0x43, 0x6f, 0x64, 0x65, 0x00, 0x21,
  0x00, 0x02, 0x00, 0x04, 0x00, 0x00, 0x00, 0x00, 0x00, 0x01, 0x00, 0x09, 0x00, 0x0b, 0x00, 0x0c,
  0x00, 0x01, 0x00, 0x0d, 0x00, 0x00, 0x00, 0x11, 0x00, 0x01, 0x00, 0x01, 0x00, 0x00, 0x00, 0x05,
  0x2a, 0xb7, 0x00, 0x0a, 0xac, 0x00, 0x00, 0x00, 0x00, 0x00, 0x00]

def files : Search.Memory :=
  ⟨[(ClassFile.rootClassName, .ok rootFile), ("B", .ok superFile), ("C", .ok callerFile)]⟩

def start : Vm := Vm.start (some files.source) 0 none

def namesakeBody : ClassFile.Body := ⟨1, 1, #[0x05, 0xac], [], []⟩

def namesake : Method := methodOf 1 0 "B" "hidden" "()I" 8 [] namesakeBody

def callBody : ClassFile.Body := ⟨1, 1, #[0x2a, 0xb7, 0x00, 0x0a, 0xac], [], []⟩

def call : Method := methodOf 2 0 "C" "call" "(LC;)I" 9 [.object "C" "LC;"] callBody

def superclass : Class where
  name := "B"
  flags := 0x0021
  super? := some 0
  interfaces := []
  sourceFile := ""
  fields := []
  methods := [namesake]
  vtable := ⟨#[HiddenMethod.hidden], [(⟨"hidden", "()I"⟩, 0)]⟩
  layout := #[]
  pool := ⟨#[none, some (.utf8 "B"), some (.classRef 1), some (.utf8 ClassFile.rootClassName),
    some (.classRef 3), some (.utf8 "hidden"), some (.utf8 "()I"), some (.utf8 "Code")]⟩
  array? := none

def callerClass : Class where
  name := "C"
  flags := 0x0021
  super? := some 1
  interfaces := []
  sourceFile := ""
  fields := []
  methods := [call]
  vtable := ⟨#[HiddenMethod.hidden], [(⟨"hidden", "()I"⟩, 0)]⟩
  layout := #[]
  pool := ⟨#[none, some (.utf8 "C"), some (.classRef 1), some (.utf8 "B"), some (.classRef 3),
    some (.utf8 ClassFile.rootClassName), some (.classRef 5), some (.utf8 "hidden"),
    some (.utf8 "()I"), some (.nameAndType 7 8), some (.member .method 6 9),
    some (.utf8 "call"), some (.utf8 "(LC;)I"), some (.utf8 "Code")]⟩
  array? := none

def withSuper : Registry := (withRoot.add superclass .linked #[]).2

def withCaller : Registry := (withSuper.add callerClass .linked #[]).2

def resolved : Registry :=
  withCaller.modifyStatus 2 fun s =>
    { s with
      resolutions := s.resolutions.setIfInBounds 10
        (some ⟨.method, .ok (.method HiddenMethod.hidden)⟩) }

def loaded : Vm := { start with registry := withCaller }

def linked : Vm := { start with registry := resolved }

def created : Vm := { linked with heap := ⟨#[{ classId := 2 }], []⟩ }

def entered : Vm := { created with frames := [.enter call callBody #[.ref ⟨1⟩]] }

def frame : Frame := ⟨call, callBody, #[.ref ⟨1⟩], [.ref ⟨1⟩], 1, 0⟩

def facing : Vm := { created with frames := [frame] }

def caller : Frame := { frame with pc := 4, opPc := 1 }

/-- The frame of the static method, whose first variable has no value. -/
def callee : Frame := ⟨namesake, namesakeBody, #[.top], [], 0, 0⟩

def called : Vm := { created with frames := [callee, caller] }

theorem load_super : load start.source ["C"] "B" {} = (.ok 1, withSuper) := by
  have hroot : load start.source ["B", "C"] ClassFile.rootClassName {} = (.ok 0, withRoot) :=
    Registry.load_of_gathered {} root (by with_unfolding_all decide) (by decide) (by decide)
      (by with_unfolding_all decide :
        (requirements start.source ClassFile.rootClassName).toOption = some [])
      rfl (by with_unfolding_all decide)
  have hgather : gather (load start.source ["B", "C"]) "B"
      [⟨.superclass, ClassFile.rootClassName⟩] {} = (.ok [0], withRoot) :=
    Registry.gather_cons hroot (by decide) rfl
  exact Registry.load_of_gathered withRoot superclass (by with_unfolding_all decide) (by decide)
    (by decide +kernel) (by decide +kernel) hgather (by decide +kernel)

theorem load_caller : load start.source [] "C" {} = (.ok 2, withCaller) := by
  have hgather : gather (load start.source ["C"]) "C" [⟨.superclass, "B"⟩] {} =
      (.ok [1], withSuper) :=
    Registry.gather_cons load_super (by decide) rfl
  exact Registry.load_of_gathered withSuper callerClass (by with_unfolding_all decide) (by decide)
    (by decide +kernel) (by decide +kernel) hgather (by decide +kernel)

theorem answer_load : Exec.answer (.request 0 (.load "C")) start = .ok () loaded := by
  have hload : load start.source [] "C" start.registry = (.ok 2, withCaller) := load_caller
  rw [Exec.answer, Exec.serve, Exec.bind_apply, Exec.loadClass_apply, hload]
  rfl

theorem followMethod_hidden :
    Exec.followMethod 2 10 [.methodRef, .interfaceMethodRef] loaded =
      .ok (.method HiddenMethod.hidden) loaded :=
  Exec.followMethod_of_found (rfl : loaded.registry.classes[2]? = some callerClass)
    (rfl : _ = Except.ok HiddenMethod.hiddenRef) (by with_unfolding_all decide)
    (rfl : loaded.registry.classes[0]? = some root) (by decide) (by with_unfolding_all decide)

theorem answer_resolve : Exec.answer (.resolve .method 2 10) loaded = .ok () linked := by
  have hresolve : Exec.resolveMethod 2 10 loaded = .ok HiddenMethod.hidden linked :=
    Exec.resolveMethod_of_followed rfl rfl followMethod_hidden rfl
  rw [Exec.answer, Exec.resolveEntry, Exec.bind_of_ok hresolve]
  rfl

theorem answer_newObject : Exec.answer (.newObject 2) linked = .ok () created := by
  have hclass : linked.registry.classes[2]? = some callerClass := rfl
  have hheap : linked.heap.allocInstance 2 callerClass = (⟨1⟩, created.heap) := by
    with_unfolding_all decide
  rw [Exec.answer, Exec.bind_of_ok (Exec.allocInstance_apply_of_some hclass), hheap]
  rfl

theorem acts_facing : start.Acts facing := by
  have hload : (⟨0x2a⟩ : Opcode).operation? = some (.data (.loadSlot 0)) := by decide +kernel
  have hrun : Exec.run 1 0 entered = .error .exhausted facing :=
    Exec.run_of_perform rfl rfl rfl hload (fun _ => rfl) rfl
  have hexecute : Exec.executeBy (Exec.run 1) call [.ref ⟨1⟩] created =
      Exec.releaseTraces (Exec.noteEnd (Exec.run 1 0)) entered :=
    Exec.executeBy_apply rfl (by decide) (rfl : call.body? = some callBody) (by decide)
      (by decide) (by decide : _ = Except.ok #[Value.ref ⟨1⟩])
  have hcreated : start.Acts created :=
    Vm.Acts.answer (.answer (.answer .refl answer_load) answer_resolve) answer_newObject
  exact hcreated.execute (hexecute.trans (Exec.releaseTraces_of_exhausted hrun rfl))

theorem operation?_special : (⟨0xb7⟩ : Opcode).operation? = some (.invoke .special) := by
  decide +kernel

theorem step_called :
    Exec.step (Exec.initializeBy (Exec.run 0)) facing = .ok () called := by
  rw [Exec.step_apply rfl rfl operation?_special]
  with_unfolding_all rfl

/-- The static method takes nothing from the stack. -/
theorem keeps_receiver :
    start.Acts facing ∧ facing.frames = [frame] ∧ frame.body.code[frame.pc]? = some 0xb7 ∧
      (⟨0xb7⟩ : Opcode).operation? = some (.invoke .special) ∧
      Exec.step (Exec.initializeBy (Exec.run 0)) facing = .ok () called ∧
      called.frames = [callee, caller] ∧
      Exec.resolveCallee frame.method.id.owner 10 .method called = .ok HiddenMethod.hidden called ∧
      HiddenMethod.hidden.operandKinds = [.ref] ∧ caller.stack = frame.stack ∧
      callee.locals = #[.top] ∧
      ¬ ∃ index m caller callee args,
        called.Entered .special frame [] index m caller callee args := by
  have hresolved : Exec.resolveCallee frame.method.id.owner 10 .method called =
      .ok HiddenMethod.hidden called := rfl
  refine ⟨acts_facing, rfl, rfl, operation?_special, step_called, rfl, hresolved, rfl, rfl, rfl, ?_⟩
  rintro ⟨index, m, caller', callee', args, hentered⟩
  have hindex : index = 10 := (Option.some.inj hentered.entry).symm
  subst hindex
  have hm : m = HiddenMethod.hidden := by
    have hsame := hentered.resolved.symm.trans hresolved
    cases hsame
    rfl
  subst hm
  have hframes : [callee, caller] = [callee', caller'] := hentered.frames
  cases hframes
  have hstack : args.length + 1 = 1 := by
    have htaken := congrArg List.length hentered.passes.taken
    simpa [caller, frame] using htaken.symm
  have harity : args.length = 1 := hentered.passes.arity
  omega

end StaticNamesake

end ClassEngine.Machine
