import ClassEngine.Proofs.Machine.Rounds

/-!
# Arguments

A call from the host and a call instruction both put the operands of a method into the first
local variables of its frame.  Which operands a method accepts depends on the kinds of values
only, and the types of the parameters count as many variables as the values then take; so once
the kinds and the number of variables are right, every operand has its place.
-/

namespace ClassEngine.Machine

open ClassFile (Body FieldType)

/-! ## The variables that values take -/

def Value.slots (v : Value) : List Value := if v.isWide then [v, .top] else [v]

def totalWidth : List Value → Nat
  | [] => 0
  | v :: vs => v.slots.length + totalWidth vs

theorem totalWidth_cons (v : Value) (vs : List Value) :
    totalWidth (v :: vs) = v.slots.length + totalWidth vs := rfl

theorem length_flatMap_slots (vs : List Value) :
    (vs.flatMap Value.slots).length = totalWidth vs := by
  induction vs with
  | nil => rfl
  | cons v vs ih => rw [List.flatMap_cons, List.length_append, ih, totalWidth_cons]

theorem length_slots (v : Value) : v.slots.length = if v.isWide then 2 else 1 := by
  unfold Value.slots
  split <;> rfl

theorem length_slots_of_kind {v : Value} {p : FieldType} (h : v.kind = kindOf p) :
    v.slots.length = p.slots := by
  cases p with
  | base b => cases b <;> cases v <;> first | rfl | cases h
  | object _ | array _ => cases v <;> first | rfl | cases h

/-! ## The layout of the local variables -/

/-- The local variables of a new frame: those of the operands, and then unset ones. -/
def layoutOf (body : Body) (args : List Value) : Array Value :=
  (args.flatMap Value.slots ++
    List.replicate (body.maxLocals.toNat - totalWidth args) Value.top).toArray

theorem storeLocal?_append (before : List Value) (v : Value) (n : Nat) :
    storeLocal? (before ++ List.replicate (v.slots.length + n) Value.top).toArray before.length v =
      some (before ++ v.slots ++ List.replicate n Value.top).toArray := by
  unfold storeLocal? Value.slots
  cases v.isWide with
  | true => simp [Nat.add_comm 2 n, List.replicate_succ]
  | false => simp [Nat.add_comm 1 n, List.replicate_succ]

theorem placeFrom_append (args before : List Value) (n : Nat) :
    placeFrom before.length
        (before ++ List.replicate (totalWidth args + n) Value.top).toArray args =
      some (before ++ args.flatMap Value.slots ++ List.replicate n Value.top).toArray := by
  induction args generalizing before with
  | nil => simp [placeFrom, totalWidth]
  | cons v rest ih =>
      have hstore := storeLocal?_append before v (totalWidth rest + n)
      rw [← Nat.add_assoc, ← totalWidth_cons] at hstore
      have hnext := ih (before ++ v.slots)
      rw [List.length_append, length_slots] at hnext
      simp only [placeFrom, hstore]
      rw [hnext, List.flatMap_cons, List.append_assoc before]

theorem placeFrom_unsetLocals {body : Body} {args : List Value}
    (hfits : totalWidth args ≤ body.maxLocals.toNat) :
    placeFrom 0 (Frame.unsetLocals body) args = some (layoutOf body args) := by
  have hplace := placeFrom_append args [] (body.maxLocals.toNat - totalWidth args)
  rw [List.nil_append, Nat.add_sub_cancel' hfits, List.toArray_replicate] at hplace
  exact hplace

/-- Each operand is behind those before it; the second variable of a wide one and those after the
last are unset. -/
structure Places (body : Body) (args : List Value) (locals : Array Value) : Prop where
  size : locals.size = body.maxLocals.toNat
  operand : ∀ (i : Nat) (v : Value), args[i]? = some v →
    locals[totalWidth (args.take i)]? = some v
  second : ∀ (i : Nat) (v : Value), args[i]? = some v → v.isWide = true →
    locals[totalWidth (args.take i) + 1]? = some .top
  unset : ∀ slot, totalWidth args ≤ slot → slot < locals.size → locals[slot]? = some .top

theorem getElem?_layoutOf (body : Body) {args : List Value} {i : Nat} {v : Value}
    (h : args[i]? = some v) : ∃ rest, ∀ k,
      (layoutOf body args)[totalWidth (args.take i) + k]? = (v.slots ++ rest)[k]? := by
  obtain ⟨hi, hv⟩ := List.getElem?_eq_some_iff.mp h
  have hsplit : args = args.take i ++ v :: args.drop (i + 1) := by
    rw [← hv, ← List.drop_eq_getElem_cons hi, List.take_append_drop]
  refine ⟨(args.drop (i + 1)).flatMap Value.slots ++
    List.replicate (body.maxLocals.toNat - totalWidth args) Value.top, fun k => ?_⟩
  have hslots : args.flatMap Value.slots =
      (args.take i).flatMap Value.slots ++
        (v.slots ++ (args.drop (i + 1)).flatMap Value.slots) := by
    rw [← List.flatMap_cons, ← List.flatMap_append, ← hsplit]
  rw [layoutOf, List.getElem?_toArray, hslots, List.append_assoc, List.append_assoc,
    ← length_flatMap_slots (args.take i), List.getElem?_append_right (Nat.le_add_right _ _),
    Nat.add_sub_cancel_left]

theorem places_layoutOf {body : Body} {args : List Value}
    (hfits : totalWidth args ≤ body.maxLocals.toNat) : Places body args (layoutOf body args) where
  size := by
    simp only [layoutOf, List.size_toArray, List.length_append, List.length_replicate,
      length_flatMap_slots]
    exact Nat.add_sub_cancel' hfits
  operand i v h := by
    obtain ⟨rest, hrest⟩ := getElem?_layoutOf body h
    rw [← Nat.add_zero (totalWidth _), hrest 0]
    unfold Value.slots
    split <;> rfl
  second i v h hwide := by
    obtain ⟨rest, hrest⟩ := getElem?_layoutOf body h
    rw [hrest 1, Value.slots, if_pos hwide]
    rfl
  unset slot hslot hsize := by
    have hlength := length_flatMap_slots args
    simp only [layoutOf, List.size_toArray, List.length_append, List.length_replicate,
      hlength] at hsize
    rw [layoutOf, List.getElem?_toArray, List.getElem?_append_right (hlength.symm ▸ hslot),
      List.getElem?_replicate, if_pos (by omega)]

/-! ## Binding -/

/-- The kinds of the operands of a method, the receiver first. -/
def Method.operandKinds (m : Method) : List Kind :=
  (if m.isStatic then [] else [.ref]) ++ m.signature.params.map kindOf

section

variable {m : Method} {body : Body} {args : List Value} {locals : Array Value}

theorem mismatch?_eq_none_iff {method : String} {index : Nat} {vs : List Value}
    {ps : List FieldType} (hlength : vs.length = ps.length) :
    mismatch? method index vs ps = none ↔ vs.map Value.kind = ps.map kindOf := by
  induction vs generalizing index ps with
  | nil =>
      cases ps with
      | nil => simp [mismatch?]
      | cons p ps => cases hlength
  | cons v vs ih =>
      cases ps with
      | nil => cases hlength
      | cons p ps =>
          have hrest : mismatch? method (index + 1) vs ps = none ↔
              vs.map Value.kind = ps.map kindOf := ih (Nat.succ.inj hlength)
          rw [mismatch?, List.map_cons, List.map_cons, List.cons.injEq, ← hrest]
          split
          · rename_i hkind
            exact (and_iff_right hkind).symm
          · rename_i hkind
            exact iff_of_false (Option.some_ne_none _) fun h => hkind h.1

theorem matches_iff (harity : args.length = m.arity) :
    (receiverMismatch? m args = none ∧
        mismatch? m.render 0 (if m.isStatic then args else args.drop 1) m.signature.params =
          none) ↔
      args.map Value.kind = m.operandKinds := by
  unfold Method.arity at harity
  unfold Method.operandKinds
  cases hstatic : m.isStatic with
  | true =>
      rw [hstatic, if_pos rfl, Nat.add_zero] at harity
      have hreceiver : receiverMismatch? m args = none := by
        cases args <;> simp [receiverMismatch?, hstatic]
      rw [if_pos rfl, if_pos rfl, List.nil_append, mismatch?_eq_none_iff harity]
      exact and_iff_right hreceiver
  | false =>
      rw [hstatic, if_neg Bool.false_ne_true] at harity
      cases args with
      | nil => simp at harity
      | cons receiver rest =>
          rw [if_neg Bool.false_ne_true, if_neg Bool.false_ne_true, List.drop_one, List.tail_cons,
            mismatch?_eq_none_iff (Nat.succ.inj harity), List.map_cons, List.singleton_append,
            List.cons.injEq]
          simp [receiverMismatch?, hstatic]

theorem totalWidth_of_kinds {vs : List Value} {ps : List FieldType}
    (h : vs.map Value.kind = ps.map kindOf) :
    totalWidth vs = ps.foldr (fun type slots => type.slots + slots) 0 := by
  induction vs generalizing ps with
  | nil =>
      cases ps with
      | nil => rfl
      | cons p ps => cases h
  | cons v vs ih =>
      cases ps with
      | nil => cases h
      | cons p ps =>
          obtain ⟨hkind, hrest⟩ := List.cons.inj h
          rw [totalWidth_cons, length_slots_of_kind hkind, ih hrest, List.foldr_cons]

theorem totalWidth_eq_argSlots (h : args.map Value.kind = m.operandKinds) :
    totalWidth args = m.argSlots := by
  unfold Method.operandKinds at h
  unfold Method.argSlots ClassFile.MethodDescriptor.argSlots
  cases hstatic : m.isStatic with
  | true =>
      rw [hstatic, if_pos rfl, List.nil_append] at h
      exact totalWidth_of_kinds h
  | false =>
      rw [hstatic, if_neg Bool.false_ne_true, List.singleton_append] at h
      cases args with
      | nil => cases h
      | cons receiver rest =>
          obtain ⟨hreceiver, hrest⟩ := List.cons.inj h
          have hone : receiver.slots.length = 1 := by
            cases receiver <;> first | rfl | cases hreceiver
          rw [totalWidth_cons, hone, totalWidth_of_kinds hrest, if_neg Bool.false_ne_true,
            Nat.add_comm]

theorem bindArguments_of_kinds (harity : args.length = m.arity)
    (hkinds : args.map Value.kind = m.operandKinds) :
    bindArguments m body args =
      if body.maxLocals.toNat < m.argSlots then
        .error (.argumentSlots m.render body.maxLocals.toNat m.argSlots)
      else .ok (layoutOf body args) := by
  have hsize : (Frame.unsetLocals body).size = body.maxLocals.toNat := Array.size_replicate
  obtain ⟨hreceiver, hmismatch⟩ := (matches_iff harity).mpr hkinds
  simp only [bindArguments, hreceiver, hmismatch, hsize]
  split
  · rfl
  · rename_i hfits
    rw [placeFrom_unsetLocals (totalWidth_eq_argSlots hkinds ▸ Nat.le_of_not_lt hfits)]

theorem kinds_of_bindArguments (harity : args.length = m.arity)
    (h : bindArguments m body args = .ok locals) : args.map Value.kind = m.operandKinds := by
  obtain ⟨hreceiver, hmismatch, -⟩ := bindArguments_eq_ok h
  exact (matches_iff harity).mp ⟨hreceiver, hmismatch⟩

/-- Operands are bound exactly if their kinds are right and there are variables for them, and then
every one has its place. -/
theorem bindArguments_eq_ok_iff (harity : args.length = m.arity) :
    bindArguments m body args = .ok locals ↔
      args.map Value.kind = m.operandKinds ∧ m.argSlots ≤ body.maxLocals.toNat ∧
        locals = layoutOf body args := by
  constructor
  · intro h
    have hkinds := kinds_of_bindArguments harity h
    rw [bindArguments_of_kinds harity hkinds] at h
    split at h
    · cases h
    · exact ⟨hkinds, Nat.le_of_not_lt ‹_›, (Except.ok.inj h).symm⟩
  · rintro ⟨hkinds, hfits, rfl⟩
    rw [bindArguments_of_kinds harity hkinds, if_neg (Nat.not_lt_of_le hfits)]

theorem places_of_bindArguments (harity : args.length = m.arity)
    (h : bindArguments m body args = .ok locals) : Places body args locals := by
  obtain ⟨hkinds, hfits, rfl⟩ := (bindArguments_eq_ok_iff harity).mp h
  exact places_layoutOf (totalWidth_eq_argSlots hkinds ▸ hfits)

/-! ## The two ways in -/

def Vm.entering (vm : Vm) (f : Frame) : Vm :=
  { vm with
    frames := f :: vm.frames
    profiler? := vm.profiler?.map (·.recordInvocation f.method.id f.method.render) }

namespace Exec

variable {vm : Vm} {f : Frame} {below : List Frame} {rest : List Value}

theorem executeBy_eq (run : Nat → Exec Value) (hbody : m.body? = some body)
    (hnative : m.isNative = false) (hdepth : vm.frames.length < vm.maxFrames)
    (harity : args.length = m.arity) :
    executeBy run m args vm =
      match bindArguments m body args with
      | .error d => .error (.fault (.internal d)) vm
      | .ok locals =>
        releaseTraces (noteEnd (run vm.frames.length)) (vm.entering (.enter m body locals)) := by
  unfold executeBy
  simp only [hnative, hbody, harity, ne_eq, not_true_eq_false, if_false, Bool.false_eq_true]
  rw [bind_of_ok (checkDepth_of_lt hdepth)]
  cases bindArguments m body args with
  | error d => rfl
  | ok locals => rfl

end Exec

theorem FrameM.takeOperands_eq {f : Frame} {rest : List Value}
    (hstack : f.stack = args.reverse ++ rest) (harity : args.length = m.arity) :
    takeOperands m body f =
      match bindArguments m body args with
      | .error d => .error (.inr d) f
      | .ok locals => .ok locals { f with stack := rest } := by
  have hlength : args.reverse.length = m.arity := by rw [List.length_reverse, harity]
  have henough : ¬ f.stack.length < m.arity := by
    rw [hstack, List.length_append, hlength]
    omega
  have htake : (f.stack.take m.arity).reverse = args := by
    rw [hstack, ← hlength, List.take_left, List.reverse_reverse]
  have hdrop : f.stack.drop m.arity = rest := by rw [hstack, ← hlength, List.drop_left]
  rw [takeOperands_apply, if_neg henough, htake, hdrop]
  dsimp only
  by_cases hkinds : args.map Value.kind = m.operandKinds
  · obtain ⟨hreceiver, hmismatch⟩ := (matches_iff harity).mpr hkinds
    have hsize : (Frame.enter m body (Frame.unsetLocals body)).locals.size = body.maxLocals.toNat :=
      Array.size_replicate
    rw [hreceiver, hmismatch, bindArguments_of_kinds harity hkinds]
    dsimp only
    by_cases hfew : body.maxLocals.toNat < m.argSlots
    · rw [if_pos hfew, if_pos (hsize ▸ hfew), hsize]
    · have hplaced :=
        placeFrom_unsetLocals (totalWidth_eq_argSlots hkinds ▸ Nat.le_of_not_lt hfew)
      have hstored : storeOperands 0 args (.enter m body (Frame.unsetLocals body)) =
          .ok () (.enter m body (layoutOf body args)) :=
        storeOperands_eq_ok_iff.mpr ⟨_, hplaced, rfl⟩
      rw [if_neg hfew, if_neg (hsize ▸ hfew), hstored]
      rfl
  · have hwrong := mt (matches_iff harity).mp hkinds
    unfold bindArguments
    dsimp only
    generalize receiverMismatch? m args = receiver? at hwrong ⊢
    generalize mismatch? m.render 0 (if m.isStatic then args else args.drop 1)
      m.signature.params = operand? at hwrong ⊢
    cases receiver? with
    | some d => rfl
    | none =>
        cases operand? with
        | some d => rfl
        | none => exact absurd ⟨rfl, rfl⟩ hwrong

namespace Exec

variable {vm : Vm} {f : Frame} {below : List Frame} {rest : List Value}

theorem call_eq (hbody : m.body? = some body) (hnative : m.isNative = false)
    (habstract : m.isAbstract = false) (hdepth : vm.frames.length < vm.maxFrames)
    (hframes : vm.frames = f :: below) :
    call m vm =
      match FrameM.takeOperands m body f with
      | .error e f' => .error (e.elim .fault .defect) { vm with frames := f' :: below }
      | .ok locals f' =>
        .ok () (Vm.entering { vm with frames := f' :: below } (.enter m body locals)) := by
  unfold call
  simp only [hnative, hbody, habstract, if_false, Bool.false_eq_true]
  rw [bind_of_ok (checkDepth_of_lt hdepth), bind_apply]
  simp only [onFrame, hframes]
  cases FrameM.takeOperands m body f with
  | error e f' => cases e <;> rfl
  | ok locals f' => rfl

end Exec

/-- The host and a call instruction bind the same operands to the same local variables, or refuse
them with the same defect.  From the host it ends the request as an internal fault, and the operands
of a call instruction are still on the stack. -/
theorem host_and_guest_bind_alike (run : Nat → Exec Value) {host guest : Vm} {f : Frame}
    {below : List Frame} {rest : List Value} (hbody : m.body? = some body)
    (hnative : m.isNative = false) (habstract : m.isAbstract = false)
    (harity : args.length = m.arity) (hhost : host.frames.length < host.maxFrames)
    (hguest : guest.frames.length < guest.maxFrames) (hframes : guest.frames = f :: below)
    (hstack : f.stack = args.reverse ++ rest) :
    let caller := { f with stack := rest }
    (∀ locals, bindArguments m body args = .ok locals ↔
      FrameM.takeOperands m body f = .ok locals caller) ∧
    (∀ d, bindArguments m body args = .error d ↔
      FrameM.takeOperands m body f = .error (.inr d) f) ∧
    ((∃ locals, bindArguments m body args = .ok locals) ↔
      ∀ d vm, Exec.call m guest ≠ .error (.defect d) vm) ∧
    (∀ locals, bindArguments m body args = .ok locals →
      Places body args locals ∧
      Exec.executeBy run m args host =
        Exec.releaseTraces (Exec.noteEnd (run host.frames.length))
          (host.entering (.enter m body locals)) ∧
      Exec.call m guest = .ok ()
        (Vm.entering { guest with frames := caller :: below } (.enter m body locals))) ∧
    ∀ d, bindArguments m body args = .error d →
      Exec.executeBy run m args host = .error (.fault (.internal d)) host ∧
      Exec.call m guest = .error (.defect d) guest := by
  intro caller
  have htake : FrameM.takeOperands m body f = _ := FrameM.takeOperands_eq hstack harity
  have hcall := Exec.call_eq hbody hnative habstract hguest hframes
  have hexecute := Exec.executeBy_eq run hbody hnative hhost harity
  rw [htake] at hcall
  cases hbind : bindArguments m body args with
  | error d =>
      rw [hbind] at htake hcall hexecute
      dsimp only at hcall
      rw [← hframes] at hcall
      rw [htake]
      refine ⟨fun _ => iff_of_false nofun nofun, fun d' => ?_, ?_, nofun, ?_⟩
      · exact ⟨by rintro ⟨⟩; rfl, by rintro ⟨⟩; rfl⟩
      · exact iff_of_false nofun fun h => h d guest hcall
      · rintro _ ⟨⟩
        exact ⟨hexecute, hcall⟩
  | ok locals =>
      rw [hbind] at htake hcall hexecute
      rw [htake]
      refine ⟨fun locals' => ?_, fun _ => iff_of_false nofun nofun, ?_, ?_, nofun⟩
      · exact ⟨by rintro ⟨⟩; rfl, by rintro ⟨⟩; rfl⟩
      · refine iff_of_true ⟨locals, rfl⟩ fun d vm h => ?_
        rw [hcall] at h
        cases h
      · rintro _ ⟨⟩
        exact ⟨places_of_bindArguments harity hbind, hexecute, hcall⟩

end

/-! ## Operands of both widths -/

namespace MixedWidths

def body : Body := ⟨0, 5, #[0xb1], [], []⟩

def mixed : Method :=
  ⟨⟨0, 0⟩, "A", 0x0021, "mixed", "(JI)V", 0x0001,
    ⟨[.base .long "J", .base .int "I"], none, "(JI)V"⟩, some body⟩

def operands : List Value := [.ref ⟨1⟩, .long 7, .int 3]

def caller : Frame := ⟨mixed, body, #[], [.int 3, .long 7, .ref ⟨1⟩, .int 9], 1, 0⟩

def host : Vm := Vm.start none 0 none

def guest : Vm := { host with frames := [caller] }

theorem bind_alike_mixed :
    bindArguments mixed body operands = .ok #[.ref ⟨1⟩, .long 7, .top, .int 3, .top] ∧
      Places body operands #[.ref ⟨1⟩, .long 7, .top, .int 3, .top] ∧
      FrameM.takeOperands mixed body caller =
        .ok #[.ref ⟨1⟩, .long 7, .top, .int 3, .top] { caller with stack := [.int 9] } ∧
      Exec.call mixed guest = .ok () (Vm.entering
        { guest with frames := [{ caller with stack := [.int 9] }] }
        (.enter mixed body #[.ref ⟨1⟩, .long 7, .top, .int 3, .top])) := by
  have hbind : bindArguments mixed body operands =
      .ok #[.ref ⟨1⟩, .long 7, .top, .int 3, .top] :=
    (bindArguments_eq_ok_iff (by decide)).mpr ⟨by decide, by decide, by decide⟩
  obtain ⟨htake, -, -, hbound, -⟩ := host_and_guest_bind_alike (fun _ => throw .exhausted)
    (rfl : mixed.body? = some body) (by decide) (by decide)
    (by decide : operands.length = mixed.arity) (by decide : host.frames.length < host.maxFrames)
    (by decide) (rfl : guest.frames = [caller]) (rfl : caller.stack = operands.reverse ++ [.int 9])
  obtain ⟨hplaces, -, hcall⟩ := hbound _ hbind
  exact ⟨hbind, hplaces, (htake _).mp hbind, hcall⟩

end MixedWidths

end ClassEngine.Machine
