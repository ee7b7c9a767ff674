import ClassEngine.Proofs.Machine.Advancing
import ClassEngine.Proofs.Machine.HeapLaw

/-!
# The values of a frame

Work on a frame makes numbers and null, and copies values that the frame has.  So what all
values of the frame have in common, and what is true of values that refer to no object, stays
true of all of them.
-/

namespace ClassEngine.Machine

/-- What the operand stack and the variables of a frame have in common. -/
def Frame.Holds (P : Value → Prop) (f : Frame) : Prop :=
  (∀ v ∈ f.stack, P v) ∧ ∀ v ∈ f.locals, P v

variable {P Q : Value → Prop} {f f' : Frame} {α β : Type}

theorem Frame.Holds.mono (hf : f.Holds P) (h : ∀ v, P v → Q v) : f.Holds Q :=
  ⟨fun v hv => h v (hf.1 v hv), fun v hv => h v (hf.2 v hv)⟩

theorem storeLocal?_holds {locals locals' : Array Value} {slot : Nat} {v : Value}
    (hP : Lenient P) (hlocals : ∀ w ∈ locals, P w) (hv : P v)
    (h : storeLocal? locals slot v = some locals') : ∀ w ∈ locals', P w := by
  have hset := Heap.forall_mem_setIfInBounds hlocals hv slot
  unfold storeLocal? at h
  split at h
  · split at h <;> cases h
    exact Heap.forall_mem_setIfInBounds hset (hP _ inferInstance) _
  · split at h <;> cases h
    exact hset

namespace FrameM

/-- The work leaves no value that is not like the others. -/
class Inert (x : FrameM α) : Prop where
  holds : ∀ {P : Value → Prop} {f : Frame}, Lenient P → f.Holds P → (x.after f).Holds P

/-- Nor does the value that it gives differ from those of the frame. -/
class Gives (x : FrameM Value) : Prop extends Inert x where
  given : ∀ {P : Value → Prop} {f f' : Frame} {v : Value}, f.Holds P → x f = .ok v f' → P v

theorem Inert.of_ok {x : FrameM α} [Atomic x]
    (h : ∀ {P f a f'}, Lenient P → f.Holds P → x f = .ok a f' → f'.Holds P) : Inert x where
  holds hP hf := Atomic.after hf fun _ _ hok => h hP hf hok

theorem Inert.of_same {x : FrameM α} [Atomic x]
    (h : ∀ {f a f'}, x f = .ok a f' → f'.stack = f.stack ∧ f'.locals = f.locals) : Inert x :=
  .of_ok fun _ hf hok => by
    obtain ⟨hstack, hlocals⟩ := h hok
    unfold Frame.Holds
    rw [hstack, hlocals]
    exact hf

instance (a : α) : Inert (pure a : FrameM α) := .of_same (by rintro f _ _ ⟨⟩; exact ⟨rfl, rfl⟩)

instance : Inert (get : FrameM Frame) := .of_same (by rintro f _ _ ⟨⟩; exact ⟨rfl, rfl⟩)

instance (d : String → Nat → Defect) : Inert (defectAt d : FrameM α) := ⟨fun _ hf => hf⟩

instance (e : Fault) : Inert (fault e : FrameM α) := ⟨fun _ hf => hf⟩

instance {x : FrameM α} {g : α → FrameM β} [hx : Inert x] [hg : ∀ a, Inert (g a)] :
    Inert (x >>= g) where
  holds hP hf := after_bind (hx.holds hP hf) fun a _ _ hf₁ => (hg a).holds hP hf₁

instance {c : Prop} [Decidable c] {x y : FrameM α} [hx : Inert x] [hy : Inert y] :
    Inert (if c then x else y) := by
  split
  · exact hx
  · exact hy

theorem Gives.bind {x : FrameM Value} [hx : Gives x] {g : Value → FrameM β}
    (hg : ∀ {P f v}, Lenient P → P v → f.Holds P → ((g v).after f).Holds P) :
    Inert (x >>= g) where
  holds hP hf :=
    after_bind (hx.holds hP hf) fun _ _ hok hf₁ => hg hP (hx.given hf hok) hf₁

/-! ## The operand stack -/

theorem push_holds {v : Value} (hf : f.Holds P) (hv : P v) : ((push v).after f).Holds P :=
  Atomic.after hf fun _ _ h => by
    obtain ⟨-, rfl⟩ := push_eq_ok h
    exact ⟨List.forall_mem_cons.mpr ⟨hv, hf.1⟩, hf.2⟩

instance (v : Value) [hv : v.Harmless] : Inert (push v) where
  holds hP hf := push_holds hf (hP v hv)

instance : Gives pop where
  holds _ hf := Atomic.after hf fun _ _ h => by
    obtain ⟨rest, hstack, rfl⟩ := pop_eq_ok h
    exact ⟨(List.forall_mem_cons.mp (hstack ▸ hf.1)).2, hf.2⟩
  given hf h := by
    obtain ⟨rest, hstack, -⟩ := pop_eq_ok h
    exact (List.forall_mem_cons.mp (hstack ▸ hf.1)).1

instance (depth : Nat) : Gives (peek depth) where
  holds _ hf := Atomic.after hf fun _ _ h => (peek_eq_ok h).2 ▸ hf
  given {_ _ _ v} hf h := hf.1 v (List.mem_of_getElem? (peek_eq_ok h).1)

instance (v : Int32) : Inert (pushInt v) := by
  unfold pushInt
  infer_instance

instance : Inert popInt := by
  unfold popInt
  infer_instance

instance : Inert popLong := by
  unfold popLong
  infer_instance

instance : Inert popFloat := by
  unfold popFloat
  infer_instance

instance : Inert popDouble := by
  unfold popDouble
  infer_instance

instance : Inert popRef := by
  unfold popRef
  infer_instance

instance (count : Nat) : Inert (dropSlots count) :=
  .of_ok fun _ hf h => by
    obtain ⟨n, rfl⟩ := dropSlots_eq_ok h
    exact ⟨fun v hv => hf.1 v (List.mem_of_mem_drop hv), hf.2⟩

theorem forM_push_holds {vs : List Value} (hf : f.Holds P) (hvs : ∀ v ∈ vs, P v) :
    (FrameM.after (vs.forM push) f).Holds P := by
  induction vs generalizing f with
  | nil => exact hf
  | cons v vs ih =>
      obtain ⟨hv, hvs⟩ := List.forall_mem_cons.mp hvs
      exact after_bind (push_holds hf hv) fun _ _ _ hf₁ => ih hf₁ hvs

theorem overwrite_holds {depth : Nat} {vs : List Value} (hf : f.Holds P) (hvs : ∀ v ∈ vs, P v) :
    ((overwrite depth vs).after f).Holds P := by
  refine ⟨fun v hv => ?_, hf.2⟩
  rcases List.mem_append.mp hv with hv | hv
  · rcases List.mem_append.mp hv with hv | hv
    · exact hf.1 v (List.mem_of_mem_take hv)
    · exact hvs v hv
  · exact hf.1 v (List.mem_of_mem_drop hv)

theorem entriesFor_holds {stack : List Value} {slots : Nat} (hf : f.Holds P) :
    ((entriesFor stack slots).after f).Holds P :=
  Atomic.after hf fun _ _ h => (entriesFor_eq_ok h).2 ▸ hf

/-- A copy holds nothing but values of the frame, also while room is made for it. -/
instance (count skip : Nat) : Inert (dup count skip) where
  holds {P f} hP hf := by
    have htop : ∀ n, ∀ v ∈ List.replicate n Value.top, P v := by
      intro n v hv
      rw [(List.mem_replicate.mp hv).2]
      exact hP _ inferInstance
    refine after_bind hf fun _ _ hget _ => ?_
    cases hget
    refine after_bind (entriesFor_holds hf) fun n f₁ _ hf₁ => ?_
    refine after_bind (entriesFor_holds hf₁) fun m f₂ _ hf₂ => ?_
    refine after_bind (forM_push_holds hf₂ (htop n)) fun _ grown _ hgrown => ?_
    refine after_bind hgrown fun _ _ hget _ => ?_
    cases hget
    refine after_bind (overwrite_holds hgrown fun v hv => ?_) fun _ f₃ _ hf₃ => ?_
    · exact hgrown.1 v (List.mem_of_mem_drop (List.mem_of_mem_take hv))
    · exact overwrite_holds hf₃ fun v hv => hf.1 v (List.mem_of_mem_take hv)

instance : Inert swap := by
  refine Gives.bind fun {P f a} hP ha hf => ?_
  refine after_bind (Inert.holds hP hf) fun b f₁ hpop hf₁ => ?_
  have hb := Gives.given hf hpop
  split
  · exact hf₁
  · exact after_bind (push_holds hf₁ ha) fun _ _ _ hf₂ => push_holds hf₂ hb

/-! ## Local variables and the instruction stream -/

instance (slot : Nat) : Gives (getLocal slot) where
  holds _ hf := Atomic.after hf fun _ _ h => (getLocal_eq_ok h).2 ▸ hf
  given {_ _ _ v} hf h := hf.2 v (Array.mem_of_getElem? (getLocal_eq_ok h).1)

theorem setLocal_holds {slot : Nat} {v : Value} (hP : Lenient P) (hf : f.Holds P) (hv : P v) :
    ((setLocal slot v).after f).Holds P :=
  Atomic.after hf fun _ _ h => by
    obtain ⟨locals, hstore, rfl⟩ := setLocal_eq_ok h
    exact ⟨hf.1, storeLocal?_holds hP hf.2 hv hstore⟩

instance (slot : Nat) (v : Value) [hv : v.Harmless] : Inert (setLocal slot v) where
  holds hP hf := setLocal_holds hP hf (hP v hv)

instance (slot : Nat) : Inert (loadFrom slot) :=
  Gives.bind fun _ hv hf => push_holds hf hv

instance (slot : Nat) : Inert (storeTo slot) :=
  Gives.bind fun hP hv hf => setLocal_holds hP hf hv

instance (width : Nat) (value? : Array UInt8 → Nat → Option α) : Inert (fetch width value?) := by
  refine .of_same fun h => ?_
  obtain ⟨-, rfl⟩ := fetch_eq_ok h
  exact ⟨rfl, rfl⟩

instance : Inert u8 := by
  unfold u8
  infer_instance

instance : Inert u16 := by
  unfold u16
  infer_instance

instance : Inert i8 := by
  unfold i8
  infer_instance

instance : Inert i16 := by
  unfold i16
  infer_instance

instance : Inert i32 := by
  unfold i32
  infer_instance

instance (count : Nat) : Inert (need count) := by
  unfold need
  infer_instance

theorem inert_place (g : Frame → Nat) :
    Inert (modify fun f => { f with pc := g f } : FrameM PUnit) :=
  .of_same (by rintro f _ _ ⟨⟩; exact ⟨rfl, rfl⟩)

instance : Inert align := inert_place _

instance (count : Nat) : Inert (skip count) := inert_place _

instance : Inert beginInstruction := ⟨fun _ hf => hf⟩

instance (offset : Int) : Inert (branch offset) := by
  refine .of_same fun h => ?_
  obtain ⟨-, -, rfl⟩ := branch_eq_ok h
  exact ⟨rfl, rfl⟩

/-! ## Instructions -/

instance (part : Code.Division) : Inert (divideInts part) := by
  have hpart (a b : Int32) : Inert (match intDivide? part a b with
      | some r => pushInt r
      | none => fault .divisionByZero) := by
    cases intDivide? part a b <;> infer_instance
  unfold divideInts
  infer_instance

instance (part : Code.Division) : Inert (divideLongs part) := by
  have hpart (a b : Int64) : Inert (match longDivide? part a b with
      | some r => push (.long r)
      | none => fault .divisionByZero) := by
    cases longDivide? part a b <;> infer_instance
  unfold divideLongs
  infer_instance

instance (slot : Nat) (delta : FrameM Int32) [Inert delta] : Inert (increment slot delta) := by
  unfold increment
  infer_instance

instance (op : Code.DataOp) : Inert (data op) := by
  cases op <;> simp only [data, intOp, longOp, floatOp, doubleOp] <;> infer_instance

instance (key : Int32) : Inert (tableSwitch key) := by
  unfold tableSwitch
  infer_instance

instance (key : Int32) : Inert (lookupSwitch key) := by
  unfold lookupSwitch
  infer_instance

instance (offset : Int16) (condition : Bool) : Inert (branchIf offset condition) := by
  unfold branchIf
  infer_instance

instance (offset : Int) : Inert (callSubroutine offset) := by
  unfold callSubroutine
  infer_instance

instance (slot : Nat) : Inert (leaveSubroutine slot) := by
  have hleave (v : Value) : Inert (match v with
      | .returnAddress pc => modify fun f => { f with pc := pc.toNat }
      | v => defectAt (.notAReturnAddress v.kind) : FrameM Unit) := by
    cases v with
    | returnAddress pc => exact inert_place _
    | _ => infer_instance
  unfold leaveSubroutine
  infer_instance

instance (op : Code.JumpOp) : Inert (jump op) := by
  cases op <;> simp only [jump] <;> infer_instance

instance : Inert widened := by
  have hinner (op : Code.Opcode) (slot : Nat) : Inert (match op.operation? with
      | some (.data .load) => loadFrom slot
      | some (.data .store) => storeTo slot
      | some (.data .increment) => increment slot (return (← i16).toInt32)
      | some (.jump .leaveSubroutine) => leaveSubroutine slot
      | _ => defectAt (.wideOpcode op.mnemonic)) := by
    split <;> infer_instance
  unfold widened
  infer_instance

end FrameM

/-! ## Calls -/

theorem bindArguments_holds {m : Method} {body : ClassFile.Body} {args : List Value}
    {locals : Array Value} (hP : Lenient P) (hargs : ∀ v ∈ args, P v)
    (h : bindArguments m body args = .ok locals) : (Frame.enter m body locals).Holds P := by
  obtain ⟨-, -, hplaced⟩ := bindArguments_eq_ok h
  have hunset : ∀ v ∈ Frame.unsetLocals body, P v := by
    intro v hv
    rw [(Array.mem_replicate.mp hv).2]
    exact hP _ inferInstance
  refine ⟨nofun, placeFrom_invariant (I := fun locals => ∀ v ∈ locals, P v) ?_ hplaced hunset⟩
  exact fun hv hlocals hstore => storeLocal?_holds hP hlocals (hargs _ hv) hstore

theorem takeOperands_holds {m : Method} {body : ClassFile.Body} {locals : Array Value}
    (hP : Lenient P) (hf : f.Holds P) (h : FrameM.takeOperands m body f = .ok locals f') :
    f'.Holds P ∧ (Frame.enter m body locals).Holds P := by
  obtain ⟨args, rest, -, hstack, rfl, hbound⟩ := FrameM.takeOperands_eq_ok h
  obtain ⟨hargs, hrest⟩ := List.forall_mem_append.mp (hstack ▸ hf.1)
  exact ⟨⟨hrest, hf.2⟩,
    bindArguments_holds hP (fun v hv => hargs v (List.mem_reverse.mpr hv)) hbound⟩

end ClassEngine.Machine
