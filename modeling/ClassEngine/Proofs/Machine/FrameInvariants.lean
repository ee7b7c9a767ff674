import ClassEngine.Proofs.Machine.Advancing

/-!
# What work on a frame keeps

Work on a frame may fail half way, and what it has changed by then stays.  A property that each
step keeps, also when it fails, is kept by all work that is made of such steps.
-/

namespace ClassEngine.Machine

open Code

namespace FrameM

variable {α β : Type} {f f' : Frame}

/-- The work keeps the property of the frame, also when it fails. -/
class Keeps (I : Frame → Prop) (x : FrameM α) : Prop where
  keeps : ∀ {f : Frame}, I f → I (after x f)

section

variable {I : Frame → Prop}

theorem Keeps.of_ok {x : FrameM α} [Atomic x]
    (h : ∀ {f a f'}, I f → x f = .ok a f' → I f') : Keeps I x where
  keeps hf := Atomic.after hf fun _ _ => h hf

theorem Keeps.ok {x : FrameM α} [hx : Keeps I x] {a : α} (hf : I f) (h : x f = .ok a f') : I f' :=
  after_ok h ▸ hx.keeps hf

instance (a : α) : Keeps I (pure a : FrameM α) := ⟨id⟩

instance : Keeps I (get : FrameM Frame) := ⟨id⟩

instance (d : String → Nat → Defect) : Keeps I (defectAt d : FrameM α) := ⟨id⟩

instance (e : Fault) : Keeps I (fault e : FrameM α) := ⟨id⟩

instance {x : FrameM α} {g : α → FrameM β} [hx : Keeps I x] [hg : ∀ a, Keeps I (g a)] :
    Keeps I (x >>= g) where
  keeps hf := after_bind (hx.keeps hf) fun a _ _ => (hg a).keeps

instance {c : Prop} [Decidable c] {x y : FrameM α} [hx : Keeps I x] [hy : Keeps I y] :
    Keeps I (if c then x else y) := by
  split
  · exact hx
  · exact hy

instance (count : Nat) : Keeps I (need count) := by
  unfold need
  infer_instance

end

/-- The property is kept by the steps that work on values is made of, but for writes to
variables. -/
class Kept (I : Frame → Prop) : Prop where
  push : ∀ v, Keeps I (push v)
  pop : Keeps I pop
  peek : ∀ depth, Keeps I (peek depth)
  dropSlots : ∀ count, Keeps I (dropSlots count)
  dup : ∀ count skip, Keeps I (dup count skip)
  getLocal : ∀ slot, Keeps I (getLocal slot)
  fetch : ∀ {α : Type} (width : Nat) (value? : Array UInt8 → Nat → Option α) [Within width value?],
    Keeps I (fetch width value?)

attribute [instance] Kept.push Kept.pop Kept.peek Kept.dropSlots Kept.dup Kept.getLocal Kept.fetch

/-- Nor does the property depend on the place in the code. -/
class Placeless (I : Frame → Prop) : Prop extends Kept I where
  place : ∀ g : Frame → Nat, Keeps I (modify fun f => { f with pc := g f } : FrameM PUnit)
  branch : ∀ offset, Keeps I (branch offset)

attribute [instance] Placeless.place Placeless.branch

section

variable {I : Frame → Prop} [Kept I]

instance (v : Int32) : Keeps I (pushInt v) := by
  unfold pushInt
  infer_instance

instance : Keeps I popInt := by
  unfold popInt
  infer_instance

instance : Keeps I popLong := by
  unfold popLong
  infer_instance

instance : Keeps I popFloat := by
  unfold popFloat
  infer_instance

instance : Keeps I popDouble := by
  unfold popDouble
  infer_instance

instance : Keeps I popRef := by
  unfold popRef
  infer_instance

instance : Keeps I swap := by
  unfold swap
  infer_instance

instance : Keeps I u8 := by
  unfold u8
  infer_instance

instance : Keeps I u16 := by
  unfold u16
  infer_instance

instance : Keeps I i8 := by
  unfold i8
  infer_instance

instance : Keeps I i16 := by
  unfold i16
  infer_instance

instance : Keeps I i32 := by
  unfold i32
  infer_instance

instance (part : Code.Division) : Keeps I (divideInts part) := by
  have hpart (a b : Int32) : Keeps I (match intDivide? part a b with
      | some r => pushInt r
      | none => fault .divisionByZero) := by
    cases intDivide? part a b <;> infer_instance
  unfold divideInts
  infer_instance

instance (part : Code.Division) : Keeps I (divideLongs part) := by
  have hpart (a b : Int64) : Keeps I (match longDivide? part a b with
      | some r => push (.long r)
      | none => fault .divisionByZero) := by
    cases longDivide? part a b <;> infer_instance
  unfold divideLongs
  infer_instance

instance (slot : Nat) : Keeps I (loadFrom slot) := by
  unfold loadFrom
  infer_instance

variable [hset : ∀ slot v, Keeps I (setLocal slot v)]

instance (slot : Nat) : Keeps I (storeTo slot) := by
  unfold storeTo
  infer_instance

instance (slot : Nat) (delta : FrameM Int32) [Keeps I delta] : Keeps I (increment slot delta) := by
  unfold increment
  infer_instance

instance (op : Code.DataOp) : Keeps I (data op) := by
  cases op <;> simp only [data, intOp, longOp, floatOp, doubleOp] <;> infer_instance

end

section

variable {I : Frame → Prop} [Placeless I]

instance : Keeps I align := Placeless.place _

instance (count : Nat) : Keeps I (skip count) := Placeless.place _

instance (key : Int32) : Keeps I (tableSwitch key) := by
  unfold tableSwitch
  infer_instance

instance (key : Int32) : Keeps I (lookupSwitch key) := by
  unfold lookupSwitch
  infer_instance

instance (offset : Int16) (condition : Bool) : Keeps I (branchIf offset condition) := by
  unfold branchIf
  infer_instance

instance (offset : Int) : Keeps I (callSubroutine offset) := by
  unfold callSubroutine
  infer_instance

instance (slot : Nat) : Keeps I (leaveSubroutine slot) := by
  have hleave (v : Value) : Keeps I (match v with
      | .returnAddress pc => modify fun f => { f with pc := pc.toNat }
      | v => defectAt (.notAReturnAddress v.kind) : FrameM Unit) := by
    cases v with
    | returnAddress pc => exact Placeless.place _
    | _ => infer_instance
  unfold leaveSubroutine
  infer_instance

instance (op : JumpOp) : Keeps I (jump op) := by
  cases op <;> unfold jump <;> infer_instance

instance [hset : ∀ slot v, Keeps I (setLocal slot v)] : Keeps I widened := by
  have hopcode (op : Opcode) (slot : Nat) : Keeps I (match op.operation? with
      | some (.data .load) => loadFrom slot
      | some (.data .store) => storeTo slot
      | some (.data .increment) => increment slot (return (← i16).toInt32)
      | some (.jump .leaveSubroutine) => leaveSubroutine slot
      | _ => defectAt (.wideOpcode op.mnemonic)) := by
    split <;> infer_instance
  unfold widened
  infer_instance

end

end FrameM

end ClassEngine.Machine
