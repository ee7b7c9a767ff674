import ClassEngine.Proofs.Machine.FrameBounds
import ClassEngine.Proofs.Machine.Rounds
import Mathlib.Data.Int.ModEq

/-!
# Arithmetic of integers

The machine computes with words.  What its instructions compute is told by the integers that the
words stand for: the exact result, reduced to the width of the instruction.
-/

namespace ClassEngine.Machine

open Code

/-! ## Words -/

section

variable {w : Nat} (x : BitVec w) (s : Nat)

theorem toInt_emod : x.toInt % 2 ^ w = x.toNat := by
  have h := Int.bmod_emod (x := (x.toNat : Int)) (m := 2 ^ w)
  rw [← BitVec.toInt_eq_toNat_bmod] at h
  rw [← Int.emod_eq_of_lt (Int.natCast_nonneg x.toNat) (Int.ofNat_lt.mpr x.isLt), ← h]
  norm_cast

theorem toInt_shiftLeft : (x <<< s).toInt = (x.toInt * 2 ^ s).bmod (2 ^ w) := by
  rw [BitVec.toInt_shiftLeft, Nat.shiftLeft_eq, BitVec.toInt_eq_toNat_bmod, Nat.cast_mul,
    Int.bmod_mul_bmod, Nat.cast_pow, Nat.cast_ofNat]

theorem toInt_sshiftRight : (x.sshiftRight s).toInt = x.toInt / 2 ^ s := by
  rw [BitVec.toInt_sshiftRight, Int.shiftRight_eq_div_pow, Nat.cast_pow, Nat.cast_ofNat]

theorem toInt_ushiftRight : (x >>> s).toInt = (x.toInt % 2 ^ w / 2 ^ s).bmod (2 ^ w) := by
  rw [toInt_emod, BitVec.toInt_eq_toNat_bmod, BitVec.toNat_ushiftRight, Nat.shiftRight_eq_div_pow,
    Int.natCast_ediv, Nat.cast_pow, Nat.cast_ofNat]

end

theorem toNat_and_mask {mask : Int32} {k : Nat} (hmask : mask.toBitVec.toNat = 2 ^ k - 1)
    (hk : k ≤ 32) (d : Int32) : (d &&& mask).toBitVec.toNat = (d.toInt % 2 ^ k).toNat := by
  have hdvd : (2 : Int) ^ k ∣ 2 ^ 32 := pow_dvd_pow 2 hk
  rw [Int32.toBitVec_and, BitVec.toNat_and, hmask, Nat.and_two_pow_sub_one_eq_mod,
    ← Int32.toInt_toBitVec, ← Int.emod_emod_of_dvd _ hdvd, toInt_emod]
  norm_cast

theorem smod_eq_self {n : Nat} {x y : BitVec n} (hxy : x.toNat < y.toNat)
    (hy : 2 * y.toNat < 2 ^ n) : x.smod y = x := by
  have hxmsb : x.msb = false := by
    rw [BitVec.msb_eq_false_iff_two_mul_lt]
    omega
  have hymsb : y.msb = false := by rwa [BitVec.msb_eq_false_iff_two_mul_lt]
  rw [BitVec.smod, hxmsb, hymsb]
  exact BitVec.eq_of_toNat_eq (Nat.mod_eq_of_lt hxy)

/-! ## Calculations -/

inductive Width where
  | int
  | long
  deriving DecidableEq, Repr

namespace Width

def bits : Width → Nat
  | int => 32
  | long => 64

def kind : Width → Kind
  | int => .int
  | long => .long

def read : Width → Value → Int
  | int, v => v.asInt.toInt
  | long, v => v.asLong.toInt

def distance (w : Width) (d : Int) : Nat := (d % w.bits).toNat

/-- A value is the integer, reduced to the width. -/
structure Holds (w : Width) (v : Value) (n : Int) : Prop where
  kind : v.kind = w.kind
  read : w.read v = n.bmod (2 ^ w.bits)

/-- What a quotient and a remainder have in common with the integers that are divided. -/
structure Divides (w : Width) (a b q r : Int) : Prop where
  quotient : q = (a.tdiv b).bmod (2 ^ w.bits)
  recombined : q * b + r ≡ a [ZMOD 2 ^ w.bits]
  sign : r = 0 ∨ r.sign = a.sign
  smaller : r.natAbs < b.natAbs

end Width

inductive Calculation where
  | sum | difference | product
  | quotient | remainder
  | leftShift | rightShift | logicalShift
  deriving DecidableEq, Repr

namespace Calculation

/-- The exact result: `tdiv` rounds toward zero, and a division by a positive number down. -/
def exact (w : Width) : Calculation → Int → Int → Int
  | sum, a, b => a + b
  | difference, a, b => a - b
  | product, a, b => a * b
  | quotient, a, b => a.tdiv b
  | remainder, a, b => a.tmod b
  | leftShift, a, d => a * 2 ^ w.distance d
  | rightShift, a, d => a / 2 ^ w.distance d
  | logicalShift, a, d => a % 2 ^ w.bits / 2 ^ w.distance d

def divides : Calculation → Bool
  | quotient | remainder => true
  | _ => false

def second (w : Width) : Calculation → Width
  | leftShift | rightShift | logicalShift => .int
  | _ => w

def ofByte? : UInt8 → Option (Width × Calculation)
  | 0x60 => some (.int, sum)
  | 0x61 => some (.long, sum)
  | 0x64 => some (.int, difference)
  | 0x65 => some (.long, difference)
  | 0x68 => some (.int, product)
  | 0x69 => some (.long, product)
  | 0x6c => some (.int, quotient)
  | 0x6d => some (.long, quotient)
  | 0x70 => some (.int, remainder)
  | 0x71 => some (.long, remainder)
  | 0x78 => some (.int, leftShift)
  | 0x79 => some (.long, leftShift)
  | 0x7a => some (.int, rightShift)
  | 0x7b => some (.long, rightShift)
  | 0x7c => some (.int, logicalShift)
  | 0x7d => some (.long, logicalShift)
  | _ => none

def ofDivision : Division → Calculation
  | .quotient => quotient
  | .remainder => remainder

def operation : Width → Calculation → DataOp
  | .int, sum => .int .add
  | .int, difference => .int .sub
  | .int, product => .int .mul
  | .int, quotient => .intDivide .quotient
  | .int, remainder => .intDivide .remainder
  | .int, leftShift => .int .shl
  | .int, rightShift => .int .shr
  | .int, logicalShift => .int .ushr
  | .long, sum => .long .add
  | .long, difference => .long .sub
  | .long, product => .long .mul
  | .long, quotient => .longDivide .quotient
  | .long, remainder => .longDivide .remainder
  | .long, leftShift => .longShift .shl
  | .long, rightShift => .longShift .shr
  | .long, logicalShift => .longShift .ushr

theorem operation?_of_ofByte? {byte : UInt8} {w : Width} {op : Calculation}
    (h : ofByte? byte = some (w, op)) :
    (⟨byte⟩ : Opcode).operation? = some (.data (op.operation w)) := by
  unfold ofByte? at h
  split at h <;> cases h <;> decide +kernel

end Calculation

/-! ## What the machine computes -/

theorem asInt_int (n : Int32) : (Value.int n).asInt = n := by
  rw [Value.asInt, Value.bits, UInt32.toUInt32_toUInt64, Int32.toInt32_toUInt32]

namespace Width

theorem holds_int {n : Int32} {i : Int} (h : n.toInt = i.bmod (2 ^ 32)) : int.Holds (.int n) i :=
  ⟨rfl, by rwa [Width.read, asInt_int]⟩

theorem holds_long {n : Int64} {i : Int} (h : n.toInt = i.bmod (2 ^ 64)) :
    long.Holds (.long n) i :=
  ⟨rfl, h⟩

theorem bmod_tmod (w : Width) (va vb : Value) :
    ((w.read va).tmod (w.read vb)).bmod (2 ^ w.bits) = (w.read va).tmod (w.read vb) := by
  cases w with
  | int => exact Int32.toInt_mod va.asInt vb.asInt ▸ Int32.toInt_bmod _
  | long => exact Int64.toInt_mod va.asLong vb.asLong ▸ Int64.toInt_bmod _

theorem divides (w : Width) (va : Value) {vb : Value} (hb : w.read vb ≠ 0) :
    w.Divides (w.read va) (w.read vb) (((w.read va).tdiv (w.read vb)).bmod (2 ^ w.bits))
      (((w.read va).tmod (w.read vb)).bmod (2 ^ w.bits)) := by
  rw [bmod_tmod]
  generalize w.read va = a, w.read vb = b at hb
  refine ⟨rfl, ?_, ?_, ?_⟩
  · have hquotient : (a.tdiv b).bmod (2 ^ w.bits) ≡ a.tdiv b [ZMOD 2 ^ w.bits] := by
      have hbmod := Int.bmod_emod (x := a.tdiv b) (m := 2 ^ w.bits)
      exact_mod_cast hbmod
    calc (a.tdiv b).bmod (2 ^ w.bits) * b + a.tmod b
      _ ≡ a.tdiv b * b + a.tmod b [ZMOD 2 ^ w.bits] := (hquotient.mul_right b).add_right _
      _ = a := Int.tdiv_mul_add_tmod a b
  · rw [← Int.sign_eq_zero_iff_zero, Int.sign_tmod]
    split
    · exact .inl rfl
    · exact .inr rfl
  · rw [Int.natAbs_tmod]
    exact Nat.mod_lt _ (Int.natAbs_pos.mpr hb)

end Width

section

variable (a d : Int32) (l : Int64)

theorem toNat_intDistance : (d &&& 0x1f).toBitVec.toNat = Width.int.distance d.toInt :=
  toNat_and_mask (k := 5) rfl (by decide) d

theorem toNat_longDistance : (d &&& 0x3f).toBitVec.toNat = Width.long.distance d.toInt :=
  toNat_and_mask (k := 6) rfl (by decide) d

theorem Width.distance_lt (w : Width) (i : Int) : w.distance i < w.bits := by
  have hbits : 0 < (w.bits : Int) := by cases w <;> decide
  have hlt := Int.emod_lt_of_pos i hbits
  rw [Width.distance]
  omega

theorem smod_intDistance :
    ((d &&& 0x1f).toBitVec.smod 32).toNat = Width.int.distance d.toInt := by
  have hlt := Width.int.distance_lt d.toInt
  rw [smod_eq_self (by rw [toNat_intDistance]; exact hlt) (by decide), toNat_intDistance]

theorem toNat_longDistance_toInt64 :
    (d &&& 0x3f).toInt64.toBitVec.toNat = Width.long.distance d.toInt := by
  have hlt := Width.long.distance_lt d.toInt
  have hmsb : (d &&& 0x3f).toBitVec.msb = false := by
    rw [BitVec.msb_eq_false_iff_two_mul_lt, toNat_longDistance]
    change _ < 64 at hlt
    omega
  rw [Int32.toBitVec_toInt64, BitVec.signExtend_eq_setWidth_of_msb_false hmsb,
    BitVec.toNat_setWidth_of_le (by decide), toNat_longDistance]

theorem smod_longDistance :
    ((d &&& 0x3f).toInt64.toBitVec.smod 64).toNat = Width.long.distance d.toInt := by
  have hlt := Width.long.distance_lt d.toInt
  rw [smod_eq_self (by rw [toNat_longDistance_toInt64]; exact hlt) (by decide),
    toNat_longDistance_toInt64]

theorem toInt_int_remainder (b : Int32) :
    (a % b).toInt = (a.toInt.tmod b.toInt).bmod (2 ^ 32) := by
  rw [← Int32.toInt_mod]
  exact (Int32.toInt_bmod _).symm

theorem toInt_long_remainder (b : Int64) :
    (l % b).toInt = (l.toInt.tmod b.toInt).bmod (2 ^ 64) := by
  rw [← Int64.toInt_mod]
  exact (Int64.toInt_bmod _).symm

theorem exists_of_intDivide? (part : Division) {b : Int32} (hb : b ≠ 0) :
    ∃ n, intDivide? part a b = some n ∧
      n.toInt = ((Calculation.ofDivision part).exact .int a.toInt b.toInt).bmod (2 ^ 32) := by
  cases part with
  | quotient => exact ⟨a / b, if_neg hb, Int32.toInt_div a b⟩
  | remainder => exact ⟨a % b, if_neg hb, toInt_int_remainder a b⟩

theorem exists_of_longDivide? (part : Division) {b : Int64} (hb : b ≠ 0) :
    ∃ n, longDivide? part l b = some n ∧
      n.toInt = ((Calculation.ofDivision part).exact .long l.toInt b.toInt).bmod (2 ^ 64) := by
  cases part with
  | quotient => exact ⟨l / b, if_neg hb, Int64.toInt_div l b⟩
  | remainder => exact ⟨l % b, if_neg hb, toInt_long_remainder l b⟩

theorem toInt_int_shl : (intBinary .shl a d).toInt =
    (Calculation.leftShift.exact .int a.toInt d.toInt).bmod (2 ^ 32) := by
  rw [intBinary, ← Int32.toInt_toBitVec, Int32.toBitVec_shiftLeft, BitVec.shiftLeft_eq',
    smod_intDistance, toInt_shiftLeft, Int32.toInt_toBitVec]
  rfl

theorem toInt_int_shr : (intBinary .shr a d).toInt =
    (Calculation.rightShift.exact .int a.toInt d.toInt).bmod (2 ^ 32) := by
  have hexact : (intBinary .shr a d).toInt = Calculation.rightShift.exact .int a.toInt d.toInt := by
    rw [intBinary, ← Int32.toInt_toBitVec, Int32.toBitVec_shiftRight, BitVec.sshiftRight',
      smod_intDistance, toInt_sshiftRight, Int32.toInt_toBitVec]
    rfl
  exact hexact ▸ (Int32.toInt_bmod _).symm

theorem toInt_int_ushr : (intBinary .ushr a d).toInt =
    (Calculation.logicalShift.exact .int a.toInt d.toInt).bmod (2 ^ 32) := by
  have hdistance : ((d.toUInt32 &&& 0x1f).toBitVec % 32).toNat = Width.int.distance d.toInt := by
    rw [BitVec.toNat_umod, ← toNat_intDistance]
    exact Nat.mod_eq_of_lt (toNat_intDistance d ▸ Width.int.distance_lt d.toInt)
  rw [intBinary, ← Int32.toInt_toBitVec, UInt32.toBitVec_toInt32, UInt32.toBitVec_shiftRight,
    BitVec.ushiftRight_eq', hdistance, toInt_ushiftRight, Int32.toBitVec_toUInt32,
    Int32.toInt_toBitVec]
  rfl

theorem toInt_long_shl : (longShift .shl l d).toInt =
    (Calculation.leftShift.exact .long l.toInt d.toInt).bmod (2 ^ 64) := by
  rw [longShift, ← Int64.toInt_toBitVec, Int64.toBitVec_shiftLeft, BitVec.shiftLeft_eq',
    smod_longDistance, toInt_shiftLeft, Int64.toInt_toBitVec]
  rfl

theorem toInt_long_shr : (longShift .shr l d).toInt =
    (Calculation.rightShift.exact .long l.toInt d.toInt).bmod (2 ^ 64) := by
  have hexact : (longShift .shr l d).toInt =
      Calculation.rightShift.exact .long l.toInt d.toInt := by
    rw [longShift, ← Int64.toInt_toBitVec, Int64.toBitVec_shiftRight, BitVec.sshiftRight',
      smod_longDistance, toInt_sshiftRight, Int64.toInt_toBitVec]
    rfl
  exact hexact ▸ (Int64.toInt_bmod _).symm

theorem toInt_long_ushr : (longShift .ushr l d).toInt =
    (Calculation.logicalShift.exact .long l.toInt d.toInt).bmod (2 ^ 64) := by
  have hdistance : ((d.toUInt32 &&& 0x3f).toUInt64.toBitVec % 64).toNat =
      Width.long.distance d.toInt := by
    rw [BitVec.toNat_umod, UInt32.toBitVec_toUInt64, BitVec.toNat_setWidth_of_le (by decide),
      ← toNat_longDistance]
    exact Nat.mod_eq_of_lt (toNat_longDistance d ▸ Width.long.distance_lt d.toInt)
  rw [longShift, ← Int64.toInt_toBitVec, UInt64.toBitVec_toInt64, UInt64.toBitVec_shiftRight,
    BitVec.ushiftRight_eq', hdistance, toInt_ushiftRight, Int64.toBitVec_toUInt64,
    Int64.toInt_toBitVec]
  rfl

end

/-! ## Work on a frame -/

/-- What calculating gives: the operands make room for the result, or for nothing. -/
inductive Frame.Calculated (f : Frame) (w : Width) (op : Calculation) (va vb : Value)
    (rest : List Value) : EStateM.Result (Fault ⊕ Defect) Frame Unit → Prop
  | done {v : Value} (hdivides : ¬ (op.divides ∧ (op.second w).read vb = 0))
      (hv : w.Holds v (op.exact w (w.read va) ((op.second w).read vb))) :
      f.Calculated w op va vb rest (.ok () { f with stack := v :: rest })
  | failed (hdivides : op.divides ∧ (op.second w).read vb = 0) :
      f.Calculated w op va vb rest (.error (.inl .divisionByZero) { f with stack := rest })

namespace FrameM

variable {α β : Type} {f : Frame} {va vb : Value} {rest : List Value}

/-- An operation that takes one value from the stack and reads it in some way. -/
def Pops (x : FrameM α) (read : Value → α) : Prop :=
  ∀ (f : Frame) (v : Value) (rest : List Value), f.stack = v :: rest →
    x f = .ok (read v) { f with stack := rest }

theorem pops_popInt : Pops popInt Value.asInt := by
  intro f v rest h
  rw [popInt, bind_apply, pop_apply, h]
  rfl

theorem pops_popLong : Pops popLong Value.asLong := by
  intro f v rest h
  rw [popLong, bind_apply, pop_apply, h]
  rfl

theorem Pops.two {x : FrameM α} {y : FrameM β} {readB : Value → α} {readA : Value → β}
    (hx : Pops x readB) (hy : Pops y readA) (hstack : f.stack = vb :: va :: rest)
    (g : α → β → FrameM Unit) :
    (do let b ← x; let a ← y; g b a) f = g (readB vb) (readA va) { f with stack := rest } := by
  rw [bind_apply, hx f vb _ hstack]
  dsimp only
  rw [bind_apply, hy _ va rest rfl]

section

variable {w : Width} {op : Calculation} (hstack : f.stack = vb :: va :: rest)
  (hlimit : f.stack.length ≤ f.maxStack)

include hstack hlimit

theorem calculated_push {v : Value} (hdivides : ¬ (op.divides ∧ (op.second w).read vb = 0))
    (hv : w.Holds v (op.exact w (w.read va) ((op.second w).read vb))) :
    f.Calculated w op va vb rest (push v { f with stack := rest }) := by
  have hroom : rest.length < f.maxStack := by
    rw [hstack, List.length_cons, List.length_cons] at hlimit
    omega
  have hpush : push v { f with stack := rest } = .ok () { f with stack := v :: rest } := by
    rw [FrameM.push_apply]
    exact if_pos hroom
  rw [hpush]
  exact .done hdivides hv

theorem calculated_intOp {g : Int32 → Int32 → Int32} (hop : op.divides = false)
    (hg : (g va.asInt vb.asInt).toInt =
      (op.exact .int va.asInt.toInt ((op.second .int).read vb)).bmod (2 ^ 32)) :
    f.Calculated .int op va vb rest (intOp g f) := by
  rw [intOp, pops_popInt.two pops_popInt hstack]
  exact calculated_push hstack hlimit (by simp [hop]) (Width.holds_int hg)

theorem calculated_longOp {g : Int64 → Int64 → Int64} (hop : op.divides = false)
    (hg : (g va.asLong vb.asLong).toInt =
      (op.exact .long va.asLong.toInt ((op.second .long).read vb)).bmod (2 ^ 64)) :
    f.Calculated .long op va vb rest (longOp g f) := by
  rw [longOp, pops_popLong.two pops_popLong hstack]
  exact calculated_push hstack hlimit (by simp [hop]) (Width.holds_long hg)

theorem calculated_longShift {shift : ShiftOp} (hop : op.divides = false)
    (hshift : (longShift shift va.asLong vb.asInt).toInt =
      (op.exact .long va.asLong.toInt ((op.second .long).read vb)).bmod (2 ^ 64)) :
    f.Calculated .long op va vb rest (data (.longShift shift) f) := by
  rw [data, pops_popInt.two pops_popLong hstack]
  exact calculated_push hstack hlimit (by simp [hop]) (Width.holds_long hshift)

theorem calculated_divideInts (part : Division) :
    f.Calculated .int (.ofDivision part) va vb rest (divideInts part f) := by
  have hdivides : (Calculation.ofDivision part).divides = true := by cases part <;> rfl
  have hsecond : (Calculation.ofDivision part).second .int = .int := by cases part <;> rfl
  have hzero : (((Calculation.ofDivision part).second .int).read vb = 0) ↔ vb.asInt = 0 := by
    rw [hsecond]
    exact Int32.toInt_inj (y := 0)
  rw [divideInts, pops_popInt.two pops_popInt hstack]
  by_cases hb : vb.asInt = 0
  · have hnone : intDivide? part va.asInt vb.asInt = none := by cases part <;> exact if_pos hb
    rw [hnone]
    exact .failed ⟨hdivides, hzero.mpr hb⟩
  · obtain ⟨n, hsome, hn⟩ := exists_of_intDivide? va.asInt part hb
    rw [hsome]
    refine calculated_push hstack hlimit (fun h => hb (hzero.mp h.2)) (Width.holds_int ?_)
    rw [hsecond]
    exact hn

theorem calculated_divideLongs (part : Division) :
    f.Calculated .long (.ofDivision part) va vb rest (divideLongs part f) := by
  have hdivides : (Calculation.ofDivision part).divides = true := by cases part <;> rfl
  have hsecond : (Calculation.ofDivision part).second .long = .long := by cases part <;> rfl
  have hzero : (((Calculation.ofDivision part).second .long).read vb = 0) ↔ vb.asLong = 0 := by
    rw [hsecond]
    exact Int64.toInt_inj (y := 0)
  rw [divideLongs, pops_popLong.two pops_popLong hstack]
  by_cases hb : vb.asLong = 0
  · have hnone : longDivide? part va.asLong vb.asLong = none := by
      cases part <;> exact if_pos hb
    rw [hnone]
    exact .failed ⟨hdivides, hzero.mpr hb⟩
  · obtain ⟨n, hsome, hn⟩ := exists_of_longDivide? va.asLong part hb
    rw [hsome]
    refine calculated_push hstack hlimit (fun h => hb (hzero.mp h.2)) (Width.holds_long ?_)
    rw [hsecond]
    exact hn

theorem calculated_operation (w : Width) (op : Calculation) :
    f.Calculated w op va vb rest (data (op.operation w) f) := by
  cases w with
  | int =>
      cases op with
      | sum => exact calculated_intOp hstack hlimit rfl (Int32.toInt_add _ _)
      | difference => exact calculated_intOp hstack hlimit rfl (Int32.toInt_sub _ _)
      | product => exact calculated_intOp hstack hlimit rfl (Int32.toInt_mul _ _)
      | quotient => exact calculated_divideInts hstack hlimit .quotient
      | remainder => exact calculated_divideInts hstack hlimit .remainder
      | leftShift => exact calculated_intOp hstack hlimit rfl (toInt_int_shl _ _)
      | rightShift => exact calculated_intOp hstack hlimit rfl (toInt_int_shr _ _)
      | logicalShift => exact calculated_intOp hstack hlimit rfl (toInt_int_ushr _ _)
  | long =>
      cases op with
      | sum => exact calculated_longOp hstack hlimit rfl (Int64.toInt_add _ _)
      | difference => exact calculated_longOp hstack hlimit rfl (Int64.toInt_sub _ _)
      | product => exact calculated_longOp hstack hlimit rfl (Int64.toInt_mul _ _)
      | quotient => exact calculated_divideLongs hstack hlimit .quotient
      | remainder => exact calculated_divideLongs hstack hlimit .remainder
      | leftShift => exact calculated_longShift hstack hlimit rfl (toInt_long_shl _ _)
      | rightShift => exact calculated_longShift hstack hlimit rfl (toInt_long_shr _ _)
      | logicalShift => exact calculated_longShift hstack hlimit rfl (toInt_long_ushr _ _)

end

end FrameM

/-! ## The instructions -/

section

variable {prepare : ClassId → Exec Unit} {vm : Vm} {f : Frame} {below : List Frame} {byte : UInt8}
  {w : Width} {op : Calculation} {va vb : Value} {rest : List Value}

/-- An instruction that calculates gives the exact result, reduced to its width; it fails with an
arithmetic fault exactly when it divides by zero, and then its operands are gone all the same.  The
parts of a quotient recombine.  The stack is never longer than its limit (`Frame.Contained`). -/
theorem arithmetic_exact (hframes : vm.frames = f :: below)
    (hbyte : f.body.code[f.pc]? = some byte) (hop : Calculation.ofByte? byte = some (w, op))
    (hstack : f.stack = vb :: va :: rest) (hlimit : f.stack.length ≤ f.maxStack) :
    ((∃ e vm', Exec.step prepare vm = .error (.fault e) vm' ∧ e.belongs .arithmetic) ↔
      op.divides ∧ (op.second w).read vb = 0) ∧
    (¬ (op.divides ∧ (op.second w).read vb = 0) → ∃ v,
      w.Holds v (op.exact w (w.read va) ((op.second w).read vb)) ∧
      Exec.step prepare vm = .ok () { vm with
        frames := { f with stack := v :: rest, opPc := f.pc, pc := f.pc + 1 } :: below }) ∧
    (op.divides ∧ (op.second w).read vb = 0 →
      Exec.step prepare vm = .error (.fault .divisionByZero) { vm with
        frames := { f with stack := rest, opPc := f.pc, pc := f.pc + 1 } :: below }) ∧
    (w.read vb ≠ 0 → w.Divides (w.read va) (w.read vb)
      ((Calculation.quotient.exact w (w.read va) (w.read vb)).bmod (2 ^ w.bits))
      ((Calculation.remainder.exact w (w.read va) (w.read vb)).bmod (2 ^ w.bits))) := by
  have hcalculated := FrameM.calculated_operation
    (f := { f with opPc := f.pc, pc := f.pc + 1 }) hstack hlimit w op
  rw [Exec.step_of_data hframes hbyte (Calculation.operation?_of_ofByte? hop)]
  generalize FrameM.data (op.operation w) _ = result at hcalculated
  cases hcalculated with
  | done hdivides hv =>
      exact ⟨⟨nofun, fun h => absurd h hdivides⟩, fun _ => ⟨_, hv, rfl⟩,
        fun h => absurd h hdivides, fun hb => w.divides va hb⟩
  | failed hdivides =>
      exact ⟨⟨fun _ => hdivides, fun _ => ⟨_, _, rfl, rfl⟩⟩, fun h => absurd hdivides h,
        fun _ => rfl, fun hb => w.divides va hb⟩

end

namespace MinimumByMinusOne

def body : ClassFile.Body := ⟨2, 0, #[0x6d], [], []⟩

def method : Method :=
  ⟨⟨0, 0⟩, "A", 0x0021, "run", "()V", 0x0008, ⟨[], none, "()V"⟩, some body⟩

def frame : Frame := ⟨method, body, #[], [.long (-1), .long Int64.minValue], 0, 0⟩

def machine : Vm := { Vm.start none 0 none with frames := [frame] }

theorem arithmetic_exact_minimum :
    ∃ v, Width.long.read v = Int64.minValue.toInt ∧
      Exec.step (Exec.initialized 0) machine = .ok () { machine with
        frames := [{ frame with stack := [v], opPc := 0, pc := 1 }] } := by
  obtain ⟨v, hv, hstep⟩ := (@arithmetic_exact (Exec.initialized 0) machine frame [] 0x6d .long
    .quotient (.long Int64.minValue) (.long (-1)) [] rfl rfl rfl rfl (by decide)).2.1
      (fun h => absurd h.2 (by decide))
  exact ⟨v, hv.read.trans (by decide), hstep⟩

end MinimumByMinusOne

end ClassEngine.Machine
