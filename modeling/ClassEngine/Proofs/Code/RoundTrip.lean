import ClassEngine.Proofs.Code.Decoding
import ClassEngine.Proofs.Code.Pieces
import Mathlib.Tactic.IntervalCases

/-!
# Assembled code decodes to what was emitted

Every call of an assembler stands for some instructions.  When each opcode goes with the operands
of its call, the finished code decodes to these instructions, at the offsets where they were
emitted, and their branches lead to the positions of their labels.
-/

namespace ClassEngine.Code

/-- The opcode of the call takes the operands the call gives it. -/
def Emission.Matches : Emission → Prop
  | .plain ops => ∀ op ∈ ops, op.isDefined = true ∧ op.layout = .none
  | .byte op _ => op.layout = .unsignedByte
  | .int8 op _ => op.layout = .signedByte
  | .uint16 op _ => op.layout = .unsignedShort
  | .int16 op _ => op.layout = .signedShort
  | .localAccess op _ =>
      op.operation? = some (.data .load) ∨ op.operation? = some (.data .store)
  | .int value => -32768 ≤ value ∧ value ≤ 32767
  | .jump op _ => op.layout = .branch
  | .jumpWide op _ => op.layout = .branchWide
  | .tableSwitch _ low targets => targets ≠ [] ∧ low.toInt + targets.length - 1 ≤ 2147483647
  | .lookupSwitch _ keys targets => keys.length = targets.length
  | .increment .. | .invokeInterface .. | .multiNewArray .. | .newLabel _ | .mark _ | .here _ =>
      True

instance : DecidablePred Emission.Matches
  | .plain ops =>
      inferInstanceAs (Decidable (∀ op ∈ ops, op.isDefined = true ∧ op.layout = .none))
  | .byte op _ => inferInstanceAs (Decidable (op.layout = .unsignedByte))
  | .int8 op _ => inferInstanceAs (Decidable (op.layout = .signedByte))
  | .uint16 op _ => inferInstanceAs (Decidable (op.layout = .unsignedShort))
  | .int16 op _ => inferInstanceAs (Decidable (op.layout = .signedShort))
  | .localAccess op _ => inferInstanceAs (Decidable (op.operation? = _ ∨ op.operation? = _))
  | .int value => inferInstanceAs (Decidable (-32768 ≤ value ∧ value ≤ 32767))
  | .jump op _ => inferInstanceAs (Decidable (op.layout = .branch))
  | .jumpWide op _ => inferInstanceAs (Decidable (op.layout = .branchWide))
  | .tableSwitch _ low targets =>
      inferInstanceAs (Decidable (targets ≠ [] ∧ low.toInt + targets.length - 1 ≤ 2147483647))
  | .lookupSwitch _ keys targets => inferInstanceAs (Decidable (keys.length = targets.length))
  | .increment .. | .invokeInterface .. | .multiNewArray .. | .newLabel _ | .mark _ | .here _ =>
      .isTrue trivial

/-- The instructions of a call, each with the offset where it is emitted. -/
def Emission.instructions (pc : Nat) : Emission → List (Nat × Emission)
  | .plain ops => (ops.zipIdx pc).map fun (op, pc) => (pc, .plain [op])
  | .newLabel _ | .mark _ | .here _ => []
  | e => [(pc, e)]

/-- The int an instruction pushes without the help of the pool. -/
def Instruction.intConstant? (i : Instruction) : Option Int :=
  match i.op.operation?, i.values with
  | some (.data (.intConst n)), [] => some n
  | some (.data .pushByte), [n] | some (.data .pushShort), [n] => some n
  | _, _ => none

/-- The pairs are sorted by key; those with the same key stay in their order. -/
structure StablySorted (pairs sorted : List (Int32 × LabelId)) : Prop where
  increasing : sorted.Pairwise fun c c' => c.1 ≤ c'.1
  perm : sorted.Perm pairs
  stable : ∀ key, sorted.filter (·.1 = key) = pairs.filter (·.1 = key)

namespace Assembler

/-- The instructions that the calls emit, each with the offset where it is emitted. -/
def emitted : Assembler → List Emission → List (Nat × Emission)
  | _, [] => []
  | a, e :: calls => e.instructions a.size ++ (a.perform e).emitted calls

/-- The instruction is the one emitted at `pc`: it has the operands that were given, and it
branches to the labels that were given. -/
def Reflects (a : Assembler) : Nat × Emission → Instruction → Prop
  | (pc, .plain ops), i => ∃ op, ops = [op] ∧ i = ⟨pc, op, false, .values []⟩
  | (pc, .byte op operand), i => i = ⟨pc, op, false, .values [(operand.toNat : Int)]⟩
  | (pc, .int8 op operand), i => i = ⟨pc, op, false, .values [operand.toInt]⟩
  | (pc, .uint16 op operand), i => i = ⟨pc, op, false, .values [(operand.toNat : Int)]⟩
  | (pc, .int16 op operand), i => i = ⟨pc, op, false, .values [operand.toInt]⟩
  | (pc, .increment index delta), i =>
      i = ⟨pc, .iinc, decide (index > 255 ∨ delta < -128 ∨ delta > 127),
        .values [(index.toNat : Int), delta.toInt]⟩
  | (pc, .localAccess op index), i =>
      if index ≤ 3 then
        ∃ short : Opcode, short.mnemonic = op.mnemonic ++ "_" ++ toString index.toNat ∧
          i = ⟨pc, short, false, .values []⟩
      else i = ⟨pc, op, decide (index > 255), .values [(index.toNat : Int)]⟩
  | (pc, .int value), i =>
      i.pc = pc ∧ i.widened = false ∧ i.intConstant? = some value.toInt
  | (pc, .invokeInterface index count), i =>
      i = ⟨pc, .invokeinterface, false, .values [(index.toNat : Int), (count.toNat : Int)]⟩
  | (pc, .multiNewArray index dimensions), i =>
      i = ⟨pc, .multianewarray, false, .values [(index.toNat : Int), (dimensions.toNat : Int)]⟩
  | (pc, .jump op l), i | (pc, .jumpWide op l), i =>
      ∃ offset, a.Reaches pc l offset ∧ i = ⟨pc, op, false, .values [offset]⟩
  | (pc, .tableSwitch default low targets), i =>
      ∃ t, i = ⟨pc, .tableswitch, false, .table t⟩ ∧ a.Reaches pc default t.default.toInt ∧
        List.Forall₂ (fun (l, k) c => c.1.toInt = low.toInt + k ∧ a.Reaches pc l c.2.toInt)
          targets.zipIdx t.cases
  | (pc, .lookupSwitch default keys targets), i =>
      ∃ t, i = ⟨pc, .lookupswitch, false, .table t⟩ ∧ a.Reaches pc default t.default.toInt ∧
        ∃ sorted, StablySorted (keys.zip targets) sorted ∧
          List.Forall₂ (fun p c => c.1 = p.1 ∧ a.Reaches pc p.2 c.2.toInt) sorted t.cases
  | (_, .newLabel _), _ | (_, .mark _), _ | (_, .here _), _ => False

variable {a a' a'' : Assembler} {items items' : List (Nat × Emission)}

structure InReach (a : Assembler) : Prop where
  marks : a.MarksWithin
  size : a.size < 2 ^ 31

/-- What was added decodes to the items, once the code is finished and the labels have their
positions. -/
def Yields (a a' : Assembler) (items : List (Nat × Emission)) : Prop :=
  ∃ ps, a.Adds ps a' ∧ ∀ (final : Assembler) chunks, final.InReach → a'.size ≤ final.size →
    List.Forall₂ final.Fills ps chunks →
      ∃ is, Decodes a.size chunks.flatten is ∧ List.Forall₂ final.Reflects items is

theorem forall₂_append_left {α β : Type} {R : α → β → Prop} {xs ys : List α} {zs : List β}
    (h : List.Forall₂ R (xs ++ ys) zs) :
    ∃ us vs, zs = us ++ vs ∧ List.Forall₂ R xs us ∧ List.Forall₂ R ys vs := by
  refine ⟨zs.take xs.length, zs.drop xs.length, (List.take_append_drop _ _).symm, ?_, ?_⟩
  · simpa using List.forall₂_take xs.length h
  · simpa using List.forall₂_drop xs.length h

theorem yields_nil (hbytes : a'.bytes = a.bytes) (hfixups : a'.fixups = a.fixups) :
    a.Yields a' [] := by
  refine ⟨[], adds_nil hbytes hfixups, fun final chunks _ _ h => ⟨[], ?_, .nil⟩⟩
  cases h
  exact .nil _

theorem Yields.le_size (h : a.Yields a' items) : a.size ≤ a'.size := by
  obtain ⟨ps, hadds, -⟩ := h
  exact hadds.le_size

theorem Yields.trans (h : a.Yields a' items) (h' : a'.Yields a'' items') :
    a.Yields a'' (items ++ items') := by
  obtain ⟨ps, hadds, hread⟩ := h
  obtain ⟨qs, hadds', hread'⟩ := h'
  refine ⟨ps ++ qs, hadds.trans hadds', fun final chunks hfinal hsize hchunks => ?_⟩
  obtain ⟨xs, ys, rfl, hxs, hys⟩ := forall₂_append_left hchunks
  obtain ⟨is, his, hitems⟩ := hread final xs hfinal (Nat.le_trans hadds'.le_size hsize) hxs
  obtain ⟨js, hjs, hitems'⟩ := hread' final ys hfinal hsize hys
  rw [hadds.size, ← length_flatten_of_fills hxs] at hjs
  rw [List.flatten_append]
  exact ⟨is ++ js, his.append hjs, List.rel_append hitems hitems'⟩

/-! ## Operands that fit into fewer bytes -/

theorem byte_of_index {index : UInt16} (h : index ≤ 255) : index.toUInt8.toNat = index.toNat := by
  rw [UInt16.toNat_toUInt8]
  exact Nat.mod_eq_of_lt (Nat.lt_succ_of_le h)

theorem byte_of_short_index {index : UInt16} (h : index ≤ 3) :
    index.toNat < 4 ∧ index.toUInt8 = UInt8.ofNat index.toNat := by
  refine ⟨Nat.lt_succ_of_le h, ?_⟩
  apply UInt8.toNat_inj.mp
  simp

theorem byte_of_delta {delta : Int16} (hlow : ¬ delta < -128) (hhigh : ¬ delta > 127) :
    delta.toInt8.toInt = delta.toInt := by
  rw [Int16.lt_iff_toInt_lt] at hlow
  rw [gt_iff_lt, Int16.lt_iff_toInt_lt] at hhigh
  rw [Int16.toInt_toInt8]
  exact Int.bmod_eq_of_le (Int.not_lt.mp hlow) (Int.lt_add_one_of_le (Int.not_lt.mp hhigh))

theorem byte_of_int {n : Int32} (hlow : -128 ≤ n) (hhigh : n ≤ 127) : n.toInt8.toInt = n.toInt := by
  rw [Int32.le_iff_toInt_le] at hlow hhigh
  rw [Int32.toInt_toInt8]
  exact Int.bmod_eq_of_le hlow (Int.lt_add_one_of_le hhigh)

theorem short_of_int {n : Int32} (hlow : -32768 ≤ n) (hhigh : n ≤ 32767) :
    n.toInt16.toInt = n.toInt := by
  rw [Int32.le_iff_toInt_le] at hlow hhigh
  rw [Int32.toInt_toInt16]
  exact Int.bmod_eq_of_le hlow (Int.lt_add_one_of_le hhigh)

theorem toUInt8_toInt8 (delta : Int16) : delta.toInt8.toUInt8 = delta.toUInt16.toUInt8 := by
  apply UInt8.toBitVec_inj.mp
  exact BitVec.signExtend_eq_setWidth_of_le _ (by decide)

/-! ## Calls without labels -/

theorem yields_bytes {b : UInt8} {bs : List UInt8} {e : Emission} {i : Instruction}
    (hread : Reader.instruction.Reads (b :: bs) a.size i)
    (hi : ∀ final : Assembler, final.Reflects (a.size, e) i) :
    a.Yields (a.emitBytes (b :: bs)) [(a.size, e)] := by
  refine ⟨[.bytes (b :: bs)], adds_emitBytes a _, fun final chunks _ _ h => ?_⟩
  obtain ⟨bs', chunks', hbytes, hnil, rfl⟩ := List.forall₂_cons_left_iff.mp h
  cases hbytes
  cases hnil
  refine ⟨[i], ?_, .cons (hi final) .nil⟩
  simpa using Decodes.single hread

theorem yields_op {op : Opcode} {e : Emission} (hdefined : op.isDefined = true)
    (hlayout : op.layout = .none)
    (hi : ∀ final : Assembler, final.Reflects (a.size, e) ⟨a.size, op, false, .values []⟩) :
    a.Yields (a.emitBytes [op.byte]) [(a.size, e)] := by
  apply yields_bytes _ hi
  apply Reader.reads_instruction hdefined
  · rw [hlayout]
    decide
  · exact Reader.reads_none _ hlayout

theorem yields_operands {op : Opcode} {bs : List UInt8} {vs : Operands} {e : Emission}
    (hnone : op.layout ≠ .none) (hwide : op.layout ≠ .widened)
    (h : (Reader.operands op).Reads bs (a.size + 1) vs)
    (hi : ∀ final : Assembler, final.Reflects (a.size, e) ⟨a.size, op, false, vs⟩) :
    a.Yields (a.emitBytes (op.byte :: bs)) [(a.size, e)] :=
  yields_bytes (Reader.reads_instruction (Reader.isDefined_of_layout hnone) hwide h) hi

theorem yields_plain (ops : List Opcode)
    (h : ∀ op ∈ ops, op.isDefined = true ∧ op.layout = .none) :
    a.Yields (a.emit ops) ((Emission.plain ops).instructions a.size) := by
  induction ops generalizing a with
  | nil =>
      apply yields_nil
      · simp [emit, emitBytes]
      · simp [emit, emitBytes]
  | cons op ops ih =>
      obtain ⟨hdefined, hlayout⟩ := h op List.mem_cons_self
      have hfirst : a.Yields (a.emitBytes [op.byte]) [(a.size, .plain [op])] :=
        yields_op hdefined hlayout fun _ => ⟨op, rfl, rfl⟩
      have hothers := ih (a := a.emitBytes [op.byte]) fun op' hop' =>
        h op' (List.mem_cons_of_mem _ hop')
      have hemit : (a.emitBytes [op.byte]).emit ops = a.emit (op :: ops) := by
        simp [emit, emitBytes]
      have hsize : (a.emitBytes [op.byte]).size = a.size + 1 := (adds_emitBytes a _).size
      rw [hemit] at hothers
      simpa [Emission.instructions, List.zipIdx_cons, hsize] using hfirst.trans hothers

theorem yields_increment (index : UInt16) (delta : Int16) :
    a.Yields (a.emitIncrement index delta) [(a.size, .increment index delta)] := by
  have hlayout : Opcode.iinc.layout = .localAndDelta :=
    (Reader.layout_of_operation Reader.namedRows.iinc).2
  unfold emitIncrement
  split
  · rename_i hwide
    rw [List.append_assoc]
    apply yields_bytes (Reader.reads_widenedIncrement index delta)
    intro final
    have : index > 255 ∨ delta < -128 ∨ delta > 127 := by simpa [or_assoc] using hwide
    simp [Reflects, this]
  · rename_i hnarrow
    simp only [Bool.or_eq_true, decide_eq_true_eq, not_or] at hnarrow
    obtain ⟨⟨hindex, hlow⟩, hhigh⟩ := hnarrow
    have hread := Reader.reads_localAndDelta (a.size + 1) hlayout index.toUInt8 delta.toInt8
    rw [toUInt8_toInt8, byte_of_index (UInt16.not_lt.mp hindex), byte_of_delta hlow hhigh] at hread
    apply yields_operands _ _ hread
    · intro final
      simp [Reflects, hindex, hlow, hhigh]
    · rw [hlayout]
      decide
    · rw [hlayout]
      decide

theorem shortForm?_spec {op : Opcode}
    (h : op.operation? = some (.data .load) ∨ op.operation? = some (.data .store)) :
    ∃ first, shortForm? op = some first ∧ ∀ index : UInt16, index ≤ 3 →
      (⟨first + index.toUInt8⟩ : Opcode).isDefined = true ∧
        (⟨first + index.toUInt8⟩ : Opcode).layout = .none ∧
          (⟨first + index.toUInt8⟩ : Opcode).mnemonic =
            op.mnemonic ++ "_" ++ toString index.toNat := by
  let first (b : Nat) : UInt8 := (shortForm? ⟨UInt8.ofNat b⟩).getD 0
  have hforms : ∀ b < 256, (⟨UInt8.ofNat b⟩ : Opcode).operation? = some (.data .load) ∨
      (⟨UInt8.ofNat b⟩ : Opcode).operation? = some (.data .store) →
        shortForm? ⟨UInt8.ofNat b⟩ = some (first b) ∧
          ∀ n < 4, (⟨first b + UInt8.ofNat n⟩ : Opcode).isDefined = true ∧
            (⟨first b + UInt8.ofNat n⟩ : Opcode).layout = .none ∧
              (⟨first b + UInt8.ofNat n⟩ : Opcode).mnemonic =
                (⟨UInt8.ofNat b⟩ : Opcode).mnemonic ++ "_" ++ toString n := by
    decide +kernel
  obtain ⟨hform, hshort⟩ := hforms op.byte.toNat op.byte.toNat_lt (by simpa using h)
  refine ⟨first op.byte.toNat, by simpa using hform, fun index hindex => ?_⟩
  obtain ⟨hlt, hbyte⟩ := byte_of_short_index hindex
  rw [hbyte]
  simpa using hshort index.toNat hlt

theorem yields_localAccess {op : Opcode} (index : UInt16)
    (h : op.operation? = some (.data .load) ∨ op.operation? = some (.data .store)) :
    a.Yields (a.emitLocal op index) [(a.size, .localAccess op index)] := by
  have hlayout : op.layout = .unsignedByte := by
    unfold Opcode.layout
    rcases h with h | h
    · rw [h]; rfl
    · rw [h]; rfl
  obtain ⟨first, hform, hshort⟩ := shortForm?_spec h
  unfold emitLocal
  rw [hform]
  dsimp only
  split
  · rename_i hindex
    obtain ⟨hdefined, hnone, hname⟩ := hshort index hindex
    apply yields_op hdefined hnone
    intro final
    simp only [Reflects, if_pos hindex]
    exact ⟨_, hname, rfl⟩
  · rename_i hindex
    split
    · rename_i hbyte
      have hread := Reader.reads_unsignedByte (a.size + 1) hlayout index.toUInt8
      rw [byte_of_index hbyte] at hread
      apply yields_operands _ _ hread
      · intro final
        simp [Reflects, hindex, hbyte]
      · rw [hlayout]
        decide
      · rw [hlayout]
        decide
    · rename_i hwide
      have hnotIncrement : op.operation? ≠ some (.data .increment) := by
        rcases h with h | h
        · simp [h]
        · simp [h]
      apply yields_bytes (Reader.reads_widenedLocal hnotIncrement index)
      intro final
      simp only [Reflects, if_neg hindex]
      simp [UInt16.not_le.mp hwide]

theorem constant_of_small {value : Int32} (hlow : -1 ≤ value) (hhigh : value ≤ 5) :
    ∃ op : Opcode, op.byte = Opcode.iconst0.byte + value.toUInt32.toUInt8 ∧
      op.operation? = some (.data (.intConst value.toInt)) := by
  have hlow : -1 ≤ value.toInt := Int32.le_iff_toInt_le.mp hlow
  have hhigh : value.toInt ≤ 5 := Int32.le_iff_toInt_le.mp hhigh
  have hvalue : value = Int32.ofInt value.toInt := (Int32.ofInt_toInt value).symm
  generalize value.toInt = n at *
  subst hvalue
  interval_cases n
  all_goals exact ⟨⟨_⟩, rfl, by decide +kernel⟩

theorem yields_int {value : Int32} (hlow : -32768 ≤ value) (hhigh : value ≤ 32767) :
    ∃ a', a.emitInt value = .ok a' ∧ a.Yields a' [(a.size, .int value)] := by
  unfold emitInt
  split
  · rename_i hsmall
    simp only [Bool.and_eq_true, decide_eq_true_eq] at hsmall
    obtain ⟨op, hbyte, hoperation⟩ := constant_of_small hsmall.1 hsmall.2
    obtain ⟨hdefined, hlayout⟩ := Reader.layout_of_operation hoperation
    rw [← hbyte]
    refine ⟨_, rfl, yields_op hdefined hlayout ?_⟩
    intro final
    refine ⟨rfl, rfl, ?_⟩
    unfold Instruction.intConstant?
    rw [hoperation]
    rfl
  · split
    · rename_i hbyte
      simp only [Bool.and_eq_true, decide_eq_true_eq] at hbyte
      have hoperation := Reader.namedRows.bipush
      obtain ⟨hdefined, hlayout⟩ := Reader.layout_of_operation hoperation
      have hread := Reader.reads_signedByte (a.size + 1) hlayout value.toInt8
      refine ⟨_, rfl, yields_operands (by rw [hlayout]; decide) (by rw [hlayout]; decide) hread ?_⟩
      intro final
      refine ⟨rfl, rfl, ?_⟩
      unfold Instruction.intConstant?
      rw [hoperation, ← byte_of_int hbyte.1 hbyte.2]
      rfl
    · have hoperation := Reader.namedRows.sipush
      obtain ⟨hdefined, hlayout⟩ := Reader.layout_of_operation hoperation
      rw [if_pos (by simp [hlow, hhigh])]
      have hread := Reader.reads_signedShort (a.size + 1) hlayout value.toInt16
      refine ⟨_, rfl, yields_operands (by rw [hlayout]; decide) (by rw [hlayout]; decide) hread ?_⟩
      intro final
      refine ⟨rfl, rfl, ?_⟩
      unfold Instruction.intConstant?
      rw [hoperation, ← short_of_int hlow hhigh]
      rfl

/-! ## Branches -/

section Fills

variable {final : Assembler} {pc : Nat} {chunks : List (List UInt8)} {ps : List Piece}

theorem fills_bytes {bs c : List UInt8} (h : final.Fills (.bytes bs) c) : c = bs := by
  cases h
  rfl

/-- The offset is the distance from `pc` to the label, as far as an int can hold it. -/
def Leads (a : Assembler) (pc : Nat) (l : LabelId) (offset : Int32) : Prop :=
  ∃ distance, a.Reaches pc l distance ∧ offset = Int32.ofInt distance

theorem Leads.reaches {l : LabelId} {offset : Int32} (h : final.Leads pc l offset)
    (hfinal : final.InReach) (hpc : pc ≤ final.size) : final.Reaches pc l offset.toInt := by
  obtain ⟨distance, ⟨position, hposition, rfl⟩, rfl⟩ := h
  have hwithin := hfinal.marks l position hposition
  have hsize := hfinal.size
  refine ⟨position, hposition, ?_⟩
  apply Int32.toInt_ofInt_of_le
  · omega
  · omega

theorem fills_wide {l : LabelId} {c : List UInt8} (h : final.Fills (.room pc true l) c) :
    ∃ offset, c = Reader.int32Bytes offset ∧ final.Leads pc l offset := by
  cases h with
  | wide h => exact ⟨_, rfl, _, h, rfl⟩

theorem fills_short {l : LabelId} {c : List UInt8} (h : final.Fills (.room pc false l) c) :
    ∃ offset : Int16, c = BigEndian.bytes16 offset.toUInt16 ∧ final.Reaches pc l offset.toInt := by
  cases h with
  | short h => exact ⟨_, rfl, h⟩

theorem fills_rooms {targets : List LabelId}
    (h : List.Forall₂ final.Fills (targets.flatMap fun l => [.room pc true l]) chunks) :
    ∃ offsets, chunks.flatten = offsets.flatMap Reader.int32Bytes ∧
      List.Forall₂ (final.Leads pc) targets offsets := by
  induction targets generalizing chunks with
  | nil =>
      cases h
      exact ⟨[], rfl, .nil⟩
  | cons l targets ih =>
      obtain ⟨c, rest, hc, hrest, rfl⟩ := List.forall₂_cons_left_iff.mp h
      obtain ⟨offset, rfl, hl⟩ := fills_wide hc
      obtain ⟨offsets, hoffsets, htargets⟩ := ih hrest
      exact ⟨offset :: offsets, by simp [hoffsets], .cons hl htargets⟩

theorem fills_pairs {pairs : List (Int32 × LabelId)}
    (h : List.Forall₂ final.Fills (pairs.flatMap fun (key, l) => [word key, .room pc true l])
      chunks) :
    ∃ cases : List (Int32 × Int32),
      chunks.flatten = (cases.flatMap fun c => Reader.int32Bytes c.1 ++ Reader.int32Bytes c.2) ∧
        List.Forall₂ (fun p c => c.1 = p.1 ∧ final.Leads pc p.2 c.2) pairs cases := by
  induction pairs generalizing chunks with
  | nil =>
      cases h
      exact ⟨[], rfl, .nil⟩
  | cons pair pairs ih =>
      obtain ⟨key, l⟩ := pair
      obtain ⟨k, chunks', hk, h', rfl⟩ := List.forall₂_cons_left_iff.mp h
      obtain ⟨c, rest, hc, hrest, rfl⟩ := List.forall₂_cons_left_iff.mp h'
      obtain ⟨offset, rfl, hl⟩ := fills_wide hc
      obtain ⟨cases, hcases, hpairs⟩ := ih hrest
      refine ⟨(key, offset) :: cases, ?_, .cons ⟨rfl, hl⟩ hpairs⟩
      rw [fills_bytes hk]
      simp [hcases, Reader.int32Bytes]

theorem fills_switchHead {op : Opcode} {default : LabelId}
    (h : List.Forall₂ final.Fills (switchHead pc op default ++ ps) chunks) :
    ∃ offset rest, final.Leads pc default offset ∧ List.Forall₂ final.Fills ps rest ∧
      chunks.flatten =
        op.byte :: (padding pc ++ (Reader.int32Bytes offset ++ rest.flatten)) := by
  obtain ⟨c, chunks', hc, h', rfl⟩ := List.forall₂_cons_left_iff.mp h
  obtain ⟨c', chunks'', hc', h'', rfl⟩ := List.forall₂_cons_left_iff.mp h'
  obtain ⟨c'', rest, hc'', hrest, rfl⟩ := List.forall₂_cons_left_iff.mp h''
  obtain ⟨offset, rfl, hdefault⟩ := fills_wide hc''
  rw [fills_bytes hc, fills_bytes hc']
  exact ⟨offset, rest, hdefault, hrest, by simp⟩

theorem fills_words (vs : List Int32) (h : List.Forall₂ final.Fills (vs.map word ++ ps) chunks) :
    ∃ rest, List.Forall₂ final.Fills ps rest ∧
      chunks.flatten = vs.flatMap Reader.int32Bytes ++ rest.flatten := by
  induction vs generalizing chunks with
  | nil => exact ⟨chunks, h, rfl⟩
  | cons v vs ih =>
      obtain ⟨c, chunks', hc, h', rfl⟩ := List.forall₂_cons_left_iff.mp h
      obtain ⟨rest, hrest, hflatten⟩ := ih h'
      refine ⟨rest, hrest, ?_⟩
      rw [fills_bytes hc]
      simp [hflatten, Reader.int32Bytes]

end Fills

theorem yields_jump {op : Opcode} (l : LabelId) (h : op.layout = .branch) :
    a.Yields (a.emitJump op l) [(a.size, .jump op l)] := by
  refine ⟨_, adds_emitJump a op l, fun final chunks _ _ hchunks => ?_⟩
  obtain ⟨c, chunks', hc, h', rfl⟩ := List.forall₂_cons_left_iff.mp hchunks
  obtain ⟨c', rest, hc', hnil, rfl⟩ := List.forall₂_cons_left_iff.mp h'
  obtain ⟨offset, rfl, hreaches⟩ := fills_short hc'
  cases hnil
  rw [fills_bytes hc]
  have hread := Reader.reads_instruction (Reader.isDefined_of_layout (by rw [h]; decide))
    (by rw [h]; decide) (Reader.reads_branch (a.size + 1) h offset)
  exact ⟨_, by simpa using Decodes.single hread, .cons ⟨_, hreaches, rfl⟩ .nil⟩

theorem yields_jumpWide {op : Opcode} (l : LabelId) (h : op.layout = .branchWide) :
    a.Yields (a.emitJumpWide op l) [(a.size, .jumpWide op l)] := by
  refine ⟨_, adds_emitJumpWide a op l, fun final chunks hfinal hsize hchunks => ?_⟩
  obtain ⟨c, chunks', hc, h', rfl⟩ := List.forall₂_cons_left_iff.mp hchunks
  obtain ⟨c', rest, hc', hnil, rfl⟩ := List.forall₂_cons_left_iff.mp h'
  obtain ⟨offset, rfl, hleads⟩ := fills_wide hc'
  have hpc := Nat.le_trans (adds_emitJumpWide a op l).le_size hsize
  cases hnil
  rw [fills_bytes hc]
  have hread := Reader.reads_instruction (Reader.isDefined_of_layout (by rw [h]; decide))
    (by rw [h]; decide) (Reader.reads_branchWide (a.size + 1) h offset)
  exact ⟨_, by simpa [Reader.int32Bytes] using Decodes.single hread,
    .cons ⟨_, hleads.reaches hfinal hpc, rfl⟩ .nil⟩

/-! ## Switches -/

theorem length_padding (pc : Nat) : (padding pc).length = (4 - (pc + 1) % 4) % 4 := by
  rw [padding, List.length_replicate]

theorem reads_switch {op : Opcode} {pc : Nat} {bs : List UInt8} {t : SwitchTable}
    (h : op.layout = .switch) (ht : (Reader.switch op).Reads bs (pc + 1) t) :
    Reader.instruction.Reads (op.byte :: bs) pc ⟨pc, op, false, .table t⟩ := by
  apply Reader.reads_instruction
  · apply Reader.isDefined_of_layout
    rw [h]
    decide
  · rw [h]
    decide
  · exact Reader.reads_table _ h ht

/-- The keys of a table switch count up from the lowest; none of them is too large for an int. -/
theorem reaches_consecutive {pc n : Nat} {low key : Int32} {targets : List LabelId}
    {offsets : List Int32} (hkey : key.toInt = low.toInt + n)
    (hrange : low.toInt + n + targets.length - 1 ≤ 2147483647)
    (h : List.Forall₂ (fun l offset => a.Reaches pc l offset.toInt) targets offsets) :
    List.Forall₂ (fun (l, k) c => c.1.toInt = low.toInt + k ∧ a.Reaches pc l c.2.toInt)
      (targets.zipIdx n) (Reader.consecutive key offsets) := by
  induction h generalizing n key with
  | nil => exact .nil
  | @cons l offset targets offsets hl hrest ih =>
      apply List.Forall₂.cons ⟨hkey, hl⟩
      cases hrest with
      | nil => exact .nil
      | @cons l' _ targets' _ hl' hrest' =>
          have hrange' : low.toInt + (n + 1 : Nat) + (l' :: targets').length - 1 ≤ 2147483647 := by
            simp at hrange ⊢
            omega
          apply ih _ hrange'
          have hlow := low.le_toInt
          have hone : (1 : Int32).toInt = 1 := rfl
          rw [Int32.toInt_add, hkey, hone, Int.bmod_eq_of_le]
          · simp
            omega
          · omega
          · simp at hrange ⊢
            omega

theorem yields_tableSwitch (default : LabelId) {low : Int32} {targets : List LabelId}
    (hne : targets ≠ []) (hrange : low.toInt + targets.length - 1 ≤ 2147483647) :
    a.Yields (a.emitTableSwitch default low targets)
      [(a.size, .tableSwitch default low targets)] := by
  have hlayout : Opcode.tableswitch.layout = .switch :=
    (Reader.layout_of_operation Reader.namedRows.tableswitch).2
  have hadds := adds_emitTableSwitch a default low targets
  refine ⟨_, hadds, fun final chunks hfinal hsize h => ?_⟩
  have hpc := Nat.le_trans hadds.le_size hsize
  rw [tableSwitchPieces, List.append_assoc] at h
  obtain ⟨offset, chunks', hdefault, h', hflatten⟩ := fills_switchHead h
  obtain ⟨rest, hrest, hflatten'⟩ :=
    fills_words [low, low + Int32.ofInt targets.length - 1] h'
  obtain ⟨offsets, hoffsets, hleads⟩ := fills_rooms hrest
  have hlength : targets.length = offsets.length := hleads.length_eq
  have hreaches : List.Forall₂ (fun l offset => final.Reaches a.size l offset.toInt)
      targets offsets := hleads.imp fun _ _ h => h.reaches hfinal hpc
  have hhigh : (low + Int32.ofInt targets.length - 1).toInt =
      low.toInt + offsets.length - 1 := by
    have hpos := List.length_pos_iff.mpr hne
    have hlow := low.le_toInt
    have hone : (1 : Int32).toInt = 1 := rfl
    have hsize : Int32.size = 4294967296 := rfl
    rw [Int32.toInt_sub, Int32.toInt_add, Int32.toInt_ofInt, hone, ← hlength, Int.add_bmod_bmod,
      Int.bmod_sub_bmod, Int.bmod_eq_of_le]
    · omega
    · omega
  have hoffsetsNe : offsets ≠ [] := by
    rintro rfl
    exact hne (List.length_eq_zero_iff.mp hlength)
  have hread := Reader.reads_tableSwitch (length_padding a.size) offset hoffsetsNe hhigh
  have hbytes : chunks.flatten = Opcode.tableswitch.byte :: (padding a.size ++
      (Reader.int32Bytes offset ++ (Reader.int32Bytes low ++
        (Reader.int32Bytes (low + Int32.ofInt targets.length - 1) ++
          offsets.flatMap Reader.int32Bytes)))) := by
    rw [hflatten, hflatten', hoffsets]
    simp
  rw [hbytes]
  have hlow : low.toInt = low.toInt + (0 : Nat) := by simp
  have hcases := reaches_consecutive hlow (by simpa using hrange) hreaches
  exact ⟨_, .single (reads_switch hlayout hread),
    .cons ⟨_, rfl, hdefault.reaches hfinal hpc, hcases⟩ .nil⟩

theorem stablySorted_sortedCases (keys : List Int32) (targets : List LabelId) :
    StablySorted (keys.zip targets) (sortedCases keys targets) := by
  have htrans (p q r : Int32 × LabelId) (h : decide (p.1 ≤ q.1) = true)
      (h' : decide (q.1 ≤ r.1) = true) : decide (p.1 ≤ r.1) = true := by
    simp only [decide_eq_true_eq] at h h' ⊢
    exact Int32.le_trans h h'
  have htotal (p q : Int32 × LabelId) : (decide (p.1 ≤ q.1) || decide (q.1 ≤ p.1)) = true := by
    simpa using Int32.le_total p.1 q.1
  have hperm := List.mergeSort_perm (keys.zip targets) fun p q => decide (p.1 ≤ q.1)
  constructor
  · simpa [sortedCases] using List.pairwise_mergeSort htrans htotal (keys.zip targets)
  · exact hperm
  · intro key
    have hsame : ((keys.zip targets).filter (·.1 = key)).Pairwise fun p q =>
        decide (p.1 ≤ q.1) = true := by
      apply List.pairwise_of_forall_mem_list
      intro p hp q hq
      simp only [List.mem_filter, decide_eq_true_eq] at hp hq ⊢
      rw [hp.2, hq.2]
      exact Int32.le_refl key
    have hsub := (List.sublist_mergeSort htrans htotal hsame List.filter_sublist).filter
      fun p => decide (p.1 = key)
    rw [List.filter_filter] at hsub
    simp only [Bool.and_self] at hsub
    exact (hsub.eq_of_length (hperm.filter _).length_eq.symm).symm

theorem length_sortedCases {keys : List Int32} {targets : List LabelId}
    (h : keys.length = targets.length) : (sortedCases keys targets).length = keys.length := by
  rw [sortedCases, List.length_mergeSort, List.length_zip, h, Nat.min_self]

/-- The bytes of a lookup switch at `pc` with the pairs of the table. -/
def lookupBytes (pc : Nat) (t : SwitchTable) : List UInt8 :=
  Opcode.lookupswitch.byte :: (padding pc ++ (Reader.int32Bytes t.default ++
    (Reader.int32Bytes (Int32.ofInt t.cases.length) ++
      t.cases.flatMap fun c => Reader.int32Bytes c.1 ++ Reader.int32Bytes c.2)))

theorem fills_lookupSwitch {final : Assembler} {pc : Nat} {default : LabelId} {keys : List Int32}
    {targets : List LabelId} {chunks : List (List UInt8)} (h : keys.length = targets.length)
    (hchunks : List.Forall₂ final.Fills (lookupSwitchPieces pc default keys targets) chunks) :
    ∃ t : SwitchTable, final.Leads pc default t.default ∧
      List.Forall₂ (fun p c => c.1 = p.1 ∧ final.Leads pc p.2 c.2)
        (sortedCases keys targets) t.cases ∧
      chunks.flatten = lookupBytes pc t := by
  rw [lookupSwitchPieces, List.append_assoc] at hchunks
  obtain ⟨offset, chunks', hdefault, hchunks', hflatten⟩ := fills_switchHead hchunks
  obtain ⟨rest, hrest, hflatten'⟩ := fills_words [Int32.ofInt keys.length] hchunks'
  obtain ⟨cases, hcases, hleads⟩ := fills_pairs hrest
  have hcount : keys.length = cases.length := by
    rw [← length_sortedCases h, hleads.length_eq]
  refine ⟨⟨offset, cases⟩, hdefault, hleads, ?_⟩
  rw [hflatten, hflatten', hcases, hcount, lookupBytes]
  simp

theorem reads_lookupBytes (pc : Nat) {t : SwitchTable} (h : t.cases.length < 2 ^ 31) :
    Reader.instruction.Reads (lookupBytes pc t) pc ⟨pc, .lookupswitch, false, .table t⟩ := by
  have hlayout : Opcode.lookupswitch.layout = .switch :=
    (Reader.layout_of_operation Reader.namedRows.lookupswitch).2
  exact reads_switch hlayout (Reader.reads_lookupSwitch (length_padding pc) t.default h)

theorem yields_lookupSwitch (default : LabelId) {keys : List Int32} {targets : List LabelId}
    (h : keys.length = targets.length) :
    ∃ a', a.emitLookupSwitch default keys targets = .ok a' ∧
      (a'.size < 2 ^ 31 → a.Yields a' [(a.size, .lookupSwitch default keys targets)]) := by
  obtain ⟨a', hemit, hadds⟩ := adds_emitLookupSwitch a default h
  refine ⟨a', hemit, fun hsize => ⟨_, hadds, fun final chunks hfinal hle hchunks => ?_⟩⟩
  have hpc := Nat.le_trans hadds.le_size hle
  obtain ⟨t, hdefault, hleads, hbytes⟩ := fills_lookupSwitch h hchunks
  have hfew : t.cases.length < 2 ^ 31 := by
    have hend := hadds.size
    rw [← length_flatten_of_fills hchunks, hbytes] at hend
    simp [lookupBytes, Reader.int32Bytes, BigEndian.bytes32] at hend
    omega
  have hreaches := hleads.imp fun _ _ h => And.intro h.1 (h.2.reaches hfinal hpc)
  rw [hbytes]
  exact ⟨_, .single (reads_lookupBytes a.size hfew), .cons ⟨_, rfl, hdefault.reaches hfinal hpc, _,
    stablySorted_sortedCases keys targets, hreaches⟩ .nil⟩

/-! ## All calls -/

theorem yields_perform {e : Emission} (h : e.Matches) (hsize : (a.perform e).size < 2 ^ 31) :
    a.Yields (a.perform e) (e.instructions a.size) := by
  cases e with
  | plain ops => exact yields_plain ops h
  | byte op operand =>
      have h : op.layout = .unsignedByte := h
      exact yields_operands (by rw [h]; decide) (by rw [h]; decide)
        (Reader.reads_unsignedByte _ h operand) fun _ => rfl
  | int8 op operand =>
      have h : op.layout = .signedByte := h
      exact yields_operands (by rw [h]; decide) (by rw [h]; decide)
        (Reader.reads_signedByte _ h operand) fun _ => rfl
  | uint16 op operand =>
      have h : op.layout = .unsignedShort := h
      exact yields_operands (by rw [h]; decide) (by rw [h]; decide)
        (Reader.reads_unsignedShort _ h operand) fun _ => rfl
  | int16 op operand =>
      have h : op.layout = .signedShort := h
      exact yields_operands (by rw [h]; decide) (by rw [h]; decide)
        (Reader.reads_signedShort _ h operand) fun _ => rfl
  | increment index delta => exact yields_increment index delta
  | localAccess op index => exact yields_localAccess index h
  | int value =>
      obtain ⟨a', hemit, hyields⟩ := yields_int (a := a) h.1 h.2
      rw [perform, hemit]
      exact hyields
  | invokeInterface index count =>
      have h : Opcode.invokeinterface.layout = .indexAndCount :=
        (Reader.layout_of_operation Reader.namedRows.invokeinterface).2
      have hread := Reader.reads_indexAndCount (a.size + 1) h index count 0
      exact yields_operands (by rw [h]; decide) (by rw [h]; decide) hread fun _ => rfl
  | multiNewArray index dimensions =>
      have h : Opcode.multianewarray.layout = .indexAndDimensions :=
        (Reader.layout_of_operation Reader.namedRows.multianewarray).2
      have hread := Reader.reads_indexAndDimensions (a.size + 1) h index dimensions
      exact yields_operands (by rw [h]; decide) (by rw [h]; decide) hread fun _ => rfl
  | newLabel name => exact yields_nil rfl rfl
  | mark l =>
      rw [perform, mark]
      split
      · exact yields_nil rfl rfl
      · exact yields_nil rfl rfl
  | here name => exact yields_nil rfl rfl
  | jump op l => exact yields_jump l h
  | jumpWide op l => exact yields_jumpWide l h
  | tableSwitch default low targets => exact yields_tableSwitch default h.1 h.2
  | lookupSwitch default keys targets =>
      obtain ⟨a', hemit, hyields⟩ := yields_lookupSwitch (a := a) default h
      rw [perform, hemit] at hsize ⊢
      exact hyields hsize

def assembled (calls : List Emission) : Assembler := calls.foldl perform {}

theorem marksWithin_foldl (calls : List Emission) (h : a.MarksWithin) :
    (calls.foldl perform a).MarksWithin := by
  induction calls generalizing a with
  | nil => exact h
  | cons e calls ih => exact ih (h.perform e)

theorem yields_foldl {calls : List Emission} (h : ∀ e ∈ calls, e.Matches)
    (hsize : (calls.foldl perform a).size < 2 ^ 31) :
    a.Yields (calls.foldl perform a) (a.emitted calls) := by
  induction calls generalizing a with
  | nil => exact yields_nil rfl rfl
  | cons e calls ih =>
      have hothers := ih (fun e' he' => h e' (List.mem_cons_of_mem _ he')) hsize
      have hfirst := yields_perform (h e List.mem_cons_self)
        (Nat.lt_of_le_of_lt hothers.le_size hsize)
      exact hfirst.trans hothers

/-- Assembled code decodes to one instruction for each that was emitted, in order, at the offset
where it was emitted, with its operands, and with branches that lead to their labels. -/
theorem decode_assemble {calls : List Emission} {code : Array UInt8}
    (hmatches : ∀ e ∈ calls, e.Matches) (hcode : (assembled calls).assemble = .ok code)
    (hsize : code.size < 2 ^ 31) :
    ∃ instructions, decode code = (instructions, none) ∧
      List.Forall₂ (assembled calls).Reflects (emitted {} calls) instructions := by
  have hcalls : (assembled calls).size < 2 ^ 31 := size_assemble hcode ▸ hsize
  obtain ⟨ps, hadds, hread⟩ := yields_foldl (a := {}) hmatches hcalls
  obtain ⟨chunks, hchunks, hflatten⟩ := assemble_pieces hadds hcode
  have hreach : (assembled calls).InReach := ⟨marksWithin_foldl calls marksWithin_empty, hcalls⟩
  obtain ⟨is, his, hreflects⟩ := hread _ chunks hreach (Nat.le_refl _) hchunks
  rw [← hflatten] at his
  exact ⟨is, his.decode_eq, hreflects⟩

def countdown : List Emission :=
  [.newLabel "end", .int 300, .localAccess ⟨0x36⟩ 4, .here "loop", .increment 4 (-1),
    .localAccess ⟨0x15⟩ 4, .jump ⟨0x99⟩ ⟨0⟩, .localAccess ⟨0x15⟩ 4,
    .tableSwitch ⟨1⟩ (-1) [⟨0⟩, ⟨1⟩], .mark ⟨0⟩, .plain [⟨0x00⟩, ⟨0xb1⟩]]

def countdownCode : Array UInt8 :=
  #[17, 1, 44, 54, 4, 132, 4, 255, 21, 4, 153, 0, 26, 21, 4, 170, 255, 255, 255, 246,
    255, 255, 255, 255, 0, 0, 0, 0, 0, 0, 0, 21, 255, 255, 255, 246, 0, 177]

theorem decode_assemble_countdown :
    (assembled countdown).assemble = .ok countdownCode ∧
      ∃ instructions, decode countdownCode = (instructions, none) ∧
        List.Forall₂ (assembled countdown).Reflects (emitted {} countdown) instructions := by
  have hmatches : ∀ e ∈ countdown, e.Matches := by decide +kernel
  have hcode : (assembled countdown).assemble = .ok countdownCode := by decide +kernel
  exact ⟨hcode, decode_assemble hmatches hcode (by decide)⟩

end Assembler

end ClassEngine.Code
