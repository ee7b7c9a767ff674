import ClassEngine.Code.Instruction
import ClassEngine.Proofs.ClassFile.Words
import Mathlib.Data.List.Basic

/-!
# What readers make of code

A reader reads the bytes at its position to a value, whatever stands around them.  Readers that
are put together read bytes that are put together, and the bytes of instructions, one after
another, decode to these instructions.
-/

namespace ClassEngine.Code

def StandsAt (code : Array UInt8) (pos : Nat) (bs : List UInt8) : Prop :=
  ∃ front rest, code.toList = front ++ (bs ++ rest) ∧ front.length = pos

section StandsAt

variable {code : Array UInt8} {pos : Nat} {xs ys bs : List UInt8}

theorem standsAt_toList (code : Array UInt8) : StandsAt code 0 code.toList :=
  ⟨[], [], by simp, rfl⟩

theorem StandsAt.left (h : StandsAt code pos (xs ++ ys)) : StandsAt code pos xs := by
  obtain ⟨front, rest, hcode, hpos⟩ := h
  exact ⟨front, ys ++ rest, by rw [hcode, List.append_assoc], hpos⟩

theorem StandsAt.right (h : StandsAt code pos (xs ++ ys)) :
    StandsAt code (pos + xs.length) ys := by
  obtain ⟨front, rest, hcode, hpos⟩ := h
  exact ⟨front ++ xs, rest, by simp [hcode], by simp [hpos]⟩

theorem StandsAt.le_size (h : StandsAt code pos bs) : pos + bs.length ≤ code.size := by
  obtain ⟨front, rest, hcode, hpos⟩ := h
  have hsize := congrArg List.length hcode
  simp at hsize
  omega

theorem StandsAt.getElem? (h : StandsAt code pos bs) {i : Nat} (hi : i < bs.length) :
    code[pos + i]? = bs[i]? := by
  obtain ⟨front, rest, hcode, hpos⟩ := h
  rw [← Array.getElem?_toList, hcode, List.getElem?_append_right (by omega),
    List.getElem?_append_left (by omega)]
  congr 1
  omega

theorem StandsAt.read16? {w : UInt16} (h : StandsAt code pos (BigEndian.bytes16 w)) :
    BigEndian.read16? code pos = some w := by
  have h0 : code[pos]? = some (w >>> 8).toUInt8 := h.getElem? (Nat.zero_lt_succ _)
  have h1 : code[pos + 1]? = some w.toUInt8 := h.getElem? (i := 1) (by simp [BigEndian.bytes16])
  simp [BigEndian.read16?, h0, h1, BigEndian.join16_bytes16]

theorem StandsAt.read32? {w : UInt32} (h : StandsAt code pos (BigEndian.bytes32 w)) :
    BigEndian.read32? code pos = some w := by
  have h0 : code[pos]? = some (w >>> 24).toUInt8 :=
    h.getElem? (i := 0) (by simp [BigEndian.bytes32])
  have h1 : code[pos + 1]? = some (w >>> 16).toUInt8 :=
    h.getElem? (i := 1) (by simp [BigEndian.bytes32])
  have h2 : code[pos + 2]? = some (w >>> 8).toUInt8 :=
    h.getElem? (i := 2) (by simp [BigEndian.bytes32])
  have h3 : code[pos + 3]? = some w.toUInt8 :=
    h.getElem? (i := 3) (by simp [BigEndian.bytes32])
  simp [BigEndian.read32?, h0, h1, h2, h3, BigEndian.join32_bytes32]

end StandsAt

namespace Reader

variable {α β : Type} {x : Reader α} {bs xs ys : List UInt8} {pos : Nat} {v : α} {w : β}

/-- The bytes, where they stand at `pos`, are read to the value. -/
def Reads (x : Reader α) (bs : List UInt8) (pos : Nat) (v : α) : Prop :=
  ∀ code, StandsAt code pos bs → x ⟨code, pos⟩ = .ok v ⟨code, pos + bs.length⟩

theorem bind_apply (x : Reader α) (f : α → Reader β) (c : Cursor) :
    (x >>= f) c =
      match x c with
      | .ok v c' => f v c'
      | .error e c' => .error e c' := by
  show EStateM.bind x f c = _
  rw [EStateM.bind]
  cases x c <;> rfl

theorem bind_eq_ok {f : α → Reader β} {c c' : Cursor} (h : (x >>= f) c = .ok w c') :
    ∃ v middle, x c = .ok v middle ∧ f v middle = .ok w c' := by
  rw [bind_apply] at h
  cases hx : x c with
  | ok v middle => exact ⟨v, middle, rfl, by rwa [hx] at h⟩
  | error e middle =>
      rw [hx] at h
      contradiction

theorem take_eq_ok {n : Nat} {value? : Array UInt8 → Nat → Option α} {c c' : Cursor}
    (h : take n value? c = .ok v c') :
    value? c.code c.pos = some v ∧ c' = { c with pos := c.pos + n } := by
  unfold take at h
  split at h
  · rename_i hv
    cases h
    exact ⟨hv, rfl⟩
  · contradiction

theorem need_eq_ok {count : Nat} {c c' : Cursor} (h : need count c = .ok () c') :
    c' = c ∧ c.pos + count ≤ c.code.size := by
  rw [need] at h
  split at h
  · contradiction
  · rename_i hsize
    cases h
    exact ⟨rfl, Nat.le_of_not_lt hsize⟩

theorem reads_pure (v : α) : Reads (pure v : Reader α) [] pos v := fun _ _ => rfl

theorem Reads.bind {f : α → Reader β} (hx : Reads x xs pos v)
    (hf : Reads (f v) ys (pos + xs.length) w) : Reads (x >>= f) (xs ++ ys) pos w := by
  intro code h
  rw [bind_apply, hx code h.left, List.length_append, ← Nat.add_assoc]
  exact hf code h.right

theorem Reads.bind_last {f : α → Reader β} (hx : Reads x bs pos v)
    (hf : Reads (f v) [] (pos + bs.length) w) : Reads (x >>= f) bs pos w := by
  have h := hx.bind hf
  rwa [List.append_nil] at h

theorem Reads.map (f : α → β) (hx : Reads x bs pos v) :
    Reads (do return f (← x)) bs pos (f v) :=
  hx.bind_last (reads_pure (f v))

theorem reads_get {f : Cursor → Reader α} (h : ∀ code, Reads (f ⟨code, pos⟩) bs pos v) :
    Reads (get >>= f) bs pos v := by
  intro code hcode
  rw [bind_apply]
  exact h code code hcode

theorem Reads.need {count : Nat} (hx : Reads x bs pos v) (hcount : count ≤ bs.length) :
    Reads (do need count; x) bs pos v := by
  intro code h
  have hsize : ¬ code.size < pos + count := by
    have := h.le_size
    omega
  rw [bind_apply, Reader.need, if_neg hsize]
  exact hx code h

/-! ## Words -/

theorem reads_u8 (b : UInt8) : Reads u8 [b] pos b := by
  intro code h
  have hb : code[pos]? = some b := h.getElem? Nat.zero_lt_one
  simp [u8, take, hb]

theorem reads_u16 (w : UInt16) : Reads u16 (BigEndian.bytes16 w) pos w := by
  intro code h
  simp [u16, take, h.read16?, BigEndian.bytes16]

theorem reads_u32 (w : UInt32) : Reads u32 (BigEndian.bytes32 w) pos w := by
  intro code h
  simp [u32, take, h.read32?, BigEndian.bytes32]

theorem reads_i8 (b : Int8) : Reads i8 [b.toUInt8] pos b := (reads_u8 b.toUInt8).map _

theorem reads_i16 (w : Int16) : Reads i16 (BigEndian.bytes16 w.toUInt16) pos w :=
  (reads_u16 w.toUInt16).map _

theorem reads_i32 (w : Int32) : Reads i32 (BigEndian.bytes32 w.toUInt32) pos w :=
  (reads_u32 w.toUInt32).map _

theorem reads_opcode (op : Opcode) : Reads opcode [op.byte] pos op := (reads_u8 op.byte).map _

/-! ## Rows of the instruction set -/

/-- What the instructions do whose forms are read or written one by one. -/
structure NamedRows : Prop where
  bipush : Opcode.bipush.operation? = some (.data .pushByte)
  sipush : Opcode.sipush.operation? = some (.data .pushShort)
  iinc : Opcode.iinc.operation? = some (.data .increment)
  tableswitch : Opcode.tableswitch.operation? = some (.jump .tableSwitch)
  lookupswitch : Opcode.lookupswitch.operation? = some (.jump .lookupSwitch)
  invokeinterface : Opcode.invokeinterface.operation? = some (.invoke .interface)
  wide : Opcode.wide.operation? = some .wide
  multianewarray : Opcode.multianewarray.operation? = some (.array .createNested)

theorem namedRows : NamedRows := by
  constructor <;> decide +kernel

/-! ## Switches -/

def int32Bytes (v : Int32) : List UInt8 := BigEndian.bytes32 v.toUInt32

def consecutive : Int32 → List Int32 → List (Int32 × Int32)
  | _, [] => []
  | key, offset :: offsets => (key, offset) :: consecutive (key + 1) offsets

theorem reads_align {bs : List UInt8} (h : bs.length = (4 - pos % 4) % 4) :
    Reads align bs pos () := by
  intro code _
  have hpos : pos + bs.length = (pos + 3) / 4 * 4 := by omega
  rw [hpos]
  rfl

theorem reads_tableCases (key : Int32) (offsets : List Int32) :
    Reads (tableCases key offsets.length) (offsets.flatMap int32Bytes) pos
      (consecutive key offsets) := by
  induction offsets generalizing key pos with
  | nil => exact reads_pure []
  | cons offset offsets ih => exact (reads_i32 offset).bind ((ih (key + 1)).map _)

theorem reads_lookupCases (cases : List (Int32 × Int32)) :
    Reads (lookupCases cases.length)
      (cases.flatMap fun c => int32Bytes c.1 ++ int32Bytes c.2) pos cases := by
  induction cases generalizing pos with
  | nil => exact reads_pure []
  | cons c cases ih =>
      rw [List.flatMap_cons, List.append_assoc]
      exact (reads_i32 c.1).bind ((reads_i32 c.2).bind (ih.map _))

theorem reads_tableSwitch {padding : List UInt8} {low high : Int32} {offsets : List Int32}
    (hpadding : padding.length = (4 - pos % 4) % 4) (default : Int32) (hne : offsets ≠ [])
    (hhigh : high.toInt = low.toInt + offsets.length - 1) :
    Reads (switch .tableswitch)
      (padding ++ (int32Bytes default ++ (int32Bytes low ++ (int32Bytes high ++
        offsets.flatMap int32Bytes)))) pos ⟨default, consecutive low offsets⟩ := by
  have hop := namedRows.tableswitch
  have hpos := List.length_pos_iff.mpr hne
  have hlt : ¬ high < low := by
    rw [Int32.lt_iff_toInt_lt]
    omega
  have hcount : (high.toInt - low.toInt + 1).toNat = offsets.length := by omega
  unfold switch
  apply (reads_align hpadding).bind
  apply (reads_i32 default).bind
  rw [hop]
  apply (reads_i32 low).bind
  apply (reads_i32 high).bind
  rw [if_neg hlt, hcount]
  apply Reads.need ((reads_tableCases low offsets).map _)
  simp [int32Bytes, BigEndian.bytes32, Nat.mul_comm]

theorem reads_lookupSwitch {padding : List UInt8} {cases : List (Int32 × Int32)}
    (hpadding : padding.length = (4 - pos % 4) % 4) (default : Int32)
    (hcount : cases.length < 2 ^ 31) :
    Reads (switch .lookupswitch)
      (padding ++ (int32Bytes default ++ (int32Bytes (Int32.ofInt cases.length) ++
        cases.flatMap fun c => int32Bytes c.1 ++ int32Bytes c.2))) pos ⟨default, cases⟩ := by
  have hop := namedRows.lookupswitch
  have htoInt : (Int32.ofInt cases.length).toInt = cases.length := by
    apply Int32.toInt_ofInt_of_le
    · omega
    · omega
  have hlt : ¬ Int32.ofInt cases.length < 0 := by
    rw [Int32.lt_iff_toInt_lt, htoInt]
    simp
  unfold switch
  apply (reads_align hpadding).bind
  apply (reads_i32 default).bind
  rw [hop]
  apply (reads_i32 _).bind
  rw [if_neg hlt, htoInt, Int.toNat_natCast]
  apply Reads.need ((reads_lookupCases cases).map _)
  simp [int32Bytes, BigEndian.bytes32, Nat.mul_comm]

/-! ## Operands -/

section Operands

variable {op : Opcode} (pos)

theorem reads_unsignedByte (h : op.layout = .unsignedByte) (b : UInt8) :
    Reads (operands op) [b] pos (.values [(b.toNat : Int)]) := by
  unfold operands
  rw [h]
  exact (reads_u8 b).map _

theorem reads_signedByte (h : op.layout = .signedByte) (b : Int8) :
    Reads (operands op) [b.toUInt8] pos (.values [b.toInt]) := by
  unfold operands
  rw [h]
  exact (reads_i8 b).map _

theorem reads_unsignedShort (h : op.layout = .unsignedShort) (w : UInt16) :
    Reads (operands op) (BigEndian.bytes16 w) pos (.values [(w.toNat : Int)]) := by
  unfold operands
  rw [h]
  exact (reads_u16 w).map _

theorem reads_signedShort (h : op.layout = .signedShort) (w : Int16) :
    Reads (operands op) (BigEndian.bytes16 w.toUInt16) pos (.values [w.toInt]) := by
  unfold operands
  rw [h]
  exact (reads_i16 w).map _

theorem reads_branch (h : op.layout = .branch) (w : Int16) :
    Reads (operands op) (BigEndian.bytes16 w.toUInt16) pos (.values [w.toInt]) := by
  unfold operands
  rw [h]
  exact (reads_i16 w).map _

theorem reads_branchWide (h : op.layout = .branchWide) (w : Int32) :
    Reads (operands op) (BigEndian.bytes32 w.toUInt32) pos (.values [w.toInt]) := by
  unfold operands
  rw [h]
  exact (reads_i32 w).map _

theorem reads_localAndDelta (h : op.layout = .localAndDelta) (index : UInt8) (delta : Int8) :
    Reads (operands op) [index, delta.toUInt8] pos
      (.values [(index.toNat : Int), delta.toInt]) := by
  unfold operands
  rw [h]
  exact (reads_u8 index).bind ((reads_i8 delta).map _)

theorem reads_indexAndCount (h : op.layout = .indexAndCount) (index : UInt16) (count zero : UInt8) :
    Reads (operands op) (BigEndian.bytes16 index ++ [count, zero]) pos
      (.values [(index.toNat : Int), (count.toNat : Int)]) := by
  unfold operands
  rw [h]
  exact (reads_u16 index).bind ((reads_u8 count).bind ((reads_u8 zero).map _))

theorem reads_indexAndDimensions (h : op.layout = .indexAndDimensions) (index : UInt16)
    (dimensions : UInt8) :
    Reads (operands op) (BigEndian.bytes16 index ++ [dimensions]) pos
      (.values [(index.toNat : Int), (dimensions.toNat : Int)]) := by
  unfold operands
  rw [h]
  exact (reads_u16 index).bind ((reads_u8 dimensions).map _)

theorem reads_none (h : op.layout = .none) : Reads (operands op) [] pos (.values []) := by
  unfold operands
  rw [h]
  exact reads_pure _

theorem reads_table {t : SwitchTable} (h : op.layout = .switch) (ht : Reads (switch op) bs pos t) :
    Reads (operands op) bs pos (.table t) := by
  unfold operands
  rw [h]
  exact ht.map _

end Operands

/-! ## Instructions -/

theorem isDefined_of_layout {op : Opcode} (h : op.layout ≠ .none) : op.isDefined = true := by
  unfold Opcode.isDefined
  cases hrow : op.row? with
  | none =>
      unfold Opcode.layout Opcode.operation? at h
      rw [hrow] at h
      exact absurd rfl h
  | some row => rfl

theorem layout_of_operation {op : Opcode} {o : Operation} (h : op.operation? = some o) :
    op.isDefined = true ∧ op.layout = o.layout := by
  constructor
  · unfold Opcode.isDefined
    unfold Opcode.operation? at h
    obtain ⟨row, hrow, -⟩ := Option.map_eq_some_iff.mp h
    rw [hrow]
    rfl
  · unfold Opcode.layout
    rw [h]

theorem operation?_of_isDefined {op : Opcode} (h : op.isDefined = true) :
    ∃ o, op.operation? = some o ∧ o.layout = op.layout := by
  unfold Opcode.isDefined at h
  obtain ⟨row, hrow⟩ := Option.isSome_iff_exists.mp h
  have hoperation : op.operation? = some row.operation := by
    unfold Opcode.operation?
    rw [hrow]
    rfl
  refine ⟨row.operation, hoperation, ?_⟩
  unfold Opcode.layout
  rw [hoperation]

theorem reads_instruction {op : Opcode} {vs : Operands} (hdefined : op.isDefined = true)
    (hwide : op.layout ≠ .widened) (h : Reads (operands op) bs (pos + 1) vs) :
    Reads instruction (op.byte :: bs) pos ⟨pos, op, false, vs⟩ := by
  obtain ⟨o, ho, hlayout⟩ := operation?_of_isDefined hdefined
  have hop : o ≠ .wide := by
    intro heq
    rw [heq] at hlayout
    exact hwide hlayout.symm
  unfold instruction
  apply reads_get
  intro code
  apply (reads_opcode op).bind
  rw [ho]
  cases o with
  | wide => exact absurd rfl hop
  | data | jump | array | object | invoke | returnValue | returnVoid => exact h.map _

theorem reads_wide {op : Opcode} {vs : List Int} (h : Reads (widened op) bs (pos + 2) vs) :
    Reads instruction ([Opcode.wide.byte, op.byte] ++ bs) pos ⟨pos, op, true, .values vs⟩ := by
  have hwide := namedRows.wide
  unfold instruction
  apply reads_get
  intro code
  apply (reads_opcode .wide).bind
  rw [hwide]
  exact (reads_opcode op).bind (h.map _)

theorem reads_widenedLocal {op : Opcode} (h : op.operation? ≠ some (.data .increment))
    (index : UInt16) :
    Reads instruction ([Opcode.wide.byte, op.byte] ++ BigEndian.bytes16 index) pos
      ⟨pos, op, true, .values [(index.toNat : Int)]⟩ := by
  apply reads_wide
  unfold widened
  apply (reads_u16 index).bind_last
  split
  · contradiction
  · exact reads_pure _

theorem reads_widenedIncrement (index : UInt16) (delta : Int16) :
    Reads instruction ([Opcode.wide.byte, Opcode.iinc.byte] ++ (BigEndian.bytes16 index ++
      BigEndian.bytes16 delta.toUInt16)) pos
      ⟨pos, .iinc, true, .values [(index.toNat : Int), delta.toInt]⟩ := by
  have hiinc := namedRows.iinc
  apply reads_wide
  unfold widened
  apply (reads_u16 index).bind
  rw [hiinc]
  exact (reads_i16 delta).map _

end Reader

/-! ## Code -/

/-- Bytes, from `pos` on, and the instructions they are read to. -/
inductive Decodes : Nat → List UInt8 → List Instruction → Prop where
  | nil (pos : Nat) : Decodes pos [] []
  | cons {pos : Nat} {b : UInt8} {bs rest : List UInt8} {i : Instruction}
      {instructions : List Instruction} (first : Reader.instruction.Reads (b :: bs) pos i)
      (others : Decodes (pos + (b :: bs).length) rest instructions) :
      Decodes pos (b :: bs ++ rest) (i :: instructions)

namespace Decodes

variable {pos : Nat} {b : UInt8} {bs xs ys : List UInt8} {is js : List Instruction}

theorem single {i : Instruction} (h : Reader.instruction.Reads (b :: bs) pos i) :
    Decodes pos (b :: bs) [i] := by
  have := Decodes.cons h (.nil _)
  rwa [List.append_nil] at this

theorem append (hx : Decodes pos xs is) (hy : Decodes (pos + xs.length) ys js) :
    Decodes pos (xs ++ ys) (is ++ js) := by
  induction hx with
  | nil pos => simpa using hy
  | cons first _ ih =>
      rw [List.append_assoc]
      apply Decodes.cons first
      apply ih
      rwa [Nat.add_assoc, ← List.length_append]

theorem decodeLoop_eq {code : Array UInt8} {fuel : Nat} (h : Decodes pos bs is)
    (hcode : StandsAt code pos bs) (hend : pos + bs.length = code.size)
    (hfuel : bs.length ≤ fuel) : decodeLoop fuel ⟨code, pos⟩ = (is, none) := by
  induction h generalizing fuel with
  | nil pos =>
      have hmore : Cursor.hasMore ⟨code, pos⟩ = false := by
        simpa [Cursor.hasMore] using hend.ge
      cases fuel with
      | zero => rfl
      | succ fuel => simp [decodeLoop, hmore]
  | @cons pos b bs rest i is first _ ih =>
      cases fuel with
      | zero => simp at hfuel
      | succ fuel =>
          have hmore : Cursor.hasMore ⟨code, pos⟩ = true := by
            simp [Cursor.hasMore] at hend ⊢
            omega
          have hrest : decodeLoop fuel ⟨code, pos + (b :: bs).length⟩ = (is, none) := by
            apply ih hcode.right
            · rw [Nat.add_assoc, ← List.length_append]
              exact hend
            · simp at hfuel ⊢
              omega
          have hfirst : Reader.instruction.run ⟨code, pos⟩ = .ok i ⟨code, pos + (b :: bs).length⟩ :=
            first code hcode.left
          simp only [decodeLoop, hmore, if_true, hfirst, hrest]

theorem decode_eq {code : Array UInt8} (h : Decodes 0 code.toList is) :
    decode code = (is, none) :=
  h.decodeLoop_eq (standsAt_toList code) (by simp) (by simp)

end Decodes

end ClassEngine.Code
