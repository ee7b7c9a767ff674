import ClassEngine.Code.Listing
import ClassEngine.Proofs.Code.Decoding

/-!
# Decoded instructions tile the code

Whatever the bytes are, the instructions that decoding returns stand one after another from the
start of the code, up to its end or to the first instruction that cannot be read.  Each takes the
bytes that its opcode and its operands call for, and has the operands that a listing asks it for.
-/

namespace ClassEngine.Code

/-! ## The space an instruction takes -/

namespace Instruction

/-- The bytes after the opcode of a switch: it is padded to a multiple of four. -/
def tableLength (i : Instruction) (t : SwitchTable) : Nat :=
  let padding := 3 - i.pc % 4
  if i.op.operation? = some (.jump .tableSwitch) then padding + (12 + 4 * t.cases.length)
  else padding + (8 + 8 * t.cases.length)

def length (i : Instruction) : Nat :=
  match i.operands with
  | .table t => 1 + i.tableLength t
  | .values vs => if i.widened then 2 + 2 * vs.length else 1 + i.op.layout.size?.getD 0

def stop (i : Instruction) : Nat := i.pc + i.length

theorem lt_stop (i : Instruction) : i.pc < i.stop := by
  unfold stop length
  split
  · omega
  · split <;> omega

end Instruction

/-- The instructions are read from the code one after another, from `pos` to `stop`. -/
inductive Tiles (code : Array UInt8) : Nat → List Instruction → Nat → Prop
  | nil (pos : Nat) : Tiles code pos [] pos
  | cons {i : Instruction} {is : List Instruction} {stop : Nat}
      (first : Reader.instruction.run ⟨code, i.pc⟩ = .ok i ⟨code, i.stop⟩)
      (nonempty : i.pc < i.stop) (within : i.stop ≤ code.size)
      (others : Tiles code i.stop is stop) : Tiles code i.pc (i :: is) stop

/-! ## The space a reader takes -/

/-- The second cursor is `n` bytes behind the first, and not behind the end of the code unless the
first is. -/
structure Cursor.Advances (c : Cursor) (n : Nat) (c' : Cursor) : Prop where
  code : c'.code = c.code
  pos : c'.pos = c.pos + n
  within : c.pos ≤ c.code.size → c'.pos ≤ c'.code.size

theorem Cursor.Advances.eq {c c' : Cursor} {n : Nat} (h : c.Advances n c') :
    c' = ⟨c.code, c.pos + n⟩ := by
  obtain ⟨hcode, hpos, -⟩ := h
  rw [← hcode, ← hpos]

namespace Reader

variable {α β : Type} {x : Reader α} {f : α → Reader β} {R : Nat → α → Prop} {S : Nat → β → Prop}
  {n : Nat} {op : Opcode} {c c' : Cursor}

/-- Where the reader succeeds, the relation holds of the number of bytes that it takes and of what
it makes of them. -/
def Takes (x : Reader α) (R : Nat → α → Prop) : Prop :=
  ∀ c v c', x c = .ok v c' → ∃ n, c.Advances n c' ∧ R n v

theorem Takes.elim {v : α} (h : x c = .ok v c') (hx : Takes x R) :
    ∃ n, c.Advances n c' ∧ R n v :=
  hx c v c' h

theorem takes_pure {v : α} (h : R 0 v) : Takes (pure v : Reader α) R := by
  rintro c _ _ ⟨⟩
  exact ⟨0, ⟨rfl, rfl, id⟩, h⟩

theorem takes_throw (e : ReadError) : Takes (throw e : Reader α) R := nofun

theorem Takes.bind (hx : Takes x R)
    (hf : ∀ n v, R n v → Takes (f v) fun m w => S (n + m) w) : Takes (x >>= f) S := by
  intro c w c' h
  obtain ⟨v, middle, hv, hw⟩ := bind_eq_ok h
  obtain ⟨n, first, hR⟩ := hx c v middle hv
  obtain ⟨m, second, hS⟩ := hf n v hR middle w c' hw
  refine ⟨n + m, ⟨second.code.trans first.code, ?_, fun h => second.within (first.within h)⟩, hS⟩
  rw [second.pos, first.pos, Nat.add_assoc]

theorem Takes.map {g : α → β} (hx : Takes x R) (hg : ∀ n v, R n v → S n (g v)) :
    Takes (do return g (← x)) S :=
  hx.bind fun n v hv => takes_pure (hg n v hv)

theorem Takes.need (hx : Takes x R) (count : Nat) : Takes (do need count; x) R := by
  intro c v c' h
  obtain ⟨_, middle, hneed, hx'⟩ := bind_eq_ok h
  obtain ⟨rfl, -⟩ := need_eq_ok hneed
  exact hx _ v c' hx'

/-! ## Words -/

theorem lt_size_of_read16? {code : Array UInt8} {pos : Nat} {w : UInt16}
    (h : BigEndian.read16? code pos = some w) : pos + 1 < code.size := by
  simp only [BigEndian.read16?, Option.bind_eq_bind, Option.bind_eq_some_iff] at h
  obtain ⟨_, -, _, hlast, -⟩ := h
  exact (Array.getElem?_eq_some_iff.mp hlast).1

theorem lt_size_of_read32? {code : Array UInt8} {pos : Nat} {w : UInt32}
    (h : BigEndian.read32? code pos = some w) : pos + 3 < code.size := by
  simp only [BigEndian.read32?, Option.bind_eq_bind, Option.bind_eq_some_iff] at h
  obtain ⟨_, -, _, -, _, -, _, hlast, -⟩ := h
  exact (Array.getElem?_eq_some_iff.mp hlast).1

theorem takes_u8 : Takes u8 fun n _ => n = 1 := by
  intro c v c' h
  obtain ⟨hv, rfl⟩ := take_eq_ok h
  obtain ⟨hlt, -⟩ := Array.getElem?_eq_some_iff.mp hv
  exact ⟨1, ⟨rfl, rfl, fun _ => hlt⟩, rfl⟩

theorem takes_u16 : Takes u16 fun n _ => n = 2 := by
  intro c v c' h
  obtain ⟨hv, rfl⟩ := take_eq_ok h
  exact ⟨2, ⟨rfl, rfl, fun _ => lt_size_of_read16? hv⟩, rfl⟩

theorem takes_i8 : Takes i8 fun n _ => n = 1 := takes_u8.map fun _ _ h => h

theorem takes_i16 : Takes i16 fun n _ => n = 2 := takes_u16.map fun _ _ h => h

theorem takes_opcode : Takes opcode fun n _ => n = 1 := takes_u8.map fun _ _ h => h

/-- A word that can be read lies within the code, wherever the cursor stood before. -/
theorem i32_inside {v : Int32} (h : i32 c = .ok v c') :
    c' = { c with pos := c.pos + 4 } ∧ c'.pos ≤ c.code.size := by
  obtain ⟨w, middle, hw, hv⟩ := bind_eq_ok h
  obtain ⟨hread, rfl⟩ := take_eq_ok hw
  cases hv
  exact ⟨rfl, lt_size_of_read32? hread⟩

theorem takes_i32 : Takes i32 fun n _ => n = 4 := by
  intro c v c' h
  obtain ⟨rfl, hle⟩ := i32_inside h
  exact ⟨4, ⟨rfl, rfl, fun _ => hle⟩, rfl⟩

/-! ## Switches -/

theorem takes_tableCases (key : Int32) (count : Nat) :
    Takes (tableCases key count) fun n cases => n = 4 * count ∧ cases.length = count := by
  induction count generalizing key with
  | zero => exact takes_pure ⟨rfl, rfl⟩
  | succ count ih =>
      refine takes_i32.bind fun n offset hn => (ih (key + 1)).map fun m cases h => ?_
      simp [h.2]
      omega

theorem takes_lookupCases (count : Nat) :
    Takes (lookupCases count) fun n cases => n = 8 * count ∧ cases.length = count := by
  induction count with
  | zero => exact takes_pure ⟨rfl, rfl⟩
  | succ count ih =>
      refine takes_i32.bind fun n key hn => takes_i32.bind fun m offset hm =>
        ih.map fun k cases h => ?_
      simp [h.2]
      omega

def RowsFit (op : Opcode) (n : Nat) (t : SwitchTable) : Prop :=
  op.operation? = some (.jump .tableSwitch) ∧ n = 8 + 4 * t.cases.length ∨
    op.operation? = some (.jump .lookupSwitch) ∧ n = 4 + 8 * t.cases.length

theorem switch_eq_ok {t : SwitchTable} (h : switch op c = .ok t c') :
    ∃ n, Cursor.Advances c.align (4 + n) c' ∧ c'.pos ≤ c.code.size ∧ RowsFit op n t := by
  obtain ⟨_, _, halign, h⟩ := bind_eq_ok h
  cases halign
  obtain ⟨default, middle, hdefault, h⟩ := bind_eq_ok h
  obtain ⟨hmiddle, hle⟩ := i32_inside hdefault
  have hrows : ∃ n, middle.Advances n c' ∧ RowsFit op n t := by
    apply Takes.elim h
    split
    · rename_i hop
      refine takes_i32.bind fun n low hn => takes_i32.bind fun m high hm => ?_
      split
      · exact fun _ _ _ h => nomatch h
      · refine ((takes_tableCases low _).map fun k cases hk => ?_).need _
        refine .inl ⟨hop, ?_⟩
        simp only [hk.2]
        omega
    · rename_i hop
      refine takes_i32.bind fun n count hn => ?_
      split
      · exact fun _ _ _ h => nomatch h
      · refine ((takes_lookupCases _).map fun k cases hk => ?_).need _
        refine .inr ⟨hop, ?_⟩
        simp only [hk.2]
        omega
    · exact takes_throw _
  obtain ⟨n, hn, hfit⟩ := hrows
  subst hmiddle
  have hcode : c'.code = c.code := hn.code
  refine ⟨n, ⟨hcode, ?_, fun _ => hn.within hle⟩, ?_, hfit⟩
  · rw [hn.pos, Nat.add_assoc]
  · rw [← hcode]
    exact hn.within hle

/-! ## Operands -/

theorem takes_widened :
    Takes (widened op) fun n vs => n = 2 * vs.length ∧ vs ≠ [] := by
  refine takes_u16.bind fun n index hn => ?_
  split
  · refine takes_i16.map fun m delta hm => ?_
    simp [hn, hm]
  · refine takes_pure ?_
    simp [hn]

theorem takes_operands (h : op.layout ≠ .switch) :
    Takes (operands op) fun n o => n = op.layout.size?.getD 0 ∧
      ∃ vs, o = .values vs ∧ (0 < n → vs ≠ []) := by
  unfold operands
  cases hlayout : op.layout
  case switch => exact absurd hlayout h
  case none => exact takes_pure ⟨rfl, [], rfl, nofun⟩
  case widened => exact takes_pure ⟨rfl, [], rfl, nofun⟩
  case unsignedByte => exact takes_u8.map fun n _ hn => ⟨hn, _, rfl, nofun⟩
  case signedByte => exact takes_i8.map fun n _ hn => ⟨hn, _, rfl, nofun⟩
  case unsignedShort => exact takes_u16.map fun n _ hn => ⟨hn, _, rfl, nofun⟩
  case signedShort => exact takes_i16.map fun n _ hn => ⟨hn, _, rfl, nofun⟩
  case branch => exact takes_i16.map fun n _ hn => ⟨hn, _, rfl, nofun⟩
  case branchWide => exact takes_i32.map fun n _ hn => ⟨hn, _, rfl, nofun⟩
  case localAndDelta =>
    exact takes_u8.bind fun n _ hn => takes_i8.map fun m _ hm =>
      ⟨by rw [hn, hm]; rfl, _, rfl, nofun⟩
  case indexAndDimensions =>
    exact takes_u16.bind fun n _ hn => takes_u8.map fun m _ hm =>
      ⟨by rw [hn, hm]; rfl, _, rfl, nofun⟩
  case indexAndCount =>
    exact takes_u16.bind fun n _ hn => takes_u8.bind fun m _ hm => takes_u8.map fun k _ hk =>
      ⟨by rw [hn, hm, hk]; rfl, _, rfl, nofun⟩

end Reader

/-! ## The operands of an instruction -/

def SwitchTable.keys (t : SwitchTable) : List Int32 := t.cases.map (·.1)

def SwitchTable.offsets (t : SwitchTable) : List Int32 := t.cases.map (·.2)

/-- A switch has an offset for each key, and any other branch has an operand. -/
structure Instruction.Shaped (i : Instruction) : Prop where
  offsets : ∀ t, i.table? = some t → t.offsets.length = t.keys.length
  branch : i.table? = none → i.op.isBranch = true → i.values ≠ []

theorem Opcode.size_of_isBranch {op : Opcode} (h : op.isBranch = true) :
    op.layout ≠ .switch ∧ 0 < op.layout.size?.getD 0 := by
  unfold Opcode.isBranch at h
  unfold Opcode.layout
  cases hop : op.operation? with
  | none => simp [hop] at h
  | some o =>
      have hlayout : o.layout = .branch ∨ o.layout = .branchWide := by
        simpa [hop, Operation.isBranch] using h
      obtain hlayout | hlayout := hlayout <;> simp [hlayout, OperandLayout.size?]

namespace Reader

variable {code : Array UInt8} {pos : Nat} {i : Instruction} {c : Cursor}

theorem operands_eq_ok {op : Opcode} {o : Operands} (h : operands op ⟨code, pos + 1⟩ = .ok o c)
    (hpos : pos + 1 ≤ code.size) :
    c = ⟨code, Instruction.stop ⟨pos, op, false, o⟩⟩ ∧ c.pos ≤ code.size ∧
      Instruction.Shaped ⟨pos, op, false, o⟩ := by
  by_cases hswitch : op.layout = .switch
  · unfold operands at h
    rw [hswitch] at h
    obtain ⟨t, middle, ht, hend⟩ := bind_eq_ok h
    cases hend
    obtain ⟨n, hn, hle, hrows⟩ := switch_eq_ok ht
    refine ⟨?_, hle, fun t' ht' => ?_, nofun⟩
    · rw [hn.eq]
      have hstop : (pos + 1 + 3) / 4 * 4 + (4 + n) =
          Instruction.stop ⟨pos, op, false, .table t⟩ := by
        unfold Instruction.stop Instruction.length Instruction.tableLength
        obtain ⟨hop, hlength⟩ | ⟨hop, hlength⟩ := hrows
        · simp only [hop, if_true]
          omega
        · simp [hop]
          omega
      exact congrArg (Cursor.mk code) hstop
    · simp [SwitchTable.keys, SwitchTable.offsets]
  · obtain ⟨n, hn, hsize, vs, hvalues, hvs⟩ := Takes.elim h (takes_operands hswitch)
    have hle : c.pos ≤ c.code.size := hn.within hpos
    rw [hn.code] at hle
    subst hvalues
    refine ⟨?_, hle, nofun, fun _ hbranch => ?_⟩
    · rw [hn.eq]
      simp [Instruction.stop, Instruction.length, hsize, Nat.add_assoc]
    · apply hvs
      rw [hsize]
      exact (Opcode.size_of_isBranch hbranch).2

theorem widened_eq_ok {op : Opcode} {vs : List Int} (h : widened op ⟨code, pos + 2⟩ = .ok vs c)
    (hpos : pos + 2 ≤ code.size) :
    c = ⟨code, Instruction.stop ⟨pos, op, true, .values vs⟩⟩ ∧ c.pos ≤ code.size ∧
      Instruction.Shaped ⟨pos, op, true, .values vs⟩ := by
  obtain ⟨n, hn, hsize, hvs⟩ := Takes.elim h takes_widened
  have hle : c.pos ≤ c.code.size := hn.within hpos
  rw [hn.code] at hle
  refine ⟨?_, hle, nofun, fun _ _ => hvs⟩
  rw [hn.eq]
  simp [Instruction.stop, Instruction.length, hsize, Nat.add_assoc]

theorem instruction_eq_ok (h : instruction ⟨code, pos⟩ = .ok i c) (hpos : pos ≤ code.size) :
    i.pc = pos ∧ c = ⟨code, i.stop⟩ ∧ i.stop ≤ code.size ∧ i.Shaped := by
  obtain ⟨_, _, hget, h⟩ := bind_eq_ok h
  cases hget
  obtain ⟨op, first, hop, h⟩ := bind_eq_ok h
  obtain ⟨_, hfirst, rfl⟩ := Takes.elim hop takes_opcode
  have hroom : first.pos ≤ first.code.size := hfirst.within hpos
  rw [hfirst.eq] at h hroom
  cases hoperation : op.operation? with
  | none => rw [hoperation] at h; cases h
  | some o =>
      rw [hoperation] at h
      by_cases hwide : o = .wide
      · subst hwide
        obtain ⟨inner, second, hinner, h⟩ := bind_eq_ok h
        obtain ⟨_, hsecond, rfl⟩ := Takes.elim hinner takes_opcode
        have hroom : second.pos ≤ second.code.size := hsecond.within hroom
        rw [hsecond.eq] at h hroom
        obtain ⟨vs, last, hvs, hend⟩ := bind_eq_ok h
        cases hend
        obtain ⟨hstop, hle, hshaped⟩ := widened_eq_ok hvs hroom
        refine ⟨rfl, hstop, ?_, hshaped⟩
        rwa [hstop] at hle
      · have hplain : (do return ⟨pos, op, false, ← operands op⟩ : Reader Instruction)
            ⟨code, pos + 1⟩ = .ok i c := by
          cases o <;> first | exact absurd rfl hwide | exact h
        obtain ⟨os, last, hos, hend⟩ := bind_eq_ok hplain
        cases hend
        obtain ⟨hstop, hle, hshaped⟩ := operands_eq_ok hos hroom
        refine ⟨rfl, hstop, ?_, hshaped⟩
        rwa [hstop] at hle

end Reader

/-! ## Whole codes -/

/-- Where decoding ends, and what the reader says there if it is not the end of the code. -/
def EndsAt (code : Array UInt8) (stop : Nat) : Option ReadError → Prop
  | none => stop = code.size
  | some e => stop < code.size ∧ ∃ c, Reader.instruction.run ⟨code, stop⟩ = .error e c

theorem decodeLoop_tiles {code : Array UInt8} {fuel pos : Nat} (hpos : pos ≤ code.size)
    (hfuel : code.size ≤ pos + fuel) :
    ∃ stop, Tiles code pos (decodeLoop fuel ⟨code, pos⟩).1 stop ∧
      (∀ i ∈ (decodeLoop fuel ⟨code, pos⟩).1, i.Shaped) ∧
      EndsAt code stop (decodeLoop fuel ⟨code, pos⟩).2 := by
  induction fuel generalizing pos with
  | zero => exact ⟨pos, .nil pos, List.forall_mem_nil _, Nat.le_antisymm hpos hfuel⟩
  | succ fuel ih =>
      rw [decodeLoop]
      by_cases hmore : pos < code.size
      · rw [if_pos (by simpa [Cursor.hasMore] using hmore)]
        cases hrun : Reader.instruction.run ⟨code, pos⟩ with
        | error e c => exact ⟨pos, .nil pos, List.forall_mem_nil _, hmore, c, hrun⟩
        | ok i c =>
            obtain ⟨rfl, rfl, hwithin, hshaped⟩ := Reader.instruction_eq_ok hrun hpos
            have hlt := i.lt_stop
            obtain ⟨stop, htiles, hall, hend⟩ := ih hwithin (by omega)
            exact ⟨stop, .cons hrun hlt hwithin htiles, List.forall_mem_cons.mpr ⟨hshaped, hall⟩,
              hend⟩
      · rw [if_neg (by simpa [Cursor.hasMore] using hmore)]
        have hend : pos = code.size := Nat.le_antisymm hpos (Nat.le_of_not_lt hmore)
        exact ⟨pos, .nil pos, List.forall_mem_nil _, hend⟩

/-! ## Listings -/

/-- The operands of a line, each looked up by its position.  There is no line when one is
missing. -/
def Instruction.operandsByIndex? (describe? : Option (UInt16 → String)) (i : Instruction) :
    Option String :=
  match i.table? with
  | some t => do
    let rows ← t.keys.zipIdx.mapM fun (key, n) => t.offsets[n]?.map (key, ·)
    return switchText i.pc ⟨t.default, rows⟩
  | none =>
    if i.op.isBranch then do return " " ++ targetText i.pc (← i.values[0]?)
    else if i.op.usesPool && !i.values.isEmpty then do
      return poolText describe? (← i.values[0]?) (i.values.drop 1)
    else some (plainText i.values)

theorem mapM_rows (front rows : List (Int32 × Int32)) :
    (((rows.map (·.1)).zipIdx front.length).mapM fun (key, n) =>
      ((front ++ rows).map (·.2))[n]?.map (key, ·)) = some rows := by
  induction rows generalizing front with
  | nil => rfl
  | cons row rows ih =>
      have hothers := ih (front ++ [row])
      rw [List.length_append, List.append_assoc] at hothers
      rw [List.map_cons, List.zipIdx_cons, List.mapM_cons]
      simp only [List.length_singleton, List.singleton_append] at hothers
      rw [hothers]
      simp

theorem SwitchTable.mapM_offsets (t : SwitchTable) :
    (t.keys.zipIdx.mapM fun (key, n) => t.offsets[n]?.map (key, ·)) = some t.cases :=
  mapM_rows [] t.cases

theorem Instruction.Shaped.operandsByIndex? {i : Instruction} (h : i.Shaped)
    (describe? : Option (UInt16 → String)) :
    i.operandsByIndex? describe? = some (operandText describe? i) := by
  obtain ⟨pc, op, widened, operands⟩ := i
  unfold Instruction.operandsByIndex? operandText
  cases operands with
  | table t =>
      dsimp only [Instruction.table?]
      rw [t.mapM_offsets]
      rfl
  | values vs =>
      cases vs with
      | nil =>
          have hbranch : ¬ op.isBranch = true := fun hbranch => h.branch rfl hbranch rfl
          simp [Instruction.table?, Instruction.values, hbranch, plainText]
      | cons first rest =>
          by_cases hbranch : op.isBranch = true
          · simp [Instruction.table?, Instruction.values, hbranch]
          · by_cases hpool : op.usesPool = true
            · simp [Instruction.table?, Instruction.values, hbranch, hpool]
            · simp [Instruction.table?, Instruction.values, hbranch, hpool]

/-- Decoding reads the code from its start without a gap, to its end unless an instruction cannot
be read, and a listing of what it returns misses no operand. -/
theorem decode_tiles (code : Array UInt8) (describe? : Option (UInt16 → String)) :
    ∃ stop, Tiles code 0 (decode code).1 stop ∧
      ((decode code).2 = none ↔ stop = code.size) ∧
      (∀ e, (decode code).2 = some e → ∃ c, Reader.instruction.run ⟨code, stop⟩ = .error e c) ∧
      (∀ i ∈ (decode code).1, i.Shaped ∧
        i.operandsByIndex? describe? = some (operandText describe? i)) := by
  obtain ⟨stop, htiles, hshaped, hend⟩ :=
    decodeLoop_tiles (Nat.zero_le code.size) (Nat.zero_add code.size).ge
  rw [show decodeLoop code.size ⟨code, 0⟩ = decode code from rfl] at htiles hshaped hend
  have hlisted i (hi : i ∈ (decode code).1) : i.Shaped ∧
      i.operandsByIndex? describe? = some (operandText describe? i) :=
    ⟨hshaped i hi, (hshaped i hi).operandsByIndex? describe?⟩
  cases herror : (decode code).2 with
  | none =>
      rw [herror] at hend
      exact ⟨stop, htiles, ⟨fun _ => hend, fun _ => rfl⟩, nofun, hlisted⟩
  | some e =>
      rw [herror] at hend
      obtain ⟨hlt, c, hrun⟩ := hend
      refine ⟨stop, htiles, ⟨nofun, fun heq => absurd heq hlt.ne⟩, fun e' he' => ?_, hlisted⟩
      cases he'
      exact ⟨c, hrun⟩

end ClassEngine.Code
