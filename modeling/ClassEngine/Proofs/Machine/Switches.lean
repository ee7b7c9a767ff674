import ClassEngine.Machine.Jumps
import ClassEngine.Proofs.Code.RoundTrip
import ClassEngine.Proofs.Machine.Rounds

/-!
# Switches mean the same everywhere

The assembler sorts the pairs of a lookup switch, the decoder looks for the first case with a key,
and the machine computes the place of the case or halves the range of the pairs.  All of them
choose the same offset.
-/

namespace ClassEngine

namespace Code

def int32At? (code : Array UInt8) (pos : Nat) : Option Int32 :=
  (BigEndian.read32? code pos).map (·.toInt32)

@[simp] theorem SwitchTable.target_nil (default key : Int32) :
    SwitchTable.target ⟨default, []⟩ key = default := rfl

@[simp] theorem SwitchTable.target_cons (default key : Int32) (c : Int32 × Int32)
    (cases : List (Int32 × Int32)) :
    SwitchTable.target ⟨default, c :: cases⟩ key =
      if c.1 = key then c.2 else SwitchTable.target ⟨default, cases⟩ key := by
  by_cases h : c.1 = key
  · simp [SwitchTable.target, h]
  · simp [SwitchTable.target, h]

theorem SwitchTable.target_eq (t : SwitchTable) (key : Int32) :
    t.target key = ((t.cases.find? (·.1 = key)).map (·.2)).getD t.default := by
  rw [SwitchTable.target]
  cases t.cases.find? (·.1 = key) <;> rfl

namespace Reader

variable {α β : Type} {code : Array UInt8} {pos : Nat} {cases : List (Int32 × Int32)}
  {t : SwitchTable} {c : Cursor}

theorem i32_eq_ok {v : Int32} (h : i32 ⟨code, pos⟩ = .ok v c) :
    int32At? code pos = some v ∧ c = ⟨code, pos + 4⟩ := by
  obtain ⟨w, c', hw, hpure⟩ := bind_eq_ok h
  cases hpure
  obtain ⟨hread, hc⟩ := take_eq_ok hw
  exact ⟨congrArg (Option.map UInt32.toInt32) hread, hc⟩

/-! ## What the decoder has read -/

theorem tableCases_target {first : Int} {count : Nat} (hfirst : -2147483648 ≤ first)
    (hlast : first + count ≤ 2147483648)
    (h : tableCases (Int32.ofInt first) count ⟨code, pos⟩ = .ok cases c) (default key : Int32) :
    if first ≤ key.toInt ∧ key.toInt < first + count then
      int32At? code (pos + 4 * (key.toInt - first).toNat) =
        some (SwitchTable.target ⟨default, cases⟩ key)
    else SwitchTable.target ⟨default, cases⟩ key = default := by
  induction count generalizing first pos cases with
  | zero =>
      cases h
      rw [if_neg (by omega), SwitchTable.target_nil]
  | succ count ih =>
      obtain ⟨offset, c', hoffset, h⟩ := bind_eq_ok h
      obtain ⟨hat, rfl⟩ := i32_eq_ok hoffset
      obtain ⟨rest, c'', hrest, h⟩ := bind_eq_ok h
      cases h
      have hfirstInt : (Int32.ofInt first).toInt = first := by
        apply Int32.toInt_ofInt_of_le
        · omega
        · omega
      have hkey : Int32.ofInt first = key ↔ first = key.toInt := by
        rw [← Int32.toInt_inj, hfirstInt]
      have hnext : Int32.ofInt first + 1 = Int32.ofInt (first + 1) :=
        (Int32.ofInt_add first 1).symm
      rw [hnext] at hrest
      have ih := ih (by omega) (by omega) hrest
      rw [SwitchTable.target_cons]
      simp only [hkey]
      by_cases heq : first = key.toInt
      · rw [if_pos (by omega), if_pos heq, ← heq]
        simpa using hat
      · rw [if_neg heq]
        by_cases hin : first + 1 ≤ key.toInt ∧ key.toInt < first + 1 + count
        · rw [if_pos hin] at ih
          rw [if_pos (by omega), ← ih]
          congr 1
          omega
        · rw [if_neg hin] at ih
          rw [if_neg (by omega), ih]

def PairsAt (code : Array UInt8) (base : Nat) (cases : List (Int32 × Int32)) : Prop :=
  ∀ i (h : i < cases.length), int32At? code (base + 8 * i) = some cases[i].1 ∧
    int32At? code (base + 8 * i + 4) = some cases[i].2

theorem lookupCases_eq_ok {count : Nat} (h : lookupCases count ⟨code, pos⟩ = .ok cases c) :
    cases.length = count ∧ PairsAt code pos cases := by
  induction count generalizing pos cases with
  | zero =>
      cases h
      exact ⟨rfl, nofun⟩
  | succ count ih =>
      obtain ⟨key, c', hreadKey, h⟩ := bind_eq_ok h
      obtain ⟨hkey, rfl⟩ := i32_eq_ok hreadKey
      obtain ⟨offset, c', hreadOffset, h⟩ := bind_eq_ok h
      obtain ⟨hoffset, rfl⟩ := i32_eq_ok hreadOffset
      obtain ⟨rest, c'', hrest, h⟩ := bind_eq_ok h
      cases h
      obtain ⟨hlength, hpairs⟩ := ih hrest
      refine ⟨by simp [hlength], fun i hi => ?_⟩
      cases i with
      | zero => exact ⟨hkey, hoffset⟩
      | succ i =>
          have hi := hpairs i (by simpa using hi)
          have hpos : pos + 8 * (i + 1) = pos + 4 + 4 + 8 * i := by omega
          rw [hpos]
          exact hi

/-- A table switch whose operands start at `base`: the ends of the range of its keys, and the
target of each key. -/
structure TableAt (code : Array UInt8) (base : Nat) (low high : Int32) (t : SwitchTable) :
    Prop where
  defaultAt : int32At? code base = some t.default
  lowAt : int32At? code (base + 4) = some low
  highAt : int32At? code (base + 8) = some high
  le : low ≤ high
  inside : ∀ key, low ≤ key → key ≤ high →
    int32At? code (base + 12 + 4 * (key.toInt - low.toInt).toNat) = some (t.target key)
  outside : ∀ key, key < low ∨ high < key → t.target key = t.default

structure LookupAt (code : Array UInt8) (base : Nat) (count : Int32) (t : SwitchTable) : Prop where
  defaultAt : int32At? code base = some t.default
  countAt : int32At? code (base + 4) = some count
  length : count.toInt = t.cases.length
  room : base + 8 + 8 * t.cases.length ≤ code.size
  pairs : PairsAt code (base + 8) t.cases

theorem tableAt_of_switch {op : Opcode} (hop : op.operation? = some (.jump .tableSwitch))
    (h : switch op ⟨code, pos⟩ = .ok t c) :
    ∃ low high, TableAt code ((pos + 3) / 4 * 4) low high t := by
  unfold switch at h
  obtain ⟨_, c', halign, h⟩ := bind_eq_ok h
  cases halign
  obtain ⟨default, c', hreadDefault, h⟩ := bind_eq_ok h
  obtain ⟨hdefault, rfl⟩ := i32_eq_ok hreadDefault
  rw [hop] at h
  obtain ⟨low, c', hreadLow, h⟩ := bind_eq_ok h
  obtain ⟨hlow, rfl⟩ := i32_eq_ok hreadLow
  obtain ⟨high, c', hreadHigh, h⟩ := bind_eq_ok h
  obtain ⟨hhigh, rfl⟩ := i32_eq_ok hreadHigh
  split at h
  · obtain ⟨_, _, hthrow, -⟩ := bind_eq_ok h
    cases hthrow
  · rename_i hle
    obtain ⟨_, c', hneed, h⟩ := bind_eq_ok h
    obtain ⟨rfl, -⟩ := need_eq_ok hneed
    obtain ⟨cases, c', hcases, h⟩ := bind_eq_ok h
    cases h
    rw [Int32.lt_iff_toInt_lt] at hle
    have hmin := low.le_toInt
    have hmax := high.toInt_lt
    have hfirst : tableCases (Int32.ofInt low.toInt) (high.toInt - low.toInt + 1).toNat
        ⟨code, (pos + 3) / 4 * 4 + 4 + 4 + 4⟩ = .ok cases c := by
      rw [Int32.ofInt_toInt]
      exact hcases
    refine ⟨low, high, hdefault, hlow, hhigh, Int32.le_iff_toInt_le.mpr (by omega), ?_, ?_⟩
    · intro key hge hle'
      rw [Int32.le_iff_toInt_le] at hge hle'
      have htarget := tableCases_target (by omega) (by omega) hfirst default key
      rwa [if_pos (by omega)] at htarget
    · intro key hout
      rw [Int32.lt_iff_toInt_lt, Int32.lt_iff_toInt_lt] at hout
      have htarget := tableCases_target (by omega) (by omega) hfirst default key
      rwa [if_neg (by omega)] at htarget

theorem lookupAt_of_switch {op : Opcode} (hop : op.operation? = some (.jump .lookupSwitch))
    (h : switch op ⟨code, pos⟩ = .ok t c) :
    ∃ count, LookupAt code ((pos + 3) / 4 * 4) count t := by
  unfold switch at h
  obtain ⟨_, c', halign, h⟩ := bind_eq_ok h
  cases halign
  obtain ⟨default, c', hreadDefault, h⟩ := bind_eq_ok h
  obtain ⟨hdefault, rfl⟩ := i32_eq_ok hreadDefault
  rw [hop] at h
  obtain ⟨count, c', hreadCount, h⟩ := bind_eq_ok h
  obtain ⟨hcount, rfl⟩ := i32_eq_ok hreadCount
  split at h
  · obtain ⟨_, _, hthrow, -⟩ := bind_eq_ok h
    cases hthrow
  · rename_i hge
    obtain ⟨_, c', hneed, h⟩ := bind_eq_ok h
    obtain ⟨rfl, hroom⟩ := need_eq_ok hneed
    obtain ⟨cases, c', hcases, h⟩ := bind_eq_ok h
    cases h
    obtain ⟨hlength, hpairs⟩ := lookupCases_eq_ok hcases
    have hzero : (0 : Int32).toInt = 0 := rfl
    rw [Int32.lt_iff_toInt_lt, hzero] at hge
    refine ⟨count, hdefault, hcount, ?_, ?_, hpairs⟩
    · dsimp only
      omega
    · dsimp only at hroom ⊢
      rw [hlength]
      exact hroom

theorem opcode_eq_ok {op : Opcode} (h : opcode ⟨code, pos⟩ = .ok op c) :
    code[pos]? = some op.byte ∧ c = ⟨code, pos + 1⟩ := by
  obtain ⟨b, c', hb, hpure⟩ := bind_eq_ok h
  cases hpure
  exact take_eq_ok hb

theorem switch_of_operands {op : Opcode} {vs : Operands} {pc : Nat} {widened : Bool}
    (h : operands op ⟨code, pos⟩ = .ok vs c)
    (ht : Instruction.table? ⟨pc, op, widened, vs⟩ = some t) :
    switch op ⟨code, pos⟩ = .ok t c := by
  unfold operands at h
  cases hlayout : op.layout with
  | switch =>
      rw [hlayout] at h
      obtain ⟨t', c', htable, hpure⟩ := bind_eq_ok h
      cases hpure
      cases ht
      exact htable
  | none | widened =>
      rw [hlayout] at h
      cases h
      cases ht
  | unsignedByte | signedByte | unsignedShort | signedShort | branch | branchWide =>
      rw [hlayout] at h
      obtain ⟨_, _, _, hpure⟩ := bind_eq_ok h
      cases hpure
      cases ht
  | localAndDelta | indexAndDimensions =>
      rw [hlayout] at h
      obtain ⟨_, _, _, h⟩ := bind_eq_ok h
      obtain ⟨_, _, _, hpure⟩ := bind_eq_ok h
      cases hpure
      cases ht
  | indexAndCount =>
      rw [hlayout] at h
      obtain ⟨_, _, _, h⟩ := bind_eq_ok h
      obtain ⟨_, _, _, h⟩ := bind_eq_ok h
      obtain ⟨_, _, _, hpure⟩ := bind_eq_ok h
      cases hpure
      cases ht

theorem switch_of_instruction {i : Instruction} (h : instruction ⟨code, pos⟩ = .ok i c)
    (ht : i.table? = some t) : switch i.op ⟨code, pos + 1⟩ = .ok t c := by
  unfold instruction at h
  obtain ⟨_, _, hget, h⟩ := bind_eq_ok h
  cases hget
  obtain ⟨op, _, hop, h⟩ := bind_eq_ok h
  obtain ⟨-, rfl⟩ := opcode_eq_ok hop
  cases hoperation : op.operation? with
  | none =>
      rw [hoperation] at h
      cases h
  | some o =>
      rw [hoperation] at h
      cases o with
      | wide =>
          obtain ⟨inner, _, _, h⟩ := bind_eq_ok h
          obtain ⟨vs, _, _, h⟩ := bind_eq_ok h
          cases h
          cases ht
      | data | jump | array | object | invoke | returnValue | returnVoid =>
          obtain ⟨vs, _, hvs, h⟩ := bind_eq_ok h
          cases h
          exact switch_of_operands hvs ht

end Reader

end Code

namespace Machine

open Code

namespace FrameM

variable {f : Frame} {t : SwitchTable} {key : Int32}

theorem i32_apply {v : Int32} (h : int32At? f.body.code f.pc = some v) :
    i32 f = .ok v { f with pc := f.pc + 4 } := by
  obtain ⟨w, hw, rfl⟩ := Option.map_eq_some_iff.mp h
  rw [i32, bind_apply, FrameM.fetch_apply, hw]
  rfl

theorem i32_bind {α : Type} {v : Int32} (g : Int32 → FrameM α)
    (h : int32At? f.body.code f.pc = some v) :
    (i32 >>= g) f = g v { f with pc := f.pc + 4 } := by
  rw [bind_apply, i32_apply h]

theorem need_bind {α : Type} {count : Nat} (g : Unit → FrameM α)
    (h : ¬ f.body.code.size < f.pc + count) : (need count >>= g) f = g () f := by
  have hneed : need count f = .ok () f := by
    change (if f.body.code.size < f.pc + count then defectAt .truncated else pure () : FrameM Unit)
      f = _
    rw [if_neg h]
    rfl
  rw [bind_apply, hneed]

theorem tableSwitch_target {low high : Int32}
    (h : Reader.TableAt f.body.code ((f.pc + 3) / 4 * 4) low high t) (key : Int32) :
    ∃ f', tableSwitch key f = .ok (t.target key) f' := by
  have hle : ¬ high < low := Int32.not_lt.mpr h.le
  change ∃ f', (do
    let default ← i32
    let low ← i32
    let high ← i32
    if high < low then defectAt fun method pc => .emptyTable method pc high low
    else if key < low || high < key then return default
    else
      skip (4 * (key.toInt - low.toInt).toNat)
      i32 : FrameM Int32) { f with pc := (f.pc + 3) / 4 * 4 } = _
  rw [i32_bind _ h.defaultAt, i32_bind _ h.lowAt, i32_bind _ h.highAt, if_neg hle]
  split
  · rename_i hout
    simp only [Bool.or_eq_true, decide_eq_true_eq] at hout
    rw [h.outside key hout]
    exact ⟨_, rfl⟩
  · rename_i hin
    simp only [Bool.or_eq_true, decide_eq_true_eq, not_or, Int32.not_lt] at hin
    exact ⟨_, i32_apply (h.inside key hin.1 hin.2)⟩

theorem find?_of_sorted {cases : List (Int32 × Int32)} {i : Nat}
    (hsorted : cases.Pairwise fun c c' => c.1 < c'.1) (hi : i < cases.length)
    (hkey : cases[i].1 = key) : cases.find? (·.1 = key) = some cases[i] := by
  rw [List.find?_eq_some_iff_getElem]
  refine ⟨by simpa using hkey, i, hi, rfl, fun j hj => ?_⟩
  have hlt : cases[j].1 < key := hkey ▸ List.pairwise_iff_getElem.mp hsorted j i _ hi hj
  simpa using Int32.ne_of_lt hlt

/-- Halving the range finds the pair with the key, if all pairs outside of the range have other
keys on the right side of it. -/
theorem searchPairs_eq {code : Array UInt8} {base lo hi : Nat} {cases : List (Int32 × Int32)}
    (hpairs : Reader.PairsAt code base cases) (hsorted : cases.Pairwise fun c c' => c.1 < c'.1)
    (hhi : hi ≤ cases.length)
    (hbelow : ∀ i (h : i < cases.length), i < lo → cases[i].1 < key)
    (habove : ∀ i (h : i < cases.length), hi ≤ i → key < cases[i].1) :
    searchPairs code base key lo hi = (cases.find? (·.1 = key)).map (·.2) := by
  have hmiddle {mid : Nat} (hmid : mid < cases.length) {k offset : UInt32}
      (hk : BigEndian.read32? code (base + 8 * mid) = some k)
      (hoffset : BigEndian.read32? code (base + 8 * mid + 4) = some offset) :
      cases[mid] = (k.toInt32, offset.toInt32) := by
    have h := hpairs mid hmid
    simp only [int32At?, hk, hoffset, Option.map_some, Option.some.injEq] at h
    exact Prod.ext h.1.symm h.2.symm
  fun_induction searchPairs code base key lo hi with
  | case1 lo hi hlt mid k offset hoffset hk hkey =>
      have hmid : mid < cases.length := by omega
      have hcase := hmiddle hmid hk hoffset
      rw [find?_of_sorted hsorted hmid (by rw [hcase]; exact hkey), hcase]
      rfl
  | case2 lo hi hlt mid k offset hoffset hk hne hless ih =>
      have hmid : mid < cases.length := by omega
      have hcase := hmiddle hmid hk hoffset
      refine ih hhi (fun i hi hle => ?_) habove
      rcases Nat.lt_or_eq_of_le (Nat.le_of_lt_succ hle) with hlt | rfl
      · have hbefore := List.pairwise_iff_getElem.mp hsorted i mid hi hmid hlt
        rw [hcase] at hbefore
        exact Int32.lt_trans hbefore hless
      · rw [hcase]
        exact hless
  | case3 lo hi hlt mid k offset hoffset hk hne hnotLess ih =>
      have hmid : mid < cases.length := by omega
      have hcase := hmiddle hmid hk hoffset
      have hgreater : key < k.toInt32 :=
        Int32.lt_of_le_of_ne (Int32.not_lt.mp hnotLess) (Ne.symm hne)
      refine ih (Nat.le_of_lt hmid) hbelow fun i hi hle => ?_
      rcases Nat.lt_or_eq_of_le hle with hlt | rfl
      · have hafter := List.pairwise_iff_getElem.mp hsorted mid i hmid hi hlt
        rw [hcase] at hafter
        exact Int32.lt_trans hgreater hafter
      · rw [hcase]
        exact hgreater
  | case4 lo hi hlt mid hnone =>
      have hmid : mid < cases.length := by omega
      obtain ⟨hk, hoffset⟩ := hpairs mid hmid
      obtain ⟨k, hk, -⟩ := Option.map_eq_some_iff.mp hk
      obtain ⟨offset, hoffset, -⟩ := Option.map_eq_some_iff.mp hoffset
      exact absurd hoffset (hnone k offset hk)
  | case5 lo hi hge =>
      have hnone : cases.find? (·.1 = key) = none := by
        rw [List.find?_eq_none]
        intro c hc
        obtain ⟨i, hi, rfl⟩ := List.getElem_of_mem hc
        rcases Nat.lt_or_ge i lo with hlt | hle
        · simpa using Int32.ne_of_lt (hbelow i hi hlt)
        · simpa using (Int32.ne_of_lt (habove i hi (by omega))).symm
      rw [hnone]
      rfl

theorem lookupSwitch_target {count : Int32}
    (h : Reader.LookupAt f.body.code ((f.pc + 3) / 4 * 4) count t)
    (hsorted : t.cases.Pairwise fun c c' => c.1 < c'.1) (key : Int32) :
    ∃ f', lookupSwitch key f = .ok (t.target key) f' := by
  have hzero : (0 : Int32).toInt = 0 := rfl
  have hcount := h.length
  have hge : ¬ count < 0 := by
    rw [Int32.lt_iff_toInt_lt, hzero]
    omega
  have hlength : count.toInt.toNat = t.cases.length := by omega
  have hroom : ¬ f.body.code.size < (f.pc + 3) / 4 * 4 + 4 + 4 + 8 * t.cases.length :=
    Nat.not_lt.mpr h.room
  change ∃ f', (do
    let default ← i32
    let count ← i32
    if count < 0 then defectAt fun method pc => .negativePairs method pc count
    else
      need (8 * count.toInt.toNat)
      let f ← get
      return (searchPairs f.body.code f.pc key 0 count.toInt.toNat).getD default : FrameM Int32)
    { f with pc := (f.pc + 3) / 4 * 4 } = _
  have hfound : searchPairs f.body.code ((f.pc + 3) / 4 * 4 + 8) key 0 t.cases.length =
      (t.cases.find? (·.1 = key)).map (·.2) :=
    searchPairs_eq h.pairs hsorted (Nat.le_refl _) (fun _ _ h => absurd h (Nat.not_lt_zero _))
      fun i hi h => absurd hi (Nat.not_lt.mpr h)
  rw [i32_bind _ h.defaultAt, i32_bind _ h.countAt, if_neg hge, hlength, need_bind _ hroom]
  refine ⟨_, congrArg (fun offset => EStateM.Result.ok offset _) ?_⟩
  rw [hfound, SwitchTable.target_eq]

end FrameM

/-! ## Agreement -/

open Assembler

theorem mem_sortedCases {keys : List Int32} {targets : List LabelId} {p : Int32 × LabelId} :
    p ∈ sortedCases keys targets ↔ p ∈ keys.zip targets :=
  (List.mergeSort_perm _ _).mem_iff

theorem increasing_sortedCases {keys : List Int32} {targets : List LabelId} (hdistinct : keys.Nodup)
    (hlength : keys.length = targets.length) :
    (sortedCases keys targets).Pairwise fun p q => p.1 < q.1 := by
  have hstable := stablySorted_sortedCases keys targets
  have hkeys : ((sortedCases keys targets).map (·.1)).Nodup := by
    rw [(hstable.perm.map (·.1)).nodup_iff, List.map_fst_zip (Nat.le_of_eq hlength)]
    exact hdistinct
  have hne : (sortedCases keys targets).Pairwise fun p q => p.1 ≠ q.1 := List.pairwise_map.mp hkeys
  exact hstable.increasing.imp₂ (fun p q hle hne => Int32.lt_of_le_of_ne hle hne) hne

variable {final : Assembler} {pc : Nat} {pairs : List (Int32 × LabelId)}
  {cases : List (Int32 × Int32)}

theorem increasing_cases {R : LabelId → Int32 → Prop}
    (h : List.Forall₂ (fun p c => c.1 = p.1 ∧ R p.2 c.2) pairs cases)
    (hincreasing : pairs.Pairwise fun p q => p.1 < q.1) :
    cases.Pairwise fun c c' => c.1 < c'.1 := by
  have hkeys : pairs.map (·.1) = cases.map (·.1) := by
    induction h with
    | nil => rfl
    | cons h _ ih => simp [h.1, ih hincreasing.of_cons]
  have hmapped : (pairs.map (·.1)).Pairwise (· < ·) := List.pairwise_map.mpr hincreasing
  rw [hkeys] at hmapped
  exact List.pairwise_map.mp hmapped

theorem target_of_mem {default : Int32} {R : LabelId → Int32 → Prop}
    (h : List.Forall₂ (fun p c => c.1 = p.1 ∧ R p.2 c.2) pairs cases)
    (hincreasing : cases.Pairwise fun c c' => c.1 < c'.1) {key : Int32} {l : LabelId}
    (hmem : (key, l) ∈ pairs) : R l (SwitchTable.target ⟨default, cases⟩ key) := by
  obtain ⟨i, hi, hpair⟩ := List.getElem_of_mem hmem
  have hi' : i < cases.length := h.length_eq ▸ hi
  obtain ⟨hkey, hlabel⟩ := h.get hi hi'
  rw [List.get_eq_getElem, List.get_eq_getElem, hpair] at hkey hlabel
  rw [SwitchTable.target_eq, FrameM.find?_of_sorted hincreasing hi' hkey]
  exact hlabel

theorem target_of_not_mem {default : Int32} {R : LabelId → Int32 → Prop}
    (h : List.Forall₂ (fun p c => c.1 = p.1 ∧ R p.2 c.2) pairs cases) {key : Int32}
    (hmem : ∀ p ∈ pairs, p.1 ≠ key) : SwitchTable.target ⟨default, cases⟩ key = default := by
  induction h with
  | nil => rfl
  | cons h _ ih =>
      rw [SwitchTable.target_cons, h.1, if_neg (hmem _ List.mem_cons_self)]
      exact ih fun p hp => hmem p (List.mem_cons_of_mem _ hp)

/-- A lookup switch on distinct keys, wherever it was emitted: its keys stand in the code in
increasing order, each selects its own label, and all others select the default. -/
theorem lookupSwitch_emitted {before after : List Emission} {default : LabelId}
    {keys : List Int32} {targets : List LabelId} {code : Array UInt8} (hdistinct : keys.Nodup)
    (hlength : keys.length = targets.length)
    (h : (assembled (before ++ .lookupSwitch default keys targets :: after)).assemble = .ok code) :
    ∃ t : SwitchTable,
      StandsAt code (assembled before).size (lookupBytes (assembled before).size t) ∧
      t.cases.length = keys.length ∧ (t.cases.Pairwise fun c c' => c.1 < c'.1) ∧
      (∀ key l, (key, l) ∈ keys.zip targets →
        (assembled (before ++ .lookupSwitch default keys targets :: after)).Leads
          (assembled before).size l (t.target key)) ∧
      ∀ key ∉ keys, (assembled (before ++ .lookupSwitch default keys targets :: after)).Leads
        (assembled before).size default (t.target key) := by
  obtain ⟨ps, hps⟩ := adds_calls {} before
  obtain ⟨a', hemit, hqs⟩ := adds_emitLookupSwitch (assembled before) default hlength
  obtain ⟨rs, hrs⟩ := adds_calls a' after
  have hfinal : assembled (before ++ .lookupSwitch default keys targets :: after) =
      after.foldl perform a' := by
    rw [assembled, List.foldl_append, List.foldl_cons, perform]
    rw [assembled] at hemit
    rw [hemit]
    rfl
  rw [hfinal] at h ⊢
  obtain ⟨chunks, hchunks, hcode⟩ := assemble_pieces ((hps.trans hqs).trans hrs) h
  rw [List.append_assoc] at hchunks
  obtain ⟨xs, chunks', rfl, hxs, hchunks'⟩ := forall₂_append_left hchunks
  obtain ⟨ys, zs, rfl, hys, hzs⟩ := forall₂_append_left hchunks'
  obtain ⟨t, hdefault, hcases, hbytes⟩ := fills_lookupSwitch hlength hys
  have hincreasing := increasing_cases hcases (increasing_sortedCases hdistinct hlength)
  have hpc : xs.flatten.length = (assembled before).size := by
    have := hps.size
    rw [length_flatten_of_fills hxs]
    simpa [assembled, Assembler.size] using this.symm
  refine ⟨t, ⟨xs.flatten, zs.flatten, ?_, hpc⟩, ?_, hincreasing, ?_, ?_⟩
  · rw [hcode, ← hbytes]
    simp
  · rw [← hcases.length_eq, length_sortedCases hlength]
  · intro key l hmem
    exact target_of_mem hcases hincreasing (mem_sortedCases.mpr hmem)
  · intro key hmem
    rw [target_of_not_mem hcases]
    · exact hdefault
    · rintro p hp rfl
      exact hmem (List.of_mem_zip (mem_sortedCases.mp hp)).1

/-- The machine branches where the decoder says, and the assembler has both of them select the
label that was given with a key. -/
theorem switches_agree :
    (∀ (f : Frame) (pc : Nat) (i : Instruction) (c : Cursor) (t : SwitchTable) (key : Int32),
      Reader.instruction ⟨f.body.code, pc⟩ = .ok i c → i.table? = some t → f.pc = pc + 1 →
        (i.op.operation? = some (.jump .tableSwitch) →
          ∃ f', FrameM.tableSwitch key f = .ok (t.target key) f') ∧
        (i.op.operation? = some (.jump .lookupSwitch) →
          (t.cases.Pairwise fun c c' => c.1 < c'.1) →
            ∃ f', FrameM.lookupSwitch key f = .ok (t.target key) f')) ∧
    ∀ (before after : List Emission) (default : LabelId) (keys : List Int32)
      (targets : List LabelId) (code : Array UInt8), keys.Nodup → keys.length = targets.length →
        (assembled (before ++ .lookupSwitch default keys targets :: after)).assemble = .ok code →
          ∃ t : SwitchTable,
            StandsAt code (assembled before).size (lookupBytes (assembled before).size t) ∧
            (keys.length < 2 ^ 31 → ∃ c, Reader.instruction ⟨code, (assembled before).size⟩ =
              .ok ⟨(assembled before).size, .lookupswitch, false, .table t⟩ c) ∧
            (t.cases.Pairwise fun c c' => c.1 < c'.1) ∧
            (∀ key l, (key, l) ∈ keys.zip targets →
              (assembled (before ++ .lookupSwitch default keys targets :: after)).Leads
                (assembled before).size l (t.target key)) ∧
            ∀ key ∉ keys, (assembled (before ++ .lookupSwitch default keys targets :: after)).Leads
              (assembled before).size default (t.target key) := by
  constructor
  · intro f pc i c t key hread htable hpc
    have hswitch := Reader.switch_of_instruction hread htable
    rw [← hpc] at hswitch
    constructor
    · intro hop
      obtain ⟨low, high, htableAt⟩ := Reader.tableAt_of_switch hop hswitch
      exact FrameM.tableSwitch_target htableAt key
    · intro hop hincreasing
      obtain ⟨count, hlookupAt⟩ := Reader.lookupAt_of_switch hop hswitch
      exact FrameM.lookupSwitch_target hlookupAt hincreasing key
  · intro before after default keys targets code hdistinct hlength h
    obtain ⟨t, hstands, hcount, hincreasing, hown, hother⟩ :=
      lookupSwitch_emitted hdistinct hlength h
    refine ⟨t, hstands, fun hfew => ?_, hincreasing, hown, hother⟩
    exact ⟨_, reads_lookupBytes _ (hcount ▸ hfew) code hstands⟩

def choices : List Emission :=
  [.newLabel "other", .newLabel "low", .newLabel "high", .plain [⟨0x1a⟩],
    .lookupSwitch ⟨0⟩ [9, -4] [⟨2⟩, ⟨1⟩], .mark ⟨1⟩, .plain [⟨0x03⟩], .mark ⟨2⟩, .plain [⟨0x04⟩],
    .mark ⟨0⟩, .plain [⟨0xac⟩]]

def choicesCode : Array UInt8 :=
  #[26, 171, 0, 0, 0, 0, 0, 29, 0, 0, 0, 2, 255, 255, 255, 252, 0, 0, 0, 27, 0, 0, 0, 9,
    0, 0, 0, 28, 3, 4, 172]

def choosing : Frame where
  method := ⟨⟨0, 0⟩, "Choices", 0, "choose", "(I)I", 8,
    ⟨[.base .int "I"], some (.base .int "I"), "(I)I"⟩, none⟩
  body := ⟨1, 1, choicesCode, [], []⟩
  locals := #[.int 9]
  stack := []
  pc := 2
  opPc := 1

theorem switches_agree_choices :
    (assembled choices).assemble = .ok choicesCode ∧
      ∃ t : SwitchTable, (assembled choices).Leads 1 ⟨2⟩ (t.target 9) ∧
        (assembled choices).Leads 1 ⟨0⟩ (t.target 5) ∧
          ∃ f', FrameM.lookupSwitch 9 choosing = .ok (t.target 9) f' := by
  have hsorted : sortedCases [9, -4] [⟨2⟩, ⟨1⟩] = [(-4, ⟨1⟩), (9, ⟨2⟩)] := by
    simp [sortedCases, List.mergeSort]
  have hswitch (a : Assembler) : a.perform (.lookupSwitch ⟨0⟩ [9, -4] [⟨2⟩, ⟨1⟩]) =
      (sortedCases [9, -4] [⟨2⟩, ⟨1⟩]).foldl
        (fun b c => (b.emitWord c.1).reserve a.size true c.2)
        (((a.emit [.lookupswitch]).pad.reserve a.size true ⟨0⟩).emitWord 2) := rfl
  have hcode : (assembled choices).assemble = .ok choicesCode := by
    simp only [assembled, choices, List.foldl_cons, List.foldl_nil, hswitch, hsorted]
    decide +kernel
  have hop : Opcode.lookupswitch.operation? = some (.jump .lookupSwitch) := by decide +kernel
  obtain ⟨t, -, hread, hincreasing, hown, hother⟩ := switches_agree.2
    (choices.take 4) (choices.drop 5) ⟨0⟩ [9, -4] [⟨2⟩, ⟨1⟩] choicesCode (by decide) rfl hcode
  obtain ⟨c, hread⟩ := hread (by decide)
  have hchoice := (switches_agree.1 choosing 1 _ c t 9 hread rfl rfl).2 hop hincreasing
  exact ⟨hcode, t, hown 9 ⟨2⟩ (by decide), hother 5 (by decide), hchoice⟩

end Machine

end ClassEngine
