import ClassEngine.Proofs.Machine.Activity
import ClassEngine.Proofs.Machine.Arithmetic
import ClassEngine.Proofs.Machine.InstanceLayout
import ClassEngine.Proofs.Machine.IntegrityLaw
import ClassEngine.Proofs.Machine.PlainRoot

/-!
# Elements of arrays

What an array has at an index is what was stored there last, cut to the type of its elements, or
zero if nothing was.  Nothing is stored but by the instructions that do so, whatever type of
elements is in their name, and by the host.
-/

namespace ClassEngine.Machine

/-! ## Narrow elements -/

/-- The least and the greatest integer of a type of elements that is narrower than int. -/
def elementBounds? : Char → Option (Int × Int)
  | 'Z' => some (0, 1)
  | 'B' => some (-128, 127)
  | 'C' => some (0, 65535)
  | 'S' => some (-32768, 32767)
  | _ => none

def Value.Within (v : Value) (lo hi : Int) : Prop := ∃ n, v = .int n ∧ lo ≤ n.toInt ∧ n.toInt ≤ hi

/-- What a type of elements leaves of a value: the low bits, read with or without a sign. -/
def truncated (element : Char) (v : Value) : Value :=
  match element with
  | 'Z' => .int (.ofInt (v.asInt.toInt % 2))
  | 'B' => .int (.ofInt (v.asInt.toInt.bmod 256))
  | 'C' => .int (.ofInt (v.asInt.toInt % 65536))
  | 'S' => .int (.ofInt (v.asInt.toInt.bmod 65536))
  | _ => v

theorem toBitVec_ofInt_toNat {i : Int} (h : 0 ≤ i) (hlt : i < 2 ^ 32) :
    (Int32.ofInt i).toBitVec.toNat = i.toNat := by
  have hbits : (Int32.ofInt i).toBitVec.toNat = (i % 2 ^ 32).toNat := BitVec.toNat_ofInt i
  rw [hbits, Int.emod_eq_of_lt h hlt]

theorem and_one_eq (n : Int32) : n &&& 1 = .ofInt (n.toInt % 2) := by
  have hone : (n &&& 1).toBitVec.toNat = (n.toInt % 2 ^ 1).toNat :=
    toNat_and_mask rfl (by decide) n
  refine Int32.toBitVec_inj.mp (BitVec.eq_of_toNat_eq ?_)
  rw [hone, toBitVec_ofInt_toNat (by omega) (by omega), pow_one]

theorem intToChar_eq (n : Int32) :
    n.toUInt32.toUInt16.toUInt32.toInt32 = .ofInt (n.toInt % 65536) := by
  have hword : (n.toUInt32.toUInt16.toUInt32.toInt32).toBitVec.toNat = n.toBitVec.toNat % 2 ^ 16 :=
    by simp
  have hlow : n.toInt % 65536 = (n.toBitVec.toNat : Int) % 65536 := by
    rw [← toInt_emod, Int32.toInt_toBitVec]
    omega
  refine Int32.toBitVec_inj.mp (BitVec.eq_of_toNat_eq ?_)
  rw [hword, toBitVec_ofInt_toNat (by omega) (by omega), hlow]
  omega

theorem toInt_ofInt_bmod {i : Int} {m : Nat} (hm : 0 < m) (hle : m ≤ 2 ^ 32) :
    (Int32.ofInt (i.bmod m)).toInt = i.bmod m := by
  have hlo := Int.le_bmod (x := i) hm
  have hhi := Int.bmod_lt (x := i) hm
  exact Int32.toInt_ofInt_of_le (by omega) (by omega)

theorem intToByte_eq (n : Int32) : n.toInt8.toInt32 = .ofInt (n.toInt.bmod 256) := by
  rw [← Int32.toInt_inj, toInt_ofInt_bmod (by decide) (by decide), Int8.toInt_toInt32,
    Int32.toInt_toInt8]

theorem intToShort_eq (n : Int32) : n.toInt16.toInt32 = .ofInt (n.toInt.bmod 65536) := by
  rw [← Int32.toInt_inj, toInt_ofInt_bmod (by decide) (by decide), Int16.toInt_toInt32,
    Int32.toInt_toInt16]

theorem narrowed_eq_truncated (element : Char) (v : Value) :
    narrowed element v = truncated element v := by
  unfold truncated
  split
  · exact congrArg Value.int (and_one_eq v.asInt)
  · exact congrArg Value.int (intToByte_eq v.asInt)
  · exact congrArg Value.int (intToChar_eq v.asInt)
  · exact congrArg Value.int (intToShort_eq v.asInt)
  · simp_all [narrowed]

theorem within_ofInt {i lo hi : Int} (hlo : lo ≤ i) (hhi : i ≤ hi)
    (hmin : -2 ^ 31 ≤ lo) (hmax : hi < 2 ^ 31) : (Value.int (.ofInt i)).Within lo hi := by
  have hi' : (Int32.ofInt i).toInt = i := Int32.toInt_ofInt_of_le (by omega) (by omega)
  exact ⟨.ofInt i, rfl, by rwa [hi'], by rwa [hi']⟩

theorem within_truncated {element : Char} {lo hi : Int}
    (h : elementBounds? element = some (lo, hi)) (v : Value) :
    (truncated element v).Within lo hi := by
  have hbyte := Int.le_bmod (x := v.asInt.toInt) (m := 256) (by decide)
  have hbyte' := Int.bmod_lt (x := v.asInt.toInt) (m := 256) (by decide)
  have hshort := Int.le_bmod (x := v.asInt.toInt) (m := 65536) (by decide)
  have hshort' := Int.bmod_lt (x := v.asInt.toInt) (m := 65536) (by decide)
  unfold elementBounds? at h
  split at h <;> cases h <;>
    exact within_ofInt (by omega) (by omega) (by decide) (by decide)

theorem within_zero {element : Char} {lo hi : Int}
    (h : elementBounds? element = some (lo, hi)) : (Value.zero element).Within lo hi := by
  unfold elementBounds? at h
  split at h <;> cases h <;> exact ⟨0, rfl, by decide, by decide⟩

/-! ## The last value in a place -/

/-- Where a value was stored: the address of an array and an index. -/
def Write.place (w : Write) : Nat × Int := (w.ref.address.toNat, w.index.toInt)

def lastStored? (ws : List Write) (place : Nat × Int) : Option Value :=
  ((ws.filter (·.place = place)).getLast?).map (·.value)

/-- What there is in a place of an array with this type of elements. -/
def kept (ws : List Write) (element : Char) (place : Nat × Int) : Value :=
  match lastStored? ws place with
  | some v => truncated element v
  | none => .zero element

variable {ws : List Write} {w : Write} {place : Nat × Int} {element : Char}

theorem lastStored?_append (ws : List Write) (w : Write) (place : Nat × Int) :
    lastStored? (ws ++ [w]) place =
      if w.place = place then some w.value else lastStored? ws place := by
  unfold lastStored?
  rw [List.filter_append]
  split
  · rename_i h
    rw [List.filter_cons_of_pos (by simpa using h)]
    simp
  · rename_i h
    rw [List.filter_cons_of_neg (by simpa using h)]
    simp

theorem lastStored?_eq_none (h : ∀ w ∈ ws, w.place ≠ place) : lastStored? ws place = none := by
  have hnothing : ws.filter (·.place = place) = [] :=
    List.filter_eq_nil_iff.mpr fun w hw => by simpa using h w hw
  rw [lastStored?, hnothing]
  rfl

theorem kept_append_self (ws : List Write) (w : Write) (element : Char) :
    kept (ws ++ [w]) element w.place = truncated element w.value := by
  rw [kept, lastStored?_append, if_pos rfl]

theorem kept_append_of_ne (h : w.place ≠ place) :
    kept (ws ++ [w]) element place = kept ws element place := by
  rw [kept, lastStored?_append, if_neg h, kept]

theorem kept_of_forall_ne (h : ∀ w ∈ ws, w.place ≠ place) :
    kept ws element place = .zero element := by
  rw [kept, lastStored?_eq_none h]

theorem within_kept {lo hi : Int} (h : elementBounds? element = some (lo, hi)) (ws : List Write)
    (place : Nat × Int) : (kept ws element place).Within lo hi := by
  unfold kept
  split
  · exact within_truncated h _
  · exact within_zero h

/-! ## Access to elements -/

namespace Heap

variable {h h' : Heap} {cs cs' : Classes} {r : Ref} {o : Object} {c : Class} {index : Int32}
  {v : Value} {i : Nat}

structure InBounds (h : Heap) (cs : Classes) (r : Ref) (index : Int32) (o : Object) (c : Class) :
    Prop where
  object : h.get? r = some o
  arrayClass : cs[o.classId]? = some c
  isArray : c.isArray = true
  nonneg : 0 ≤ index.toInt
  lt : index.toInt < o.elements.size

theorem arrayAt_eq_ok_iff :
    h.arrayAt cs r index = .ok (o, c, i) ↔ h.InBounds cs r index o c ∧ i = index.toInt.toNat := by
  have hneg : (index < 0) ↔ ¬ 0 ≤ index.toInt := by
    rw [Int32.lt_iff_toInt_lt, Int32.toInt_zero, Int.not_le]
  constructor
  · intro hok
    unfold arrayAt at hok
    split at hok
    · contradiction
    · rename_i o' ho
      split at hok
      · contradiction
      · rename_i c' hc
        split at hok
        · contradiction
        · rename_i harray
          split at hok
          · contradiction
          · rename_i hbounds
            cases hok
            simp only [Bool.or_eq_true, decide_eq_true_eq, hneg, not_or, Nat.not_le,
              not_not] at hbounds
            exact ⟨⟨ho, hc, by simpa using harray, hbounds.1, by omega⟩, rfl⟩
  · rintro ⟨⟨ho, hc, harray, hnonneg, hlt⟩, rfl⟩
    have hbounds :
        (decide (index < 0) || decide (o.elements.size ≤ index.toInt.toNat)) = false := by
      simp only [Bool.or_eq_false_iff, decide_eq_false_iff_not, hneg, not_not, Nat.not_le]
      omega
    rw [arrayAt, ho]
    dsimp only
    rw [hc]
    dsimp only
    rw [harray, hbounds]
    rfl

theorem bind_arrayAt_eq_ok_iff {α : Type} {g : Object × Class × Nat → Except (Fault ⊕ Defect) α}
    {a : α} : (h.arrayAt cs r index >>= g) = .ok a ↔
      ∃ o c, h.InBounds cs r index o c ∧ g (o, c, index.toInt.toNat) = .ok a := by
  constructor
  · intro hok
    cases harray : h.arrayAt cs r index with
    | error e =>
        rw [harray] at hok
        contradiction
    | ok found =>
        obtain ⟨o, c, i⟩ := found
        obtain ⟨hbounds, rfl⟩ := arrayAt_eq_ok_iff.mp harray
        rw [harray] at hok
        exact ⟨o, c, hbounds, hok⟩
  · rintro ⟨o, c, hbounds, hg⟩
    rw [arrayAt_eq_ok_iff.mpr ⟨hbounds, rfl⟩]
    exact hg

theorem store_eq_ok_iff :
    h.store cs r index v = .ok h' ↔ ∃ o c, h.InBounds cs r index o c ∧
      h' = h.modify r fun o => { o with
        elements := o.elements.setIfInBounds index.toInt.toNat (truncated (elementKind c) v) } := by
  rw [store, bind_arrayAt_eq_ok_iff]
  simp only [pure, Except.pure, Except.ok.injEq, narrowed_eq_truncated, eq_comm]

theorem load_eq_ok_iff :
    h.load cs r index = .ok v ↔ ∃ o c, h.InBounds cs r index o c ∧
      v = o.elements[index.toInt.toNat]?.getD .top := by
  rw [load, bind_arrayAt_eq_ok_iff]
  simp only [pure, Except.pure, Except.ok.injEq, eq_comm]

/-! ## Elements and what was stored -/

/-- Each element is what is kept of what was stored in its place. -/
structure Stored (h : Heap) (cs : Classes) (ws : List Write) : Prop where
  written : ∀ w ∈ ws, w.ref.address.toNat ≤ h.objects.size
  elements : ∀ {j : Nat} {o : Object}, h.objects[j]? = some o → ∀ i, i < o.elements.size →
    ∃ c, cs[o.classId]? = some c ∧ o.elements[i]? = some (kept ws (elementKind c) (j + 1, i))

namespace Stored

variable {ws : List Write}

theorem mono (hs : h.Stored cs ws) (hcs : Classes.Continues cs cs') : h.Stored cs' ws where
  written := hs.written
  elements ho i hi :=
    let ⟨c, hc, hv⟩ := hs.elements ho i hi
    ⟨c, hcs _ c hc, hv⟩

theorem alloc (hs : h.Stored cs ws) {o : Object} (ho : ∀ i, i < o.elements.size →
    ∃ c, cs[o.classId]? = some c ∧ o.elements[i]? = some (.zero (elementKind c))) :
    (h.alloc o).2.Stored cs ws where
  written w hw := by
    have hle := hs.written w hw
    simp only [Heap.alloc, Array.size_push]
    omega
  elements {j o'} ho' i hi := by
    rw [getElem?_alloc] at ho'
    split at ho'
    · rename_i hj
      cases ho'
      obtain ⟨c, hc, hv⟩ := ho i hi
      have hnew (w : Write) (hw : w ∈ ws) : w.place ≠ (j + 1, (i : Int)) := by
        have hle := hs.written w hw
        intro heq
        have haddress : w.ref.address.toNat = j + 1 := congrArg Prod.fst heq
        omega
      exact ⟨c, hc, by rw [hv, kept_of_forall_ne hnew]⟩
    · exact hs.elements ho' i hi

theorem newString (hs : h.Stored cs ws) (id : ClassId) (c : Class) (text : String) :
    (h.newString id c text).2.Stored cs ws :=
  hs.alloc fun _ hi => absurd hi (Nat.not_lt_zero _)

theorem allocArray (hs : h.Stored cs ws) {id : ClassId} (hc : cs[id]? = some c) {length : Int32}
    (hok : h.allocArray id c length = .ok (r, h')) : h'.Stored cs ws := by
  unfold Heap.allocArray at hok
  split at hok
  · contradiction
  · cases hok
    refine hs.alloc fun i hi => ⟨c, hc, ?_⟩
    rw [Array.size_replicate] at hi
    rw [Array.getElem?_replicate, if_pos hi]

theorem assign (hs : h.Stored cs ws) (r : Ref) (slot : Nat) (v : Value) :
    (h.modify r fun o => { o with fields := o.fields.setIfInBounds slot v }).Stored cs ws where
  written w hw := by
    rw [Heap.modify, Array.size_modify]
    exact hs.written w hw
  elements {j o} ho i hi := by
    rw [getElem?_modify] at ho
    split at ho
    · obtain ⟨o', ho', rfl⟩ := Option.map_eq_some_iff.mp ho
      exact hs.elements ho' i hi
    · exact hs.elements ho i hi

theorem store (hs : h.Stored cs ws) {w : Write}
    (hok : h.store cs w.ref w.index w.value = .ok h') : h'.Stored cs (ws ++ [w]) := by
  obtain ⟨o, c, hbounds, rfl⟩ := store_eq_ok_iff.mp hok
  obtain ⟨hne, hobject⟩ := get?_eq_some hbounds.object
  have hpos := toNat_address_pos hne
  have hlt := (Array.getElem?_eq_some_iff.mp hobject).1
  constructor
  · intro w' hw'
    rw [Heap.modify, Array.size_modify]
    rcases List.mem_append.mp hw' with hw' | hw'
    · exact hs.written w' hw'
    · rw [List.mem_singleton.mp hw']
      omega
  · intro j o' ho' i hi
    rw [getElem?_modify] at ho'
    split at ho'
    · rename_i hj
      rw [← hj, hobject] at ho'
      cases ho'
      have hsize : i < o.elements.size := by simpa using hi
      have haddress : w.ref.address.toNat = j + 1 := by omega
      obtain ⟨c', hc', hv⟩ := hs.elements hobject i hsize
      rw [Nat.sub_add_cancel hpos, haddress] at hv
      refine ⟨c', hc', ?_⟩
      rw [Array.getElem?_setIfInBounds]
      have hindex : (w.index.toInt.toNat : Int) = w.index.toInt :=
        Int.toNat_of_nonneg hbounds.nonneg
      split
      · rename_i hi'
        rw [hbounds.arrayClass] at hc'
        cases hc'
        have hplace : w.place = (j + 1, (i : Int)) := by
          rw [Write.place, haddress, ← hi', hindex]
        rw [hi', if_pos hsize, ← hplace, kept_append_self]
      · rename_i hi'
        have helsewhere : w.place ≠ (j + 1, (i : Int)) := by
          intro heq
          have hsame : w.index.toInt = i := congrArg Prod.snd heq
          omega
        rw [hv, kept_append_of_ne helsewhere]
    · rename_i hj
      obtain ⟨c', hc', hv⟩ := hs.elements ho' i hi
      have helsewhere : w.place ≠ (j + 1, (i : Int)) := by
        intro heq
        have haddress : w.ref.address.toNat = j + 1 := congrArg Prod.fst heq
        omega
      exact ⟨c', hc', by rw [hv, kept_append_of_ne helsewhere]⟩

theorem step (hs : h.Stored cs ws) {w? : Option Write} (hstep : h.Step cs w? h') :
    h'.Stored cs (ws ++ w?.toList) := by
  cases hstep with
  | still => simpa using hs
  | allocate id c text => simpa using hs.newString id c text
  | allocateArray hc hok => simpa using hs.allocArray hc hok
  | intern id c text =>
      obtain ⟨r, -, heq⟩ | ⟨r, h', hnew, heq⟩ := h.intern_cases id c text
      · simpa [heq] using hs
      · cases hnew
        rw [heq]
        simpa using ⟨(hs.newString id c text).written, (hs.newString id c text).elements⟩
  | store hok => exact hs.store hok
  | assign r slot v => simpa using hs.assign r slot v

end Stored

end Heap

/-! ## Histories of stores -/

/-- What was stored, in order, on the way to a machine: by what it did, and by its host. -/
inductive Vm.Stores (start : Vm) : List Write → Vm → Prop
  | start : start.Stores [] start
  | work {ws later : List Write} {vm : Vm} {α : Type} {x : Exec α} (before : start.Stores ws vm)
      (h : Exec.Stores x vm later) : start.Stores (ws ++ later) (Exec.after x vm)
  | store {ws : List Write} {vm vm' : Vm} {r : Ref} {index : Int32} {v : Value}
      (before : start.Stores ws vm) (hok : Exec.storeElement r index v vm = .ok () vm') :
      start.Stores (ws ++ [⟨r, index, v⟩]) vm'

theorem Vm.Trail.stored {a b : Vm} {ws later : List Write} (h : a.Trail later b)
    (ha : a.heap.Stored a.registry.classes ws) :
    b.heap.Stored b.registry.classes (ws ++ later) := by
  induction h with
  | refl => simpa using ha
  | quiet _ hdeed ih =>
      have hstep := ih.step hdeed.heap
      rw [Option.toList_none, List.append_nil] at hstep
      exact hstep.mono fun _ _ hc => (grows_of_deeds (.single hdeed.deed)).classes hc
  | store _ hstore ih =>
      rw [← List.append_assoc]
      exact ih.store hstore

namespace Vm.Stores

variable {start vm vm' : Vm} {ws : List Write}

theorem stored (h : start.Stores ws vm) (hstart : start.heap.Stored start.registry.classes []) :
    vm.heap.Stored vm.registry.classes ws := by
  induction h with
  | start => exact hstart
  | work _ hwork ih => exact hwork.trail.stored ih
  | store _ hok ih =>
      obtain ⟨heap, hstore, rfl⟩ := Exec.storeElement_eq_ok hok
      exact ih.store (w := ⟨_, _, _⟩) hstore

theorem keep {α : Type} {x : Exec α} (h : start.Stores ws vm) (hx : Exec.Stores x vm []) :
    start.Stores ws (Exec.after x vm) := by
  simpa using h.work hx

theorem acts (h : start.Stores ws vm) (hacts : vm.Acts vm') :
    ∃ later, start.Stores (ws ++ later) vm' := by
  induction hacts with
  | refl => exact ⟨[], by simpa using h⟩
  | @tail b c _ hact ih =>
      obtain ⟨ws', hb⟩ := ih
      obtain ⟨_, x, hx, rfl⟩ | ⟨r, index, v, rfl⟩ := hact.works
      · obtain ⟨later, -, hlater⟩ := hx.storing.stores b
        exact ⟨ws' ++ later, by simpa using hb.work hlater⟩
      · cases hcase : Exec.storeElement r index v b with
        | ok _ c =>
            rw [Exec.after_ok hcase]
            exact ⟨ws' ++ [⟨r, index, v⟩], by simpa using hb.store hcase⟩
        | error stop c =>
            rw [Exec.after_error hcase, Exec.storeElement_eq_error hcase]
            exact ⟨ws', hb⟩

end Vm.Stores

theorem Heap.Stored.loads {h : Heap} {cs : Classes} {ws : List Write} (hs : h.Stored cs ws)
    {r : Ref} {index : Int32} {v : Value} :
    h.load cs r index = .ok v ↔ ∃ o c, h.InBounds cs r index o c ∧
      v = kept ws (elementKind c) (r.address.toNat, index.toInt) := by
  have helement {o : Object} {c : Class} (hbounds : h.InBounds cs r index o c) :
      o.elements[index.toInt.toNat]?.getD .top =
        kept ws (elementKind c) (r.address.toNat, index.toInt) := by
    obtain ⟨hne, hobject⟩ := get?_eq_some hbounds.object
    have hindex := Int.toNat_of_nonneg hbounds.nonneg
    have hlt : index.toInt.toNat < o.elements.size := by
      have := hbounds.lt
      omega
    obtain ⟨c', hc', hv⟩ := hs.elements hobject _ hlt
    rw [hbounds.arrayClass] at hc'
    cases hc'
    rw [hv, Nat.sub_add_cancel (toNat_address_pos hne), hindex, Option.getD_some]
  rw [load_eq_ok_iff]
  constructor
  · rintro ⟨o, c, hbounds, rfl⟩
    exact ⟨o, c, hbounds, helement hbounds⟩
  · rintro ⟨o, c, hbounds, rfl⟩
    exact ⟨o, c, hbounds, (helement hbounds).symm⟩

theorem Heap.Stored.within {h : Heap} {cs : Classes} {ws : List Write} (hs : h.Stored cs ws)
    {j : Nat} {o : Object} (ho : h.objects[j]? = some o) {v : Value} (hv : v ∈ o.elements) :
    ∃ c, cs[o.classId]? = some c ∧ ∀ lo hi, elementBounds? (elementKind c) = some (lo, hi) →
      v.Within lo hi := by
  obtain ⟨i, hi, rfl⟩ := Array.mem_iff_getElem.mp hv
  obtain ⟨c, hc, hkept⟩ := hs.elements ho i hi
  rw [Array.getElem?_eq_getElem hi] at hkept
  refine ⟨c, hc, fun lo hi hbounds => ?_⟩
  rw [Option.some.inj hkept]
  exact within_kept hbounds ws _

theorem Exec.loadElement_eq_ok_iff {r : Ref} {index : Int32} {v : Value} {vm vm' : Vm} :
    loadElement r index vm = .ok v vm' ↔
      vm' = vm ∧ vm.heap.load vm.registry.classes r index = .ok v := by
  simp only [loadElement, bind_apply, get_apply]
  cases vm.heap.load vm.registry.classes r index with
  | error e => cases e <;> exact ⟨nofun, fun h => nomatch h.2⟩
  | ok v' => simp [ofChecked, eq_comm, and_comm]

theorem Vm.stored_start (source? : Option Search.Source) (maxFrames : Int)
    (profiler? : Option (Profiler MethodId)) :
    (start source? maxFrames profiler?).heap.Stored
      (start source? maxFrames profiler?).registry.classes
      [] where
  written w hw := absurd hw List.not_mem_nil
  elements h := by simp [start] at h

/-- What a machine with a history of stores adds to it, and what its elements are. -/
structure Vm.Accounting (start : Vm) (ws : List Write) (vm : Vm) : Prop where
  acts : ∀ vm', vm.Acts vm' → ∃ later, start.Stores (ws ++ later) vm'
  works : ∀ (α : Type) (x : Exec α), x.Works →
    ∃ later, x.Stores vm later ∧ start.Stores (ws ++ later) (Exec.after x vm)
  quietCall : ∀ call, (∀ fuel q, call ≠ .request fuel q) →
    (∀ r index v, call ≠ .storeElement r index v) →
    start.Stores ws (Exec.after (Exec.answer call) vm)
  hostStore : ∀ r index v vm', Exec.storeElement r index v vm = .ok () vm' →
    start.Stores (ws ++ [⟨r, index, v⟩]) vm'
  hostRefused : ∀ r index v stop vm', Exec.storeElement r index v vm = .error stop vm' → vm' = vm
  completed : ∀ prepare f below byte vm', vm.frames = f :: below →
    f.body.code[f.pc]? = some byte → storesElement byte = true →
    Exec.step prepare vm = .ok () vm' → ∃ v index r rest, f.stack = v :: index :: r :: rest ∧
      start.Stores (ws ++ [⟨r.asRef, index.asInt, v⟩]) vm'
  refused : ∀ prepare f below byte stop vm', vm.frames = f :: below →
    f.body.code[f.pc]? = some byte → storesElement byte = true →
    Exec.step prepare vm = .error stop vm' → start.Stores ws vm'
  other : ∀ prepare f below byte, vm.frames = f :: below → f.body.code[f.pc]? = some byte →
    storesElement byte = false → (∀ id a, (prepare id).Stores a []) →
    start.Stores ws (Exec.after (Exec.step prepare) vm)
  initializing : ∀ prepare p f below byte, vm.frames = f :: below →
    f.body.code[f.pc]? = some byte → storesElement byte = false →
    (∀ id, Exec.Storing p (prepare id)) → ∃ later, (∀ w ∈ later, p w) ∧
      start.Stores (ws ++ later) (Exec.after (Exec.step prepare) vm)
  narrow : ∀ (j : Nat) (o : Object), vm.heap.objects[j]? = some o → ∀ v ∈ o.elements, ∃ c,
    vm.registry.classes[o.classId]? = some c ∧
    ∀ lo hi, elementBounds? (Heap.elementKind c) = some (lo, hi) → v.Within lo hi
  loads : ∀ r index v vm', Exec.loadElement r index vm = .ok v vm' ↔ vm' = vm ∧ ∃ o c,
    vm.heap.InBounds vm.registry.classes r index o c ∧
    v = kept ws (Heap.elementKind c) (r.address.toNat, index.toInt)

/-- Whatever moves a machine on adds to its history what it stores: a call of the host that stores
an element and an instruction that does so and completes add just that, and every other instruction
adds what the initializations store that it starts.  The elements of narrow types are within their
bounds, and an element that is loaded is what is kept of what was stored last. -/
theorem elements_follow_stores (source? : Option Search.Source) (maxFrames : Int)
    (profiler? : Option (Profiler MethodId)) {ws : List Write} {vm : Vm}
    (h : (Vm.start source? maxFrames profiler?).Stores ws vm) :
    (Vm.start source? maxFrames profiler?).Accounting ws vm := by
  have hstored := h.stored (Vm.stored_start source? maxFrames profiler?)
  constructor
  case acts => exact fun vm' hacts => h.acts hacts
  case works =>
    intro α x hx
    obtain ⟨later, -, hlater⟩ := hx.storing.stores vm
    exact ⟨later, hlater, h.work hlater⟩
  case quietCall =>
    intro call hrequest hstore
    have hquiet : Exec.Quiet (Exec.answer call) := by
      cases call with
      | request fuel q => exact absurd rfl (hrequest fuel q)
      | storeElement r index v => exact absurd rfl (hstore r index v)
      | _ => unfold Exec.answer; infer_instance
    exact h.keep (.quiet hquiet vm)
  case hostStore => exact fun r index v vm' hok => h.store hok
  case hostRefused => exact fun r index v stop vm' herror => Exec.storeElement_eq_error herror
  case completed =>
    intro prepare f below byte vm' hframes hbyte hstores hok
    obtain ⟨v, index, r, rest, hstack, -⟩ := Exec.exists_of_completed hframes hbyte hstores hok
    have hstep := h.work (.completed hframes hbyte hstores hstack hok)
    rw [Exec.after_ok hok] at hstep
    exact ⟨v, index, r, rest, hstack, hstep⟩
  case refused =>
    intro prepare f below byte stop vm' hframes hbyte hstores herror
    have hstep := h.keep (.refused hframes hbyte hstores herror)
    rwa [Exec.after_error herror] at hstep
  case other =>
    intro prepare f below byte hframes hbyte hstores hprepare
    have hnothing (id : ClassId) : Exec.Storing (fun _ => False) (prepare id) :=
      ⟨fun a => ⟨[], fun _ hw => absurd hw List.not_mem_nil, hprepare id a⟩⟩
    obtain ⟨later, hlater, hstep⟩ := Exec.exists_stores_of_other (p := fun _ => False)
      prepare hframes hbyte hstores
    obtain rfl := List.eq_nil_iff_forall_not_mem.mpr hlater
    exact h.keep hstep
  case initializing =>
    intro prepare p f below byte hframes hbyte hstores hprepare
    obtain ⟨later, hlater, hstep⟩ :=
      Exec.exists_stores_of_other (p := p) prepare hframes hbyte hstores
    exact ⟨later, hlater, h.work hstep⟩
  case narrow => exact fun j o ho v hv => hstored.within ho hv
  case loads =>
    intro r index v vm'
    rw [Exec.loadElement_eq_ok_iff, hstored.loads]

namespace StoredBytes

def files : Search.Memory := ⟨[(ClassFile.rootClassName, .ok PlainRoot.file)]⟩

def start : Vm := Vm.start (some files.source) 0 none

def bytes : Class := linkArray #[PlainRoot.root] "[B" 0 ⟨'B', none⟩

def withBytes : Registry := (PlainRoot.registry.add bytes .initialized #[]).2

def filled : Vm :=
  { start with
    registry := withBytes
    heap := { objects := #[{ classId := 1, elements := #[.int 0] }] } }

theorem load_bytes : load start.source [] "[B" {} = (.ok 1, withBytes) := by
  have hgather : gather (load start.source ["[B"]) "[B" [⟨.part, ClassFile.rootClassName⟩] {} =
      (.ok [0], PlainRoot.registry) :=
    Registry.gather_cons (PlainRoot.load_root rfl (by decide)) (by decide) rfl
  exact Registry.load_of_gathered PlainRoot.registry bytes (by with_unfolding_all decide)
    (by decide) (by decide) (by decide) hgather (by decide)

theorem stores_filled : start.Stores [] filled := by
  have hload : start.Stores [] { start with registry := withBytes } := by
    have hquiet : Exec.Quiet (Exec.loadClass "[B") := inferInstance
    have hkeep := Vm.Stores.start.keep (.quiet hquiet start)
    rwa [Exec.after_loadClass, show start.registry = {} from rfl, load_bytes] at hkeep
  have hquiet : Exec.Quiet (Exec.allocArray 1 1) := inferInstance
  exact hload.keep (.quiet hquiet _)

theorem elements_follow_stores_byte :
    ∃ vm', Exec.storeElement ⟨1⟩ 0 (.int 300) filled = .ok () vm' ∧
      Exec.loadElement ⟨1⟩ 0 vm' = .ok (.int 44) vm' := by
  have hstore : Exec.storeElement ⟨1⟩ 0 (.int 300) filled = .ok () { filled with
      heap := { objects := #[{ classId := 1, elements := #[.int 44] }] } } := rfl
  have hstores := (elements_follow_stores _ _ _ stores_filled).hostStore _ _ _ _ hstore
  have hload := (elements_follow_stores _ _ _ hstores).loads ⟨1⟩ 0 (.int 44)
  exact ⟨_, hstore, (hload _).mpr ⟨rfl, _, bytes, ⟨rfl, rfl, rfl, by decide, by decide⟩, by decide⟩⟩

end StoredBytes

end ClassEngine.Machine
