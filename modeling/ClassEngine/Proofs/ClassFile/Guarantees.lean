import ClassEngine.Proofs.ClassFile.Prefixes
import ClassEngine.Proofs.ClassFile.Writing

/-!
# What a file that is read guarantees

Not every pool, member or code can come from a file: the empty slots of the pool are those that
must be empty, all descriptors can be read, and what code there is is legal.
-/

namespace ClassEngine.ClassFile

open ClassFile.Parser

/-! ## Slots -/

/-- Whether the slot before this one is taken by a wide constant. -/
def Overlapped (slots : Array (Option Constant)) (i : Nat) : Prop :=
  ∃ c, 0 < i ∧ slots[i - 1]? = some (some c) ∧ c.isWide = true

/-- Slot zero and the slots after wide constants are empty, the others are not, and no wide
constant is in the last one. -/
structure Settled (slots : Array (Option Constant)) : Prop where
  nonempty : 0 < slots.size
  empty_iff : ∀ i < slots.size, slots[i]? = some none ↔ i = 0 ∨ Overlapped slots i
  closed : ¬ Overlapped slots slots.size

theorem overlapped_push_of_lt {slots : Array (Option Constant)} {slot : Option Constant} {i : Nat}
    (h : i ≤ slots.size) : Overlapped (slots.push slot) i ↔ Overlapped slots i := by
  refine exists_congr fun c => and_congr_right fun hpos => ?_
  have hne : ¬ i - 1 = slots.size := by omega
  rw [Array.getElem?_push, if_neg hne]

theorem overlapped_push_size {slots : Array (Option Constant)} {slot : Option Constant} :
    Overlapped (slots.push slot) (slots.push slot).size ↔ ∃ c, slot = some c ∧ c.isWide = true := by
  rw [Overlapped, Array.size_push, Nat.add_sub_cancel, Array.getElem?_push, if_pos rfl]
  simp

theorem settled_first : Settled #[none] where
  nonempty := Nat.one_pos
  empty_iff i hi := by
    obtain rfl := Nat.lt_one_iff.mp hi
    exact ⟨fun _ => .inl rfl, fun _ => rfl⟩
  closed := by
    rintro ⟨c, _, hnone, _⟩
    cases hnone

namespace Settled

variable {slots : Array (Option Constant)} {c : Constant}

theorem empty_iff_push (h : Settled slots) (slot : Option Constant) {i : Nat}
    (hi : i < slots.size) :
    (slots.push slot)[i]? = some none ↔ i = 0 ∨ Overlapped (slots.push slot) i := by
  rw [Array.getElem?_push, if_neg (Nat.ne_of_lt hi), overlapped_push_of_lt (Nat.le_of_lt hi)]
  exact h.empty_iff i hi

theorem empty_iff_last (h : Settled slots) (c : Constant) :
    (slots.push (some c))[slots.size]? = some none ↔
      slots.size = 0 ∨ Overlapped (slots.push (some c)) slots.size := by
  rw [Array.getElem?_push, if_pos rfl, overlapped_push_of_lt (Nat.le_refl _)]
  refine ⟨nofun, ?_⟩
  rintro (hzero | hlast)
  · exact absurd hzero (Nat.ne_of_gt h.nonempty)
  · exact absurd hlast h.closed

theorem push_narrow (h : Settled slots) (hc : c.isWide = false) :
    Settled (slots.push (some c)) where
  nonempty := by
    rw [Array.size_push]
    exact Nat.succ_pos _
  empty_iff i hi := by
    rw [Array.size_push] at hi
    rcases Nat.lt_succ_iff_lt_or_eq.mp hi with hbefore | rfl
    · exact h.empty_iff_push (some c) hbefore
    · exact h.empty_iff_last c
  closed := by
    rw [overlapped_push_size]
    rintro ⟨c', hc', hwide⟩
    cases hc'
    rw [hc] at hwide
    cases hwide

theorem push_wide (h : Settled slots) (hc : c.isWide = true) :
    Settled ((slots.push (some c)).push none) where
  nonempty := by
    rw [Array.size_push]
    exact Nat.succ_pos _
  empty_iff i hi := by
    rw [Array.size_push] at hi
    rcases Nat.lt_succ_iff_lt_or_eq.mp hi with hbefore | rfl
    · rw [Array.getElem?_push, if_neg (Nat.ne_of_lt hbefore),
        overlapped_push_of_lt (Nat.le_of_lt hbefore)]
      rw [Array.size_push] at hbefore
      rcases Nat.lt_succ_iff_lt_or_eq.mp hbefore with hbefore | rfl
      · exact h.empty_iff_push (some c) hbefore
      · exact h.empty_iff_last c
    · rw [Array.getElem?_push, if_pos rfl, overlapped_push_of_lt (Nat.le_refl _),
        overlapped_push_size]
      exact ⟨fun _ => .inr ⟨c, rfl, hc⟩, fun _ => rfl⟩
  closed := by
    rw [overlapped_push_size]
    rintro ⟨c', hc', _⟩
    cases hc'

end Settled

theorem takes_poolSlots {slots : Array (Option Constant)} (h : Settled slots) (count : Nat) :
    Takes (poolSlots slots count) fun _ slots' =>
      Settled slots' ∧ slots'.size = slots.size + count := by
  have hconstant (slots : Array (Option Constant)) (tag : UInt8) :
      Takes (within (.constant slots.size) (constant tag)) fun _ _ => True :=
    Definite.takes.mono fun _ _ _ => trivial
  induction slots, count using poolSlots.induct with
  | case1 slots => exact takes_pure ⟨h, rfl⟩
  | case2 slots =>
      refine takes_u1.bind fun _ tag _ => (hconstant slots tag).bind fun _ c _ =>
        Takes.ite (fun _ => takes_fail _) fun hnarrow => takes_pure ⟨?_, Array.size_push ..⟩
      exact h.push_narrow (Bool.eq_false_of_not_eq_true hnarrow)
  | case3 slots left hwide hnarrow =>
      refine takes_u1.bind fun _ tag _ => (hconstant slots tag).bind fun _ c _ =>
        Takes.ite (fun hc => ?_) fun hc => ?_
      · refine (hwide c (h.push_wide hc)).mono fun _ slots' ⟨hsettled, hsize⟩ => ⟨hsettled, ?_⟩
        rw [hsize, Array.size_push, Array.size_push]
        omega
      · refine (hnarrow c (h.push_narrow (Bool.eq_false_of_not_eq_true hc))).mono
          fun _ slots' ⟨hsettled, hsize⟩ => ⟨hsettled, ?_⟩
        rw [hsize, Array.size_push]
        omega

/-- The slots are settled, and there are no more than a count can tell. -/
structure Pool.Sound (p : Pool) : Prop where
  settled : Settled p.slots
  short : p.size < 65536

theorem takes_pool : Takes Parser.pool fun _ p => p.Sound := by
  refine takes_u2.bind fun _ count _ => Takes.ite (fun _ => ⟨nofun⟩) fun hcount => ?_
  refine (takes_poolSlots settled_first (count.toNat - 1)).bind
    fun _ slots ⟨hsettled, hsize⟩ => takes_pure ⟨hsettled, ?_⟩
  have hlt := count.toNat_lt
  have hpos : count.toNat ≠ 0 := fun hzero => hcount (UInt16.toNat_inj.mp hzero)
  have hone : (#[none] : Array (Option Constant)).size = 1 := rfl
  show slots.size < 65536
  omega

/-- The indices that can be used are those in range that are not of empty slots. -/
theorem Pool.Sound.get_iff {p : Pool} (h : p.Sound) (i : UInt16) :
    (∃ c, p.get i = .ok c) ↔ i.toNat < p.size ∧ i ≠ 0 ∧ ¬ Overlapped p.slots i.toNat := by
  have hget : (∃ c, p.get i = .ok c) ↔ i ≠ 0 ∧ ∃ c, p.slots[i.toNat]? = some (some c) := by
    rw [Pool.get, Pool.get?]
    by_cases hzero : i = 0
    · rw [if_pos hzero]
      simp [hzero]
    · rw [if_neg hzero]
      cases hslot : p.slots[i.toNat]? with
      | none => simp
      | some slot => cases slot <;> simp [hzero]
  rw [hget]
  constructor
  · rintro ⟨hne, c, hc⟩
    have hlt : i.toNat < p.size := (Array.getElem?_eq_some_iff.mp hc).1
    refine ⟨hlt, hne, fun hoverlapped => ?_⟩
    have hempty := (h.settled.empty_iff _ hlt).mpr (.inr hoverlapped)
    rw [hc] at hempty
    cases hempty
  · rintro ⟨hlt, hne, hfree⟩
    refine ⟨hne, ?_⟩
    cases hslot : p.slots[i.toNat]? with
    | none => exact absurd hlt (Nat.not_lt.mpr (Array.getElem?_eq_none_iff.mp hslot))
    | some slot =>
        cases slot with
        | some c => exact ⟨c, rfl⟩
        | none =>
            rcases (h.settled.empty_iff _ hlt).mp hslot with hzero | hoverlapped
            · exact absurd (UInt16.toNat_inj.mp hzero) hne
            · exact absurd hoverlapped hfree

/-! ## Members -/

variable {p : Pool}

theorem descriptor_fieldAttribute {name : String} {bs : List UInt8} {f f' : Field}
    (h : fieldAttribute name bs f = .ok f') : f'.descriptor = f.descriptor := by
  unfold fieldAttribute at h
  split at h
  · split at h
    · cases h
      rfl
    · cases h
  · cases h
    rfl

theorem takes_field (index : Nat) :
    Takes (field p index) fun _ f => ∃ t, FieldType.parse f.descriptor = .ok t := by
  refine Definite.takes.bind fun _ ⟨flags, name, descriptor⟩ _ => Takes.within ?_
  refine (takes_lift_mapError fun t ht => ht).bind
    (Q := fun _ t => FieldType.parse descriptor = .ok t) fun _ t ht => ?_
  refine takes_attributes_invariant (fun h ⟨t, ht⟩ => ?_) ⟨t, ht⟩
  exact ⟨t, by rw [descriptor_fieldAttribute h, ht]⟩

theorem takes_handler (length index : Nat) :
    Takes (handler length index) fun _ h => h.bounds.Within length := by
  refine takes_u2.bind fun _ start _ => takes_u2.bind fun _ stop _ => takes_u2.bind
    fun _ target _ => takes_u2.bind fun _ catchType _ => Takes.ite (fun _ => ⟨nofun⟩)
      fun hcheck => takes_pure ?_
  simp only [Bool.or_eq_true, decide_eq_true_eq, UInt16.le_iff_toNat_le] at hcheck
  simp only [Bounds.Within, Handler.bounds]
  omega

theorem takes_body : Takes (body p) fun _ b => b.Legal := by
  refine takes_u2.bind fun _ maxStack _ => takes_u2.bind fun _ maxLocals _ => takes_u4.bind
    fun _ length _ => Takes.ite (fun _ => ⟨nofun⟩) fun hlength => ?_
  refine (takes_bytes length.toNat).bind fun _ code hcode =>
    (takes_table_forall (takes_handler length.toNat)).bind fun _ handlers hhandlers =>
      Definite.takes.bind fun _ lines _ => takes_pure ?_
  have hsize : code.toArray.size = length.toNat := hcode.2
  have hne : length.toNat ≠ 0 := by
    intro hzero
    rw [UInt32.toNat_inj.mp (hzero.trans UInt32.toNat_zero.symm)] at hlength
    exact hlength rfl
  have hshort : length.toNat < 65536 := by
    simp only [Bool.or_eq_true, decide_eq_true_eq, UInt32.le_iff_toNat_le, not_or] at hlength
    exact Nat.lt_of_not_le hlength.2
  refine ⟨?_, ?_, hsize.symm ▸ hhandlers⟩
  · show 0 < code.toArray.size
    omega
  · show code.toArray.size < 65536
    omega

theorem methodAttribute_legal {name : String} {bs : List UInt8} {m m' : Method}
    (h : methodAttribute p name bs m = .ok m') (hm : ∀ b, m.body? = some b → b.Legal) :
    m'.descriptor = m.descriptor ∧ ∀ b, m'.body? = some b → b.Legal := by
  rw [methodAttribute] at h
  split at h
  · obtain ⟨b, hb, h⟩ := ok_of_bind h
    cases h
    refine ⟨rfl, fun b' hb' => ?_⟩
    cases hb'
    exact takes_body.of_runOn hb
  · split at h
    · obtain ⟨throws, _, h⟩ := ok_of_bind h
      cases h
      exact ⟨rfl, hm⟩
    · cases h
      exact ⟨rfl, hm⟩

theorem takes_method (index : Nat) : Takes (method p index) fun _ m =>
    (∃ d, MethodDescriptor.parse m.descriptor = .ok d) ∧ m.Legal := by
  refine Definite.takes.bind fun _ ⟨flags, name, descriptor⟩ _ => ?_
  refine (Takes.within (takes_lift_mapError fun d hd => hd)).bind
    (Q := fun _ d => MethodDescriptor.parse descriptor = .ok d) fun _ d hd => ?_
  refine (takes_attributes_invariant (P := fun m => m.descriptor = descriptor ∧
    ∀ b, m.body? = some b → b.Legal) ?_ ⟨rfl, nofun⟩).within.bind
      fun _ m ⟨hdescriptor, hbody⟩ => Takes.ite (fun _ => ⟨nofun⟩) fun hcheck => takes_pure ?_
  · intro _ _ m m' h ⟨hdescriptor, hbody⟩
    have hlegal := methodAttribute_legal h hbody
    exact ⟨hlegal.1.trans hdescriptor, hlegal.2⟩
  · refine ⟨⟨d, hdescriptor ▸ hd⟩, ?_⟩
    rw [Method.Legal]
    cases hb : m.body? with
    | none =>
        rw [hb] at hcheck
        simpa [or_iff_not_imp_left] using hcheck
    | some b => exact hbody b hb

/-! ## Whole files -/

structure Reliable (c : ClassFile) : Prop where
  pool : c.pool.Sound
  fields : ∀ f ∈ c.fields, ∃ t, FieldType.parse f.descriptor = .ok t
  descriptors : ∀ m ∈ c.methods, ∃ d, MethodDescriptor.parse m.descriptor = .ok d
  legal : ∀ m ∈ c.methods, m.Legal

theorem takes_classFile : Takes classFile fun _ c => c.Reliable := by
  refine Definite.takes.bind fun _ word _ => Takes.ite (fun _ => ⟨nofun⟩) fun _ => ?_
  refine Definite.takes.bind fun _ minor _ => Definite.takes.bind fun _ major _ =>
    Takes.ite (fun _ => ⟨nofun⟩) fun _ => takes_pool.bind fun _ pool hpool => ?_
  refine Definite.takes.bind fun _ flags _ => Definite.takes.bind fun _ index _ =>
    Definite.takes.bind fun _ name _ => Definite.takes.bind fun _ super _ =>
      Definite.takes.bind fun _ interfaces _ => ?_
  refine (takes_table_forall takes_field).bind fun _ fields hfields =>
    (takes_table_forall takes_method).bind fun _ methods hmethods =>
      Definite.takes.bind fun _ sourceFile _ => takes_pure ?_
  exact ⟨hpool, hfields, fun m hm => (hmethods m hm).1, fun m hm => (hmethods m hm).2⟩

/-- Every file that is read can be relied on, and its pool has a constant for each index in range
but that of slot zero and those of the slots after wide constants. -/
theorem parse_reliable {bs : List UInt8} {c : ClassFile} (h : parse bs = .ok c) :
    c.Reliable ∧ ∀ i, (∃ k, c.pool.get i = .ok k) ↔
      i.toNat < c.pool.size ∧ i ≠ 0 ∧ ¬ Overlapped c.pool.slots i.toNat := by
  have hreliable : c.Reliable := takes_classFile.of_runOn h
  exact ⟨hreliable, hreliable.pool.get_iff⟩

/-! ## A wide constant, a field and two methods -/

namespace LongCounter

def bytes : List UInt8 := [
  0xca, 0xfe, 0xba, 0xbe, 0x00, 0x00, 0x00, 0x34, 0x00, 0x0b, 0x01, 0x00, 0x10, 0x6a, 0x61, 0x76,
  0x61, 0x2f, 0x6c, 0x61, 0x6e, 0x67, 0x2f, 0x4f, 0x62, 0x6a, 0x65, 0x63, 0x74, 0x07, 0x00, 0x01,
  0x01, 0x00, 0x01, 0x6e, 0x01, 0x00, 0x01, 0x4a, 0x05, 0x00, 0x00, 0x00, 0x00, 0x00, 0x00, 0x00,
  0x07, 0x01, 0x00, 0x04, 0x43, 0x6f, 0x64, 0x65, 0x01, 0x00, 0x03, 0x67, 0x65, 0x74, 0x01, 0x00,
  0x03, 0x28, 0x29, 0x4a, 0x01, 0x00, 0x04, 0x70, 0x65, 0x65, 0x6b, 0x00, 0x21, 0x00, 0x02, 0x00,
  0x00, 0x00, 0x00, 0x00, 0x01, 0x00, 0x08, 0x00, 0x03, 0x00, 0x04, 0x00, 0x00, 0x00, 0x02, 0x01,
  0x09, 0x00, 0x08, 0x00, 0x09, 0x00, 0x00, 0x00, 0x09, 0x00, 0x0a, 0x00, 0x09, 0x00, 0x01, 0x00,
  0x07, 0x00, 0x00, 0x00, 0x18, 0x00, 0x02, 0x00, 0x00, 0x00, 0x00, 0x00, 0x04, 0x14, 0x00, 0x05,
  0xad, 0x00, 0x01, 0x00, 0x00, 0x00, 0x03, 0x00, 0x03, 0x00, 0x00, 0x00, 0x00, 0x00, 0x00]

def file : ClassFile where
  version := ⟨52, 0⟩
  pool := ⟨#[none, some (.utf8 rootClassName), some (.classRef 1), some (.utf8 "n"),
    some (.utf8 "J"), some (.long 7), none, some (.utf8 "Code"), some (.utf8 "get"),
    some (.utf8 "()J"), some (.utf8 "peek")]⟩
  flags := 0x0021
  name := rootClassName
  superName := ""
  interfaces := []
  fields := [⟨0x0008, "n", "J", 0⟩]
  methods := [⟨0x0109, "get", "()J", none, []⟩,
    ⟨0x0009, "peek", "()J", some ⟨2, 0, #[0x14, 0x00, 0x05, 0xad], [⟨0, 3, 3, 0⟩], []⟩, []⟩]
  sourceFile := ""

/-- The long is in slot five, and slot six is empty. -/
theorem parse_reliable_bytes :
    parse bytes = .ok file ∧ file.Reliable ∧ (∃ k, file.pool.get 5 = .ok k) ∧
      ¬ ∃ k, file.pool.get 6 = .ok k := by
  have hparse : parse bytes = .ok file := by decide +kernel
  obtain ⟨hreliable, hget⟩ := parse_reliable hparse
  refine ⟨hparse, hreliable, (hget 5).mpr ⟨by decide, by decide, ?_⟩, fun h => ?_⟩
  · rintro ⟨c, _, hc, hwide⟩
    cases hc
    cases hwide
  · exact ((hget 6).mp h).2.2 ⟨.long 7, by decide, rfl, rfl⟩

end LongCounter

end ClassEngine.ClassFile
